import GBMU.Proof.InterruptTraffic
import GBMU.Proof.JoypadInterrupts

/-!
# From a pressed key to a served interrupt

A joypad, its controller, other devices that request interrupts and a CPU that
serves them, in any interleaving of turns. To the controller the joypad is one
more device, whose requests are the steps that see an edge: the controller's
state is that of a schedule read off the turns (`Serving`), so what is known of
schedules is known of the whole system. No press that a step saw is lost, it is
served soon, and `JOYPAD_INT` is not served without one.
-/

namespace GBMU.JoyPad

open PriorityServer InterruptController

/-- A call on the joypad, or an event of the controller's schedule. -/
inductive Turn where
  | pressKey (keyIdx : KeyIdx)
  | unpressKey (keyIdx : KeyIdx)
  | setP1Reg (value : Byte)
  | step
  | schedule (e : Event Line)

def System.turn (s : System) : Turn → Option System
  | .pressKey keyIdx => s.step (.pressKey keyIdx)
  | .unpressKey keyIdx => s.step (.unpressKey keyIdx)
  | .setP1Reg value => s.step (.setP1Reg value)
  | .step => s.step .step
  | .schedule e => some { s with controller := s.controller.serve e }

/-! ## The schedule the controller sees -/

def Turn.op : Turn → Option Op
  | .pressKey keyIdx => some (.pressKey keyIdx)
  | .unpressKey keyIdx => some (.unpressKey keyIdx)
  | .setP1Reg value => some (.setP1Reg value)
  | .step => some .step
  | .schedule _ => none

/-- The calls on the joypad. -/
def keyOps (turns : List Turn) : List Op := turns.filterMap Turn.op

/-- What a turn, after the turns before it, is to the controller. -/
def Turn.events (before : List Turn) : Turn → List (Event Line)
  | .step =>
      if KeyEdge (keyOps before) then (InterruptIdx.joypadInt.line.map .request).toList else []
  | .schedule e => [e]
  | _ => []

def scheduleFrom : List Turn → List Turn → List (Event Line)
  | _, [] => []
  | before, t :: turns => t.events before ++ scheduleFrom (before ++ [t]) turns

theorem scheduleFrom_append (before turns more : List Turn) :
    scheduleFrom before (turns ++ more)
      = scheduleFrom before turns ++ scheduleFrom (before ++ turns) more := by
  induction turns generalizing before with
  | nil => rw [List.append_nil]; rfl
  | cons t turns ih =>
      rw [List.cons_append, scheduleFrom, ih, scheduleFrom, List.append_assoc, List.append_assoc]
      rfl

/-- The controller after some turns. -/
def controllerAfter (ic : InterruptController) (turns : List Turn) : InterruptController :=
  (scheduleFrom [] turns).foldl serve ic

theorem controllerAfter_append (ic : InterruptController) (turns more : List Turn) :
    controllerAfter ic (turns ++ more)
      = (scheduleFrom turns more).foldl serve (controllerAfter ic turns) := by
  rw [controllerAfter, scheduleFrom_append, List.foldl_append]
  rfl

theorem controllerAfter_snoc (ic : InterruptController) (turns : List Turn) (t : Turn) :
    controllerAfter ic (turns ++ [t])
      = (t.events turns).foldl serve (controllerAfter ic turns) := by
  rw [controllerAfter_append, scheduleFrom, scheduleFrom, List.append_nil]

/-- The system is what the turns made of it. -/
structure Serving (ic : InterruptController) (s : System) (turns : List Turn) : Prop where
  joypad : Tracks s.joypad (keyOps turns)
  controller : s.controller = controllerAfter ic turns

theorem keyOps_snoc (turns : List Turn) (t : Turn) :
    keyOps (turns ++ [t]) = keyOps turns ++ t.op.toList := by
  rw [keyOps, List.filterMap_append]
  cases t <;> rfl

/-- **One more turn.** -/
theorem serving_turn {ic : InterruptController} {s : System} {turns : List Turn} (t : Turn)
    (h : Serving ic s turns) : ∃ s', s.turn t = some s' ∧ Serving ic s' (turns ++ [t]) := by
  have hcalls : ∀ op, t.op = some op → s.turn t = s.step op → (∀ s', s.step op = some s' →
      s'.controller = (t.events turns).foldl serve s.controller) →
      ∃ s', s.turn t = some s' ∧ Serving ic s' (turns ++ [t]) := by
    intro op hop hturn hcontroller
    rcases tracks_step op h.joypad with ⟨s', hs', htracks⟩
    refine ⟨s', hturn.trans hs', ?_, ?_⟩
    · rw [keyOps_snoc, hop]
      exact htracks
    · rw [hcontroller s' hs', controllerAfter_snoc, h.controller]
  cases t with
  | pressKey k => exact hcalls _ rfl rfl (fun s' hs' => by cases hs'; rfl)
  | unpressKey k => exact hcalls _ rfl rfl (fun s' hs' => by cases hs'; rfl)
  | setP1Reg value => exact hcalls _ rfl rfl (fun s' hs' => by cases hs'; rfl)
  | step =>
      refine hcalls _ rfl rfl ?_
      intro s' hs'
      rw [h.joypad.step_eq] at hs'
      cases hs'
      show (if KeyEdge (keyOps turns) then _ else _)
        = (if KeyEdge (keyOps turns) then [Event.request 4] else []).foldl serve s.controller
      by_cases hedge : KeyEdge (keyOps turns)
      · rw [if_pos hedge, if_pos hedge]
        rfl
      · rw [if_neg hedge, if_neg hedge]
        rfl
  | schedule e =>
      refine ⟨_, rfl, ?_, ?_⟩
      · rw [keyOps_snoc]
        exact (List.append_nil (keyOps turns)).symm ▸ h.joypad
      · rw [controllerAfter_snoc, ← h.controller]
        rfl

theorem run_serving (ic : InterruptController) (turns : List Turn) :
    ∃ s, Machine.run System.turn { joypad := construct .controller, controller := ic } turns
        = some s ∧ Serving ic s turns :=
  History.run_history (P := Serving ic) (fun _ _ t h => serving_turn t h)
    ⟨tracks_construct, rfl⟩ turns

/-! ## A line, turn by turn -/

/-- What a service after these turns handles. -/
def served (ic : InterruptController) (turns : List Turn) : Option Line :=
  (controllerAfter ic turns).handled .service

/-- The turn requests the line `i`. -/
def Asks (i : Line) (before : List Turn) (t : Turn) : Prop :=
  Event.request i ∈ t.events before

def PendingAfter (ic : InterruptController) (turns : List Turn) (i : Line) : Prop :=
  i ∈ lines (controllerAfter ic turns).registers.IF

theorem served_eq (ic : InterruptController) (turns : List Turn) :
    served ic turns
      = next (lines ic.registers.IE) (lines (controllerAfter ic turns).registers.IF) := by
  have hIE : (controllerAfter ic turns).registers.IE = ic.registers.IE :=
    (foldl_serve_registers ic (scheduleFrom [] turns)).1
  rw [← hIE]
  exact getHighestPriorityInterrupt_line _

theorem pendingAfter_service (ic : InterruptController) (turns : List Turn) (i : Line) :
    PendingAfter ic (turns ++ [.schedule .service]) i
      ↔ PendingAfter ic turns i ∧ served ic turns ≠ some i := by
  have hIE : (controllerAfter ic turns).registers.IE = ic.registers.IE :=
    (foldl_serve_registers ic (scheduleFrom [] turns)).1
  have hlines := serve_lines (controllerAfter ic turns) .service
  unfold PendingAfter
  rw [controllerAfter_snoc, served_eq]
  show i ∈ lines ((controllerAfter ic turns).serve .service).registers.IF ↔ _
  rw [hlines, hIE]
  cases hn : next (lines ic.registers.IE) (lines (controllerAfter ic turns).registers.IF) with
  | none =>
      rw [step_service_none hn]
      simp
  | some j =>
      rw [step_service_some hn, Finset.mem_erase]
      constructor
      · intro h
        exact ⟨h.2, fun heq => h.1 (Option.some.inj heq).symm⟩
      · intro h
        exact ⟨fun heq => h.2 (congrArg some heq.symm), h.1⟩

theorem pendingAfter_request (ic : InterruptController) (turns : List Turn) (t : Turn) {j : Line}
    (ht : t.events turns = [.request j]) (i : Line) :
    PendingAfter ic (turns ++ [t]) i ↔ i = j ∨ PendingAfter ic turns i := by
  unfold PendingAfter
  rw [controllerAfter_snoc, ht]
  show i ∈ lines ((controllerAfter ic turns).serve (.request j)).registers.IF ↔ _
  rw [serve_lines]
  exact Finset.mem_insert

theorem pendingAfter_idle (ic : InterruptController) (turns : List Turn) (t : Turn)
    (ht : t.events turns = []) (i : Line) :
    PendingAfter ic (turns ++ [t]) i ↔ PendingAfter ic turns i := by
  unfold PendingAfter
  rw [controllerAfter_snoc, ht]
  rfl

/-- A turn is a service, or a request, or nothing. -/
theorem Turn.events_cases (before : List Turn) (t : Turn) :
    t = .schedule .service ∨ (∃ j, t.events before = [.request j]) ∨ t.events before = [] := by
  cases t with
  | pressKey k => exact Or.inr (Or.inr rfl)
  | unpressKey k => exact Or.inr (Or.inr rfl)
  | setP1Reg value => exact Or.inr (Or.inr rfl)
  | step =>
      by_cases hedge : KeyEdge (keyOps before)
      · exact Or.inr (Or.inl ⟨4, if_pos hedge⟩)
      · exact Or.inr (Or.inr (if_neg hedge))
  | schedule e =>
      cases e with
      | request j => exact Or.inr (Or.inl ⟨j, rfl⟩)
      | service => exact Or.inl rfl

/-- A line that is no longer pending was served. -/
theorem served_of_taken {ic : InterruptController} {before : List Turn} {i : Line}
    (hp : PendingAfter ic before i) (turns : List Turn)
    (hnot : ¬ PendingAfter ic (before ++ turns) i) :
    ∃ l r, turns = l ++ .schedule .service :: r ∧ served ic (before ++ l) = some i := by
  induction turns using List.reverseRecOn with
  | nil =>
      rw [List.append_nil] at hnot
      exact absurd hp hnot
  | append_singleton turns t ih =>
      rw [← List.append_assoc] at hnot
      -- what is pending until then was taken by the last turn
      by_cases hbefore : PendingAfter ic (before ++ turns) i
      · rcases t.events_cases (before ++ turns) with rfl | ⟨j, ht⟩ | ht
        · rw [pendingAfter_service] at hnot
          refine ⟨turns, [], rfl, ?_⟩
          by_contra hserved
          exact hnot ⟨hbefore, hserved⟩
        · rw [pendingAfter_request ic _ t ht] at hnot
          exact absurd (Or.inr hbefore) hnot
        · rw [pendingAfter_idle ic _ t ht] at hnot
          exact absurd hbefore hnot
      · rcases ih hbefore with ⟨l, r, rfl, hserved⟩
        exact ⟨l, r ++ [t], by rw [List.append_assoc, List.cons_append], hserved⟩

/-- No service among `turns`, after `before`, handles `i`. -/
def Unserved (ic : InterruptController) (i : Line) (before turns : List Turn) : Prop :=
  ∀ l r, turns = l ++ .schedule .service :: r → served ic (before ++ l) ≠ some i

theorem Unserved.snoc {ic : InterruptController} {i : Line} {before turns : List Turn} {t : Turn}
    (h : Unserved ic i before turns)
    (hlast : t = .schedule .service → served ic (before ++ turns) ≠ some i) :
    Unserved ic i before (turns ++ [t]) := by
  intro l r hsplit
  rcases List.eq_nil_or_concat r with rfl | ⟨r, u, rfl⟩
  · rcases List.append_inj' hsplit rfl with ⟨rfl, ht⟩
    exact hlast (List.singleton_inj.mp ht)
  · rw [List.concat_eq_append, ← List.cons_append, ← List.append_assoc] at hsplit
    exact h l r (List.append_inj' hsplit rfl).1

/-- A line that is pending was asked for and not served since, or is pending from the start. -/
theorem asked_of_pending {ic : InterruptController} {i : Line} (turns : List Turn)
    (hp : PendingAfter ic turns i) :
    (i ∈ lines ic.registers.IF ∧ Unserved ic i [] turns)
      ∨ ∃ l t r, turns = l ++ t :: r ∧ Asks i l t ∧ Unserved ic i (l ++ [t]) r := by
  have hnil : ∀ before, Unserved ic i before [] := by
    intro before l r hsplit
    cases l <;> cases hsplit
  induction turns using List.reverseRecOn with
  | nil => exact Or.inl ⟨hp, hnil []⟩
  | append_singleton turns t ih =>
      -- the last turn asks, or it leaves pending what was
      have hkeeps : PendingAfter ic turns i → (t = .schedule .service → served ic turns ≠ some i) →
          (i ∈ lines ic.registers.IF ∧ Unserved ic i [] (turns ++ [t]))
            ∨ ∃ l u r, turns ++ [t] = l ++ u :: r ∧ Asks i l u ∧ Unserved ic i (l ++ [u]) r := by
        intro hbefore hlast
        rcases ih hbefore with ⟨hstart, hun⟩ | ⟨l, u, r, rfl, hasks, hun⟩
        · exact Or.inl ⟨hstart, hun.snoc hlast⟩
        · refine Or.inr ⟨l, u, r ++ [t], by rw [List.append_assoc, List.cons_append], hasks, ?_⟩
          refine hun.snoc (fun ht => ?_)
          have := hlast ht
          rwa [List.append_assoc, List.singleton_append]
      rcases t.events_cases turns with rfl | ⟨j, ht⟩ | ht
      · rw [pendingAfter_service] at hp
        exact hkeeps hp.1 (fun _ => hp.2)
      · rw [pendingAfter_request ic _ t ht] at hp
        rcases hp with rfl | hbefore
        · refine Or.inr ⟨turns, t, [], rfl, ?_, hnil _⟩
          rw [Asks, ht]
          exact List.mem_singleton.mpr rfl
        · refine hkeeps hbefore (fun hservice => ?_)
          subst hservice
          cases ht
      · rw [pendingAfter_idle ic _ t ht] at hp
        refine hkeeps hp (fun hservice => ?_)
        subst hservice
        cases ht

/-! ## Counting turns -/

def Turn.isService : Turn → Bool
  | .schedule .service => true
  | _ => false

/-- Another device requests a line of higher priority than `i`. -/
def Turn.isUrgent (i : Line) : Turn → Bool
  | .schedule (.request j) => decide (j < i)
  | _ => false

/-- What happens in a schedule from some turn on. -/
def logFrom (ic : InterruptController) (before turns : List Turn) : List (Moment Line) :=
  Machine.log serve observe (controllerAfter ic before) (scheduleFrom before turns)

theorem logFrom_cons (ic : InterruptController) (before : List Turn) (t : Turn)
    (turns : List Turn) :
    logFrom ic before (t :: turns)
      = Machine.log serve observe (controllerAfter ic before) (t.events before)
        ++ logFrom ic (before ++ [t]) turns := by
  rw [logFrom, scheduleFrom, Machine.log_append, logFrom, controllerAfter_snoc]

/-- What one turn adds to the counts. -/
theorem count_events (ic : InterruptController) (enabled : Finset Line) (i : Line)
    (before : List Turn) (t : Turn) :
    let log := Machine.log serve observe (controllerAfter ic before) (t.events before)
    log.countP Moment.isService = t.isService.toNat
      ∧ log.countP (Moment.freshAhead enabled i) ≤ (t.isUrgent i).toNat := by
  intro log
  cases t with
  | pressKey k => exact ⟨rfl, le_rfl⟩
  | unpressKey k => exact ⟨rfl, le_rfl⟩
  | setP1Reg value => exact ⟨rfl, le_rfl⟩
  | step =>
      by_cases hedge : KeyEdge (keyOps before)
      · -- no line is below that of the joypad
        have hlog : log = [(controllerAfter ic before).observe (.request 4)] := by
          show Machine.log serve observe _ (if KeyEdge (keyOps before) then _ else _) = _
          rw [if_pos hedge]
          rfl
        have hlow : ¬ (4 : Line) < i := not_lt.mpr (Fin.le_last i)
        rw [hlog]
        refine ⟨rfl, ?_⟩
        rw [List.countP_singleton]
        simp [Moment.freshAhead, observe, hlow]
      · have hlog : log = [] := by
          show Machine.log serve observe _ (if KeyEdge (keyOps before) then _ else _) = _
          rw [if_neg hedge]
          rfl
        rw [hlog]
        exact ⟨rfl, Nat.zero_le _⟩
  | schedule e =>
      cases e with
      | service => exact ⟨rfl, le_rfl⟩
      | request j =>
          refine ⟨rfl, ?_⟩
          show [(controllerAfter ic before).observe (.request j)].countP _ ≤ _
          rw [List.countP_singleton]
          by_cases hji : j < i
          · simp only [Turn.isUrgent, hji, decide_true, Bool.toNat_true]
            split <;> omega
          · simp [Moment.freshAhead, observe, hji]

theorem count_logFrom (ic : InterruptController) (enabled : Finset Line) (i : Line)
    (turns before : List Turn) :
    (logFrom ic before turns).countP Moment.isService = turns.countP Turn.isService
      ∧ (logFrom ic before turns).countP (Moment.freshAhead enabled i)
          ≤ turns.countP (Turn.isUrgent i) := by
  induction turns generalizing before with
  | nil => exact ⟨rfl, le_rfl⟩
  | cons t turns ih =>
      have hhead := count_events ic enabled i before t
      have htail := ih (before ++ [t])
      rw [logFrom_cons, List.countP_append, List.countP_append, List.countP_cons, List.countP_cons]
      simp only [Bool.toNat, Bool.cond_eq_ite] at hhead
      omega

/-- What is emitted from some turn on is served at a turn. -/
theorem served_of_emitted {ic : InterruptController} {i : Line} {m : Moment Line}
    (turns before : List Turn) (hm : m ∈ logFrom ic before turns) (hi : m.emitted = some i) :
    ∃ l r, turns = l ++ .schedule .service :: r ∧ served ic (before ++ l) = some i := by
  induction turns generalizing before with
  | nil => cases hm
  | cons t turns ih =>
      rw [logFrom_cons] at hm
      rcases List.mem_append.mp hm with hm | hm
      · rcases t.events_cases before with rfl | ⟨j, ht⟩ | ht
        · rcases List.mem_singleton.mp hm with rfl
          exact ⟨[], turns, rfl, by rw [List.append_nil]; exact hi⟩
        · rw [ht] at hm
          rcases List.mem_singleton.mp hm with rfl
          cases hi
        · rw [ht] at hm
          cases hm
      · rcases ih (before ++ [t]) hm with ⟨l, r, rfl, hserved⟩
        refine ⟨t :: l, r, rfl, ?_⟩
        rwa [List.append_assoc, List.singleton_append] at hserved

/-- Enough services serve what is pending. -/
theorem served_of_services {ic : InterruptController} {before turns : List Turn} {i : Line}
    (hp : PendingAfter ic before i) (he : i ∈ lines ic.registers.IE)
    (henough : i.val + turns.countP (Turn.isUrgent i) < turns.countP Turn.isService) :
    ∃ l r, turns = l ++ .schedule .service :: r ∧ served ic (before ++ l) = some i := by
  have hIE : (controllerAfter ic before).registers.IE = ic.registers.IE :=
    (foldl_serve_registers ic (scheduleFrom [] before)).1
  have hserves : Serves (lines ic.registers.IE) (controllerAfter ic before)
      (lines (controllerAfter ic before).registers.IF) := ⟨by rw [hIE], rfl⟩
  have hcount := count_logFrom ic (lines ic.registers.IE) i turns before
  have hahead := card_ahead_le (lines ic.registers.IE)
    (lines (controllerAfter ic before).registers.IF) i
  have hlog : logFrom ic before turns = _ := log_serve hserves (scheduleFrom before turns)
  rw [hlog] at hcount
  have hemitted : ∃ m ∈ logFrom ic before turns, m.emitted = some i := by
    rw [hlog]
    refine emitted_of_services he hp ?_
    omega
  rcases hemitted with ⟨m, hm, hi⟩
  exact served_of_emitted turns before hm hi

/-! ## The system -/

/--
**Every press that a step sees is served, soon, and nothing else is.**

For a linked joypad and any interleaving of key events, writes of `P1`, steps,
requests of other devices and services, the run is defined and leaves the
controller of the schedule. After a step that sees a key newly pressed, with
`JOYPAD_INT` enabled, a service finds nothing to do only after one that handled
`JOYPAD_INT`, and one of the next five services handles it, not counting one for
each request of a line of higher priority since. When `JOYPAD_INT` is handled,
then a step saw a key newly pressed, or another device requested it, and it was
not handled since; or it was pending from the start and never handled.
-/
theorem presses_served (ic : InterruptController) :
    (∀ turns, ∃ s, Machine.run System.turn { joypad := construct .controller, controller := ic }
        turns = some s ∧ s.controller = controllerAfter ic turns)
      ∧ (∀ pre mid, KeyEdge (keyOps pre) → 4 ∈ lines ic.registers.IE →
          served ic (pre ++ .step :: mid) = none →
            ∃ l r, mid = l ++ .schedule .service :: r
              ∧ served ic (pre ++ .step :: l) = some 4)
      ∧ (∀ pre mid, KeyEdge (keyOps pre) → 4 ∈ lines ic.registers.IE →
          4 + mid.countP (Turn.isUrgent 4) < mid.countP Turn.isService →
            ∃ l r, mid = l ++ .schedule .service :: r
              ∧ served ic (pre ++ .step :: l) = some 4)
      ∧ ∀ turns, served ic turns = some 4 →
          (4 ∈ lines ic.registers.IF ∧ Unserved ic 4 [] turns)
            ∨ ∃ l t r, turns = l ++ t :: r
              ∧ (t = .step ∧ KeyEdge (keyOps l) ∨ t = .schedule (.request 4))
              ∧ Unserved ic 4 (l ++ [t]) r := by
  -- a step with an edge leaves the line pending
  have hpending : ∀ pre, KeyEdge (keyOps pre) → PendingAfter ic (pre ++ [.step]) 4 :=
    fun pre hedge => (pendingAfter_request ic pre .step (if_pos hedge) 4).mpr (Or.inl rfl)
  have hcons : ∀ pre mid : List Turn, pre ++ Turn.step :: mid = (pre ++ [.step]) ++ mid :=
    fun pre mid => by rw [List.append_assoc, List.singleton_append]
  refine ⟨?_, ?_, ?_, ?_⟩
  · intro turns
    rcases run_serving ic turns with ⟨s, hrun, h⟩
    exact ⟨s, hrun, h.controller⟩
  · intro pre mid hedge henabled hidle
    rw [hcons, served_eq] at hidle
    have hnot : ¬ PendingAfter ic ((pre ++ [.step]) ++ mid) 4 :=
      fun hp => next_eq_none.mp hidle 4 hp henabled
    rcases served_of_taken (hpending pre hedge) mid hnot with ⟨l, r, hmid, hserved⟩
    exact ⟨l, r, hmid, by rwa [hcons]⟩
  · intro pre mid hedge henabled henough
    rcases served_of_services (hpending pre hedge) henabled henough with ⟨l, r, hmid, hserved⟩
    exact ⟨l, r, hmid, by rwa [hcons]⟩
  · intro turns hserved
    rw [served_eq] at hserved
    rcases asked_of_pending turns (next_eq_some.mp hserved).1 with
      hstart | ⟨l, t, r, rfl, hasks, hun⟩
    · exact Or.inl hstart
    · refine Or.inr ⟨l, t, r, rfl, ?_, hun⟩
      cases t with
      | pressKey k => cases hasks
      | unpressKey k => cases hasks
      | setP1Reg value => cases hasks
      | step =>
          by_cases hedge : KeyEdge (keyOps l)
          · exact Or.inl ⟨rfl, hedge⟩
          · rw [Asks, Turn.events, if_neg hedge] at hasks
            cases hasks
      | schedule e =>
          rcases List.mem_singleton.mp hasks with rfl
          exact Or.inr rfl

end GBMU.JoyPad
