import GBMU.Proof.InterruptLines

/-!
# Serving interrupts while they arrive

Devices call `request_interrupt` at any moment; between their calls the CPU asks
for the highest-priority interrupt, resets it and handles it. On the lines this
is a priority server (`serve_lines`, `observe_eq`), so the log of any schedule is
the log of a server and inherits its faithfulness.
-/

namespace GBMU.InterruptController

open PriorityServer

/-- One call of a device, or one service by the CPU. -/
def serve (c : InterruptController) : Event Line → InterruptController
  | .request i => c.requestInterrupt (.ofLine (some i))
  | .service =>
      let i := c.getHighestPriorityInterrupt
      if i = .noInterrupt then c else c.resetInterrupt i

/-- The interrupt handled, if the event is a service that finds one. -/
def handled (c : InterruptController) : Event Line → Option Line
  | .request _ => none
  | .service => c.getHighestPriorityInterrupt.line

def observe (c : InterruptController) (e : Event Line) : Moment Line :=
  { pending := lines c.registers.IF, event := e, emitted := c.handled e }

/-! ## A schedule is a run of a priority server -/

theorem serve_IE (c : InterruptController) (e : Event Line) :
    (c.serve e).registers.IE = c.registers.IE := by
  cases e with
  | request i => rfl
  | service =>
      unfold serve
      dsimp only
      split <;> rfl

theorem serve_IME (c : InterruptController) (e : Event Line) :
    (c.serve e).registers.IME = c.registers.IME := by
  cases e with
  | request i => rfl
  | service =>
      unfold serve
      dsimp only
      split <;> rfl

theorem serve_lines (c : InterruptController) (e : Event Line) :
    lines (c.serve e).registers.IF
      = PriorityServer.step (lines c.registers.IE) (lines c.registers.IF) e := by
  cases e with
  | request i =>
      show lines (c.requestInterrupt _).registers.IF = insert i _
      rw [lines_requestInterrupt, InterruptIdx.line_ofLine]
      ext j
      simp
  | service =>
      have hline : c.getHighestPriorityInterrupt.line
          = next (lines c.registers.IE) (lines c.registers.IF) :=
        getHighestPriorityInterrupt_line c
      unfold serve PriorityServer.step
      dsimp only
      rw [← hline]
      split
      · rename_i h
        rw [h]
        rfl
      · rename_i h
        rw [lines_resetInterrupt]
        cases hn : c.getHighestPriorityInterrupt.line with
        | none =>
            -- only `NO_INTERRUPT` has no line
            rw [← InterruptIdx.ofLine_line c.getHighestPriorityInterrupt, hn] at h
            exact absurd rfl h
        | some i =>
            ext j
            simp [and_comm]

theorem observe_eq (c : InterruptController) (e : Event Line) :
    c.observe e = moment (lines c.registers.IE) (lines c.registers.IF) e := by
  cases e with
  | request i => rfl
  | service =>
      have hline : c.getHighestPriorityInterrupt.line
          = next (lines c.registers.IE) (lines c.registers.IF) :=
        getHighestPriorityInterrupt_line c
      show Moment.mk _ _ c.getHighestPriorityInterrupt.line = Moment.mk _ _ (next _ _)
      rw [hline]

/-- The controller and a server that enables `enabled`. -/
def Serves (enabled : Finset Line) (c : InterruptController) (pending : Finset Line) : Prop :=
  lines c.registers.IE = enabled ∧ lines c.registers.IF = pending

theorem serves_step (enabled : Finset Line) (c : InterruptController) (pending : Finset Line)
    (e : Event Line) (h : Serves enabled c pending) :
    Serves enabled (c.serve e) (PriorityServer.step enabled pending e) := by
  obtain ⟨rfl, rfl⟩ := h
  exact ⟨by rw [serve_IE], serve_lines c e⟩

theorem log_serve {enabled pending : Finset Line} {c : InterruptController}
    (h : Serves enabled c pending) (es : List (Event Line)) :
    Machine.log serve observe c es = PriorityServer.log enabled pending es := by
  refine Machine.log_of_related (R := Serves enabled) (serves_step enabled) ?_ es h
  rintro c pending e ⟨rfl, rfl⟩
  exact observe_eq c e

theorem serves_run {enabled pending : Finset Line} {c : InterruptController}
    (h : Serves enabled c pending) (es : List (Event Line)) :
    Serves enabled (es.foldl serve c) (es.foldl (PriorityServer.step enabled) pending) :=
  List.foldl_rel h (fun e _ c p hcp => serves_step enabled c p e hcp)

theorem foldl_serve_registers (c : InterruptController) (es : List (Event Line)) :
    (es.foldl serve c).registers.IE = c.registers.IE
      ∧ (es.foldl serve c).registers.IME = c.registers.IME :=
  List.foldlRecOn (motive := fun d =>
      d.registers.IE = c.registers.IE ∧ d.registers.IME = c.registers.IME)
    es serve ⟨rfl, rfl⟩ (fun d hd e _ => ⟨(serve_IE d e).trans hd.1, (serve_IME d e).trans hd.2⟩)

/--
**Serving interrupts loses none, invents none and respects priority.**

For any controller and any interleaving of requests with services: the log is
that of a faithful server (priority at each emission, a request behind each,
every enabled request emitted before a service finds nothing, the others kept);
a request that is not enabled is pending at the end; `IE` and `IME` are what they
were; and services alone then emit the lines pending and enabled in increasing
order, and nothing after them.
-/
theorem schedule_faithful (c : InterruptController) (es : List (Event Line)) :
    let enabled := lines c.registers.IE
    let c' := es.foldl serve c
    Faithful enabled (lines c.registers.IF) (Machine.log serve observe c es)
      ∧ (∀ i, Event.request i ∈ es → i ∉ enabled → i ∈ lines c'.registers.IF)
      ∧ c'.registers.IE = c.registers.IE ∧ c'.registers.IME = c.registers.IME
      ∧ ∀ n, (Machine.log serve observe c' (List.replicate n .service)).map Moment.emitted
          = (((lines c'.registers.IF ∩ enabled).sort (· ≤ ·)).map some
              ++ List.replicate n none).take n := by
  intro enabled c'
  have h₀ : Serves enabled c (lines c.registers.IF) := ⟨rfl, rfl⟩
  obtain ⟨hIE, hIF⟩ := serves_run h₀ es
  refine ⟨?_, ?_, (foldl_serve_registers c es).1, (foldl_serve_registers c es).2, ?_⟩
  · rw [log_serve h₀ es]
    exact log_faithful enabled _ es
  · intro i hi hn
    obtain ⟨pre, post, rfl⟩ := List.append_of_mem hi
    rw [hIF, List.foldl_append, List.foldl_cons]
    exact mem_foldl_of_not_enabled hn post (Finset.mem_insert_self ..)
  · intro n
    rw [log_serve ⟨hIE, rfl⟩]
    exact services_emit_sorted enabled _ n

end GBMU.InterruptController
