import Mathlib.Data.Finset.Sort
import GBMU.Lib.History

/-!
# Serving a pending set by priority

Requests put indexes into a *pending* set; a server, asked for work, takes the
least index that is both pending and *enabled*, removes it and emits it. Only
the server removes. The index type is any linear order, the least index being
the most urgent.

A run is judged by its log, one `Moment` for each event: the pending set the
event met and what was emitted. `Faithful` says that a log loses no request,
invents none and respects priority, and `log_faithful` that every log is
faithful. The argument is one fact, `mem_pending_log`: whether an index is
pending is decided by the last event about it, a request or an emission.

Left alone, the server empties what is enabled in increasing order
(`services_emit_sorted`).
-/

namespace PriorityServer

variable {α : Type*} [LinearOrder α]

inductive Event (α : Type*) where
  | request (i : α)
  | service

/-- The most urgent index to serve. -/
def next (enabled pending : Finset α) : Option α :=
  if h : (pending ∩ enabled).Nonempty then some ((pending ∩ enabled).min' h) else none

theorem next_eq_some {enabled pending : Finset α} {i : α} :
    next enabled pending = some i ↔
      i ∈ pending ∧ i ∈ enabled ∧ ∀ j ∈ pending, j ∈ enabled → i ≤ j := by
  unfold next
  constructor
  · intro h
    split at h
    · rename_i hne
      cases h
      have hmem := Finset.mem_inter.mp (Finset.min'_mem _ hne)
      exact ⟨hmem.1, hmem.2, fun j hp he => Finset.min'_le _ j (Finset.mem_inter.mpr ⟨hp, he⟩)⟩
    · cases h
  · intro hleast
    rcases hleast with ⟨hp, he, hle⟩
    have hmem : i ∈ pending ∩ enabled := Finset.mem_inter.mpr ⟨hp, he⟩
    rw [dif_pos ⟨i, hmem⟩]
    refine congrArg some (le_antisymm (Finset.min'_le _ i hmem) ?_)
    have := Finset.mem_inter.mp (Finset.min'_mem _ ⟨i, hmem⟩)
    exact hle _ this.1 this.2

theorem next_eq_none {enabled pending : Finset α} :
    next enabled pending = none ↔ ∀ i ∈ pending, i ∉ enabled := by
  unfold next
  constructor
  · intro h i hp he
    rw [dif_pos ⟨i, Finset.mem_inter.mpr ⟨hp, he⟩⟩] at h
    cases h
  · intro h
    refine dif_neg ?_
    intro hmem
    rcases hmem with ⟨i, hi⟩
    exact h i (Finset.mem_inter.mp hi).1 (Finset.mem_inter.mp hi).2

/-! ## Runs and their logs -/

def step (enabled pending : Finset α) : Event α → Finset α
  | .request i => insert i pending
  | .service =>
      match next enabled pending with
      | some i => pending.erase i
      | none => pending

theorem step_service_some {enabled pending : Finset α} {i : α} (h : next enabled pending = some i) :
    step enabled pending .service = pending.erase i := by
  simp only [step, h]

theorem step_service_none {enabled pending : Finset α} (h : next enabled pending = none) :
    step enabled pending .service = pending := by
  simp only [step, h]

/-- What an event makes the server emit. -/
def emitted (enabled pending : Finset α) : Event α → Option α
  | .request _ => none
  | .service => next enabled pending

/-- One line of the log. -/
structure Moment (α : Type*) where
  pending : Finset α
  event : Event α
  emitted : Option α

def moment (enabled pending : Finset α) (e : Event α) : Moment α :=
  { pending := pending, event := e, emitted := emitted enabled pending e }

def log (enabled pending : Finset α) (es : List (Event α)) : List (Moment α) :=
  Machine.log (step enabled) (moment enabled) pending es

/-- What a moment says about `i` being pending: an emission takes it out, a request puts it in. -/
def Moment.assigns (i : α) (m : Moment α) : Option Bool :=
  if m.emitted = some i then some false
  else
    match m.event with
    | .request j => if j = i then some true else none
    | .service => none

theorem Moment.assigns_true {i : α} {m : Moment α} (h : m.assigns i = some true) :
    m.event = .request i := by
  unfold Moment.assigns at h
  split at h
  · exact absurd h (by simp)
  · split at h
    · rename_i j hj
      split at h
      · rename_i hji
        rw [hj, hji]
      · cases h
    · cases h

theorem Moment.assigns_false {i : α} {m : Moment α} (h : m.assigns i = some false) :
    m.emitted = some i := by
  unfold Moment.assigns at h
  split at h
  · assumption
  · split at h
    · split at h
      · exact absurd h (by simp)
      · cases h
    · cases h

theorem assigns_of_emitted {i : α} {m : Moment α} (h : m.emitted = some i) :
    m.assigns i = some false := if_pos h

theorem assigns_request (enabled pending : Finset α) (i j : α) :
    (moment enabled pending (.request j)).assigns i = if j = i then some true else none := by
  simp [Moment.assigns, moment, emitted]

theorem assigns_service (enabled pending : Finset α) (i : α) :
    (moment enabled pending .service).assigns i
      = if next enabled pending = some i then some false else none := by
  by_cases h : next enabled pending = some i <;> simp [Moment.assigns, moment, emitted, h]

/-- One step, at one index. -/
theorem mem_step (enabled pending : Finset α) (e : Event α) (i : α) :
    decide (i ∈ step enabled pending e)
      = ((moment enabled pending e).assigns i).getD (decide (i ∈ pending)) := by
  cases e with
  | request j =>
      rw [assigns_request, step]
      by_cases hji : j = i
      · simp [hji]
      · simp [hji, Ne.symm hji]
  | service =>
      rw [assigns_service]
      cases hn : next enabled pending with
      | none =>
          rw [step_service_none hn]
          simp
      | some j =>
          rw [step_service_some hn]
          by_cases hji : j = i
          · simp [hji]
          · simp [hji, Ne.symm hji]

/-- **An index is pending exactly when the last event about it is a request.** -/
theorem mem_pending_log (enabled pending : Finset α) (es : List (Event α)) (i : α) :
    decide (i ∈ es.foldl (step enabled) pending)
      = (History.last (Moment.assigns i) (log enabled pending es)).getD (decide (i ∈ pending)) :=
  History.tracks_log (fun p => decide (i ∈ p)) (fun p e => mem_step enabled p e i) pending es

/-- Where a log is cut, the run is cut. -/
theorem log_eq_append {enabled pending : Finset α} {es : List (Event α)} {l r : List (Moment α)}
    {m : Moment α} (h : log enabled pending es = l ++ m :: r) :
    ∃ pre e post, es = pre ++ e :: post ∧ l = log enabled pending pre
      ∧ m = moment enabled (pre.foldl (step enabled) pending) e
      ∧ r = log enabled ((pre ++ [e]).foldl (step enabled) pending) post :=
  Machine.log_eq_append h

/-! ## What a faithful log is -/

/-- The log of a server that started from `initial`. -/
structure Faithful (enabled initial : Finset α) (log : List (Moment α)) : Prop where
  /-- What is emitted is pending and enabled, and nothing more urgent is. -/
  priority : ∀ m ∈ log, ∀ i, m.emitted = some i →
    i ∈ m.pending ∧ i ∈ enabled ∧ ∀ j < i, j ∈ enabled → j ∉ m.pending
  /-- Between two emissions of an index it was requested. -/
  requestedBetween : ∀ (l mid r : List (Moment α)) (m₁ m₂ : Moment α) (i : α),
    log = l ++ m₁ :: (mid ++ m₂ :: r) → m₁.emitted = some i → m₂.emitted = some i →
      ∃ m ∈ mid, m.event = .request i
  /-- Before its first emission an index was requested, or it was pending at the start. -/
  requestedBefore : ∀ (l r : List (Moment α)) (m : Moment α) (i : α),
    log = l ++ m :: r → m.emitted = some i → (∀ k ∈ l, k.emitted ≠ some i) →
      i ∈ initial ∨ ∃ k ∈ l, k.event = .request i
  /-- A service that finds nothing to do comes after every enabled request was served. -/
  served : ∀ (l mid r : List (Moment α)) (m₁ m₂ : Moment α) (i : α),
    log = l ++ m₁ :: (mid ++ m₂ :: r) → m₁.event = .request i → i ∈ enabled →
      m₂.event = .service → m₂.emitted = none → ∃ m ∈ mid, m.emitted = some i
  /-- What is requested and not enabled stays pending. -/
  kept : ∀ (l r : List (Moment α)) (m : Moment α) (i : α),
    log = l ++ m :: r → m.event = .request i → i ∉ enabled → ∀ k ∈ r, i ∈ k.pending

theorem moment_priority {enabled pending : Finset α} {e : Event α} {i : α}
    (h : (moment enabled pending e).emitted = some i) :
    i ∈ pending ∧ i ∈ enabled ∧ ∀ j < i, j ∈ enabled → j ∉ pending := by
  cases e with
  | request j => cases h
  | service =>
      obtain ⟨hp, he, hle⟩ := next_eq_some.mp h
      exact ⟨hp, he, fun j hj hje hjp => absurd (hle j hjp hje) (not_le_of_gt hj)⟩

/-- An index that is not enabled is never removed. -/
theorem mem_foldl_of_not_enabled {enabled : Finset α} {i : α} (hi : i ∉ enabled) :
    ∀ {pending : Finset α} (es : List (Event α)), i ∈ pending →
      i ∈ es.foldl (step enabled) pending
  | _, [], h => h
  | pending, e :: es, h => by
      refine mem_foldl_of_not_enabled hi es ?_
      cases e with
      | request j => exact Finset.mem_insert_of_mem h
      | service =>
          cases hn : next enabled pending with
          | none =>
              rw [step_service_none hn]
              exact h
          | some j =>
              have hje := (next_eq_some.mp hn).2.1
              rw [step_service_some hn]
              refine Finset.mem_erase.mpr ⟨?_, h⟩
              rintro rfl
              exact hi hje

/-! ## The moments of a log -/

/-- What is emitted in a run is pending and enabled, and nothing more urgent is. -/
theorem priority_of_mem_log {enabled initial : Finset α} {es : List (Event α)} {m : Moment α}
    {i : α} (hm : m ∈ log enabled initial es) (hi : m.emitted = some i) :
    i ∈ m.pending ∧ i ∈ enabled ∧ ∀ j < i, j ∈ enabled → j ∉ m.pending := by
  obtain ⟨pre, e, post, _, rfl⟩ := Machine.mem_log hm
  exact moment_priority hi

/-- A request emits nothing, so it puts its index in. -/
theorem assigns_of_request {enabled initial : Finset α} {es : List (Event α)} {m : Moment α}
    {i : α} (hm : m ∈ log enabled initial es) (hrequest : m.event = .request i) :
    m.assigns i = some true := by
  obtain ⟨pre, e, post, _, rfl⟩ := Machine.mem_log hm
  have he : e = .request i := hrequest
  subst he
  rw [assigns_request, if_pos rfl]

/-- A service that emits nothing finds nothing enabled pending. -/
theorem not_pending_of_idle {enabled initial : Finset α} {es : List (Event α)} {m : Moment α}
    {i : α} (hm : m ∈ log enabled initial es) (hservice : m.event = .service)
    (hnone : m.emitted = none) (hi : i ∈ enabled) : i ∉ m.pending := by
  obtain ⟨pre, e, post, _, rfl⟩ := Machine.mem_log hm
  have he : e = .service := hservice
  subst he
  intro hp
  exact next_eq_none.mp hnone i hp hi

/-- What a moment says about `i` holds until a later one says something else. -/
theorem mem_pending_between {enabled initial : Finset α} {es : List (Event α)}
    {l mid r : List (Moment α)} {m₁ m₂ : Moment α} {i : α} {b : Bool}
    (hlog : log enabled initial es = l ++ m₁ :: (mid ++ m₂ :: r))
    (hasg : m₁.assigns i = some b) :
    (History.last (Moment.assigns i) mid).getD b = decide (i ∈ m₂.pending) := by
  rw [← List.cons_append, ← List.append_assoc] at hlog
  obtain ⟨pre, e, post, _, hl, rfl, _⟩ := log_eq_append hlog
  have hmem := mem_pending_log enabled initial pre i
  rw [← hl, History.last_append, History.last_cons, hasg] at hmem
  show _ = decide (i ∈ pre.foldl (step enabled) initial)
  rw [hmem]
  cases History.last (Moment.assigns i) mid <;> rfl

/-- **Every log is faithful.** -/
theorem log_faithful (enabled initial : Finset α) (es : List (Event α)) :
    Faithful enabled initial (log enabled initial es) where
  priority := fun m hm i hi => priority_of_mem_log hm hi
  requestedBetween := by
    intro l mid r m₁ m₂ i hlog h₁ h₂
    have hm₂ : m₂ ∈ log enabled initial es := by rw [hlog]; simp
    -- at the second emission `i` is pending, and the first one took it out
    have hbetween := mem_pending_between hlog (assigns_of_emitted h₁)
    rw [decide_eq_true (priority_of_mem_log hm₂ h₂).1] at hbetween
    obtain ⟨k, hk, hasg⟩ := History.exists_of_getD_ne hbetween Bool.false_ne_true
    exact ⟨k, hk, Moment.assigns_true hasg⟩
  requestedBefore := by
    intro l r m i hlog hm _
    obtain ⟨pre, e, post, _, hl, rfl, _⟩ := log_eq_append hlog
    by_cases hinit : i ∈ initial
    · exact Or.inl hinit
    · -- with no emission before, only a request can have put it in
      have hmem := mem_pending_log enabled initial pre i
      rw [← hl, decide_eq_true (moment_priority hm).1, decide_eq_false hinit] at hmem
      obtain ⟨k, hk, hasg⟩ := History.exists_of_getD_ne hmem.symm Bool.false_ne_true
      exact Or.inr ⟨k, hk, Moment.assigns_true hasg⟩
  served := by
    intro l mid r m₁ m₂ i hlog h₁ hi hservice hnone
    have hm₁ : m₁ ∈ log enabled initial es := by rw [hlog]; simp
    have hm₂ : m₂ ∈ log enabled initial es := by rw [hlog]; simp
    -- requested and no longer pending: an emission in between took it out
    have hbetween := mem_pending_between hlog (assigns_of_request hm₁ h₁)
    rw [decide_eq_false (not_pending_of_idle hm₂ hservice hnone hi)] at hbetween
    obtain ⟨k, hk, hasg⟩ := History.exists_of_getD_ne hbetween Bool.false_ne_true.symm
    exact ⟨k, hk, Moment.assigns_false hasg⟩
  kept := by
    intro l r m i hlog hm hi k hk
    obtain ⟨pre, e, post, _, _, rfl, rfl⟩ := log_eq_append hlog
    have he : e = .request i := hm
    subst he
    obtain ⟨pre', e', _, _, rfl⟩ := Machine.mem_log hk
    refine mem_foldl_of_not_enabled hi pre' ?_
    rw [List.foldl_append]
    exact Finset.mem_insert_self ..

/-! ## No more requests -/

theorem sort_inter_of_next {enabled pending : Finset α} {i : α}
    (h : next enabled pending = some i) :
    (pending ∩ enabled).sort (· ≤ ·) = i :: (pending.erase i ∩ enabled).sort (· ≤ ·) := by
  obtain ⟨hp, he, hle⟩ := next_eq_some.mp h
  have hinsert : pending ∩ enabled = insert i (pending.erase i ∩ enabled) := by
    rw [← Finset.insert_inter_of_mem he, Finset.insert_erase hp]
  have hlow : ∀ j ∈ pending.erase i ∩ enabled, i ≤ j := by
    intro j hj
    obtain ⟨hje, hjn⟩ := Finset.mem_inter.mp hj
    exact hle j (Finset.mem_of_mem_erase hje) hjn
  rw [hinsert, Finset.sort_insert _ hlow (by simp)]

/-- **Left alone, the server emits what is enabled in increasing order, then nothing.** -/
theorem services_emit_sorted (enabled : Finset α) :
    ∀ (pending : Finset α) (n : Nat),
      (log enabled pending (List.replicate n .service)).map Moment.emitted
        = (((pending ∩ enabled).sort (· ≤ ·)).map some ++ List.replicate n none).take n
  | _, 0 => by simp [log, Machine.log]
  | pending, n + 1 => by
      rw [List.replicate_succ, log, Machine.log, List.map_cons]
      show next enabled pending :: (log enabled (step enabled pending .service) _).map _ = _
      rw [services_emit_sorted enabled _ n]
      cases hn : next enabled pending with
      | none =>
          -- nothing to do, now or later
          have hempty : pending ∩ enabled = ∅ := by
            refine Finset.eq_empty_of_forall_notMem (fun i hi => ?_)
            obtain ⟨hp, he⟩ := Finset.mem_inter.mp hi
            exact next_eq_none.mp hn i hp he
          rw [step_service_none hn, hempty]
          simp [List.replicate_succ]
      | some i =>
          -- the head of the sorted list is emitted, and the tail is what remains
          rw [step_service_some hn, sort_inter_of_next hn, List.map_cons, List.cons_append,
            List.take_succ_cons]
          refine congrArg _ ?_
          rw [List.take_append, List.take_append, List.take_replicate, List.take_replicate]
          congr 2
          omega

end PriorityServer
