import GBMU.Lib.Machine

/-!
# The last event that matters

Many registers, flags and memory cells hold "the value of the last event that
wrote them". `last asg is` is that value: `asg i` says what event `i` assigns to
the cell, if it assigns anything, and `last` scans the history backwards for the
first event that does.

`last_eq_some` and `last_eq_none` unfold the definition into plain English;
`tracks` and `tracks_log` are the induction rules: a cell each of whose steps is
an assignment always holds its last assignment. `run_history` is the rule for
invariants that relate a state to the whole history behind it, and
`run_defined_iff` the one for machines that such an invariant keeps from failing.
-/

namespace History

variable {σ ι β ε : Type*}

/-- The value the last assigning event of a history assigns. -/
def last (asg : ι → Option β) (is : List ι) : Option β := is.reverse.findSome? asg

@[simp] theorem last_nil (asg : ι → Option β) : last asg [] = none := rfl

theorem last_append (asg : ι → Option β) (is js : List ι) :
    last asg (is ++ js) = (last asg js).or (last asg is) := by
  unfold last
  rw [List.reverse_append, List.findSome?_append]

theorem last_snoc (asg : ι → Option β) (is : List ι) (i : ι) :
    last asg (is ++ [i]) = (asg i).or (last asg is) := by
  rw [last_append]
  simp [last]

theorem last_cons (asg : ι → Option β) (i : ι) (is : List ι) :
    last asg (i :: is) = (last asg is).or (asg i) := by
  rw [← List.singleton_append, last_append]
  simp [last]

/-- Nothing was assigned exactly when no event assigns. -/
theorem last_eq_none {asg : ι → Option β} {is : List ι} :
    last asg is = none ↔ ∀ i ∈ is, asg i = none := by
  simp [last, List.findSome?_eq_none_iff]

/-- The last assignment is an event that assigns, with none that assigns after it. -/
theorem last_eq_some {asg : ι → Option β} {is : List ι} {b : β} :
    last asg is = some b ↔
      ∃ pre i post, is = pre ++ i :: post ∧ asg i = some b ∧ ∀ j ∈ post, asg j = none := by
  constructor
  · intro h
    obtain ⟨l, i, r, hrev, hi, hl⟩ := List.findSome?_eq_some_iff.mp h
    refine ⟨r.reverse, i, l.reverse, ?_, hi, fun j hj => hl j (List.mem_reverse.mp hj)⟩
    rw [← List.reverse_reverse is, hrev]
    simp
  · intro hsplit
    rcases hsplit with ⟨pre, i, post, rfl, hi, hpost⟩
    rw [last_append, last_cons, last_eq_none.mpr hpost, hi]
    rfl

/-- A cell that no longer holds its initial value was assigned the value it holds. -/
theorem exists_of_getD_ne {asg : ι → Option β} {is : List ι} {b c : β}
    (h : (last asg is).getD b = c) (hne : b ≠ c) : ∃ i ∈ is, asg i = some c := by
  cases hlast : last asg is with
  | none =>
      rw [hlast] at h
      exact absurd h hne
  | some d =>
      rw [hlast, Option.getD_some] at h
      obtain ⟨pre, i, post, his, hi, _⟩ := last_eq_some.mp hlast
      exact ⟨i, by rw [his]; simp, by rw [hi, h]⟩

/-! ## Cells hold their last assignment -/

/-- A cell of a total machine that every step either assigns or leaves alone. -/
theorem tracks (obs : σ → β) {f : σ → ι → σ} {asg : ι → Option β}
    (h : ∀ s i, obs (f s i) = (asg i).getD (obs s)) :
    ∀ (s : σ) (is : List ι), obs (is.foldl f s) = (last asg is).getD (obs s)
  | _, [] => rfl
  | s, i :: is => by
      rw [List.foldl_cons, tracks obs h (f s i) is, h, last_cons]
      cases last asg is <;> rfl

/-- The same when what an event assigns depends on the state it meets. -/
theorem tracks_log (obs : σ → β) {f : σ → ι → σ} {ann : σ → ι → ε} {asg : ε → Option β}
    (h : ∀ s i, obs (f s i) = (asg (ann s i)).getD (obs s)) :
    ∀ (s : σ) (is : List ι),
      obs (is.foldl f s) = (last asg (Machine.log f ann s is)).getD (obs s)
  | _, [] => rfl
  | s, i :: is => by
      rw [List.foldl_cons, tracks_log obs h (f s i) is, h, Machine.log, last_cons]
      cases last asg (Machine.log f ann (f s i) is) <;> rfl

/-! ## Invariants of state and history -/

/--
What relates a state to the history that led to it, and is kept by every step,
holds after every run. The run is defined if every step is.
-/
theorem run_history {step : σ → ι → Option σ} {P : σ → List ι → Prop} {s : σ}
    (hstep : ∀ s pre i, P s pre → ∃ s', step s i = some s' ∧ P s' (pre ++ [i]))
    (h : P s []) (is : List ι) : ∃ s', Machine.run step s is = some s' ∧ P s' is := by
  -- the induction needs the history already behind the state
  have hfrom : ∀ (is pre : List ι) (s : σ), P s pre →
      ∃ s', Machine.run step s is = some s' ∧ P s' (pre ++ is) := by
    intro is
    induction is with
    | nil => intro pre s hp; exact ⟨s, rfl, by rwa [List.append_nil]⟩
    | cons i is ih =>
        intro pre s hp
        obtain ⟨m, hm, hpm⟩ := hstep s pre i hp
        obtain ⟨s', hs', hp'⟩ := ih (pre ++ [i]) m hpm
        refine ⟨s', by rw [Machine.run_cons, hm]; exact hs', ?_⟩
        rwa [List.append_assoc] at hp'
  exact hfrom is [] s h

/--
When the history behind a state decides whether a step is defined, a run is
defined exactly when every event was allowed by the history before it.
-/
theorem run_defined_iff {step : σ → ι → Option σ} {P : σ → List ι → Prop}
    {ok : List ι → ι → Prop}
    (hok : ∀ s pre i, P s pre → ok pre i → ∃ s', step s i = some s' ∧ P s' (pre ++ [i]))
    (hbad : ∀ s pre i, P s pre → ¬ ok pre i → step s i = none) {s : σ} (h : P s [])
    (is : List ι) :
    (∃ s', Machine.run step s is = some s')
      ↔ ∀ (pre : List ι) (i : ι) (post : List ι), is = pre ++ i :: post → ok pre i := by
  -- the induction needs the history already behind the state
  have hfrom : ∀ (is done : List ι) (s : σ), P s done →
      ((∃ s', Machine.run step s is = some s')
        ↔ ∀ (pre : List ι) (i : ι) (post : List ι), is = pre ++ i :: post →
            ok (done ++ pre) i) := by
    intro is
    induction is with
    | nil =>
        intro done s _
        refine ⟨fun _ pre i post hsplit => ?_, fun _ => ⟨s, rfl⟩⟩
        cases pre <;> cases hsplit
    | cons i is ih =>
        intro done s hp
        by_cases hi : ok done i
        · obtain ⟨m, hm, hpm⟩ := hok s done i hp hi
          rw [Machine.run_cons, hm, Option.bind_some, ih (done ++ [i]) m hpm]
          constructor
          · intro h pre j post hsplit
            cases pre with
            | nil =>
                cases hsplit
                rwa [List.append_nil]
            | cons k pre =>
                obtain ⟨rfl, hrest⟩ := List.cons.inj hsplit
                have := h pre j post hrest
                rwa [List.append_assoc] at this
          · intro h pre j post hsplit
            rw [List.append_assoc]
            exact h (i :: pre) j post (by rw [hsplit]; rfl)
        · rw [Machine.run_cons, hbad s done i hp hi, Option.bind_none]
          refine ⟨fun h => ?_, fun h => ?_⟩
          · obtain ⟨s', hs'⟩ := h
            cases hs'
          · have := h [] i is rfl
            rw [List.append_nil] at this
            exact absurd this hi
  exact hfrom is [] s h

/-- Every event of a history, with the history before it. -/
def moments (is : List ι) : List (List ι × ι) :=
  Machine.log (fun pre i => pre ++ [i]) Prod.mk [] is

@[simp] theorem moments_nil : moments ([] : List ι) = [] := rfl

theorem moments_snoc (is : List ι) (i : ι) : moments (is ++ [i]) = moments is ++ [(is, i)] := by
  have hfold : ∀ (pre is : List ι), is.foldl (fun pre i => pre ++ [i]) pre = pre ++ is := by
    intro pre is
    induction is generalizing pre with
    | nil => simp
    | cons i is ih => rw [List.foldl_cons, ih]; simp
  rw [moments, Machine.log_append, hfold]
  rfl

end History
