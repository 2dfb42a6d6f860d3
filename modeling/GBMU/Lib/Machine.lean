import Mathlib.Data.List.Induction
import Mathlib.Tactic.TypeStar

/-!
# Runs of deterministic machines

A machine is a step function. A *partial* machine `σ → ι → Option σ` answers
`none` when a step has no defined outcome (an access out of bounds, an overflow,
a null dereference); its runs stop there. A *total* machine `σ → ι → σ` is run
by `List.foldl`.

Eight rules carry every whole-run theorem built on top of this file:

* `run_eq_foldl` and `exists_run_iff` — where every step of the inputs allowed is
  defined, a run is the total one; and where no other step is, a run is defined exactly
  when all of its inputs are allowed;
* `run_simulated` and `Simulation.run` — if one abstract step is always matched by
  one concrete step, a whole abstract run is matched by a whole concrete run, and
  the concrete run is defined all the way;
* `run_invariant` and `run_holds_iff` — an invariant every step keeps holds all along
  a run; and what an invariant is for holds all along a run exactly when no step of the
  run is one that breaks it;
* `log_eq_append` — where the annotated log of a run is cut, the run is cut;
* `run_rel` — two machines whose steps fail together, and otherwise stay related,
  have runs that do;
* `run_matched` — and where only the second's steps are matched by the first's, so are
  its runs;
* `run_component` — a part of the state that only its own steps change goes
  through a run of its own;
* `Bisimulation.trace_eq` — two states no single call can tell apart are never
  told apart by any sequence of calls.
-/

namespace Machine

variable {σ τ ι ο ε : Type*}

/-! ## Partial machines -/

/-- Feed a list of inputs to a partial machine, stopping at the first undefined step. -/
def run (step : σ → ι → Option σ) : σ → List ι → Option σ
  | s, [] => some s
  | s, i :: is => (step s i).bind (fun s' => run step s' is)

@[simp] theorem run_nil (step : σ → ι → Option σ) (s : σ) : run step s [] = some s := rfl

@[simp] theorem run_cons (step : σ → ι → Option σ) (s : σ) (i : ι) (is : List ι) :
    run step s (i :: is) = (step s i).bind (fun s' => run step s' is) := rfl

theorem run_append (step : σ → ι → Option σ) :
    ∀ (s : σ) (is js : List ι),
      run step s (is ++ js) = (run step s is).bind (fun s' => run step s' js)
  | _, [], _ => rfl
  | s, i :: is, js => by
      rw [List.cons_append, run_cons, run_cons, Option.bind_assoc]
      exact congrArg _ (funext fun s' => run_append step s' is js)

/-- `P` holds of every state a run comes to, with the input it meets there. -/
def Throughout (step : σ → ι → Option σ) (s : σ) (is : List ι) (P : σ → ι → Prop) : Prop :=
  ∀ (pre : List ι) (i : ι) (post : List ι) (m : σ), is = pre ++ i :: post →
    run step s pre = some m → P m i

theorem Throughout.nil {step : σ → ι → Option σ} {s : σ} {P : σ → ι → Prop} :
    Throughout step s [] P := by
  intro pre i post m hsplit
  cases pre with
  | nil => cases hsplit
  | cons => cases hsplit

theorem Throughout.cons {step : σ → ι → Option σ} {s s' : σ} {i : ι} {is : List ι}
    {P : σ → ι → Prop} (hhead : P s i) (hstep : step s i = some s')
    (htail : Throughout step s' is P) : Throughout step s (i :: is) P := by
  intro pre j post m hsplit hm
  cases pre with
  | nil =>
      cases hsplit
      cases hm
      exact hhead
  | cons k pre =>
      obtain ⟨rfl, hrest⟩ := List.cons_eq_cons.mp hsplit
      rw [run_cons, hstep, Option.bind_some] at hm
      exact htail pre j post m hrest hm

theorem Throughout.last {step : σ → ι → Option σ} {s : σ} {i : ι} {P : σ → ι → Prop}
    (h : P s i) : Throughout step s [i] P := by
  intro pre j post m hsplit hm
  cases pre with
  | nil =>
      cases hsplit
      cases hm
      exact h
  | cons k pre =>
      have hempty : pre ++ j :: post = [] := (List.cons_eq_cons.mp hsplit).2.symm
      cases pre <;> cases hempty

theorem Throughout.and {step : σ → ι → Option σ} {s : σ} {is : List ι} {P Q : σ → ι → Prop}
    (hP : Throughout step s is P) (hQ : Throughout step s is Q) :
    Throughout step s is (fun m i => P m i ∧ Q m i) :=
  fun pre i post m hsplit hm => ⟨hP pre i post m hsplit hm, hQ pre i post m hsplit hm⟩

theorem Throughout.of_mem {step : σ → ι → Option σ} {s : σ} {is : List ι} {P : ι → Prop}
    (h : ∀ i ∈ is, P i) : Throughout step s is (fun _ i => P i) := by
  intro pre i post m hsplit _
  refine h i ?_
  rw [hsplit]
  exact List.mem_append_right _ (List.mem_cons_self ..)

theorem Throughout.head {step : σ → ι → Option σ} {s : σ} {i : ι} {is : List ι}
    {P : σ → ι → Prop} (h : Throughout step s (i :: is) P) : P s i :=
  h [] i is s rfl rfl

theorem Throughout.tail {step : σ → ι → Option σ} {s s' : σ} {i : ι} {is : List ι}
    {P : σ → ι → Prop} (h : Throughout step s (i :: is) P) (hstep : step s i = some s') :
    Throughout step s' is P := by
  intro pre j post m hsplit hm
  refine h (i :: pre) j post m (by rw [hsplit, List.cons_append]) ?_
  rw [run_cons, hstep, Option.bind_some, hm]

/-- An invariant kept by every step a run is asked for holds all along the run. -/
theorem run_invariant {step : σ → ι → Option σ} {Inv : σ → Prop} {ok : σ → ι → Prop}
    (hstep : ∀ s i, Inv s → ok s i → ∃ s', step s i = some s' ∧ Inv s') {s : σ} (h : Inv s)
    {is : List ι} (hok : Throughout step s is ok) :
    ∀ pre post : List ι, is = pre ++ post → ∃ m, run step s pre = some m ∧ Inv m := by
  intro pre
  induction pre using List.reverseRecOn with
  | nil => exact fun _ _ => ⟨s, rfl, h⟩
  | append_singleton pre i ih =>
      intro post hsplit
      rw [List.append_assoc] at hsplit
      obtain ⟨m, hm, hi⟩ := ih (i :: post) hsplit
      obtain ⟨m', hm', hi'⟩ := hstep m i hi (hok pre i post m hsplit hm)
      refine ⟨m', ?_, hi'⟩
      rw [run_append, hm, Option.bind_some, run_cons, hm']
      rfl

/--
When an invariant is kept by every step but the bad ones, and a bad step breaks what
the invariant is for, then what it is for holds all along a run exactly when no step
of the run is bad.
-/
theorem run_holds_iff {step : σ → ι → Option σ} {Inv Post : σ → Prop} {ok bad : σ → ι → Prop}
    (hpost : ∀ s, Inv s → Post s)
    (hgood : ∀ s i, Inv s → ok s i ∧ ¬ bad s i → ∃ s', step s i = some s' ∧ Inv s')
    (hbad : ∀ s i s', Inv s → ok s i → bad s i → step s i = some s' → ¬ Post s') {s : σ}
    (h : Inv s) {is : List ι} (hok : Throughout step s is ok) :
    (∀ pre post : List ι, is = pre ++ post → ∃ m, run step s pre = some m ∧ Post m)
      ↔ Throughout step s is (fun m i => ¬ bad m i) := by
  constructor
  · intro hall
    -- a bad step from a state with the invariant would break what follows
    have hnone : Throughout step s is (fun m i => ok m i ∧ (Inv m → ¬ bad m i)) := by
      intro pre i post m hsplit hm
      refine ⟨hok pre i post m hsplit hm, fun hi hb => ?_⟩
      obtain ⟨m', hm', hp⟩ := hall (pre ++ [i]) post (by rw [hsplit, List.append_assoc]; rfl)
      rw [run_append, hm, Option.bind_some, run_cons] at hm'
      obtain ⟨s', hs', hrest⟩ := Option.bind_eq_some_iff.mp hm'
      cases hrest
      exact hbad m i m' hi (hok pre i post m hsplit hm) hb hs' hp
    have hinv := run_invariant (fun s i hi hok => hgood s i hi ⟨hok.1, hok.2 hi⟩) h hnone
    intro pre i post m hsplit hm
    obtain ⟨m', hm', hi⟩ := hinv pre (i :: post) hsplit
    rw [hm] at hm'
    cases hm'
    exact (hnone pre i post m hsplit hm).2 hi
  · intro hnone pre post hsplit
    obtain ⟨m, hm, hi⟩ := run_invariant hgood h (hok.and hnone) pre post hsplit
    exact ⟨m, hm, hpost m hi⟩

/-- A total machine, seen as a partial one. -/
def total (f : τ → ι → τ) (t : τ) (i : ι) : Option τ := some (f t i)

theorem run_total (f : τ → ι → τ) :
    ∀ (t : τ) (is : List ι), run (total f) t is = some (is.foldl f t)
  | _, [] => rfl
  | t, i :: is => run_total f (f t i) is

/-- A partial machine that agrees with a total one on the inputs of a run is run by a fold. -/
theorem run_eq_foldl {step : σ → ι → Option σ} {f : σ → ι → σ} {ok : ι → Prop}
    (h : ∀ s i, ok i → step s i = some (f s i)) :
    ∀ (s : σ) (is : List ι), (∀ i ∈ is, ok i) → run step s is = some (is.foldl f s)
  | _, [], _ => rfl
  | s, i :: is, hok => by
      rw [run_cons, h s i (hok i (List.mem_cons_self ..)), Option.bind_some]
      exact run_eq_foldl h (f s i) is (fun j hj => hok j (List.mem_cons_of_mem _ hj))

/-- If the others are not defined, a run is defined exactly when all of its inputs are allowed. -/
theorem exists_run_iff {step : σ → ι → Option σ} {f : σ → ι → σ} {ok : ι → Prop}
    (h : ∀ s i, ok i → step s i = some (f s i)) (hout : ∀ s i, ¬ ok i → step s i = none) (s : σ)
    (is : List ι) : (∃ s', run step s is = some s') ↔ ∀ i ∈ is, ok i := by
  refine ⟨fun hrun => ?_, fun hok => ⟨_, run_eq_foldl h s is hok⟩⟩
  induction is generalizing s with
  | nil => exact fun _ hi => absurd hi (List.not_mem_nil)
  | cons i is ih =>
      rcases hrun with ⟨s', hrun⟩
      rw [run_cons] at hrun
      rcases Option.bind_eq_some_iff.mp hrun with ⟨next, hnext, hrun⟩
      refine List.forall_mem_cons.mpr ⟨?_, ih next ⟨s', hrun⟩⟩
      by_contra hi
      rw [hout s i hi] at hnext
      cases hnext

/-! ## Simulation -/

/--
If every step of the second machine is matched by one of the first, wherever the first
is asked for it, every run of the second is.
-/
theorem run_simulated {cstep : σ → ι → Option σ} {astep : τ → ι → Option τ} {R : σ → τ → Prop}
    {ok : σ → ι → Prop}
    (h : ∀ s t t' i, R s t → ok s i → astep t i = some t' → ∃ s', cstep s i = some s' ∧ R s' t') :
    ∀ {s : σ} {t t' : τ} (is : List ι), R s t → Throughout cstep s is ok →
      run astep t is = some t' → ∃ s', run cstep s is = some s' ∧ R s' t'
  | s, _, _, [], hr, _, ha => by
      cases ha
      exact ⟨s, rfl, hr⟩
  | s, t, t', i :: is, hr, hok, ha => by
      obtain ⟨m, hm, hrest⟩ := Option.bind_eq_some_iff.mp ha
      obtain ⟨s₁, hs₁, hr₁⟩ := h s t m i hr hok.head hm
      obtain ⟨s', hs', hr'⟩ := run_simulated h is hr₁ (hok.tail hs₁) hrest
      exact ⟨s', by rw [run_cons, hs₁]; exact hs', hr'⟩

/--
`R` relates a concrete machine to an abstract one on the inputs `ok` allows:
whenever the abstract step is defined, so is the concrete one, and it lands in a
related state.
-/
structure Simulation (cstep : σ → ι → Option σ) (astep : τ → ι → Option τ)
    (ok : ι → Prop) (R : σ → τ → Prop) : Prop where
  /-- One abstract step is matched by one concrete step. -/
  step : ∀ {s : σ} {t t' : τ} {i : ι}, R s t → ok i → astep t i = some t' →
    ∃ s', cstep s i = some s' ∧ R s' t'

/-- **A simulation matches whole runs.** -/
theorem Simulation.run {cstep : σ → ι → Option σ} {astep : τ → ι → Option τ}
    {ok : ι → Prop} {R : σ → τ → Prop} (h : Simulation cstep astep ok R) {s : σ} {t t' : τ}
    (is : List ι) (hr : R s t) (hok : ∀ i ∈ is, ok i) (ha : Machine.run astep t is = some t') :
    ∃ s', Machine.run cstep s is = some s' ∧ R s' t' := by
  have hstep : ∀ s t t' i, R s t → ok i → astep t i = some t' →
      ∃ s', cstep s i = some s' ∧ R s' t' := fun _ _ _ _ hr hok ha => h.step hr hok ha
  have hallowed : Throughout cstep s is (fun _ i => ok i) := .of_mem hok
  exact run_simulated hstep is hr hallowed ha

/-- Simulation by a total machine: every run of allowed inputs is defined and matched. -/
theorem Simulation.run_total {cstep : σ → ι → Option σ} {f : τ → ι → τ} {ok : ι → Prop}
    {R : σ → τ → Prop} (h : Simulation cstep (total f) ok R) {s : σ} {t : τ} {is : List ι}
    (hr : R s t) (hok : ∀ i ∈ is, ok i) :
    ∃ s', Machine.run cstep s is = some s' ∧ R s' (is.foldl f t) :=
  h.run is hr hok (Machine.run_total f t is)

/-! ## Observations -/

/--
The replies a list of calls receives, in order. A call with no defined outcome
contributes a final `none`, and nothing after it is executed.
-/
def trace (call : σ → ι → Option (σ × ο)) : σ → List ι → List (Option ο)
  | _, [] => []
  | s, i :: is =>
      match call s i with
      | none => [none]
      | some (s', o) => some o :: trace call s' is

/-- Related states answer every call alike and stay related. -/
structure Bisimulation (call : σ → ι → Option (σ × ο)) (R : σ → σ → Prop) : Prop where
  /-- Both calls fail, or both succeed with the same reply and related states. -/
  call : ∀ {s t : σ} (i : ι), R s t →
    Option.Rel (fun a b => R a.1 b.1 ∧ a.2 = b.2) (call s i) (call t i)

/-- Related results of one partial computation. -/
theorem rel_map {β γ δ : Type*} {R : γ → δ → Prop} {f : β → γ} {g : β → δ}
    (h : ∀ b, R (f b) (g b)) (x : Option β) : Option.Rel R (x.map f) (x.map g) := by
  cases x with
  | none => exact .none
  | some b => exact .some (h b)

/-- Results related by `R` are related by what `R` implies. -/
theorem rel_imp {β γ : Type*} {R S : β → γ → Prop} {x : Option β} {y : Option γ}
    (hrel : Option.Rel R x y) (h : ∀ b c, R b c → S b c) : Option.Rel S x y := by
  cases hrel with
  | none => exact .none
  | some hr => exact .some (h _ _ hr)

/-- The same of two computations, each with something done to its result. -/
theorem rel_map_imp {β γ δ ε : Type*} {R : β → γ → Prop} {S : δ → ε → Prop} {f : β → δ}
    {g : γ → ε} {x : Option β} {y : Option γ} (hrel : Option.Rel R x y)
    (h : ∀ b c, R b c → S (f b) (g c)) : Option.Rel S (x.map f) (y.map g) := by
  cases hrel with
  | none => exact .none
  | some hr => exact .some (h _ _ hr)

/-- What follows may also depend on how the two results were come to. -/
theorem rel_of_eq {β γ : Type*} {R S : β → γ → Prop} {x : Option β} {y : Option γ}
    (hrel : Option.Rel R x y) (h : ∀ b c, x = some b → y = some c → R b c → S b c) :
    Option.Rel S x y := by
  cases hrel with
  | none => exact .none
  | some hr => exact .some (h _ _ rfl rfl hr)

theorem exists_of_rel {β γ : Type*} {R : β → γ → Prop} {x : Option β} {y : Option γ} {c : γ}
    (hrel : Option.Rel R x y) (hc : y = some c) : ∃ b, x = some b ∧ R b c := by
  subst hc
  cases hrel with
  | some hr => exact ⟨_, rfl, hr⟩

theorem rel_map_of_eq {β γ δ ε : Type*} {R : β → γ → Prop} {S : δ → ε → Prop} {f : β → δ}
    {g : γ → ε} {x : Option β} {y : Option γ} (hrel : Option.Rel R x y)
    (h : ∀ b c, x = some b → R b c → S (f b) (g c)) : Option.Rel S (x.map f) (y.map g) :=
  rel_map_imp (rel_of_eq hrel (fun b c hb _ hr => h b c hb hr)) (fun _ _ hs => hs)

/-- **Bisimilar states give the same replies to every sequence of calls.** -/
theorem Bisimulation.trace_eq {call : σ → ι → Option (σ × ο)} {R : σ → σ → Prop}
    (h : Bisimulation call R) :
    ∀ {s t : σ} (is : List ι), R s t → trace call s is = trace call t is
  | _, _, [], _ => rfl
  | s, t, i :: is, hr => by
      have hcall := h.call i hr
      rw [trace, trace]
      generalize call s i = a at hcall
      generalize call t i = b at hcall
      cases hcall with
      | none => rfl
      | @some a b hab =>
          obtain ⟨a1, a2⟩ := a
          obtain ⟨b1, b2⟩ := b
          obtain ⟨hrel, hout⟩ := hab
          dsimp only at hrel hout ⊢
          rw [hout, h.trace_eq is hrel]

/-! ## Annotated runs of total machines -/

/-- Annotate each input of a run with what `ann` reads off the state it is applied to. -/
def log (f : σ → ι → σ) (ann : σ → ι → ε) : σ → List ι → List ε
  | _, [] => []
  | s, i :: is => ann s i :: log f ann (f s i) is

theorem log_append (f : σ → ι → σ) (ann : σ → ι → ε) :
    ∀ (s : σ) (is js : List ι),
      log f ann s (is ++ js) = log f ann s is ++ log f ann (is.foldl f s) js
  | _, [], _ => rfl
  | s, i :: is, js => by
      rw [List.cons_append, log, log, log_append f ann (f s i) is js]
      rfl

/-- Machines that move in step and annotate alike have the same log. -/
theorem log_of_related {f : σ → ι → σ} {g : τ → ι → τ} {ann : σ → ι → ε} {ann' : τ → ι → ε}
    {R : σ → τ → Prop} (hstep : ∀ s t i, R s t → R (f s i) (g t i))
    (hann : ∀ s t i, R s t → ann s i = ann' t i) :
    ∀ {s : σ} {t : τ} (is : List ι), R s t → log f ann s is = log g ann' t is
  | _, _, [], _ => rfl
  | s, t, i :: is, h => by
      rw [log, log, hann s t i h, log_of_related hstep hann is (hstep s t i h)]

/-- The annotations of a partial run, as far as it goes. -/
def annotate (step : σ → ι → Option σ) (ann : σ → ι → ε) : σ → List ι → List ε
  | _, [] => []
  | s, i :: is => ann s i :: ((step s i).map (fun s' => annotate step ann s' is)).getD []

theorem Throughout.right {step : σ → ι → Option σ} {s s' : σ} {is js : List ι}
    {P : σ → ι → Prop} (h : Throughout step s (is ++ js) P) (hrun : run step s is = some s') :
    Throughout step s' js P := by
  intro pre j post m hsplit hm
  refine h (is ++ pre) j post m (by rw [hsplit, List.append_assoc]) ?_
  rw [run_append, hrun, Option.bind_some, hm]

theorem Throughout.left {step : σ → ι → Option σ} {s : σ} {is js : List ι}
    {P : σ → ι → Prop} (h : Throughout step s (is ++ js) P) : Throughout step s is P := by
  intro pre j post m hsplit hm
  refine h pre j (post ++ js) m ?_ hm
  rw [hsplit, List.append_assoc]
  rfl

/--
**Two machines in lockstep.** The second is told, step by step, what the first
reads off its own state. If their steps fail together and otherwise stay related,
so do their runs.
-/
theorem run_rel {step : σ → ι → Option σ} {astep : τ → ε → Option τ} {ann : σ → ι → ε}
    {R : σ → τ → Prop} {ok : σ → ι → Prop}
    (h : ∀ s t i, R s t → ok s i → Option.Rel R (step s i) (astep t (ann s i))) :
    ∀ {s : σ} {t : τ} (is : List ι), R s t → Throughout step s is ok →
      Option.Rel R (run step s is) (run astep t (annotate step ann s is))
  | _, _, [], hr, _ => .some hr
  | s, t, i :: is, hr, hok => by
      have hone := h s t i hr hok.head
      rw [run_cons, annotate, run_cons]
      generalize astep t (ann s i) = a at hone
      cases hs : step s i with
      | none =>
          rw [hs] at hone
          cases hone
          exact .none
      | some s' =>
          rw [hs] at hone
          cases hone with
          | some hr' => exact run_rel h is hr' (hok.tail hs)

/--
The same in one direction: if every step the second machine takes is matched by one
of the first, every run of the second is.
-/
theorem run_matched {step : σ → ι → Option σ} {astep : τ → ε → Option τ} {ann : σ → ι → ε}
    {R : σ → τ → Prop} {ok : σ → ι → Prop}
    (h : ∀ s t t' i, R s t → ok s i → astep t (ann s i) = some t' →
      ∃ s', step s i = some s' ∧ R s' t') :
    ∀ {s : σ} {t t' : τ} (is : List ι), R s t → Throughout step s is ok →
      run astep t (annotate step ann s is) = some t' → ∃ s', run step s is = some s' ∧ R s' t'
  | s, _, _, [], hr, _, ha => by
      cases ha
      exact ⟨s, rfl, hr⟩
  | s, t, t', i :: is, hr, hok, ha => by
      rw [annotate, run_cons] at ha
      rcases Option.bind_eq_some_iff.mp ha with ⟨t₁, ht₁, hrest⟩
      rcases h s t t₁ i hr hok.head ht₁ with ⟨s₁, hs₁, hr₁⟩
      rw [hs₁, Option.map_some, Option.getD_some] at hrest
      rcases run_matched h is hr₁ (hok.tail hs₁) hrest with ⟨s', hs', hr'⟩
      exact ⟨s', by rw [run_cons, hs₁]; exact hs', hr'⟩

/--
**A component of a machine.** `R` says which state the component `t` of `s` is in.
The steps that are not its own leave it alone, and its own are steps of a machine
`cstep`; then a run takes the component through a run of its own steps.
-/
theorem run_component {κ : Type*} {step : σ → ι → Option σ} {cstep : τ → κ → Option τ}
    {own : ι → Option κ} {R : σ → τ → Prop} {ok : σ → ι → Prop}
    (hframe : ∀ s s' t i, R s t → ok s i → step s i = some s' → own i = none → R s' t)
    (hown : ∀ s s' t i k, R s t → ok s i → step s i = some s' → own i = some k →
      ∃ t', cstep t k = some t' ∧ R s' t') :
    ∀ {s s' : σ} {t : τ} (is : List ι), R s t → Throughout step s is ok →
      run step s is = some s' → ∃ t', run cstep t (is.filterMap own) = some t' ∧ R s' t'
  | s, _, t, [], hr, _, hrun => by
      cases hrun
      exact ⟨t, rfl, hr⟩
  | s, s', t, i :: is, hr, hok, hrun => by
      rcases Option.bind_eq_some_iff.mp hrun with ⟨m, hm, hrest⟩
      rw [List.filterMap_cons]
      cases hi : own i with
      | none =>
          exact run_component hframe hown is (hframe s m t i hr hok.head hm hi)
            (hok.tail hm) hrest
      | some k =>
          rcases hown s m t i k hr hok.head hm hi with ⟨t₁, ht₁, hr₁⟩
          rcases run_component hframe hown is hr₁ (hok.tail hm) hrest with ⟨t', ht', hr'⟩
          exact ⟨t', by rw [run_cons, ht₁]; exact ht', hr'⟩

/-- A machine simulated by a total one has the log of that one. -/
theorem Simulation.annotate_eq {cstep : σ → ι → Option σ} {f : τ → ι → τ} {ok : ι → Prop}
    {R : σ → τ → Prop} {ann : σ → ι → ε} {ann' : τ → ι → ε}
    (h : Simulation cstep (total f) ok R) (hann : ∀ s t i, R s t → ann s i = ann' t i) :
    ∀ {s : σ} {t : τ} (is : List ι), R s t → (∀ i ∈ is, ok i) →
      annotate cstep ann s is = log f ann' t is
  | _, _, [], _, _ => rfl
  | s, t, i :: is, hr, hok => by
      obtain ⟨s', hs', hr'⟩ := h.step hr (hok i (List.mem_cons_self ..)) rfl
      rw [annotate, log, hs', hann s t i hr, Option.map_some, Option.getD_some,
        h.annotate_eq hann is hr' (fun j hj => hok j (List.mem_cons_of_mem _ hj))]

/-- Every annotation comes from some point of the run. -/
theorem mem_log {f : σ → ι → σ} {ann : σ → ι → ε} {e : ε} :
    ∀ {s : σ} {is : List ι}, e ∈ log f ann s is →
      ∃ pre i post, is = pre ++ i :: post ∧ e = ann (pre.foldl f s) i
  | _, [], h => by cases h
  | s, i :: is, h => by
      rcases List.mem_cons.mp h with h | h
      · exact ⟨[], i, is, rfl, h⟩
      · obtain ⟨pre, j, post, his, he⟩ := mem_log h
        exact ⟨i :: pre, j, post, by rw [his]; rfl, he⟩

/-- Where a log is cut, the run is cut. -/
theorem log_eq_append {f : σ → ι → σ} {ann : σ → ι → ε} {e : ε} :
    ∀ {s : σ} {is : List ι} {l r : List ε}, log f ann s is = l ++ e :: r →
      ∃ pre i post, is = pre ++ i :: post ∧ l = log f ann s pre
        ∧ e = ann (pre.foldl f s) i ∧ r = log f ann ((pre ++ [i]).foldl f s) post
  | _, [], l, _, h => by cases l <;> exact absurd h (by simp [log])
  | s, i :: is, [], r, h => by
      obtain ⟨he, hr⟩ := List.cons.inj h
      exact ⟨[], i, is, rfl, rfl, he.symm, hr.symm⟩
  | s, i :: is, d :: l, r, h => by
      obtain ⟨hd, htail⟩ := List.cons.inj h
      obtain ⟨pre, j, post, his, hl, he, hr⟩ := log_eq_append htail
      exact ⟨i :: pre, j, post, by rw [his]; rfl, by rw [← hd, hl]; rfl, he, hr⟩

end Machine
