import GBMU.Lib.Machine

/-!
# Calls that may throw

A call returns or throws, and leaves a state either way. The program of `caught`
catches what its calls throw and goes on from the state they leave; `endings` is the
record of how they ended, one after the other.

`caught_rel` and `caught_matched` are `Machine.run_rel` and `Machine.run_matched` for
such programs. If every call of one machine ends like the call of the other, in
related states, then so do all the calls of a run.
-/

/-- How a call ends, and the state it leaves. -/
inductive Outcome (σ : Type*) where
  | returned (s : σ)
  | threw (s : σ)

/-- How a call ends. -/
inductive Ending where
  | returned
  | threw
  deriving DecidableEq

namespace Outcome

variable {σ τ υ φ : Type*}

/-- The state a call leaves, however it ends. -/
def state : Outcome σ → σ
  | .returned s => s
  | .threw s => s

def ending : Outcome σ → Ending
  | .returned _ => .returned
  | .threw _ => .threw

def map (f : σ → τ) : Outcome σ → Outcome τ
  | .returned s => .returned (f s)
  | .threw s => .threw (f s)

/-- Ended alike, in related states. -/
inductive Rel (R : σ → τ → Prop) : Outcome σ → Outcome τ → Prop where
  | returned {s : σ} {t : τ} (h : R s t) : Rel R (.returned s) (.returned t)
  | threw {s : σ} {t : τ} (h : R s t) : Rel R (.threw s) (.threw t)

@[simp] theorem state_map (f : σ → τ) (o : Outcome σ) : (o.map f).state = f o.state := by
  cases o <;> rfl

theorem Rel.state {R : σ → τ → Prop} {o : Outcome σ} {e : Outcome τ} (h : Rel R o e) :
    R o.state e.state := by
  cases h with
  | returned h => exact h
  | threw h => exact h

theorem Rel.ending {R : σ → τ → Prop} {o : Outcome σ} {e : Outcome τ} (h : Rel R o e) :
    o.ending = e.ending := by
  cases h <;> rfl

/-- Something may be done to the states left, and it may depend on them. -/
theorem Rel.map {R : σ → τ → Prop} {S : υ → φ → Prop} {o : Outcome σ} {e : Outcome τ}
    {f : σ → υ} {g : τ → φ} (h : Rel R o e)
    (hstate : R o.state e.state → S (f o.state) (g e.state)) : Rel S (o.map f) (e.map g) := by
  cases h with
  | returned h => exact .returned (hstate h)
  | threw h => exact .threw (hstate h)

end Outcome

namespace Machine

variable {σ τ ι ε : Type*}

/-- A machine whose program catches what its calls throw. -/
def caught (exec : σ → ι → Option (Outcome σ)) (s : σ) (i : ι) : Option σ :=
  (exec s i).map Outcome.state

/--
How the calls of a run end, in order. A call with no defined outcome contributes a
final `none`, and nothing after it is executed.
-/
def endings (exec : σ → ι → Option (Outcome σ)) : σ → List ι → List (Option Ending)
  | _, [] => []
  | s, i :: is =>
      match exec s i with
      | none => [none]
      | some o => some o.ending :: endings exec o.state is

theorem caught_eq_some {exec : σ → ι → Option (Outcome σ)} {s s' : σ} {i : ι} :
    caught exec s i = some s' ↔ ∃ o, exec s i = some o ∧ o.state = s' :=
  Option.map_eq_some_iff

variable {exec : σ → ι → Option (Outcome σ)} {aexec : τ → ε → Option (Outcome τ)}
  {ann : σ → ι → ε} {R : σ → τ → Prop} {ok : σ → ι → Prop}

/--
**Two machines in lockstep, exceptions included.** The second is told, call by call,
what the first reads off its own state. If their calls fail together and otherwise
end alike in related states, the calls of a run end alike, one by one, and the runs
fail together or come to related states.
-/
theorem caught_rel
    (h : ∀ s t i, R s t → ok s i → Option.Rel (Outcome.Rel R) (exec s i) (aexec t (ann s i)))
    {s : σ} {t : τ} (is : List ι) (hr : R s t) (hok : Throughout (caught exec) s is ok) :
    endings exec s is = endings aexec t (annotate (caught exec) ann s is)
      ∧ Option.Rel R (run (caught exec) s is)
          (run (caught aexec) t (annotate (caught exec) ann s is)) := by
  have hcaught : ∀ s t i, R s t → ok s i →
      Option.Rel R (caught exec s i) (caught aexec t (ann s i)) :=
    fun s t i hr hok => rel_map_imp (h s t i hr hok) (fun _ _ ho => ho.state)
  refine ⟨?_, run_rel hcaught is hr hok⟩
  induction is generalizing s t with
  | nil => rfl
  | cons i is ih =>
      have hone := h s t i hr hok.head
      rw [endings, annotate, endings]
      generalize aexec t (ann s i) = a at hone
      cases ho : exec s i with
      | none =>
          rw [ho] at hone
          cases hone
          rfl
      | some o =>
          have hnext : caught exec s i = some o.state := caught_eq_some.mpr ⟨o, ho, rfl⟩
          rw [ho] at hone
          cases hone with
          | some hoe =>
              dsimp only
              rw [hnext, Option.map_some, Option.getD_some, hoe.ending,
                ih hoe.state (hok.tail hnext)]

/--
The same in one direction: if every call the second machine makes is matched by one of
the first, every run of the second is.
-/
theorem caught_matched
    (h : ∀ s t i e, R s t → ok s i → aexec t (ann s i) = some e →
      ∃ o, exec s i = some o ∧ Outcome.Rel R o e)
    {s : σ} {t t' : τ} (is : List ι) (hr : R s t) (hok : Throughout (caught exec) s is ok)
    (hrun : run (caught aexec) t (annotate (caught exec) ann s is) = some t') :
    endings exec s is = endings aexec t (annotate (caught exec) ann s is)
      ∧ ∃ s', run (caught exec) s is = some s' ∧ R s' t' := by
  refine ⟨?_, run_matched ?_ is hr hok hrun⟩
  · induction is generalizing s t with
    | nil => rfl
    | cons i is ih =>
        rw [annotate, run_cons] at hrun
        obtain ⟨t₁, ht₁, hrest⟩ := Option.bind_eq_some_iff.mp hrun
        obtain ⟨e, he, rfl⟩ := caught_eq_some.mp ht₁
        obtain ⟨o, ho, hoe⟩ := h s t i e hr hok.head he
        have hnext : caught exec s i = some o.state := caught_eq_some.mpr ⟨o, ho, rfl⟩
        rw [hnext, Option.map_some, Option.getD_some] at hrest
        rw [endings, annotate, endings, ho, he]
        dsimp only
        rw [hnext, Option.map_some, Option.getD_some, hoe.ending,
          ih hoe.state (hok.tail hnext) hrest]
  · intro s t t' i hr hok ht
    obtain ⟨e, he, rfl⟩ := caught_eq_some.mp ht
    obtain ⟨o, ho, hoe⟩ := h s t i e hr hok he
    exact ⟨o.state, caught_eq_some.mpr ⟨o, ho, rfl⟩, hoe.state⟩

end Machine
