import GBMU.Lib.Machine

/-!
# What can be observed of a machine

Two states are `Equivalent` when no sequence of calls tells them apart. One
call never tells equivalent states apart and leaves them equivalent
(`Equivalent.rel`), and every bisimulation implies equivalence
(`Bisimulation.equivalent`). To show that states are equivalent one
gives a bisimulation; to show that they are not, or to read off two equivalent
states what they must have in common, one goes through experiments: a call that
is answered on one side is answered alike on the other, and equivalent states are
left (`Equivalent.answered`, `Equivalent.run`).

`Unwinding` is the other question, what some calls can learn of others. If the
calls that are not `low` never fail and move to states that the low ones cannot
tell apart, then the low ones are answered as if the others had never been made
(`Unwinding.purge`).
-/

namespace Machine

variable {σ ι ο : Type*} {call : σ → ι → Option (σ × ο)}

/-! ## Equivalence -/

/-- No sequence of calls tells the two states apart. -/
def Equivalent (call : σ → ι → Option (σ × ο)) (s t : σ) : Prop :=
  ∀ is, trace call s is = trace call t is

theorem Equivalent.symm {s t : σ} (h : Equivalent call s t) : Equivalent call t s :=
  fun is => (h is).symm

/-- A call answered on one side is answered alike on the other. -/
theorem Equivalent.answered {s s' t : σ} {i : ι} {o : ο} (h : Equivalent call s t)
    (hcall : call s i = some (s', o)) : ∃ t', call t i = some (t', o) ∧ Equivalent call s' t' := by
  have htrace : ∀ is, some o :: trace call s' is = trace call t (i :: is) := by
    intro is
    rw [← h (i :: is), trace, hcall]
  cases ht : call t i with
  | none =>
      have hnil := htrace []
      simp only [trace, ht] at hnil
      cases hnil
  | some p =>
      obtain ⟨t', o'⟩ := p
      have hnil := htrace []
      simp only [trace, ht] at hnil
      cases hnil
      refine ⟨t', rfl, fun is => ?_⟩
      have hcons := htrace is
      rw [trace, ht] at hcons
      exact (List.cons.inj hcons).2

theorem Equivalent.unanswered {s t : σ} {i : ι} (h : Equivalent call s t)
    (hcall : call s i = none) : call t i = none := by
  cases ht : call t i with
  | none => rfl
  | some p =>
      rcases h.symm.answered ht with ⟨s', hs', _⟩
      rw [hcall] at hs'
      cases hs'

/-- Equivalent states fail together, or answer alike and stay equivalent. -/
theorem Equivalent.rel {s t : σ} (h : Equivalent call s t) (i : ι) :
    Option.Rel (fun a b => Equivalent call a.1 b.1 ∧ a.2 = b.2) (call s i) (call t i) := by
  cases hs : call s i with
  | none =>
      rw [h.unanswered hs]
      exact .none
  | some p =>
      rcases h.answered hs with ⟨t', ht', hequiv⟩
      rw [ht']
      exact .some ⟨hequiv, rfl⟩

/-- **Every bisimulation is contained in equivalence.** -/
theorem Bisimulation.equivalent {R : σ → σ → Prop} (hb : Bisimulation call R) {s t : σ}
    (hr : R s t) : Equivalent call s t := fun is => hb.trace_eq is hr

/-- After calls that are answered on both sides, equivalent states are equivalent still. -/
theorem Equivalent.run {s s' t t' : σ} (is : List ι) (h : Equivalent call s t)
    (hs : run (fun s i => (call s i).map Prod.fst) s is = some s')
    (ht : run (fun s i => (call s i).map Prod.fst) t is = some t') : Equivalent call s' t' := by
  induction is generalizing s t with
  | nil =>
      cases hs
      cases ht
      exact h
  | cons i is ih =>
      rcases Option.bind_eq_some_iff.mp hs with ⟨s₁, hs₁, hs⟩
      rcases Option.bind_eq_some_iff.mp ht with ⟨t₁, ht₁, ht⟩
      rcases Option.map_eq_some_iff.mp hs₁ with ⟨p, hp, rfl⟩
      rcases Option.map_eq_some_iff.mp ht₁ with ⟨q, hq, rfl⟩
      rcases h.answered hp with ⟨t', ht', hequiv⟩
      rw [hq] at ht'
      cases ht'
      exact ih hequiv hs ht

/-! ## Calls that leave no mark -/

/-- The replies to the low calls of a run, in order. -/
def lowTrace (call : σ → ι → Option (σ × ο)) (low : ι → Bool) : σ → List ι → List (Option ο)
  | _, [] => []
  | s, i :: is =>
      match call s i with
      | none => [none]
      | some (s', o) =>
          if low i then some o :: lowTrace call low s' is else lowTrace call low s' is

/-- `R` relates states that the low calls cannot tell apart, and the others keep it on one side. -/
structure Unwinding (call : σ → ι → Option (σ × ο)) (low : ι → Bool) (R : σ → σ → Prop) :
    Prop where
  /-- A low call fails on both sides, or is answered alike and leaves related states. -/
  lowCall : ∀ {s t : σ} (i : ι), low i = true → R s t →
    Option.Rel (fun a b => R a.1 b.1 ∧ a.2 = b.2) (call s i) (call t i)
  /-- Any other call is answered, and leaves a related state. -/
  highCall : ∀ {s t : σ} (i : ι), low i = false → R s t →
    ∃ s' o, call s i = some (s', o) ∧ R s' t

/-- **Low calls are answered as if the others had never been made.** -/
theorem Unwinding.purge {low : ι → Bool} {R : σ → σ → Prop} (h : Unwinding call low R) {s t : σ}
    (is : List ι) (hr : R s t) : lowTrace call low s is = trace call t (is.filter low) := by
  induction is generalizing s t with
  | nil => rfl
  | cons i is ih =>
      cases hlow : low i with
      | false =>
          rcases h.highCall i hlow hr with ⟨s', o, hcall, hr'⟩
          rw [lowTrace, hcall, List.filter_cons_of_neg (by simp [hlow])]
          simp only [hlow, Bool.false_eq_true, if_false]
          exact ih hr'
      | true =>
          have hcall := h.lowCall i hlow hr
          rw [lowTrace, List.filter_cons_of_pos hlow, trace]
          generalize call s i = a at hcall
          generalize call t i = b at hcall
          cases hcall with
          | none => rfl
          | @some a b hab =>
              obtain ⟨s', o⟩ := a
              obtain ⟨t', o'⟩ := b
              obtain ⟨hr', ho⟩ := hab
              dsimp only at hr' ho ⊢
              rw [ho, hlow, if_pos rfl, ih hr']

end Machine
