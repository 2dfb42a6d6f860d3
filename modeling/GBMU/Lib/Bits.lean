import Mathlib.Data.Nat.Bits
import Mathlib.Order.Basic

/-!
# Words as sets of bits

A word of width `w` is read here as the set of positions `i < w` with
`x.getLsbD i = true`. Setting a bit inserts, clearing a bit removes, and
`x &&& -x` keeps the least element only. Every fact is stated at an arbitrary
width and position by position, so that a word equation is proved by comparing
one bit at a time.
-/

namespace Bits

variable {w : Nat}

/-- `1 << n` is the singleton `{n}`. -/
theorem getLsbD_one_shiftLeft (n i : Nat) :
    (1#w <<< n).getLsbD i = (decide (i < w) && decide (i = n)) := by
  rw [← BitVec.twoPow_eq, BitVec.getLsbD_twoPow]
  by_cases hin : i = n
  · subst hin; simp
  · simp [hin, Ne.symm hin]

/-- `x | (1 << n)` inserts `n`. -/
theorem getLsbD_or_one_shiftLeft (x : BitVec w) (n i : Nat) :
    (x ||| 1#w <<< n).getLsbD i = (x.getLsbD i || (decide (i < w) && decide (i = n))) := by
  rw [BitVec.getLsbD_or, getLsbD_one_shiftLeft]

/-- `x & ~(1 << n)` removes `n`. -/
theorem getLsbD_and_not_one_shiftLeft (x : BitVec w) (n i : Nat) :
    (x &&& ~~~(1#w <<< n)).getLsbD i = (x.getLsbD i && !decide (i = n)) := by
  rw [BitVec.getLsbD_and, BitVec.getLsbD_not, getLsbD_one_shiftLeft]
  by_cases hi : i < w
  · simp [hi]
  · simp [BitVec.getLsbD_of_ge x i (Nat.le_of_not_lt hi)]

/-- `x & (1 << n)` is non-zero exactly when `n` is in the set. -/
theorem and_one_shiftLeft_ne_zero (x : BitVec w) (n : Nat) :
    (x &&& (1#w <<< n) != 0#w) = x.getLsbD n := by
  have hbit : ∀ i, (x &&& (1#w <<< n)).getLsbD i = (x.getLsbD n && decide (i = n)) := by
    intro i
    rw [BitVec.getLsbD_and, getLsbD_one_shiftLeft]
    by_cases hin : i = n
    · subst hin
      by_cases hi : i < w
      · simp [hi]
      · simp [BitVec.getLsbD_of_ge x i (Nat.le_of_not_lt hi)]
    · simp [hin]
  cases hn : x.getLsbD n with
  | false =>
      have : x &&& (1#w <<< n) = 0#w := by
        refine BitVec.eq_of_getLsbD_eq (fun i _ => ?_)
        rw [hbit, hn]; simp
      rw [this]; simp
  | true =>
      refine bne_iff_ne.mpr (fun he => ?_)
      have := hbit n
      rw [he, hn] at this
      simp at this

/-- A word is zero when it has no position. -/
theorem ne_zero_iff {x : BitVec w} : x ≠ 0#w ↔ ∃ i, x.getLsbD i = true := by
  constructor
  · intro hx
    by_contra hnone
    refine hx (BitVec.eq_of_getLsbD_eq (fun i _ => ?_))
    cases hi : x.getLsbD i with
    | false => simp
    | true => exact absurd ⟨i, hi⟩ hnone
  · rintro ⟨i, hi⟩ rfl
    simp at hi

/-- A run of `size` ones starting at position `lo`. -/
theorem getLsbD_mask {lo size : Nat} (hsize : size ≤ w) (i : Nat) :
    ((BitVec.allOnes w >>> (w - size)) <<< lo).getLsbD i
      = (decide (i < w) && decide (lo ≤ i) && decide (i < lo + size)) := by
  rw [BitVec.getLsbD_shiftLeft, BitVec.getLsbD_ushiftRight, BitVec.getLsbD_allOnes]
  by_cases hi : i < w
  · by_cases hlo : i < lo
    · have : ¬ lo ≤ i := by omega
      simp [hlo, this]
    · have hle : lo ≤ i := by omega
      simp only [hi, hlo, hle, decide_true, decide_false, Bool.not_false, Bool.true_and]
      exact decide_eq_decide.mpr (by omega)
  · simp [hi]

/-! ## The least set bit -/

/-- `i` is the least position set in `x`. -/
structure LeastSet (x : BitVec w) (i : Nat) : Prop where
  /-- The position is set. -/
  set : x.getLsbD i = true
  /-- No position below it is. -/
  below : ∀ j < i, x.getLsbD j = false

theorem LeastSet.lt {x : BitVec w} {i : Nat} (h : LeastSet x i) : i < w := by
  rcases Nat.lt_or_ge i w with hlt | hge
  · exact hlt
  · have := h.set
    rw [BitVec.getLsbD_of_ge x i hge] at this
    exact Bool.noConfusion this

/-- A word with a set position has a least one, no higher. -/
theorem exists_leastSet {x : BitVec w} {n : Nat} (h : x.getLsbD n = true) :
    ∃ i, i ≤ n ∧ LeastSet x i := by
  induction n using Nat.strongRecOn with
  | ind n ih =>
    -- go down while something below is set
    by_cases hb : ∃ j, j < n ∧ x.getLsbD j = true
    · obtain ⟨j, hjn, hj⟩ := hb
      obtain ⟨i, hij, hi⟩ := ih j hjn hj
      exact ⟨i, by omega, hi⟩
    · refine ⟨n, Nat.le_refl n, h, fun j hj => ?_⟩
      cases hx : x.getLsbD j with
      | false => rfl
      | true => exact absurd ⟨j, hj, hx⟩ hb

/-- **`x & -x` isolates the least set bit.** -/
theorem and_neg_eq_one_shiftLeft {x : BitVec w} {i : Nat} (h : LeastSet x i) :
    x &&& -x = 1#w <<< i := by
  refine BitVec.eq_of_getLsbD_eq (fun j hj => ?_)
  rw [BitVec.getLsbD_and, BitVec.getLsbD_neg, getLsbD_one_shiftLeft]
  rcases Nat.lt_trichotomy j i with hlt | heq | hgt
  · have : j ≠ i := by omega
    simp [h.below j hlt, this]
  · subst heq
    have hnone : ¬ ∃ k < j, x.getLsbD k = true := by
      intro hset
      rcases hset with ⟨k, hk, hx⟩
      rw [h.below k hk] at hx
      exact Bool.noConfusion hx
    simp only [h.set, hnone, hj, decide_true, decide_false, Bool.and_false, Bool.bne_false,
      Bool.and_self]
  · -- above the least bit, negation complements
    have hsome : ∃ k < j, x.getLsbD k = true := ⟨i, hgt, h.set⟩
    have hne : j ≠ i := by omega
    simp only [hsome, hj, hne, decide_true, decide_false, Bool.and_true, Bool.and_false]
    cases x.getLsbD j <;> rfl

end Bits
