import Mathlib.Algebra.Group.Nat.Defs
import GBMU.Lib.Bits

/-!
# Fields of words

A field is a run of `size` bits of a word, from bit `lo` up. `get` reads it into
the low bits, `put` replaces it. Both go through a mask, and a field may fill the
word or touch either end of it.

Reading and replacing follow the laws of a lens: what is put is got, up to the
field's width; putting back what is got changes nothing; the second of two puts
wins. Fields that share no bit are independent. Each law compares one bit at a
time, and `getLsbD_get` and `getLsbD_put` say what a bit is.
-/

namespace BitField

variable {w : Nat}

def mask (w lo size : Nat) : BitVec w := (BitVec.allOnes w >>> (w - size)) <<< lo

def get (lo size : Nat) (x : BitVec w) : BitVec w := (mask w lo size &&& x) >>> lo

def put (lo size : Nat) (x v : BitVec w) : BitVec w :=
  ((v <<< lo) &&& mask w lo size) ||| (x &&& ~~~mask w lo size)

/-- Two fields share no bit. -/
def Disjoint (lo size lo' size' : Nat) : Prop := lo + size ≤ lo' ∨ lo' + size' ≤ lo

/-! ## One bit -/

theorem getLsbD_get {lo size : Nat} (hfit : lo + size ≤ w) (x : BitVec w) (i : Nat) :
    (get lo size x).getLsbD i = (decide (i < size) && x.getLsbD (lo + i)) := by
  have hsize : size ≤ w := by omega
  rw [get, BitVec.getLsbD_ushiftRight, BitVec.getLsbD_and, mask, Bits.getLsbD_mask hsize]
  by_cases hi : i < size
  · have hlt : lo + i < w := by omega
    simp [hi, hlt]
  · simp [hi]

theorem getLsbD_put {lo size : Nat} (hfit : lo + size ≤ w) (x v : BitVec w) (i : Nat) :
    (put lo size x v).getLsbD i
      = if lo ≤ i ∧ i < lo + size then v.getLsbD (i - lo) else x.getLsbD i := by
  have hsize : size ≤ w := by omega
  rw [put, BitVec.getLsbD_or, BitVec.getLsbD_and, BitVec.getLsbD_and, BitVec.getLsbD_not,
    BitVec.getLsbD_shiftLeft, mask, Bits.getLsbD_mask hsize]
  by_cases hin : lo ≤ i ∧ i < lo + size
  · obtain ⟨hlo, hhi⟩ := hin
    have hw : i < w := by omega
    have hnlo : ¬ i < lo := by omega
    simp [hlo, hhi, hw, hnlo]
  · -- outside the field the mask is clear, and past the word there is nothing
    rw [if_neg hin]
    by_cases hw : i < w
    · by_cases hlo : lo ≤ i
      · have hhi : ¬ i < lo + size := fun h => hin ⟨hlo, h⟩
        simp [hlo, hhi, hw]
      · simp [hlo, hw]
    · simp [hw, BitVec.getLsbD_of_ge x i (by omega)]

/-- A put leaves the other bits of the word as they were. -/
theorem getLsbD_put_outside {lo size : Nat} (hfit : lo + size ≤ w) (x v : BitVec w) {i : Nat}
    (hi : i < lo ∨ lo + size ≤ i) : (put lo size x v).getLsbD i = x.getLsbD i := by
  rw [getLsbD_put hfit, if_neg (by omega)]

/-! ## The laws -/

theorem toNat_get_put {lo size : Nat} (hfit : lo + size ≤ w) (x v : BitVec w) :
    (get lo size (put lo size x v)).toNat = v.toNat % 2 ^ size := by
  refine Nat.eq_of_testBit_eq (fun i => ?_)
  rw [BitVec.testBit_toNat, getLsbD_get hfit, getLsbD_put hfit, Nat.testBit_mod_two_pow,
    BitVec.testBit_toNat, Nat.add_sub_cancel_left]
  by_cases hi : i < size
  · rw [if_pos ⟨Nat.le_add_right lo i, Nat.add_lt_add_left hi lo⟩]
  · rw [decide_eq_false hi, Bool.false_and, Bool.false_and]

theorem put_get {lo size : Nat} (hfit : lo + size ≤ w) (x : BitVec w) :
    put lo size x (get lo size x) = x := by
  refine BitVec.eq_of_getLsbD_eq (fun i _ => ?_)
  rw [getLsbD_put hfit, getLsbD_get hfit]
  by_cases hin : lo ≤ i ∧ i < lo + size
  · have hi : i - lo < size := by omega
    have hback : lo + (i - lo) = i := by omega
    rw [if_pos hin, decide_eq_true hi, Bool.true_and, hback]
  · rw [if_neg hin]

theorem put_put {lo size : Nat} (hfit : lo + size ≤ w) (x u v : BitVec w) :
    put lo size (put lo size x u) v = put lo size x v := by
  refine BitVec.eq_of_getLsbD_eq (fun i _ => ?_)
  rw [getLsbD_put hfit, getLsbD_put hfit, getLsbD_put hfit]
  by_cases hin : lo ≤ i ∧ i < lo + size
  · rw [if_pos hin, if_pos hin]
  · rw [if_neg hin, if_neg hin, if_neg hin]

/-! ## Two fields -/

section Independent

variable {lo size lo' size' : Nat}

/-- A put into one field is not seen by a get of the other. -/
theorem get_put_of_disjoint (hfit : lo + size ≤ w) (hfit' : lo' + size' ≤ w)
    (hdisj : Disjoint lo size lo' size') (x v : BitVec w) :
    get lo' size' (put lo size x v) = get lo' size' x := by
  refine BitVec.eq_of_getLsbD_eq (fun i _ => ?_)
  rw [getLsbD_get hfit', getLsbD_get hfit']
  by_cases hi : i < size'
  · have hout : lo' + i < lo ∨ lo + size ≤ lo' + i := by
      rcases hdisj with h | h <;> omega
    rw [getLsbD_put_outside hfit x v hout]
  · rw [decide_eq_false hi, Bool.false_and, Bool.false_and]

/-- **Puts into two fields commute.** -/
theorem put_comm (hfit : lo + size ≤ w) (hfit' : lo' + size' ≤ w)
    (hdisj : Disjoint lo size lo' size') (x u v : BitVec w) :
    put lo' size' (put lo size x u) v = put lo size (put lo' size' x v) u := by
  refine BitVec.eq_of_getLsbD_eq (fun i _ => ?_)
  rw [getLsbD_put hfit', getLsbD_put hfit, getLsbD_put hfit, getLsbD_put hfit']
  by_cases hin : lo ≤ i ∧ i < lo + size
  · have hin' : ¬ (lo' ≤ i ∧ i < lo' + size') := by
      rcases hdisj with h | h <;> omega
    rw [if_neg hin', if_pos hin, if_pos hin]
  · rw [if_neg hin, if_neg hin]

end Independent

end BitField
