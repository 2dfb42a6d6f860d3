import GBMU.Common.Macro

/-!
# The lowest set bit, and the empty set

`bit_lsb` multiplies the isolated bit by a cycle number and looks the top bits up
in a table. `bitLsb_eq` says that this finds the least set bit of any set that has
one. The empty set isolates nothing: its product is zero, which is the key of bit
0, so its result is 0 where the comment on `bit_lsb` announces 32.
-/

namespace GBMU

/-- The contract of `bit_lsb`, with what its table access and its product need. -/
structure LsbContract (bitset : U16) : Prop where
  /-- Of a set that is not empty, the least member. -/
  least : bitset ≠ 0 → ∃ i, Bits.LeastSet bitset i ∧ bitLsb bitset = i
  /-- Of the empty set, 32. -/
  empty : bitset = 0 → bitLsb bitset = 32
  /-- The key is an index of the table. -/
  index : (lsbCycleKey (lsbMask bitset)).toNat < 16
  /-- The product of the two promoted operands is an `int`. -/
  product : (lsbMask bitset).toNat * magickCycleNum.toNat ≤ 0x7FFFFFFF

/-- The whole range of the mask is harmless, not only isolated bits. -/
theorem lsbProduct_le (mask : U16) : mask.toNat * magickCycleNum.toNat ≤ 0x7FFFFFFF := by
  have hmask : mask.toNat < 65536 := mask.isLt
  have hnum : magickCycleNum.toNat = 19832 := by decide
  rw [hnum]
  omega

theorem bitLsb_least {bitset : U16} (h : bitset ≠ 0) :
    ∃ i, Bits.LeastSet bitset i ∧ bitLsb bitset = i := by
  obtain ⟨n, hn⟩ := Bits.ne_zero_iff.mp h
  obtain ⟨i, _, hi⟩ := Bits.exists_leastSet hn
  exact ⟨i, hi, bitLsb_eq hi⟩

/-- The empty set has the key of bit 0. -/
theorem bitLsb_zero : bitLsb 0 = 0 := by decide

/-- **`bit_lsb` keeps its contract on every set but the empty one.** -/
theorem lsbContract_iff (bitset : U16) : LsbContract bitset ↔ bitset ≠ 0 := by
  constructor
  · intro h hzero
    subst hzero
    have h32 := h.empty rfl
    rw [bitLsb_zero] at h32
    exact absurd h32 (by decide)
  · intro h
    exact {
      least := bitLsb_least
      empty := fun hzero => absurd hzero h
      index := lsbCycleKey_lt _
      product := lsbProduct_le _ }

/-- The empty set, of which `bit_lsb` answers 0. -/
theorem lsbContract_empty_set : ¬ LsbContract 0 ∧ bitLsb 0 = 0 := by
  refine ⟨fun h => ?_, by decide⟩
  have h32 := h.empty rfl
  rw [bitLsb_zero] at h32
  exact absurd h32 (by decide)

end GBMU
