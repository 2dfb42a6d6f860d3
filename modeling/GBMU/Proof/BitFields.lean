import GBMU.Common.Macro

/-!
# Ranges of bits are fields

`bit_slice` and `bit_slice_inject` at one range `[msbi:lsbi]` read and replace one
field of a 32-bit word. The range may be a single bit or the whole word: the mask
is built by two shifts, and neither reaches 32 places.
-/

namespace GBMU

/-! ## Every shift is defined -/

theorem bitMask?_eq {msbi lsbi : U32} (hle : lsbi ≤ msbi) (hlt : msbi < 32) :
    bitMask? msbi lsbi = some (bitMask msbi lsbi) := by
  have hle' : lsbi.toNat ≤ msbi.toNat := hle
  have hlt' : msbi.toNat < 32 := hlt
  have hright : 32#32 - (msbi - lsbi + 1) < 32 := by
    show (32#32 - (msbi - lsbi + 1)).toNat < 32
    rw [toNat_maskShift hle hlt]
    omega
  have hleft : lsbi < 32 := show lsbi.toNat < 32 by omega
  show (shr? (-1) (32#32 - (msbi - lsbi + 1))).bind _ = _
  rw [shr?, if_pos hright, Option.bind_some, shl?, if_pos hleft]
  rfl

theorem bitSlice?_eq {msbi lsbi : U32} (hle : lsbi ≤ msbi) (hlt : msbi < 32) (bitset : U32) :
    bitSlice? msbi lsbi bitset = some (bitSlice msbi lsbi bitset) := by
  have hright : lsbi < 32 := Nat.lt_of_le_of_lt hle hlt
  rw [bitSlice?, bitMask?_eq hle hlt, Option.bind_some, shr?, if_pos hright]
  rfl

theorem bitSliceInject?_eq {msbi lsbi : U32} (hle : lsbi ≤ msbi) (hlt : msbi < 32)
    (dst val : U32) :
    bitSliceInject? msbi lsbi dst val = some (bitSliceInject msbi lsbi dst val) := by
  have hleft : lsbi < 32 := Nat.lt_of_le_of_lt hle hlt
  rw [bitSliceInject?, bitMask?_eq hle hlt, Option.bind_some, shl?, if_pos hleft]
  rfl

/-! ## The field laws -/

/-- Ranges that do not meet are fields that share no bit. -/
theorem disjoint_ranges {msbi lsbi msbi' lsbi' : U32} (hle : lsbi ≤ msbi) (hle' : lsbi' ≤ msbi')
    (h : msbi < lsbi' ∨ msbi' < lsbi) :
    BitField.Disjoint lsbi.toNat (msbi.toNat - lsbi.toNat + 1) lsbi'.toNat
      (msbi'.toNat - lsbi'.toNat + 1) := by
  have h₁ : lsbi.toNat ≤ msbi.toNat := hle
  have h₂ : lsbi'.toNat ≤ msbi'.toNat := hle'
  rcases h with h | h
  · have h₃ : msbi.toNat < lsbi'.toNat := h
    exact Or.inl (by omega)
  · have h₃ : msbi'.toNat < lsbi.toNat := h
    exact Or.inr (by omega)

theorem getLsbD_bitSliceInject_outside {msbi lsbi : U32} (hle : lsbi ≤ msbi) (hlt : msbi < 32)
    (dst val : U32) {i : Nat} (hi : i < lsbi.toNat ∨ msbi.toNat < i) :
    (bitSliceInject msbi lsbi dst val).getLsbD i = dst.getLsbD i := by
  have hle' : lsbi.toNat ≤ msbi.toNat := hle
  rw [bitSliceInject_eq hle hlt]
  exact BitField.getLsbD_put_outside (range_fits hle hlt) dst val (by omega)

/--
**A range of a word is a lawful field.**

For any range `[msbi:lsbi]` of a 32-bit word: every shift is by less than 32;
slicing what was injected gives the value cut to the width of the range; injecting
the slice changes nothing; the second of two injections wins; the bits outside the
range are left alone; and at a range that shares no bit with it neither injection
is seen by the other's slice, and the two commute.
-/
theorem bit_range_is_field {msbi lsbi : U32} (hle : lsbi ≤ msbi) (hlt : msbi < 32)
    (dst v w : U32) :
    (bitMask? msbi lsbi = some (bitMask msbi lsbi)
      ∧ bitSlice? msbi lsbi dst = some (bitSlice msbi lsbi dst)
      ∧ bitSliceInject? msbi lsbi dst v = some (bitSliceInject msbi lsbi dst v))
    ∧ (bitSlice msbi lsbi (bitSliceInject msbi lsbi dst v)).toNat
        = v.toNat % 2 ^ (msbi.toNat - lsbi.toNat + 1)
    ∧ bitSliceInject msbi lsbi dst (bitSlice msbi lsbi dst) = dst
    ∧ bitSliceInject msbi lsbi (bitSliceInject msbi lsbi dst v) w
        = bitSliceInject msbi lsbi dst w
    ∧ (∀ i : Nat, i < lsbi.toNat ∨ msbi.toNat < i →
        (bitSliceInject msbi lsbi dst v).getLsbD i = dst.getLsbD i)
    ∧ ∀ msbi' lsbi' : U32, lsbi' ≤ msbi' → msbi' < 32 → msbi < lsbi' ∨ msbi' < lsbi →
        bitSliceInject msbi' lsbi' (bitSliceInject msbi lsbi dst v) w
          = bitSliceInject msbi lsbi (bitSliceInject msbi' lsbi' dst w) v
        ∧ bitSlice msbi' lsbi' (bitSliceInject msbi lsbi dst v) = bitSlice msbi' lsbi' dst
        ∧ bitSlice msbi lsbi (bitSliceInject msbi' lsbi' dst w) = bitSlice msbi lsbi dst := by
  have hfit := range_fits hle hlt
  refine ⟨⟨bitMask?_eq hle hlt, bitSlice?_eq hle hlt dst, bitSliceInject?_eq hle hlt dst v⟩,
    ?_, ?_, ?_, fun i hi => getLsbD_bitSliceInject_outside hle hlt dst v hi, ?_⟩
  · rw [bitSlice_eq hle hlt, bitSliceInject_eq hle hlt, BitField.toNat_get_put hfit]
  · rw [bitSlice_eq hle hlt, bitSliceInject_eq hle hlt, BitField.put_get hfit]
  · rw [bitSliceInject_eq hle hlt, bitSliceInject_eq hle hlt, bitSliceInject_eq hle hlt,
      BitField.put_put hfit]
  · intro msbi' lsbi' hle' hlt' hapart
    have hfit' := range_fits hle' hlt'
    have hdisj := disjoint_ranges hle hle' hapart
    rw [bitSliceInject_eq hle hlt dst v, bitSliceInject_eq hle' hlt' dst w,
      bitSliceInject_eq hle hlt, bitSliceInject_eq hle' hlt', bitSlice_eq hle hlt,
      bitSlice_eq hle hlt, bitSlice_eq hle' hlt', bitSlice_eq hle' hlt']
    exact ⟨BitField.put_comm hfit hfit' hdisj dst v w,
      BitField.get_put_of_disjoint hfit hfit' hdisj dst v,
      BitField.get_put_of_disjoint hfit' hfit (Or.symm hdisj) dst w⟩

/-- Injecting four bits at the top of the word. -/
theorem bit_range_is_field_top :
    (bitSlice 31 28 (bitSliceInject 31 28 0xFFFFFFFF 0xA5)).toNat = 0x5 :=
  (bit_range_is_field (by decide) (by decide) 0xFFFFFFFF 0xA5 0).2.1

end GBMU
