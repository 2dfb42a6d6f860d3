import Mathlib.Algebra.Group.Nat.Defs
import GBMU.Common.Types
import GBMU.Lib.BitField

/-!
# Bit helpers

`common/GB_macro.h`: masks, slices, single bits, and the table-driven search for
the lowest set bit. Everything works on 32-bit words; a C++ shift by 32 or more
is undefined, and no caller in the library reaches one, so the total shifts of
`BitVec` stand for the C++ ones.

A helper keeps its C++ name, in camel case. Each has the lemma that says what it
does to one bit, and nothing later unfolds a helper.
-/

namespace GBMU

def bitMask (msbi lsbi : U32) : U32 :=
  let bitsize : U32 := 32
  let filled32 : U32 := -1
  let masksize := (msbi - lsbi) + 1
  (filled32 >>> (bitsize - masksize)) <<< lsbi

def bitSlice (msbi lsbi bitset : U32) : U32 :=
  (bitMask msbi lsbi &&& bitset) >>> lsbi

def bitSliceInject (msbi lsbi dst val : U32) : U32 :=
  let bitmask := bitMask msbi lsbi
  let bitslice := (val <<< lsbi) &&& bitmask
  bitslice ||| (dst &&& ~~~bitmask)

def bitN (n bitset : U32) : Bool := (bitset &&& (1#32 <<< n)) != 0

def bitNSet (n bitset : U32) : U32 := bitset ||| (1#32 <<< n)

def bitNReset (n bitset : U32) : U32 := bitset &&& ~~~(1#32 <<< n)

/-- `bits_set`, by the recursion of its variadic template. -/
def bitsSet : U32 → List U32 → U32
  | bitIdx, [] => 1#32 <<< bitIdx
  | bitIdx, n :: bitIdxs => (1#32 <<< bitIdx) ||| bitsSet n bitIdxs

/-! ## The shifts as C++ has them

The helpers once more, on shifts that fail where the C++ ones are undefined.
-/

def shl? (x n : U32) : Option U32 := if n < 32 then some (x <<< n) else none

def shr? (x n : U32) : Option U32 := if n < 32 then some (x >>> n) else none

def bitMask? (msbi lsbi : U32) : Option U32 :=
  let bitsize : U32 := 32
  let filled32 : U32 := -1
  let masksize := (msbi - lsbi) + 1
  (shr? filled32 (bitsize - masksize)).bind (fun filled => shl? filled lsbi)

def bitSlice? (msbi lsbi bitset : U32) : Option U32 :=
  (bitMask? msbi lsbi).bind (fun bitmask => shr? (bitmask &&& bitset) lsbi)

def bitSliceInject? (msbi lsbi dst val : U32) : Option U32 :=
  (bitMask? msbi lsbi).bind (fun bitmask =>
    (shl? val lsbi).map (fun shifted => (shifted &&& bitmask) ||| (dst &&& ~~~bitmask)))

def bitNSet? (n bitset : U32) : Option U32 := (shl? 1 n).map (fun bit => bitset ||| bit)

def bitNReset? (n bitset : U32) : Option U32 := (shl? 1 n).map (fun bit => bitset &&& ~~~bit)

def bitsSet? : U32 → List U32 → Option U32
  | bitIdx, [] => shl? 1 bitIdx
  | bitIdx, n :: bitIdxs =>
      (shl? 1 bitIdx).bind (fun bit => (bitsSet? n bitIdxs).map (fun bits => bit ||| bits))

/-! ## What each helper does to one bit -/

/-- The amount of the right shift in `bit_mask`. -/
theorem toNat_maskShift {msbi lsbi : U32} (hle : lsbi ≤ msbi) (hlt : msbi < 32) :
    (32#32 - (msbi - lsbi + 1)).toNat = 32 - (msbi.toNat - lsbi.toNat + 1) := by
  have hle' : lsbi.toNat ≤ msbi.toNat := hle
  have hlt' : msbi.toNat < 32 := hlt
  bv_omega

theorem bitMask_eq {msbi lsbi : U32} (hle : lsbi ≤ msbi) (hlt : msbi < 32) :
    bitMask msbi lsbi = BitField.mask 32 lsbi.toNat (msbi.toNat - lsbi.toNat + 1) := by
  rw [BitField.mask, ← toNat_maskShift hle hlt]
  rfl

/-- The range `[msbi:lsbi]` lies in the word. -/
theorem range_fits {msbi lsbi : U32} (hle : lsbi ≤ msbi) (hlt : msbi < 32) :
    lsbi.toNat + (msbi.toNat - lsbi.toNat + 1) ≤ 32 := by
  have hle' : lsbi.toNat ≤ msbi.toNat := hle
  have hlt' : msbi.toNat < 32 := hlt
  omega

theorem bitSlice_eq {msbi lsbi : U32} (hle : lsbi ≤ msbi) (hlt : msbi < 32) (bitset : U32) :
    bitSlice msbi lsbi bitset
      = BitField.get lsbi.toNat (msbi.toNat - lsbi.toNat + 1) bitset := by
  rw [BitField.get, ← bitMask_eq hle hlt]
  rfl

theorem bitSliceInject_eq {msbi lsbi : U32} (hle : lsbi ≤ msbi) (hlt : msbi < 32)
    (dst val : U32) :
    bitSliceInject msbi lsbi dst val
      = BitField.put lsbi.toNat (msbi.toNat - lsbi.toNat + 1) dst val := by
  rw [BitField.put, ← bitMask_eq hle hlt]
  rfl

theorem getLsbD_bitMask {msbi lsbi : U32} (hle : lsbi ≤ msbi) (hlt : msbi < 32) (i : Nat) :
    (bitMask msbi lsbi).getLsbD i
      = (decide (i < 32) && decide (lsbi.toNat ≤ i) && decide (i ≤ msbi.toNat)) := by
  have hle' : lsbi.toNat ≤ msbi.toNat := hle
  have hlt' : msbi.toNat < 32 := hlt
  have hsize : msbi.toNat - lsbi.toNat + 1 ≤ 32 := by omega
  rw [bitMask_eq hle hlt, BitField.mask, Bits.getLsbD_mask hsize]
  congr 1
  exact decide_eq_decide.mpr (by omega)

theorem getLsbD_bitSlice {msbi lsbi : U32} (hle : lsbi ≤ msbi) (hlt : msbi < 32)
    (bitset : U32) (i : Nat) :
    (bitSlice msbi lsbi bitset).getLsbD i
      = (decide (lsbi.toNat + i ≤ msbi.toNat) && bitset.getLsbD (lsbi.toNat + i)) := by
  have hle' : lsbi.toNat ≤ msbi.toNat := hle
  rw [bitSlice_eq hle hlt, BitField.getLsbD_get (range_fits hle hlt)]
  congr 1
  exact decide_eq_decide.mpr (by omega)

/-- A slice is a quotient and a remainder. -/
theorem toNat_bitSlice {msbi lsbi : U32} (hle : lsbi ≤ msbi) (hlt : msbi < 32) (bitset : U32) :
    (bitSlice msbi lsbi bitset).toNat
      = bitset.toNat / 2 ^ lsbi.toNat % 2 ^ (msbi.toNat - lsbi.toNat + 1) := by
  have hle' : lsbi.toNat ≤ msbi.toNat := hle
  refine Nat.eq_of_testBit_eq (fun i => ?_)
  rw [BitVec.testBit_toNat, getLsbD_bitSlice hle hlt, Nat.testBit_mod_two_pow,
    Nat.testBit_div_two_pow, BitVec.testBit_toNat, Nat.add_comm i]
  congr 1
  exact decide_eq_decide.mpr (by omega)

theorem bitN_eq (n bitset : U32) : bitN n bitset = bitset.getLsbD n.toNat :=
  Bits.and_one_shiftLeft_ne_zero bitset n.toNat

/-- A byte argument is widened first; that adds no bit. -/
theorem bitN_byte (n : U32) (x : Byte) : bitN n (x.setWidth 32) = x.getLsbD n.toNat := by
  rw [bitN_eq, BitVec.getLsbD_setWidth]
  by_cases hn : n.toNat < 32
  · rw [decide_eq_true hn, Bool.true_and]
  · rw [decide_eq_false hn, Bool.false_and, BitVec.getLsbD_of_ge _ _ (by omega)]

theorem getLsbD_bitNSet (n bitset : U32) (i : Nat) :
    (bitNSet n bitset).getLsbD i
      = (bitset.getLsbD i || (decide (i < 32) && decide (i = n.toNat))) :=
  Bits.getLsbD_or_one_shiftLeft bitset n.toNat i

theorem getLsbD_bitNReset (n bitset : U32) (i : Nat) :
    (bitNReset n bitset).getLsbD i = (bitset.getLsbD i && !decide (i = n.toNat)) :=
  Bits.getLsbD_and_not_one_shiftLeft bitset n.toNat i

/-! ## On byte registers

The devices keep bytes and call the helpers on them widened, with an enumerator
of a narrower type for the index; the result is cut back to a byte.
-/

theorem getLsbD_bitNSet_byte {n : Nat} (m : BitVec n) (x : Byte) (hm : m.toNat < 32) {i : Nat}
    (hi : i < 8) :
    ((bitNSet (m.setWidth 32) (x.setWidth 32)).setWidth 8 : Byte).getLsbD i
      = (x.getLsbD i || decide (i = m.toNat)) := by
  have h32 : i < 32 := by omega
  have hidx : (m.setWidth 32 : U32).toNat = m.toNat := by
    rw [BitVec.toNat_setWidth]
    omega
  rw [BitVec.getLsbD_setWidth, getLsbD_bitNSet, BitVec.getLsbD_setWidth, hidx]
  simp [hi, h32]

theorem getLsbD_bitNReset_byte {n : Nat} (m : BitVec n) (x : Byte) (hm : m.toNat < 32) {i : Nat}
    (hi : i < 8) :
    ((bitNReset (m.setWidth 32) (x.setWidth 32)).setWidth 8 : Byte).getLsbD i
      = (x.getLsbD i && !decide (i = m.toNat)) := by
  have h32 : i < 32 := by omega
  have hidx : (m.setWidth 32 : U32).toNat = m.toNat := by
    rw [BitVec.toNat_setWidth]
    omega
  rw [BitVec.getLsbD_setWidth, getLsbD_bitNReset, BitVec.getLsbD_setWidth, hidx]
  simp [hi, h32]

/-! ## The lowest set bit -/

def lsbKeyMask : U32 := 0xF
def lsbKeyShift : U32 := 15
def magickCycleNum : U16 := 0x4D78
def lsbCycleTable : Vector Int 16 :=
  #v[0, 1, 2, 5,
     3, 9, 6, 11,
     15, 4, 8, 10,
     14, 7, 13, 12]

/-- The local `LSB_MASK`: `bitset & -bitset` on `int`, narrowed back to 16 bits. -/
def lsbMask (bitset : U16) : U16 :=
  let promoted : U32 := bitset.setWidth 32
  (promoted &&& -promoted).setWidth 16

/-- The local `LSB_CYCLE_KEY`. The product is an `int`, hence the arithmetic shift. -/
def lsbCycleKey (mask : U16) : U32 :=
  (mask.setWidth 32 * magickCycleNum.setWidth 32).sshiftRight' lsbKeyShift &&& lsbKeyMask

/-- Masking with `0xF` keeps the key inside the table. -/
theorem lsbCycleKey_lt (mask : U16) : (lsbCycleKey mask).toNat < 16 := by
  unfold lsbCycleKey
  rw [BitVec.toNat_and]
  exact Nat.lt_of_le_of_lt Nat.and_le_right (by decide)

/-- `bit_lsb`. -/
def bitLsb (bitset : U16) : Int :=
  lsbCycleTable.get ⟨(lsbCycleKey (lsbMask bitset)).toNat, lsbCycleKey_lt _⟩

/-- The mask is the isolated least bit; widening to `int` and back does not disturb it. -/
theorem lsbMask_eq {bitset : U16} {i : Nat} (h : Bits.LeastSet bitset i) :
    lsbMask bitset = 1#16 <<< i := by
  have hi : i < 16 := h.lt
  -- widening keeps the least position, and cutting back keeps the isolated bit
  have hwide : Bits.LeastSet (bitset.setWidth 32 : U32) i := by
    refine ⟨?_, fun j hj => ?_⟩
    · rw [BitVec.getLsbD_setWidth, h.set]
      simp; omega
    · rw [BitVec.getLsbD_setWidth, h.below j hj, Bool.and_false]
  show ((bitset.setWidth 32 : U32) &&& -bitset.setWidth 32).setWidth 16 = _
  rw [Bits.and_neg_eq_one_shiftLeft hwide]
  refine BitVec.eq_of_getLsbD_eq (fun j hj => ?_)
  rw [BitVec.getLsbD_setWidth, Bits.getLsbD_one_shiftLeft, Bits.getLsbD_one_shiftLeft]
  have : j < 32 := by omega
  simp [hj, this]

/-- The sixteen shifts of the magic sequence carry sixteen keys, each naming its shift. -/
theorem lsbCycleTable_get_key (i : Fin 16) :
    lsbCycleTable.get ⟨(lsbCycleKey (1#16 <<< i.val)).toNat, lsbCycleKey_lt _⟩ = (i.val : Int) := by
  revert i; decide

/-- **`bit_lsb` finds the least set bit of a non-empty set.** -/
theorem bitLsb_eq {bitset : U16} {i : Nat} (h : Bits.LeastSet bitset i) :
    bitLsb bitset = i := by
  unfold bitLsb
  simp only [lsbMask_eq h]
  exact lsbCycleTable_get_key ⟨i, h.lt⟩

end GBMU
