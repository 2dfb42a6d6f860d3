import Mathlib.Data.List.Pairwise
import GBMU.Proof.BitSets

/-!
# Words updated piece by piece

What `bit_mask` and the helpers built on it do for any arguments: their shifts are
defined exactly on the ranges `InDomain`, which may reach past the top of the word
(the mask is then cut there), and a sequence of updates of a word leaves in each
bit what the last update that covers it wrote.

A word with fields is such a sequence. Fields that share no bit can be written in
any order and read back, and a word is rebuilt from its fields.
-/

namespace GBMU

/-! ## The domain of the mask -/

/-- The arguments of `bit_mask` for which both its shifts are defined. -/
def RangeInDomain (msbi lsbi : U32) : Prop :=
  lsbi < 32 ∧ lsbi ≤ msbi ∧ msbi.toNat < lsbi.toNat + 32

instance (msbi lsbi : U32) : Decidable (RangeInDomain msbi lsbi) :=
  inferInstanceAs (Decidable (lsbi < 32 ∧ lsbi ≤ msbi ∧ msbi.toNat < lsbi.toNat + 32))

theorem maskShift_lt_iff {msbi lsbi : U32} (hlsbi : lsbi < 32) :
    32#32 - (msbi - lsbi + 1) < 32 ↔ lsbi ≤ msbi ∧ msbi.toNat < lsbi.toNat + 32 := by
  have hlsbi' : lsbi.toNat < 32 := hlsbi
  constructor
  · intro h
    constructor
    · bv_omega
    · bv_omega
  · intro h
    rcases h with ⟨hle, hlt⟩
    bv_omega

theorem toNat_maskShift_of_domain {msbi lsbi : U32} (h : RangeInDomain msbi lsbi) :
    (32#32 - (msbi - lsbi + 1)).toNat = 32 - (msbi.toNat - lsbi.toNat + 1) := by
  rcases h with ⟨hlsbi, hle, hlt⟩
  have hlsbi' : lsbi.toNat < 32 := hlsbi
  bv_omega

/-- The mask of a range covers it, cut at the top of the word. -/
theorem getLsbD_bitMask_of_domain {msbi lsbi : U32} (h : RangeInDomain msbi lsbi) (i : Nat) :
    (bitMask msbi lsbi).getLsbD i
      = (decide (i < 32) && decide (lsbi.toNat ≤ i) && decide (i ≤ msbi.toNat)) := by
  have hmask : bitMask msbi lsbi
      = (BitVec.allOnes 32 >>> (32 - (msbi.toNat - lsbi.toNat + 1))) <<< lsbi.toNat := by
    rw [← toNat_maskShift_of_domain h]
    rfl
  have hle : lsbi.toNat ≤ msbi.toNat := h.2.1
  have hsize : msbi.toNat - lsbi.toNat + 1 ≤ 32 := by
    have := h.2.2
    omega
  rw [hmask, Bits.getLsbD_mask hsize]
  congr 1
  exact decide_eq_decide.mpr (by omega)

/-- **`bit_mask` is defined exactly on its domain.** -/
theorem bitMask?_eq_ite (msbi lsbi : U32) :
    bitMask? msbi lsbi
      = if RangeInDomain msbi lsbi then some (bitMask msbi lsbi) else none := by
  show (shr? (-1) (32#32 - (msbi - lsbi + 1))).bind (fun filled => shl? filled lsbi) = _
  rw [shr?]
  by_cases hlsbi : lsbi < 32
  · by_cases hshift : 32#32 - (msbi - lsbi + 1) < 32
    · have hdomain : RangeInDomain msbi lsbi := ⟨hlsbi, (maskShift_lt_iff hlsbi).mp hshift⟩
      rw [if_pos hshift, if_pos hdomain, Option.bind_some, shl?, if_pos hlsbi]
      rfl
    · have hdomain : ¬ RangeInDomain msbi lsbi :=
        fun h => hshift ((maskShift_lt_iff hlsbi).mpr h.2)
      rw [if_neg hshift, if_neg hdomain, Option.bind_none]
  · have hdomain : ¬ RangeInDomain msbi lsbi := fun h => hlsbi h.1
    rw [if_neg hdomain]
    split
    · rw [Option.bind_some, shl?, if_neg hlsbi]
    · rw [Option.bind_none]

/-! ## Updates -/

/-- A call that changes a word. -/
inductive Update where
  | inject (msbi lsbi val : U32)
  | set (n : U32)
  | reset (n : U32)

namespace Update

def exec (bitset : U32) : Update → U32
  | .inject msbi lsbi val => bitSliceInject msbi lsbi bitset val
  | .set n => bitNSet n bitset
  | .reset n => bitNReset n bitset

/-- The same call, failing where one of its shifts is undefined. -/
def exec? (bitset : U32) : Update → Option U32
  | .inject msbi lsbi val => bitSliceInject? msbi lsbi bitset val
  | .set n => bitNSet? n bitset
  | .reset n => bitNReset? n bitset

/-- The arguments for which every shift of the call is defined. -/
def InDomain : Update → Prop
  | .inject msbi lsbi _ => RangeInDomain msbi lsbi
  | .set n => n < 32
  | .reset n => n < 32

/-- What the call writes to bit `i`, if it covers that bit. -/
def writes (i : Nat) : Update → Option Bool
  | .inject msbi lsbi val =>
      if lsbi.toNat ≤ i ∧ i ≤ msbi.toNat then some (val.getLsbD (i - lsbi.toNat)) else none
  | .set n => if n.toNat = i then some true else none
  | .reset n => if n.toNat = i then some false else none

end Update

theorem getLsbD_bitSliceInject_of_domain {msbi lsbi : U32} (h : RangeInDomain msbi lsbi)
    (dst val : U32) {i : Nat} (hi : i < 32) :
    (bitSliceInject msbi lsbi dst val).getLsbD i
      = (((Update.inject msbi lsbi val).writes i).getD (dst.getLsbD i)) := by
  show (((val <<< lsbi) &&& bitMask msbi lsbi) ||| (dst &&& ~~~bitMask msbi lsbi)).getLsbD i = _
  rw [BitVec.getLsbD_or, BitVec.getLsbD_and, BitVec.getLsbD_and, BitVec.getLsbD_not,
    BitVec.shiftLeft_eq', BitVec.getLsbD_shiftLeft, getLsbD_bitMask_of_domain h, Update.writes]
  by_cases hin : lsbi.toNat ≤ i ∧ i ≤ msbi.toNat
  · have hnot : ¬ i < lsbi.toNat := by omega
    rw [if_pos hin]
    simp [hi, hin.1, hin.2, hnot]
  · have hout : (decide (i < 32) && decide (lsbi.toNat ≤ i) && decide (i ≤ msbi.toNat))
        = false := by
      rw [Bool.and_assoc, ← Bool.decide_and, decide_eq_false hin, Bool.and_false]
    rw [if_neg hin, hout]
    simp [hi]

/-- One update writes the bits it covers. -/
theorem Update.getLsbD_exec {u : Update} (h : u.InDomain) (x : U32) {i : Nat} (hi : i < 32) :
    (u.exec x).getLsbD i = (u.writes i).getD (x.getLsbD i) := by
  cases u with
  | inject msbi lsbi val => exact getLsbD_bitSliceInject_of_domain h x val hi
  | set n =>
      rw [exec, getLsbD_bitNSet, writes]
      by_cases hn : n.toNat = i
      · simp [hn, hi]
      · simp [hn, Ne.symm hn]
  | reset n =>
      rw [exec, getLsbD_bitNReset, writes]
      by_cases hn : n.toNat = i
      · simp [hn]
      · simp [hn, Ne.symm hn]

/-- Inside of its domain the call is the one on total shifts, -/
theorem Update.exec?_eq {u : Update} (h : u.InDomain) (x : U32) : u.exec? x = some (u.exec x) := by
  cases u with
  | inject msbi lsbi val =>
      have hdomain : RangeInDomain msbi lsbi := h
      have hlsbi : lsbi < 32 := hdomain.1
      rw [exec?, bitSliceInject?, bitMask?_eq_ite, if_pos hdomain, Option.bind_some, shl?,
        if_pos hlsbi]
      rfl
  | set n => exact bitNSet?_eq h x
  | reset n => exact bitNReset?_eq h x

/-- and outside of it, it is not defined. -/
theorem Update.exec?_eq_none {u : Update} (h : ¬ u.InDomain) (x : U32) : u.exec? x = none := by
  cases u with
  | inject msbi lsbi val =>
      have hdomain : ¬ RangeInDomain msbi lsbi := h
      rw [exec?, bitSliceInject?, bitMask?_eq_ite, if_neg hdomain, Option.bind_none]
  | set n =>
      have hn : ¬ n < 32 := h
      rw [exec?, bitNSet?, shl?, if_neg hn, Option.map_none]
  | reset n =>
      have hn : ¬ n < 32 := h
      rw [exec?, bitNReset?, shl?, if_neg hn, Option.map_none]

/-- Each bit is what the last update that covers it wrote. -/
theorem Update.getLsbD_foldl_exec {us : List Update} (h : ∀ u ∈ us, u.InDomain) (x : U32) {i : Nat}
    (hi : i < 32) :
    (us.foldl Update.exec x).getLsbD i
      = (History.last (Update.writes i) us).getD (x.getLsbD i) := by
  induction us generalizing x with
  | nil => rfl
  | cons u us ih =>
      rcases List.forall_mem_cons.mp h with ⟨hu, hus⟩
      rw [List.foldl_cons, ih hus, Update.getLsbD_exec hu x hi, History.last_cons]
      cases History.last (Update.writes i) us <;> rfl

/--
**Any sequence of updates of a word.**

It is defined if and only if every call is in its domain, whatever the word; then
it gives the word that the helpers on total shifts give, which are the ones the
devices call, and each bit of it is what the last call that covers it wrote, or as
it was.
-/
theorem updates_exact (x : U32) (us : List Update) :
    ((∃ y, Machine.run (fun x (u : Update) => u.exec? x) x us = some y)
        ↔ ∀ u ∈ us, u.InDomain)
      ∧ ∀ y, Machine.run (fun x (u : Update) => u.exec? x) x us = some y →
          y = us.foldl Update.exec x
            ∧ ∀ i < 32, y.getLsbD i = (History.last (Update.writes i) us).getD (x.getLsbD i) := by
  have hexec : ∀ (y : U32) (u : Update), u.InDomain → u.exec? y = some (u.exec y) :=
    fun y u hu => Update.exec?_eq hu y
  have hdefined := Machine.exists_run_iff hexec (fun y u hu => Update.exec?_eq_none hu y) x us
  refine ⟨hdefined, fun y hy => ?_⟩
  have hdomain : ∀ u ∈ us, u.InDomain := hdefined.mp ⟨y, hy⟩
  have hfoldl : y = us.foldl Update.exec x :=
    Option.some.inj (hy.symm.trans (Machine.run_eq_foldl hexec x us hdomain))
  refine ⟨hfoldl, fun i hi => ?_⟩
  rw [hfoldl]
  exact Update.getLsbD_foldl_exec hdomain x hi

/-! ## Records -/

/-- A range of bits of a word. -/
structure Field where
  msbi : U32
  lsbi : U32
  ordered : lsbi ≤ msbi
  fits : msbi < 32

namespace Field

def width (f : Field) : Nat := f.msbi.toNat - f.lsbi.toNat + 1

def Covers (f : Field) (i : Nat) : Prop := f.lsbi.toNat ≤ i ∧ i ≤ f.msbi.toNat

def Apart (f g : Field) : Prop := f.msbi < g.lsbi ∨ g.msbi < f.lsbi

def slice (f : Field) (bitset : U32) : U32 := bitSlice f.msbi f.lsbi bitset

theorem Apart.symm {f g : Field} (h : f.Apart g) : g.Apart f := Or.symm h

theorem Apart.not_covers {f g : Field} {i : Nat} (h : f.Apart g) (hf : f.Covers i) :
    ¬ g.Covers i := by
  intro hg
  rcases hf with ⟨hf₁, hf₂⟩
  rcases hg with ⟨hg₁, hg₂⟩
  rcases h with h | h
  · have : f.msbi.toNat < g.lsbi.toNat := h
    omega
  · have : g.msbi.toNat < f.lsbi.toNat := h
    omega

theorem inDomain (f : Field) : RangeInDomain f.msbi f.lsbi := by
  have hle : f.lsbi.toNat ≤ f.msbi.toNat := f.ordered
  have hlt : f.msbi.toNat < 32 := f.fits
  refine ⟨?_, f.ordered, by omega⟩
  show f.lsbi.toNat < 32
  omega

theorem getLsbD_slice (f : Field) (x : U32) (i : Nat) :
    (f.slice x).getLsbD i
      = (decide (f.lsbi.toNat + i ≤ f.msbi.toNat) && x.getLsbD (f.lsbi.toNat + i)) :=
  getLsbD_bitSlice f.ordered f.fits x i

end Field

/-- Write the fields one after the other. -/
def writeFields (x : U32) (record : List (Field × U32)) : U32 :=
  record.foldl (fun x p => bitSliceInject p.1.msbi p.1.lsbi x p.2) x

def FieldsApart (record : List (Field × U32)) : Prop :=
  record.Pairwise (fun p q => p.1.Apart q.1)

theorem getLsbD_writeFields {i : Nat} (hi : i < 32) (x : U32) (record : List (Field × U32)) :
    (writeFields x record).getLsbD i
      = (History.last (fun p : Field × U32 => (Update.inject p.1.msbi p.1.lsbi p.2).writes i)
          record).getD (x.getLsbD i) :=
  History.tracks (fun x : U32 => x.getLsbD i)
    (fun x p => getLsbD_bitSliceInject_of_domain p.1.inDomain x p.2 hi) x record

/-- A covered bit is the one its field was written with. -/
theorem getLsbD_writeFields_of_covers {record : List (Field × U32)} (hapart : FieldsApart record)
    (x : U32) {p : Field × U32} (hp : p ∈ record) {i : Nat} (hi : p.1.Covers i) :
    (writeFields x record).getLsbD i = p.2.getLsbD (i - p.1.lsbi.toNat) := by
  have hlt : i < 32 := by
    have hfits : p.1.msbi.toNat < 32 := p.1.fits
    have := hi.2
    omega
  have hmine : (Update.inject p.1.msbi p.1.lsbi p.2).writes i
      = some (p.2.getLsbD (i - p.1.lsbi.toNat)) := if_pos hi
  rw [getLsbD_writeFields hlt]
  cases hlast : History.last
      (fun p : Field × U32 => (Update.inject p.1.msbi p.1.lsbi p.2).writes i) record with
  | none =>
      have hnone := History.last_eq_none.mp hlast p hp
      rw [hmine] at hnone
      cases hnone
  | some b =>
      rcases History.last_eq_some.mp hlast with ⟨pre, q, post, hsplit, hq, _⟩
      have hqmem : q ∈ record := by
        rw [hsplit]
        exact List.mem_append_right _ (List.mem_cons_self ..)
      have hcovers : q.1.Covers i := by
        by_contra hnot
        have hnothing : (Update.inject q.1.msbi q.1.lsbi q.2).writes i = none := if_neg hnot
        rw [hnothing] at hq
        cases hq
      -- no other field covers the bit
      have hsame : p = q := by
        by_contra hne
        have hsym : Std.Symm (fun p q : Field × U32 => p.1.Apart q.1) :=
          ⟨fun _ _ h => h.symm⟩
        exact (hapart.forall hp hqmem hne).not_covers hi hcovers
      subst hsame
      rw [hmine] at hq
      exact (Option.some.inj hq).symm

theorem getLsbD_writeFields_of_not_covers {record : List (Field × U32)} (x : U32) {i : Nat}
    (hi : i < 32) (hnone : ∀ p ∈ record, ¬ p.1.Covers i) :
    (writeFields x record).getLsbD i = x.getLsbD i := by
  have hlast : History.last
      (fun p : Field × U32 => (Update.inject p.1.msbi p.1.lsbi p.2).writes i) record = none :=
    History.last_eq_none.mpr (fun p hp => if_neg (hnone p hp))
  rw [getLsbD_writeFields hi, hlast, Option.getD_none]

/--
**Records in a word.**

For fields no two of which share a bit, over any word: every field reads back as
what was written, cut to its width; the order of the writes does not matter; the
bits of no field stay as they were; and writing the fields of another word copies
it where there is a field, so that fields that fill the word rebuild it.
-/
theorem record_round_trip (x : U32) (record : List (Field × U32)) (hapart : FieldsApart record) :
    (∀ p ∈ record, (p.1.slice (writeFields x record)).toNat = p.2.toNat % 2 ^ p.1.width)
      ∧ (∀ record', record.Perm record' → writeFields x record' = writeFields x record)
      ∧ (∀ i < 32, (∀ p ∈ record, ¬ p.1.Covers i) →
          (writeFields x record).getLsbD i = x.getLsbD i)
      ∧ ∀ y, (∀ i < 32, ∃ p ∈ record, p.1.Covers i) →
          writeFields x (record.map (fun p => (p.1, p.1.slice y))) = y := by
  refine ⟨?_, ?_, ?_, ?_⟩
  · intro p hp
    refine Nat.eq_of_testBit_eq (fun i => ?_)
    rw [BitVec.testBit_toNat, Field.getLsbD_slice, Nat.testBit_mod_two_pow, BitVec.testBit_toNat]
    have hle : p.1.lsbi.toNat ≤ p.1.msbi.toNat := p.1.ordered
    by_cases hi : p.1.lsbi.toNat + i ≤ p.1.msbi.toNat
    · have hwidth : i < p.1.width := by
        unfold Field.width
        omega
      rw [getLsbD_writeFields_of_covers hapart x hp ⟨by omega, hi⟩, Nat.add_sub_cancel_left,
        decide_eq_true hi, decide_eq_true hwidth]
    · have hwidth : ¬ i < p.1.width := by
        unfold Field.width
        omega
      rw [decide_eq_false hi, decide_eq_false hwidth, Bool.false_and, Bool.false_and]
  · intro record' hperm
    have hapart' : FieldsApart record' :=
      (hperm.pairwise_iff (fun h => Field.Apart.symm h)).mp hapart
    refine BitVec.eq_of_getLsbD_eq (fun i hi => ?_)
    by_cases hcovered : ∃ p ∈ record, p.1.Covers i
    · rcases hcovered with ⟨p, hp, hcovers⟩
      rw [getLsbD_writeFields_of_covers hapart x hp hcovers,
        getLsbD_writeFields_of_covers hapart' x (hperm.mem_iff.mp hp) hcovers]
    · have hnone : ∀ p ∈ record, ¬ p.1.Covers i := fun p hp h => hcovered ⟨p, hp, h⟩
      rw [getLsbD_writeFields_of_not_covers x hi hnone,
        getLsbD_writeFields_of_not_covers x hi (fun p hp => hnone p (hperm.mem_iff.mpr hp))]
  · intro i hi hnone
    exact getLsbD_writeFields_of_not_covers x hi hnone
  · intro y hfull
    have hmapped : FieldsApart (record.map (fun p => (p.1, p.1.slice y))) :=
      List.pairwise_map.mpr hapart
    refine BitVec.eq_of_getLsbD_eq (fun i hi => ?_)
    rcases hfull i hi with ⟨p, hp, hcovers⟩
    rw [getLsbD_writeFields_of_covers hmapped x (List.mem_map_of_mem hp) hcovers,
      Field.getLsbD_slice]
    have hback : p.1.lsbi.toNat + (i - p.1.lsbi.toNat) = i := by
      have := hcovers.1
      omega
    rw [hback, decide_eq_true hcovers.2, Bool.true_and]

/-- Two halves of a byte; what does not fit is cut off. -/
theorem record_round_trip_sample :
    (Field.slice ⟨7, 4, by decide, by decide⟩ (writeFields 0
      [(⟨3, 0, by decide, by decide⟩, 0x5), (⟨7, 4, by decide, by decide⟩, 0xFA)])).toNat
      = 0xA := by
  have hread := (record_round_trip 0
    [(⟨3, 0, by decide, by decide⟩, 0x5), (⟨7, 4, by decide, by decide⟩, 0xFA)]
    (List.pairwise_pair.mpr (Or.inl (by decide)))).1
    (⟨7, 4, by decide, by decide⟩, 0xFA) (List.mem_cons_of_mem _ (List.mem_cons_self ..))
  have hcut : (0xFA : U32).toNat % 2 ^ Field.width ⟨7, 4, by decide, by decide⟩ = 0xA := by
    decide
  exact hread.trans hcut

end GBMU
