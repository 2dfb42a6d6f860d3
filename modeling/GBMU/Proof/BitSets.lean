import GBMU.Common.Macro
import GBMU.Lib.History

/-!
# Words built from indexes

A 32-bit word is a set of indexes below 32, and `bit_n` is membership. `bits_set`
builds the set of its arguments; `bit_n_set` and `bit_n_reset` insert and remove
one index, so that after any sequence of them an index is in the set if the last
operation that names it inserted it.
-/

namespace GBMU

/-- A call of `bit_n_set` or `bit_n_reset`. -/
inductive BitOp where
  | set (n : U32)
  | reset (n : U32)

namespace BitOp

def index : BitOp → U32
  | .set n => n
  | .reset n => n

def exec (bitset : U32) : BitOp → U32
  | .set n => bitNSet n bitset
  | .reset n => bitNReset n bitset

/-- The same call, failing where its shift is undefined. -/
def exec? (bitset : U32) : BitOp → Option U32
  | .set n => bitNSet? n bitset
  | .reset n => bitNReset? n bitset

/-- What the call leaves at bit `i`, if it names that bit. -/
def assigns (i : U32) : BitOp → Option Bool
  | .set n => if n = i then some true else none
  | .reset n => if n = i then some false else none

end BitOp

/-! ## One bit -/

/-- Words with the same members are equal. -/
theorem eq_of_bitN {x y : U32} (h : ∀ i : U32, i < 32 → bitN i x = bitN i y) : x = y := by
  refine BitVec.eq_of_getLsbD_eq (fun k hk => ?_)
  have hidx : (BitVec.ofNat 32 k).toNat = k := by
    rw [BitVec.toNat_ofNat]
    omega
  have hlt : BitVec.ofNat 32 k < 32 := show (BitVec.ofNat 32 k).toNat < 32 by omega
  have := h (BitVec.ofNat 32 k) hlt
  rwa [bitN_eq, bitN_eq, hidx] at this

theorem bitN_zero (i : U32) : bitN i 0 = false := by
  rw [bitN_eq]
  exact BitVec.getLsbD_zero

theorem bitN_or (i x y : U32) : bitN i (x ||| y) = (bitN i x || bitN i y) := by
  rw [bitN_eq, bitN_eq, bitN_eq, BitVec.getLsbD_or]

theorem bitN_and_not {i : U32} (hi : i < 32) (x y : U32) :
    bitN i (x &&& ~~~y) = (bitN i x && !bitN i y) := by
  have hi' : i.toNat < 32 := hi
  rw [bitN_eq, bitN_eq, bitN_eq, BitVec.getLsbD_and, BitVec.getLsbD_not, decide_eq_true hi',
    Bool.true_and]

theorem bitN_bit {i : U32} (hi : i < 32) (n : U32) : bitN i (1#32 <<< n) = decide (i = n) := by
  have hi' : i.toNat < 32 := hi
  rw [bitN_eq, BitVec.shiftLeft_eq', Bits.getLsbD_one_shiftLeft, decide_eq_true hi',
    Bool.true_and]
  exact decide_eq_decide.mpr BitVec.toNat_inj

theorem bitN_bitNSet {i : U32} (hi : i < 32) (n x : U32) :
    bitN i (bitNSet n x) = (bitN i x || decide (i = n)) := by
  rw [bitNSet, bitN_or, bitN_bit hi]

theorem bitN_bitNReset {i : U32} (hi : i < 32) (n x : U32) :
    bitN i (bitNReset n x) = (bitN i x && !decide (i = n)) := by
  rw [bitNReset, bitN_and_not hi, bitN_bit hi]

/-! ## Lists of indexes -/

theorem bitN_bitsSet {i : U32} (hi : i < 32) (bitIdx : U32) (bitIdxs : List U32) :
    bitN i (bitsSet bitIdx bitIdxs) = decide (i ∈ bitIdx :: bitIdxs) := by
  induction bitIdxs generalizing bitIdx with
  | nil =>
      rw [bitsSet, bitN_bit hi]
      exact decide_eq_decide.mpr List.mem_singleton.symm
  | cons n bitIdxs ih =>
      rw [bitsSet, bitN_or, bitN_bit hi, ih, ← Bool.decide_or]
      exact decide_eq_decide.mpr List.mem_cons.symm

theorem bitN_foldl_bitNSet {i : U32} (hi : i < 32) (x : U32) (ns : List U32) :
    bitN i (ns.foldl (fun y n => bitNSet n y) x) = (bitN i x || decide (i ∈ ns)) := by
  induction ns generalizing x with
  | nil => simp
  | cons n ns ih =>
      rw [List.foldl_cons, ih, bitN_bitNSet hi, Bool.or_assoc, ← Bool.decide_or]
      congr 1
      exact decide_eq_decide.mpr List.mem_cons.symm

theorem bitN_foldl_bitNReset {i : U32} (hi : i < 32) (x : U32) (ns : List U32) :
    bitN i (ns.foldl (fun y n => bitNReset n y) x) = (bitN i x && !decide (i ∈ ns)) := by
  induction ns generalizing x with
  | nil => simp
  | cons n ns ih =>
      rw [List.foldl_cons, ih, bitN_bitNReset hi, Bool.and_assoc, ← Bool.not_or,
        ← Bool.decide_or]
      congr 2
      exact decide_eq_decide.mpr List.mem_cons.symm

/-! ## Every shift is defined -/

theorem shl?_eq {n : U32} (hn : n < 32) (x : U32) : shl? x n = some (x <<< n) := if_pos hn

theorem bitNSet?_eq {n : U32} (hn : n < 32) (x : U32) : bitNSet? n x = some (bitNSet n x) := by
  rw [bitNSet?, shl?_eq hn]
  rfl

theorem bitNReset?_eq {n : U32} (hn : n < 32) (x : U32) :
    bitNReset? n x = some (bitNReset n x) := by
  rw [bitNReset?, shl?_eq hn]
  rfl

theorem bitsSet?_eq {bitIdx : U32} {bitIdxs : List U32} (h : ∀ n ∈ bitIdx :: bitIdxs, n < 32) :
    bitsSet? bitIdx bitIdxs = some (bitsSet bitIdx bitIdxs) := by
  induction bitIdxs generalizing bitIdx with
  | nil => exact shl?_eq (h bitIdx (List.mem_cons_self ..)) 1
  | cons n bitIdxs ih =>
      rw [bitsSet?, shl?_eq (h bitIdx (List.mem_cons_self ..)), Option.bind_some,
        ih (fun m hm => h m (List.mem_cons_of_mem _ hm))]
      rfl

theorem BitOp.exec?_eq (x : U32) {op : BitOp} (hop : op.index < 32) :
    op.exec? x = some (op.exec x) := by
  cases op with
  | set n => exact bitNSet?_eq hop x
  | reset n => exact bitNReset?_eq hop x

/-! ## Sequences of insertions and removals -/

theorem BitOp.bitN_exec {i : U32} (hi : i < 32) (x : U32) (op : BitOp) :
    bitN i (op.exec x) = (op.assigns i).getD (bitN i x) := by
  cases op with
  | set n =>
      rw [exec, bitN_bitNSet hi, assigns]
      by_cases hn : n = i
      · simp [hn]
      · simp [hn, Ne.symm hn]
  | reset n =>
      rw [exec, bitN_bitNReset hi, assigns]
      by_cases hn : n = i
      · simp [hn]
      · simp [hn, Ne.symm hn]

theorem BitOp.assigns_eq_some_true {i : U32} {op : BitOp} :
    op.assigns i = some true ↔ op = .set i := by
  cases op <;> simp [assigns]

theorem BitOp.assigns_eq_none {i : U32} {op : BitOp} : op.assigns i = none ↔ op.index ≠ i := by
  cases op <;> simp [assigns, index]

/-- **After a sequence of updates, a bit is what the last update of it left.** -/
theorem bitN_foldl_exec {i : U32} (hi : i < 32) (x : U32) (ops : List BitOp) :
    bitN i (ops.foldl BitOp.exec x) = true
      ↔ (∃ pre post, ops = pre ++ .set i :: post ∧ ∀ op ∈ post, op.index ≠ i)
        ∨ ((∀ op ∈ ops, op.index ≠ i) ∧ bitN i x = true) := by
  rw [History.tracks (bitN i) (fun y op => op.bitN_exec hi y)]
  cases hlast : History.last (BitOp.assigns i) ops with
  | none =>
      have hnone : ∀ op ∈ ops, op.index ≠ i := fun op hop =>
        BitOp.assigns_eq_none.mp (History.last_eq_none.mp hlast op hop)
      have hnoset : ¬ ∃ pre post, ops = pre ++ .set i :: post ∧ ∀ op ∈ post, op.index ≠ i := by
        intro hset
        rcases hset with ⟨pre, post, rfl, _⟩
        exact hnone (.set i) (by simp) rfl
      rw [Option.getD_none, or_iff_right hnoset]
      exact ⟨fun h => ⟨hnone, h⟩, And.right⟩
  | some b =>
      obtain ⟨pre, op, post, hops, hop, hpost⟩ := History.last_eq_some.mp hlast
      have hnamed : ¬ ∀ o ∈ ops, o.index ≠ i := by
        intro h
        have := BitOp.assigns_eq_none.mpr (h op (by rw [hops]; simp))
        rw [this] at hop
        cases hop
      rw [Option.getD_some, or_iff_left (fun h => hnamed h.1)]
      constructor
      · rintro rfl
        rw [BitOp.assigns_eq_some_true] at hop
        exact ⟨pre, post, by rw [hops, hop], fun o ho => BitOp.assigns_eq_none.mp (hpost o ho)⟩
      · intro hlater
        rcases hlater with ⟨pre', post', hops', hpost'⟩
        have hset : History.last (BitOp.assigns i) ops = some true :=
          History.last_eq_some.mpr ⟨pre', .set i, post', hops',
            BitOp.assigns_eq_some_true.mpr rfl,
            fun o ho => BitOp.assigns_eq_none.mpr (hpost' o ho)⟩
        rw [hlast] at hset
        exact Option.some.inj hset

/-! ## The set construction -/

/-- Two lists with the same members build the same word. -/
theorem bitsSet_congr {bitIdx bitIdx' : U32} {bitIdxs bitIdxs' : List U32}
    (h : ∀ n, n ∈ bitIdx' :: bitIdxs' ↔ n ∈ bitIdx :: bitIdxs) :
    bitsSet bitIdx' bitIdxs' = bitsSet bitIdx bitIdxs := by
  refine eq_of_bitN (fun i hi => ?_)
  rw [bitN_bitsSet hi, bitN_bitsSet hi]
  exact decide_eq_decide.mpr (h i)

theorem foldl_bitNSet {bitIdx : U32} {bitIdxs ns : List U32}
    (hperm : ns.Perm (bitIdx :: bitIdxs)) :
    ns.foldl (fun x n => bitNSet n x) 0 = bitsSet bitIdx bitIdxs := by
  refine eq_of_bitN (fun i hi => ?_)
  rw [bitN_foldl_bitNSet hi, bitN_bitsSet hi, bitN_zero, Bool.false_or]
  exact decide_eq_decide.mpr hperm.mem_iff

theorem foldl_bitNReset {bitIdx : U32} {bitIdxs ns : List U32}
    (hperm : ns.Perm (bitIdx :: bitIdxs)) (x : U32) :
    ns.foldl (fun y n => bitNReset n y) x = x &&& ~~~bitsSet bitIdx bitIdxs := by
  refine eq_of_bitN (fun i hi => ?_)
  rw [bitN_foldl_bitNReset hi, bitN_and_not hi, bitN_bitsSet hi]
  congr 2
  exact decide_eq_decide.mpr hperm.mem_iff

/--
**`bits_set` builds the set of its indexes.**

For a non-empty list of indexes below 32 every shift is defined; an index is a
member of the result if and only if it is listed; a list with the same members,
in any order and with any repetitions, gives the same word; setting the listed
indexes one by one from zero, in any order, gives it too; and resetting them one
by one in any word, in any order, removes it. After any sequence of sets and
resets of indexes below 32, a bit is one exactly when the last operation on it is
a set, or there is none and it was one before. Each of these sequences is defined,
and its result is the one of the helpers on total shifts, which the devices call.
-/
theorem bitsSet_faithful (bitIdx : U32) (bitIdxs : List U32)
    (h : ∀ n ∈ bitIdx :: bitIdxs, n < 32) :
    bitsSet? bitIdx bitIdxs = some (bitsSet bitIdx bitIdxs)
    ∧ (∀ n x : U32, n < 32 →
        bitNSet? n x = some (bitNSet n x) ∧ bitNReset? n x = some (bitNReset n x))
    ∧ (∀ i : U32, i < 32 → (bitN i (bitsSet bitIdx bitIdxs) = true ↔ i ∈ bitIdx :: bitIdxs))
    ∧ (∀ (bitIdx' : U32) (bitIdxs' : List U32),
        (∀ n, n ∈ bitIdx' :: bitIdxs' ↔ n ∈ bitIdx :: bitIdxs) →
        bitsSet bitIdx' bitIdxs' = bitsSet bitIdx bitIdxs)
    ∧ (∀ ns : List U32, ns.Perm (bitIdx :: bitIdxs) →
        Machine.run (fun x n => bitNSet? n x) 0 ns = some (bitsSet bitIdx bitIdxs)
        ∧ ns.foldl (fun x n => bitNSet n x) 0 = bitsSet bitIdx bitIdxs)
    ∧ (∀ (x : U32) (ns : List U32), ns.Perm (bitIdx :: bitIdxs) →
        Machine.run (fun y n => bitNReset? n y) x ns = some (x &&& ~~~bitsSet bitIdx bitIdxs)
        ∧ ns.foldl (fun y n => bitNReset n y) x = x &&& ~~~bitsSet bitIdx bitIdxs)
    ∧ (∀ (x : U32) (ops : List BitOp), (∀ op ∈ ops, op.index < 32) →
        Machine.run BitOp.exec? x ops = some (ops.foldl BitOp.exec x) ∧ ∀ i : U32, i < 32 →
          (bitN i (ops.foldl BitOp.exec x) = true
            ↔ (∃ pre post, ops = pre ++ .set i :: post ∧ ∀ op ∈ post, op.index ≠ i)
              ∨ ((∀ op ∈ ops, op.index ≠ i) ∧ bitN i x = true))) := by
  refine ⟨bitsSet?_eq h, fun n x hn => ⟨bitNSet?_eq hn x, bitNReset?_eq hn x⟩, fun i hi => ?_,
    fun _ _ => bitsSet_congr, fun ns hperm => ⟨?_, foldl_bitNSet hperm⟩,
    fun x ns hperm => ⟨?_, foldl_bitNReset hperm x⟩,
    fun x ops hops => ⟨?_, fun i hi => bitN_foldl_exec hi x ops⟩⟩
  · rw [bitN_bitsSet hi, decide_eq_true_eq]
  · rw [Machine.run_eq_foldl (fun x n hn => bitNSet?_eq hn x) 0 ns
      (fun n hn => h n (hperm.mem_iff.mp hn)), foldl_bitNSet hperm]
  · rw [Machine.run_eq_foldl (fun y n hn => bitNReset?_eq hn y) x ns
      (fun n hn => h n (hperm.mem_iff.mp hn)), foldl_bitNReset hperm]
  · exact Machine.run_eq_foldl (fun y op hop => op.exec?_eq y hop) x ops hops

/-- The reserved bits of IE and IF, with one index repeated. -/
theorem bitsSet_faithful_sample : bitN 7 (bitsSet 5 [6, 7, 6]) = true := by
  have hlt : ∀ n ∈ (5 : U32) :: [6, 7, 6], n < 32 := by
    simp only [List.forall_mem_cons, List.not_mem_nil, false_imp_iff, implies_true]
    decide
  exact ((bitsSet_faithful 5 [6, 7, 6] hlt).2.2.1 7 (by decide)).mpr (by decide)

end GBMU
