import GBMU.Common.Contents

/-!
# The heap does what the contents say

`Shows w v` ties the heap world `w` to the contents `v`: the same buffers are alive,
with the right lengths, and the pointers own the heap (`BlockHeap.Owns`). A buffer
without a block owns nothing, so that the ownership discipline does not see it, and
no statement about another buffer goes wrong because of one.

Most member functions pass through a state in which one buffer has no block: it
is not constructed yet, or `__free` has just run. `Hollow w v x` describes it;
`free` leads there, and each lemma about the second half of a member function
starts from there.

What is proved of each statement is that the two sides go wrong together:
`exec_rel` matches the heap with the contents statement by statement, exceptions
and undefined behaviour included, so that the contents say exactly which programs
are safe.
-/

namespace GBMU.DBuffer

variable {ν α : Type} [DecidableEq ν] [DecidableEq α] {z : ZeroCopy}

/-! ## Pointers and blocks -/

/-- The block a name points to, if any. -/
def own (w : World ν α) (x : ν) : Option α := (w.objs x).bind DBuffer.data

omit [DecidableEq ν] [DecidableEq α] in
theorem own_eq {w : World ν α} {x : ν} {fields : DBuffer α} (hx : w.objs x = some fields) :
    own w x = fields.data := by
  rw [own, hx]
  rfl

omit [DecidableEq ν] [DecidableEq α] in
theorem own_eq_some {w : World ν α} {x : ν} {p : α} :
    own w x = some p ↔ ∃ fields, w.objs x = some fields ∧ fields.data = some p :=
  Option.bind_eq_some_iff

omit [DecidableEq α] in
theorem own_setFields (w : World ν α) (x : ν) (fields : DBuffer α) :
    own (setFields w x fields) = Function.update (own w) x fields.data := by
  funext y
  unfold own setFields
  by_cases hyx : y = x
  · subst hyx; simp
  · simp [hyx]

omit [DecidableEq α] in
theorem own_remove (w : World ν α) (x : ν) :
    own ({ w with objs := Function.update w.objs x none } : World ν α)
      = Function.update (own w) x none := by
  funext y
  unfold own
  by_cases hyx : y = x
  · subst hyx; simp
  · simp [hyx]

/-- The heap without the block a buffer points to. -/
def heapWithout (w : World ν α) (x : ν) : BlockHeap α Byte :=
  match own w x with
  | some p => w.heap.erase p
  | none => w.heap

/-- `__free` takes the block off the heap and nulls the pointer; the length stays. -/
theorem free_eq_some {w w₁ : World ν α} {x : ν} {fields : DBuffer α}
    (hx : w.objs x = some fields) (hfree : free w x = some w₁) :
    w₁ = setFields { w with heap := heapWithout w x } x { fields with data := none } := by
  rw [free, hx] at hfree
  rw [heapWithout, own, hx, Option.bind_some]
  cases hp : fields.data with
  | none =>
      simp only [hp, Option.bind_eq_bind, Option.bind_some] at hfree
      exact (Option.some.inj hfree).symm
  | some p =>
      simp only [hp, Option.bind_eq_bind, Option.bind_some, BlockHeap.free] at hfree
      split at hfree
      · exact (Option.some.inj hfree).symm
      · cases hfree

/-! ## Requests for memory -/

/-- What an allocator answers to a request made on a heap. -/
def answerAt (A : Allocator α Byte) (heap : BlockHeap α Byte) : Answer :=
  (A.pick heap).map (fun _ => A.garbage)

/-- The heap a statement has when it asks for memory. -/
def requestHeap (w : World ν α) : Op ν → BlockHeap α Byte
  | .copyAssign this _ => heapWithout w this
  | _ => w.heap

/-- A statement, and what the runtime answers to it. -/
def answered (w : World ν α) (c : Op ν × Allocator α Byte) : Op ν × Answer :=
  (c.1, answerAt c.2 (requestHeap w c.1))

omit [DecidableEq ν] in
theorem allocate_refused {A : Allocator α Byte} {w : World ν α} (h : A.pick w.heap = none)
    (n : Nat) : allocate A w n = none := by
  rw [allocate, BlockHeap.alloc, h]
  rfl

omit [DecidableEq ν] in
theorem allocate_granted {A : Allocator α Byte} {w : World ν α} {p : α}
    (h : A.pick w.heap = some p) (n : Nat) :
    allocate A w n = some (p, { w with heap := w.heap.insert p (A.garbage n) }) := by
  rw [allocate, BlockHeap.alloc, h]
  rfl

/-- A constructor that throws has done nothing. -/
theorem constructFrom_refused {A : Allocator α Byte} {w : World ν α}
    (h : A.pick w.heap = none) (x : ν) (n : Nat) (src : BlockHeap α Byte → Option Bytes) :
    constructFrom A w x n src = some (.threw w) := by
  rw [constructFrom, allocate_refused h]

/-- Granted, a copy from a source that cannot be read is undefined. -/
theorem constructFrom_none {A : Allocator α Byte} {w : World ν α} {x : ν} {p : α}
    (hpick : A.pick w.heap = some p) (n : Nat) (src : BlockHeap α Byte → Option Bytes)
    (hsrc : src (w.heap.insert p (A.garbage n)) = none) : constructFrom A w x n src = none := by
  simp [constructFrom, allocate_granted hpick, memcpy, setFields, hsrc]

theorem copyAssign_self (z : ZeroCopy) (A : Allocator α Byte) (w : World ν α) (x : ν) :
    copyAssign z A w x x = some (.returned w) := by
  simp only [copyAssign, ne_eq, not_true, if_false]

/-- After `__free`, copy assignment goes on as a copying constructor does. -/
theorem copyAssign_eq {A : Allocator α Byte} {w w₁ : World ν α} {x y : ν} {src : DBuffer α}
    (hxy : x ≠ y) (hfree : free w x = some w₁) (hsrc : w₁.objs y = some src) :
    copyAssign z A w x y
      = constructFrom A w₁ x src.len (fun heap => BlockHeap.peek z heap src.data src.len) := by
  simp only [copyAssign, ne_eq, hxy, not_false_eq_true, if_true, hfree, Option.bind_eq_bind,
    Option.bind_some, hsrc]
  rfl

theorem moveAssign_self (w : World ν α) (x : ν) : moveAssign w x x = some (.returned w) := by
  simp only [moveAssign, ne_eq, not_true, if_false]

/-! ## The two views -/

/-- The block under a name, where there is one. -/
def block (v : Contents ν) (x : ν) : Option Bytes := (v x).bind Content.block?

/-- The heap world and the contents tell the same story. -/
structure Shows (w : World ν α) (v : Contents ν) : Prop where
  /-- The same buffers are alive, with the lengths of their contents. -/
  len : ∀ x, (w.objs x).map DBuffer.len = (v x).map Content.len
  /-- The pointers own the heap, and the blocks hold the bytes. -/
  owns : BlockHeap.Owns w.heap (own w) (block v)

/-- The same, except that `x` has no block and its fields say nothing yet. -/
structure Hollow (w : World ν α) (v : Contents ν) (x : ν) : Prop where
  /-- Every other buffer is as in `v`. -/
  len : ∀ y, y ≠ x → (w.objs y).map DBuffer.len = (v y).map Content.len
  /-- The heap holds the bytes of the others. -/
  owns : BlockHeap.Owns w.heap (own w) (Function.update (block v) x none)

theorem block_update (v : Contents ν) (x : ν) (content : Option Content) :
    block (Function.update v x content)
      = Function.update (block v) x (content.bind Content.block?) := by
  funext y
  unfold block
  by_cases hyx : y = x
  · subst hyx
    rw [Function.update_self, Function.update_self]
  · rw [Function.update_of_ne hyx, Function.update_of_ne hyx]

omit [DecidableEq ν] in
theorem block_of_eq {v : Contents ν} {x : ν} {content : Content} (hx : v x = some content) :
    block v x = content.block? := by
  rw [block, hx]
  rfl

/-! ## What is known of a buffer alive -/

omit [DecidableEq ν] [DecidableEq α] in
/-- Equal lengths under a map, read off a buffer known to be alive. -/
theorem fields_of_len {w : World ν α} {v : Contents ν} {x : ν} {content : Content}
    (hlen : (w.objs x).map DBuffer.len = (v x).map Content.len) (hx : v x = some content) :
    ∃ fields, w.objs x = some fields ∧ fields.len = content.len ∧ own w x = fields.data := by
  rw [hx, Option.map_some] at hlen
  obtain ⟨fields, hf, hl⟩ := Option.map_eq_some_iff.mp hlen
  exact ⟨fields, hf, hl, own_eq hf⟩

omit [DecidableEq ν] in
theorem Shows.fields {w : World ν α} {v : Contents ν} {x : ν} {content : Content}
    (h : Shows w v) (hx : v x = some content) :
    ∃ fields, w.objs x = some fields ∧ fields.len = content.len ∧ own w x = fields.data :=
  fields_of_len (h.len x) hx

omit [DecidableEq ν] in
theorem Shows.dead_iff {w : World ν α} {v : Contents ν} {x : ν} (h : Shows w v) :
    w.objs x = none ↔ v x = none := by
  rw [← Option.map_eq_none_iff (f := DBuffer.len), h.len x, Option.map_eq_none_iff]

omit [DecidableEq ν] in
theorem Shows.alive {w : World ν α} {v : Contents ν} {x : ν} {fields : DBuffer α}
    (h : Shows w v) (hx : w.objs x = some fields) :
    ∃ content, v x = some content ∧ fields.len = content.len := by
  have hlen := h.len x
  rw [hx, Option.map_some] at hlen
  obtain ⟨content, hv, hl⟩ := Option.map_eq_some_iff.mp hlen.symm
  exact ⟨content, hv, hl.symm⟩

omit [DecidableEq ν] in
theorem Shows.exists_of_isSome {w : World ν α} {v : Contents ν} {x : ν} (h : Shows w v)
    (hx : (w.objs x).isSome) :
    ∃ fields content, w.objs x = some fields ∧ v x = some content := by
  obtain ⟨fields, hf⟩ := Option.isSome_iff_exists.mp hx
  obtain ⟨content, hv, _⟩ := h.alive hf
  exact ⟨fields, content, hf, hv⟩

/-- The storage of a buffer not yet constructed is hollow. -/
theorem Shows.hollow {w : World ν α} {v : Contents ν} {x : ν} (h : Shows w v)
    (hx : v x = none) : Hollow w v x := by
  have hnone : block v x = none := by
    rw [block, hx]
    rfl
  refine ⟨fun y _ => h.len y, ?_⟩
  rw [Function.update_eq_self_iff.mpr hnone.symm]
  exact h.owns

/-- The heap without the block of `x` belongs to the others. -/
theorem Shows.owns_heapWithout {w : World ν α} {v : Contents ν} (h : Shows w v) (x : ν) :
    BlockHeap.Owns (heapWithout w x) (Function.update (own w) x none)
      (Function.update (block v) x none) := by
  cases hp : own w x with
  | none =>
      rw [heapWithout, hp, Function.update_eq_self_iff.mpr hp.symm,
        Function.update_eq_self_iff.mpr (h.owns.null hp).symm]
      exact h.owns
  | some p =>
      rw [heapWithout, hp]
      exact h.owns.free hp

/-- A buffer that is alive can be freed, whatever it holds. -/
theorem Shows.free_isSome {w : World ν α} {v : Contents ν} {x : ν} {fields : DBuffer α}
    (h : Shows w v) (hx : w.objs x = some fields) : (free w x).isSome := by
  have hown := own_eq hx
  rw [free, hx]
  cases hp : fields.data with
  | none => simp [hp]
  | some p =>
      obtain ⟨bytes, hblock, _⟩ := h.owns.block (hown.trans hp)
      simp [hp, BlockHeap.free_eq hblock]

/-- **`__free` never frees a dead block; it leaves a buffer hollow, with the length it had.** -/
theorem Shows.free {w : World ν α} {v : Contents ν} {x : ν} {content : Content}
    (h : Shows w v) (hx : v x = some content) :
    ∃ w', DBuffer.free w x = some w' ∧ Hollow w' v x ∧ w'.heap = heapWithout w x
      ∧ w'.objs x = some { data := none, len := content.len }
      ∧ ∀ y, y ≠ x → w'.objs y = w.objs y := by
  obtain ⟨fields, hf, hlen, _⟩ := h.fields hx
  obtain ⟨w', hfree⟩ := Option.isSome_iff_exists.mp (h.free_isSome hf)
  have hw' := free_eq_some hf hfree
  have hothers : ∀ y, y ≠ x → w'.objs y = w.objs y := by
    intro y hyx
    rw [hw']
    exact Function.update_of_ne hyx ..
  have hown : own w' = Function.update (own w) x none := by
    rw [hw', own_setFields]
    rfl
  have hheap : w'.heap = heapWithout w x := by
    rw [hw']
    rfl
  refine ⟨w', hfree, ⟨?_, ?_⟩, hheap, ?_, hothers⟩
  · intro y hyx
    rw [hothers y hyx]
    exact h.len y
  · rw [hown, hheap]
    exact h.owns_heapWithout x
  · rw [hw', ← hlen]
    exact Function.update_self ..

/-! ## Filling a hollow buffer -/

/-- A hollow buffer points nowhere. -/
theorem Hollow.own_eq_none {w : World ν α} {v : Contents ν} {x : ν} (h : Hollow w v x) :
    own w x = none :=
  h.owns.own_eq_none (Function.update_self ..)

/-- Writing both fields, with the new block already in the heap. -/
theorem Hollow.setFields {w w' : World ν α} {v : Contents ν} {x : ν} {fields : DBuffer α}
    {content : Content} (h : Hollow w v x) (hobjs : w'.objs = w.objs)
    (hlen : fields.len = content.len)
    (howns : BlockHeap.Owns w'.heap (Function.update (own w) x fields.data)
      (Function.update (block v) x content.block?)) :
    Shows (DBuffer.setFields w' x fields) (Function.update v x (some content)) := by
  refine ⟨?_, ?_⟩
  · intro y
    by_cases hyx : y = x
    · subst hyx
      simp [DBuffer.setFields, hlen]
    · rw [Function.update_of_ne hyx]
      show ((Function.update w'.objs x (some fields)) y).map _ = _
      rw [Function.update_of_ne hyx, hobjs, h.len y hyx]
  · have hown : own w' = own w := by
      funext y
      rw [own, own, hobjs]
    rw [own_setFields, hown, block_update]
    exact howns

/-- A null pointer in a hollow buffer. -/
theorem Hollow.setNull {w : World ν α} {v : Contents ν} {x : ν} (h : Hollow w v x) (n : Nat) :
    Shows (DBuffer.setFields w x { data := none, len := n })
      (Function.update v x (some (.null n))) := by
  refine h.setFields rfl rfl ?_
  rw [Function.update_eq_self_iff.mpr h.own_eq_none.symm]
  exact h.owns

/-- A hollow buffer left as it is has no block behind its length. -/
theorem Hollow.left {w : World ν α} {v : Contents ν} {x : ν} {n : Nat} (h : Hollow w v x)
    (hx : w.objs x = some { data := none, len := n }) :
    Shows w (Function.update v x (some (.null n))) := by
  have hsame : DBuffer.setFields w x { data := none, len := n } = w := by
    rw [DBuffer.setFields, Function.update_eq_self_iff.mpr hx.symm]
  rw [← hsame]
  exact h.setNull n

/-- A new block in a hollow buffer. -/
theorem Hollow.setBlock {w : World ν α} {v : Contents ν} {x : ν} {p : α} (h : Hollow w v x)
    (hp : p ∉ w.heap) (bytes : Bytes) :
    Shows (DBuffer.setFields { w with heap := w.heap.insert p bytes } x
      { data := some p, len := bytes.length }) (Function.update v x (some (.held bytes))) := by
  refine h.setFields rfl rfl ?_
  have howns := h.owns.alloc h.own_eq_none hp bytes
  rwa [Function.update_idem] at howns

/-- Granted, a constructor that copies `bytes` into a hollow buffer makes it hold them. -/
theorem Hollow.constructFrom {A : Allocator α Byte} {w : World ν α} {v : Contents ν} {x : ν}
    {p : α} (hpick : A.pick w.heap = some p) (h : Hollow w v x) (bytes : Bytes)
    (src : BlockHeap α Byte → Option Bytes)
    (hsrc : src (w.heap.insert p (A.garbage bytes.length)) = some bytes) :
    ∃ w', DBuffer.constructFrom A w x bytes.length src = some (.returned w')
      ∧ Shows w' (Function.update v x (some (.held bytes))) := by
  have hfill : BlockHeap.fill (w.heap.insert p (A.garbage bytes.length)) p bytes
      = some (w.heap.insert p bytes) := by
    rw [BlockHeap.fill_eq (Finmap.lookup_insert _) (A.length_garbage _).symm,
      Finmap.insert_insert]
  refine ⟨_, ?_, h.setBlock (A.fresh hpick) bytes⟩
  simp [DBuffer.constructFrom, allocate_granted hpick, memcpy, DBuffer.setFields, hsrc, hfill]

/-! ## Copying -/

theorem Content.length_of_bytes? {content : Content} {bytes : Bytes}
    (h : content.bytes? z = some bytes) : bytes.length = content.len := by
  rw [Content.bytes?_eq_front] at h
  exact ZeroCopy.length_of_front h

/-- Without a block there is nothing to copy. -/
theorem Content.bytes_of_null {n : Nat} {bytes : Bytes}
    (h : (Content.null n).bytes? z = some bytes) : bytes = [] := by
  rw [Content.bytes?, ZeroCopy.front, Option.ite_none_right_eq_some] at h
  exact (Option.some.inj h.2).symm

/-- A copy reads like its source. -/
theorem Content.get?_of_bytes? {content : Content} {bytes : Bytes}
    (h : content.bytes? z = some bytes) (offset : Nat) :
    content.get? offset = Bytes.get? bytes offset := by
  cases content with
  | held bytes' =>
      cases h
      rfl
  | null n =>
      rw [Content.bytes_of_null h]
      rfl

/-- A buffer other than the hollow one reads as it should, whatever is allocated meanwhile. -/
theorem Hollow.peek {w : World ν α} {v : Contents ν} {x y : ν} {content : Content}
    {src : DBuffer α} (h : Hollow w v x) (hyx : y ≠ x) (hy : v y = some content)
    (hsrc : w.objs y = some src) :
    src.len = content.len ∧ ∀ (p : α) (garbage : Bytes), p ∉ w.heap →
      BlockHeap.peek z (w.heap.insert p garbage) src.data src.len = content.bytes? z := by
  obtain ⟨src', hsrc', hlen, hown⟩ := fields_of_len (h.len y hyx) hy
  rw [hsrc] at hsrc'
  cases hsrc'
  refine ⟨hlen, fun p garbage hp => ?_⟩
  have hlookup := h.owns.lookup_insert y hp garbage
  rw [Function.update_of_ne hyx, block_of_eq hy, hown] at hlookup
  rw [BlockHeap.peek, hlookup, hlen, Content.bytes?_eq_front]

/--
**Allocating and copying, refused or granted.** A refusal leaves the world as it
is, which `thrown` describes; a grant ends like the copy of the source's bytes.
-/
theorem Hollow.copy {A : Allocator α Byte} {w : World ν α} {v thrown : Contents ν} {x : ν}
    {bytes : Option Bytes} {n : Nat} {src : BlockHeap α Byte → Option Bytes} (h : Hollow w v x)
    (hthrown : Shows w thrown) (hlen : ∀ {l}, bytes = some l → l.length = n)
    (hsrc : ∀ (p : α) (garbage : Bytes), p ∉ w.heap → src (w.heap.insert p garbage) = bytes) :
    Option.Rel (Outcome.Rel Shows) (DBuffer.constructFrom A w x n src)
      (copyContent v x bytes thrown (answerAt A w.heap)) := by
  unfold answerAt
  cases hpick : A.pick w.heap with
  | none =>
      rw [constructFrom_refused hpick]
      exact .some (.threw hthrown)
  | some p =>
      have hread := fun garbage => hsrc p garbage (A.fresh hpick)
      cases bytes with
      | some l =>
          cases hlen rfl
          obtain ⟨w', hw', hshows⟩ := h.constructFrom hpick l src (hread _)
          rw [hw']
          exact .some (.returned hshows)
      | none =>
          rw [constructFrom_none hpick n src (hread _)]
          exact .none

/-! ## Moving -/

/-- Stealing the fields of `y` into a hollow `x` moves the content. -/
theorem Hollow.steal {w : World ν α} {v : Contents ν} {x y : ν} {content : Content}
    {src : DBuffer α} (h : Hollow w v x) (hyx : y ≠ x) (hy : v y = some content)
    (hsrc : w.objs y = some src) :
    Shows (DBuffer.setFields (DBuffer.setFields w x src) y { data := none, len := 0 })
      (moveContent v x y content) := by
  obtain ⟨src', hsrc', hlen, hown⟩ := fields_of_len (h.len y hyx) hy
  rw [hsrc] at hsrc'
  cases hsrc'
  refine ⟨?_, ?_⟩
  · intro u
    unfold moveContent DBuffer.setFields
    by_cases huy : u = y
    · subst huy
      simp [Content.len]
    · rw [Function.update_of_ne huy]
      show (Function.update (Function.update w.objs x (some src)) y _ u).map _ = _
      rw [Function.update_of_ne huy]
      by_cases hux : u = x
      · subst hux
        rw [Function.update_self, Function.update_self, Option.map_some, Option.map_some, hlen]
      · rw [Function.update_of_ne hux, Function.update_of_ne hux]
        exact h.len u hux
  · have howns := h.owns.move (y := y) h.own_eq_none
    rw [hown, Function.update_of_ne hyx, block_of_eq hy, Function.update_idem] at howns
    unfold moveContent
    rw [own_setFields, own_setFields, block_update, block_update]
    exact howns

/-! ## Bytes -/

omit [DecidableEq ν] in
/-- `operator[]` reads what is there to be read. -/
theorem Shows.index {w : World ν α} {v : Contents ν} (h : Shows w v) (x : ν) (offset : Nat) :
    index w x offset = (v x).bind (fun content => content.get? offset) := by
  cases hx : v x with
  | none =>
      rw [DBuffer.index, h.dead_iff.mpr hx]
      rfl
  | some content =>
      obtain ⟨fields, hf, _, hown⟩ := h.fields hx
      have hlookup := h.owns.lookup x
      rw [hown, block_of_eq hx] at hlookup
      rw [Option.bind_some, Content.get?_eq, ← hlookup, Option.bind_assoc, DBuffer.index, hf]
      rfl

/-- Overwriting a block by one of its size. -/
theorem Shows.store {w : World ν α} {v : Contents ν} {x : ν} {p : α} {bytes bytes' : Bytes}
    (h : Shows w v) (hx : v x = some (.held bytes)) (hown : own w x = some p)
    (hlen : bytes'.length = bytes.length) :
    Shows { w with heap := w.heap.insert p bytes' }
      (Function.update v x (some (.held bytes'))) := by
  refine ⟨?_, ?_⟩
  · intro y
    by_cases hyx : y = x
    · subst hyx
      have hold := h.len y
      rw [hx] at hold
      rw [Function.update_self, hold, Option.map_some, Option.map_some, Content.len, Content.len,
        hlen]
    · rw [Function.update_of_ne hyx]
      exact h.len y
  · rw [block_update]
    exact h.owns.store hown _

/-- Overwriting a byte, where there is one. -/
theorem Shows.indexAssign {w : World ν α} {v : Contents ν} (h : Shows w v) {x : ν}
    {content : Content} (hx : v x = some content) (offset : Nat) (value : Byte) :
    Option.Rel (Outcome.Rel Shows) (DBuffer.indexAssign w x offset value)
      ((content.put? offset value).bind
        (fun c => some (.returned (Function.update v x (some c))))) := by
  obtain ⟨fields, hf, _, hown⟩ := h.fields hx
  have hblock := block_of_eq hx
  unfold DBuffer.indexAssign
  rw [hf, Option.bind_eq_bind, Option.bind_some]
  cases hd : fields.data with
  | none =>
      rw [h.owns.null (hown.trans hd)] at hblock
      rw [Content.put?_eq, ← hblock]
      exact .none
  | some p =>
      obtain ⟨bytes, hlookup, hbytes⟩ := h.owns.block (hown.trans hd)
      rw [hbytes] at hblock
      cases content with
      | null n => cases hblock
      | held bytes' =>
          cases hblock
          rw [Option.bind_eq_bind, Option.bind_some, Content.put?, Bytes.put?]
          by_cases hlt : offset < bytes.length
          · rw [BlockHeap.store_eq hlookup hlt, if_pos hlt]
            exact .some (.returned (h.store hx (hown.trans hd) (List.length_set ..)))
          · rw [BlockHeap.store, hlookup, Option.bind_some, if_neg hlt, if_neg hlt]
            exact .none

/-- A hollow buffer may be forgotten. -/
theorem Hollow.remove {w : World ν α} {v : Contents ν} {x : ν} (h : Hollow w v x) :
    Shows { w with objs := Function.update w.objs x none } (Function.update v x none) := by
  refine ⟨?_, ?_⟩
  · intro y
    by_cases hyx : y = x
    · subst hyx
      simp
    · rw [Function.update_of_ne hyx]
      show ((Function.update w.objs x none) y).map _ = _
      rw [Function.update_of_ne hyx]
      exact h.len y hyx
  · have hsame : Function.update (own w) x none = own w :=
      Function.update_eq_self_iff.mpr h.own_eq_none.symm
    rw [own_remove, block_update, hsame]
    exact h.owns

/-! ## One statement -/

/-- A statement constructs a buffer that is not alive, and otherwise names ones that are. -/
def Scoped (w : World ν α) : Op ν → Prop
  | .constructSize this _ => w.objs this = none
  | .constructBytes this _ => w.objs this = none
  | .constructString this _ => w.objs this = none
  | .copyConstruct this source => w.objs this = none ∧ (w.objs source).isSome
  | .moveConstruct this source => w.objs this = none ∧ (w.objs source).isSome
  | .copyAssign this source => (w.objs this).isSome ∧ (w.objs source).isSome
  | .moveAssign this source => (w.objs this).isSome ∧ (w.objs source).isSome
  | .indexAssign this _ _ => (w.objs this).isSome
  | .destroy this => (w.objs this).isSome

/-- A constructor that copies bytes it has at hand. -/
theorem Shows.constructFrom {A : Allocator α Byte} {w : World ν α} {v : Contents ν} {x : ν}
    (h : Shows w v) (hx : w.objs x = none) (bytes : Bytes) :
    Option.Rel (Outcome.Rel Shows)
      (DBuffer.constructFrom A w x bytes.length (fun _ => some bytes))
      (copyContent v x (some bytes) v (answerAt A w.heap)) := by
  refine (h.hollow (h.dead_iff.mp hx)).copy h ?_ (fun _ _ _ => rfl)
  intro l hl
  cases hl
  rfl

theorem Shows.constructSize {A : Allocator α Byte} {w : World ν α} {v : Contents ν} {x : ν}
    (h : Shows w v) (hx : w.objs x = none) (n : Nat) :
    Option.Rel (Outcome.Rel Shows) (exec z w (.constructSize x n, A))
      (contentExec z v (answered w (.constructSize x n, A))) := by
  have hv : v x = none := h.dead_iff.mp hx
  unfold exec DBuffer.constructSize answered
  dsimp only
  by_cases hn : n = 0
  · subst hn
    rw [if_neg (not_not_intro rfl), contentExec_constructSize_zero hv]
    exact .some (.returned ((h.hollow hv).setNull 0))
  · rw [if_pos hn]
    unfold answerAt requestHeap
    cases hpick : A.pick w.heap with
    | none =>
        rw [allocate_refused hpick, Option.map_none, contentExec_constructSize_refused hv hn]
        exact .some (.threw h)
    | some p =>
        have hshows := (h.hollow hv).setBlock (A.fresh hpick) (A.garbage n)
        rw [A.length_garbage n] at hshows
        rw [allocate_granted hpick, Option.map_some, contentExec_constructSize_granted hv hn]
        exact .some (.returned hshows)

omit [DecidableEq ν] in
/-- Where one name is dead and another alive, the names differ. -/
theorem Shows.source {w : World ν α} {v : Contents ν} {x y : ν} (h : Shows w v)
    (hx : w.objs x = none) (hy : (w.objs y).isSome) :
    ∃ src content, w.objs y = some src ∧ v y = some content ∧ v x = none ∧ y ≠ x := by
  obtain ⟨src, content, hsrc, hcontent⟩ := h.exists_of_isSome hy
  refine ⟨src, content, hsrc, hcontent, h.dead_iff.mp hx, ?_⟩
  intro he
  rw [he, hx] at hsrc
  cases hsrc

theorem Shows.copyConstruct {A : Allocator α Byte} {w : World ν α} {v : Contents ν} {x y : ν}
    (h : Shows w v) (hx : w.objs x = none) (hy : (w.objs y).isSome) :
    Option.Rel (Outcome.Rel Shows) (exec z w (.copyConstruct x y, A))
      (contentExec z v (answered w (.copyConstruct x y, A))) := by
  obtain ⟨src, content, hsrc, hcontent, hv, hyx⟩ := h.source hx hy
  obtain ⟨hlen, hpeek⟩ := (h.hollow hv).peek hyx hcontent hsrc
  unfold exec DBuffer.copyConstruct answered
  dsimp only
  rw [hsrc, Option.bind_eq_bind, Option.bind_some, contentExec_copyConstruct hv hcontent]
  exact (h.hollow hv).copy h (fun hl => (Content.length_of_bytes? hl).trans hlen.symm) hpeek

theorem Shows.moveConstruct {A : Allocator α Byte} {w : World ν α} {v : Contents ν} {x y : ν}
    (h : Shows w v) (hx : w.objs x = none) (hy : (w.objs y).isSome) :
    Option.Rel (Outcome.Rel Shows) (exec z w (.moveConstruct x y, A))
      (contentExec z v (answered w (.moveConstruct x y, A))) := by
  obtain ⟨src, content, hsrc, hcontent, hv, hyx⟩ := h.source hx hy
  unfold exec DBuffer.moveConstruct answered
  dsimp only
  rw [hsrc, Option.bind_eq_bind, Option.bind_some, contentExec_moveConstruct hv hcontent]
  exact .some (.returned ((h.hollow hv).steal hyx hcontent hsrc))

theorem Shows.copyAssign {A : Allocator α Byte} {w : World ν α} {v : Contents ν} {x y : ν}
    (h : Shows w v) (hx : (w.objs x).isSome) (hy : (w.objs y).isSome) :
    Option.Rel (Outcome.Rel Shows) (exec z w (.copyAssign x y, A))
      (contentExec z v (answered w (.copyAssign x y, A))) := by
  obtain ⟨_, old, _, hold⟩ := h.exists_of_isSome hx
  obtain ⟨src, content, hsrc, hcontent⟩ := h.exists_of_isSome hy
  unfold exec answered
  dsimp only
  by_cases hxy : x = y
  · subst hxy
    rw [copyAssign_self, contentExec_copyAssign_self hold]
    exact .some (.returned h)
  · -- the old block goes first; the source is another buffer and keeps its own
    obtain ⟨w₁, hfree, hhollow, hheap, hobj, hothers⟩ := h.free hold
    have hsrc₁ : w₁.objs y = some src := by rw [hothers y (Ne.symm hxy), hsrc]
    obtain ⟨hlen, hpeek⟩ := hhollow.peek (Ne.symm hxy) hcontent hsrc₁
    rw [copyAssign_eq hxy hfree hsrc₁, contentExec_copyAssign hxy hold hcontent]
    have hrequest : requestHeap w (.copyAssign x y) = w₁.heap := hheap.symm
    rw [hrequest]
    exact hhollow.copy (hhollow.left hobj)
      (fun hl => (Content.length_of_bytes? hl).trans hlen.symm) hpeek

theorem Shows.moveAssign {A : Allocator α Byte} {w : World ν α} {v : Contents ν} {x y : ν}
    (h : Shows w v) (hx : (w.objs x).isSome) (hy : (w.objs y).isSome) :
    Option.Rel (Outcome.Rel Shows) (exec z w (.moveAssign x y, A))
      (contentExec z v (answered w (.moveAssign x y, A))) := by
  obtain ⟨_, old, _, hold⟩ := h.exists_of_isSome hx
  obtain ⟨src, content, hsrc, hcontent⟩ := h.exists_of_isSome hy
  unfold exec answered
  dsimp only
  by_cases hxy : x = y
  · subst hxy
    rw [moveAssign_self, contentExec_moveAssign_self hold]
    exact .some (.returned h)
  · obtain ⟨w₁, hfree, hhollow, _, _, hothers⟩ := h.free hold
    have hsrc₁ : w₁.objs y = some src := by rw [hothers y (Ne.symm hxy), hsrc]
    rw [DBuffer.moveAssign, if_pos hxy, hfree, Option.bind_eq_bind, Option.bind_some, hsrc₁,
      Option.bind_eq_bind, Option.bind_some, contentExec_moveAssign hxy hold hcontent]
    exact .some (.returned (hhollow.steal (Ne.symm hxy) hcontent hsrc₁))

theorem Shows.destroy {w : World ν α} {v : Contents ν} {x : ν} (h : Shows w v)
    (hx : (w.objs x).isSome) :
    Option.Rel (Outcome.Rel Shows) (DBuffer.destroy w x)
      (some (.returned (Function.update v x none))) := by
  obtain ⟨_, old, _, hold⟩ := h.exists_of_isSome hx
  obtain ⟨w₁, hfree, hhollow, _⟩ := h.free hold
  rw [DBuffer.destroy, hfree, Option.bind_eq_bind, Option.bind_some]
  exact .some (.returned hhollow.remove)

/-- **The heap does what the contents say, or both go wrong.** -/
theorem exec_rel {w : World ν α} {v : Contents ν} {c : Op ν × Allocator α Byte}
    (h : Shows w v) (hscoped : Scoped w c.1) :
    Option.Rel (Outcome.Rel Shows) (exec z w c) (contentExec z v (answered w c)) := by
  obtain ⟨op, A⟩ := c
  cases op with
  | constructSize x n => exact h.constructSize hscoped n
  | constructBytes x extData =>
      rw [answered, contentExec_constructBytes (h.dead_iff.mp hscoped)]
      exact h.constructFrom hscoped extData
  | constructString x str =>
      rw [answered, contentExec_constructString (h.dead_iff.mp hscoped)]
      exact h.constructFrom hscoped str
  | copyConstruct x y => exact h.copyConstruct hscoped.1 hscoped.2
  | moveConstruct x y => exact h.moveConstruct hscoped.1 hscoped.2
  | copyAssign x y => exact h.copyAssign hscoped.1 hscoped.2
  | moveAssign x y => exact h.moveAssign hscoped.1 hscoped.2
  | indexAssign x offset value =>
      obtain ⟨_, content, _, hcontent⟩ := h.exists_of_isSome hscoped
      rw [answered, contentExec_indexAssign hcontent]
      exact h.indexAssign hcontent offset value
  | destroy x =>
      obtain ⟨_, content, _, hcontent⟩ := h.exists_of_isSome hscoped
      rw [answered, contentExec_destroy hcontent]
      exact h.destroy hscoped

/-- Where the contents make anything of a statement, it names buffers as it should. -/
theorem Shows.scoped {w : World ν α} {v : Contents ν} {c : Op ν × Answer}
    {e : Outcome (Contents ν)} (h : Shows w v) (he : contentExec z v c = some e) :
    Scoped w c.1 := by
  have hdead : ∀ {x} {o : Option (Outcome (Contents ν))},
      (if (v x).isSome then none else o) = some e → w.objs x = none := by
    intro x o ho
    rw [Option.ite_none_left_eq_some, Option.not_isSome_iff_eq_none] at ho
    exact h.dead_iff.mpr ho.1
  have halive : ∀ {x content}, v x = some content → (w.objs x).isSome := by
    intro x content hx
    obtain ⟨fields, hf, _⟩ := h.fields hx
    rw [hf]
    rfl
  obtain ⟨op, answer⟩ := c
  cases op with
  | constructSize x n => exact hdead he
  | constructBytes x extData => exact hdead he
  | constructString x str => exact hdead he
  | copyConstruct x y =>
      obtain ⟨content, hy, he⟩ := Option.bind_eq_some_iff.mp he
      exact ⟨hdead he, halive hy⟩
  | moveConstruct x y =>
      obtain ⟨content, hy, he⟩ := Option.bind_eq_some_iff.mp he
      exact ⟨hdead he, halive hy⟩
  | copyAssign x y =>
      obtain ⟨old, hx, he⟩ := Option.bind_eq_some_iff.mp he
      obtain ⟨content, hy, _⟩ := Option.bind_eq_some_iff.mp he
      exact ⟨halive hx, halive hy⟩
  | moveAssign x y =>
      obtain ⟨old, hx, he⟩ := Option.bind_eq_some_iff.mp he
      obtain ⟨content, hy, _⟩ := Option.bind_eq_some_iff.mp he
      exact ⟨halive hx, halive hy⟩
  | indexAssign x offset value =>
      obtain ⟨content, hx, _⟩ := Option.bind_eq_some_iff.mp he
      exact halive hx
  | destroy x =>
      obtain ⟨content, hx, _⟩ := Option.bind_eq_some_iff.mp he
      exact halive hx

/-! ## Whole programs -/

omit [DecidableEq ν] in
/-- Nothing is alive and nothing is allocated before the first statement. -/
theorem shows_noBuffers : Shows (noBuffers : World ν α) (fun _ => none) :=
  ⟨fun _ => rfl, BlockHeap.owns_empty⟩

/-- What can be seen of a heap through its buffers is what the contents say. -/
structure SeenAs (w : World ν α) (v : Contents ν) : Prop where
  size : ∀ x, size w x = (v x).map Content.len
  index : ∀ x offset, index w x offset = (v x).bind (fun content => content.get? offset)
  /-- A non-null `__data` names a live block of `__len` bytes. -/
  block : ∀ {x fields p}, w.objs x = some fields → fields.data = some p →
    ∃ bytes, w.heap.lookup p = some bytes ∧ bytes.length = fields.len
  /-- No two buffers name the same block. -/
  excl : ∀ {x y fx fy p}, w.objs x = some fx → w.objs y = some fy →
    fx.data = some p → fy.data = some p → x = y
  /-- Every live block is named by a buffer. -/
  named : ∀ {p}, p ∈ w.heap → ∃ x fields, w.objs x = some fields ∧ fields.data = some p

omit [DecidableEq ν] in
theorem Shows.seenAs {w : World ν α} {v : Contents ν} (h : Shows w v) : SeenAs w v := by
  refine ⟨h.len, h.index, ?_, ?_, ?_⟩
  · intro x fields p hx hp
    obtain ⟨content, hv, hlen⟩ := h.alive hx
    obtain ⟨bytes, hlookup, hblock⟩ := h.owns.block (own_eq_some.mpr ⟨fields, hx, hp⟩)
    rw [block_of_eq hv] at hblock
    cases content with
    | null n => cases hblock
    | held bytes' =>
        cases hblock
        exact ⟨bytes, hlookup, hlen.symm⟩
  · intro x y fx fy p hx hy hpx hpy
    exact h.owns.excl (own_eq_some.mpr ⟨fx, hx, hpx⟩) (own_eq_some.mpr ⟨fy, hy, hpy⟩)
  · intro p hp
    obtain ⟨x, hx⟩ := h.owns.covered hp
    exact ⟨x, own_eq_some.mp hx⟩

/--
**What a program does when any allocation may fail.**

Take a program whose statements name buffers as C++ demands, and let the runtime
answer each of its requests for memory as it likes. Statement by statement the heap
and the contents end alike: both return, both throw, or both go wrong, where it is
up to `z` whether the copy of a buffer of length 0 without a block goes wrong. While
they do not, the lengths and bytes seen through the buffers are those of the
contents, every block belongs to one buffer, which says its length, and no block is
without a buffer.
-/
theorem contents_faithful {calls : List (Op ν × Allocator α Byte)}
    (hscoped : Machine.Throughout (attempt z) (noBuffers : World ν α) calls
      (fun w c => Scoped w c.1)) :
    Machine.endings (exec z) (noBuffers : World ν α) calls
        = Machine.endings (contentExec z) (fun _ => none)
            (Machine.annotate (attempt z) answered noBuffers calls)
      ∧ Option.Rel SeenAs (Machine.run (attempt z) (noBuffers : World ν α) calls)
          (Machine.run (contentStep z) (fun _ => none)
            (Machine.annotate (attempt z) answered noBuffers calls)) := by
  have hstep : ∀ (w : World ν α) (v : Contents ν) (c : Op ν × Allocator α Byte), Shows w v →
      Scoped w c.1 →
      Option.Rel (Outcome.Rel Shows) (exec z w c) (contentExec z v (answered w c)) :=
    fun _ _ _ => exec_rel
  obtain ⟨hendings, hrun⟩ := Machine.caught_rel hstep calls shows_noBuffers hscoped
  exact ⟨hendings, Machine.rel_imp hrun (fun _ _ h => h.seenAs)⟩

/-- The runtime refuses. -/
def outOfMemory : Allocator Nat Byte := .exhausted 0

/--
A refused assignment takes a buffer its block, and the buffer is moved as it is and
assigned to again. At the end a buffer that was moved from is copied.
-/
def mended : List (Op Nat × Allocator Nat Byte) :=
  [(.constructBytes 0 [1, 2], Allocator.bump 0), (.constructBytes 1 [3], Allocator.bump 0),
    (.copyAssign 0 1, outOfMemory), (.moveConstruct 2 0, outOfMemory),
    (.copyAssign 2 1, Allocator.bump 0), (.copyConstruct 3 0, Allocator.bump 0)]

theorem contents_faithful_sample :
    Machine.endings (exec .undefined) (noBuffers : World Nat Nat) mended
        = [some .returned, some .returned, some .threw, some .returned, some .returned, none]
      ∧ Option.Rel SeenAs (Machine.run (attempt .nothing) (noBuffers : World Nat Nat) mended)
          (Machine.run (contentStep .nothing) (fun _ => none)
            (Machine.annotate (attempt .nothing) answered noBuffers mended)) := by
  have hscoped : ∀ z, Machine.Throughout (attempt z) (noBuffers : World Nat Nat) mended
      (fun w c => Scoped w c.1) := by
    intro z
    refine .cons rfl rfl ?_
    refine .cons rfl rfl ?_
    refine .cons ⟨rfl, rfl⟩ rfl ?_
    refine .cons ⟨rfl, rfl⟩ rfl ?_
    refine .cons ⟨rfl, rfl⟩ rfl ?_
    exact .last ⟨rfl, rfl⟩
  obtain ⟨hendings, _⟩ := contents_faithful (hscoped .undefined)
  obtain ⟨_, hseen⟩ := contents_faithful (hscoped .nothing)
  exact ⟨hendings.trans rfl, hseen⟩

end GBMU.DBuffer
