import GBMU.Common.Types
import GBMU.Lib.BlockHeap
import GBMU.Lib.Outcome

/-!
# The dynamic buffer

`common/GB_dbuffer.h`. A `dbuffer_t` is a pointer and a length; the bytes live
in a heap block. A program works on named buffers, and its state is the heap
together with the two fields of every buffer alive.

Every member function answers `none` where the C++ has undefined behaviour: a
block freed twice, an access through a dead or null pointer, an access past the
end of a block. `operator new[]` may throw; the member function then stops, and
what it had done so far stays done.

The copying functions call `memcpy` even when there are no bytes to copy, and a
buffer without a block hands it a null source. C++ leaves that undefined, the
implementations copy nothing: the functions take the `ZeroCopy` to go by.

At the end of the file stands the *value model*: a buffer is its bytes, and
nothing else exists. It says what the member functions are for; that they do it,
copies of empty buffers included, is proved in `GBMU/Proof/BufferOwnership.lean`.
-/

namespace GBMU

/-! ## The value of a buffer -/

/-- What a buffer holds. Devices use their `dbuffer_t` through this value. -/
abbrev Bytes := List Byte

/-- `buffer[offset]`, read. -/
def Bytes.get? (bytes : Bytes) (offset : Nat) : Option Byte := bytes[offset]?

/-- `buffer[offset] = value`. -/
def Bytes.put? (bytes : Bytes) (offset : Nat) (value : Byte) : Option Bytes :=
  if offset < bytes.length then some (bytes.set offset value) else none

/-! ## The object -/

/-- The fields `__data` and `__len`. -/
structure DBuffer (α : Type) where
  data : Option α
  len : Nat

/-- The heap, and the buffers alive under their names. -/
structure World (ν α : Type) where
  heap : BlockHeap α Byte
  objs : ν → Option (DBuffer α)

namespace DBuffer

variable {ν α : Type} [DecidableEq ν] [DecidableEq α]

/-- Before any buffer is constructed. -/
def noBuffers : World ν α := { heap := ∅, objs := fun _ => none }

/-- Write both fields of `this`. -/
def setFields (w : World ν α) (this : ν) (fields : DBuffer α) : World ν α :=
  { w with objs := Function.update w.objs this (some fields) }

def allocate (A : Allocator α Byte) (w : World ν α) (n : Nat) : Option (α × World ν α) :=
  (BlockHeap.alloc A w.heap n).map (fun (p, heap) => (p, { w with heap := heap }))

def free (w : World ν α) (this : ν) : Option (World ν α) := do
  let fields ← w.objs this
  match fields.data with
  | some p =>
      let heap ← BlockHeap.free w.heap p
      some (setFields { w with heap := heap } this { fields with data := none })
  | none => some (setFields w this { fields with data := none })

/-- `memcpy(this->__data, src, n)`, where `src` is what the source pointer leads to. -/
def memcpy (w : World ν α) (p : α) (src : BlockHeap α Byte → Option Bytes) :
    Option (World ν α) := do
  let bytes ← src w.heap
  let heap ← BlockHeap.fill w.heap p bytes
  some { w with heap := heap }

/-! ## Constructors -/

/-- `dbuffer_t(size_t size)`. -/
def constructSize (A : Allocator α Byte) (w : World ν α) (this : ν) (size : Nat) :
    Option (Outcome (World ν α)) :=
  if size ≠ 0 then
    match allocate A w size with
    | none => some (.threw w)
    | some (p, w) => some (.returned (setFields w this { data := some p, len := size }))
  else
    some (.returned (setFields w this { data := none, len := size }))

/--
The common shape of the three copying constructors: allocate `length` bytes,
even when `length` is 0, and `memcpy` the source into them.
-/
def constructFrom (A : Allocator α Byte) (w : World ν α) (this : ν) (length : Nat)
    (src : BlockHeap α Byte → Option Bytes) : Option (Outcome (World ν α)) :=
  match allocate A w length with
  | none => some (.threw w)
  | some (p, w) => do
      let w ← memcpy (setFields w this { data := some p, len := length }) p src
      some (.returned w)

/-- `dbuffer_t(void* ext_data, size_t length)`, given the `length` bytes of a caller's array. -/
def constructBytes (A : Allocator α Byte) (w : World ν α) (this : ν) (extData : Bytes) :
    Option (Outcome (World ν α)) :=
  constructFrom A w this extData.length (fun _ => some extData)

/-- `dbuffer_t(const std::string& str)`. -/
def constructString (A : Allocator α Byte) (w : World ν α) (this : ν) (str : Bytes) :
    Option (Outcome (World ν α)) :=
  constructFrom A w this str.length (fun _ => some str)

/-- `dbuffer_t(const dbuffer_t& source)`. -/
def copyConstruct (z : ZeroCopy) (A : Allocator α Byte) (w : World ν α) (this source : ν) :
    Option (Outcome (World ν α)) := do
  let src ← w.objs source
  constructFrom A w this src.len (fun heap => BlockHeap.peek z heap src.data src.len)

/-- `dbuffer_t(dbuffer_t&& source)`. -/
def moveConstruct (w : World ν α) (this source : ν) : Option (Outcome (World ν α)) := do
  let src ← w.objs source
  some (.returned (setFields (setFields w this src) source { data := none, len := 0 }))

/-! ## Assignment, access, destruction -/

/-- `operator=(const dbuffer_t& source)`. -/
def copyAssign (z : ZeroCopy) (A : Allocator α Byte) (w : World ν α) (this source : ν) :
    Option (Outcome (World ν α)) :=
  if this ≠ source then do
    let w ← free w this
    let src ← w.objs source
    match allocate A w src.len with
    | none => some (.threw w)
    | some (p, w) =>
        let w ← memcpy (setFields w this { data := some p, len := src.len }) p
          (fun heap => BlockHeap.peek z heap src.data src.len)
        some (.returned w)
  else
    some (.returned w)

/-- `operator=(dbuffer_t&& source)`. -/
def moveAssign (w : World ν α) (this source : ν) : Option (Outcome (World ν α)) :=
  if this ≠ source then do
    let w ← free w this
    let src ← w.objs source
    some (.returned (setFields (setFields w this src) source { data := none, len := 0 }))
  else
    some (.returned w)

/-- `size()`, and `length()`. -/
def size (w : World ν α) (this : ν) : Option Nat := (w.objs this).map DBuffer.len

/-- `get_data_addr()`; the inner `none` is the null pointer. -/
def getDataAddr (w : World ν α) (this : ν) : Option (Option α) := (w.objs this).map DBuffer.data

/-- `operator[](offset)`, read. -/
def index (w : World ν α) (this : ν) (offset : Nat) : Option Byte := do
  let fields ← w.objs this
  let p ← fields.data
  BlockHeap.load w.heap p offset

/-- `operator[](offset) = value`. -/
def indexAssign (w : World ν α) (this : ν) (offset : Nat) (value : Byte) :
    Option (Outcome (World ν α)) := do
  let fields ← w.objs this
  let p ← fields.data
  let heap ← BlockHeap.store w.heap p offset value
  some (.returned { w with heap := heap })

/-- `~dbuffer_t()`, after which the name is free again. -/
def destroy (w : World ν α) (this : ν) : Option (Outcome (World ν α)) := do
  let w ← free w this
  some (.returned { w with objs := Function.update w.objs this none })

/-! ## Programs -/

/-- One statement of a program that works on buffers. -/
inductive Op (ν : Type) where
  | constructSize (this : ν) (size : Nat)
  | constructBytes (this : ν) (extData : Bytes)
  | constructString (this : ν) (str : Bytes)
  | copyConstruct (this source : ν)
  | moveConstruct (this source : ν)
  | copyAssign (this source : ν)
  | moveAssign (this source : ν)
  | indexAssign (this : ν) (offset : Nat) (value : Byte)
  | destroy (this : ν)

/-- One statement, with the allocator that serves it. -/
def exec (z : ZeroCopy) (w : World ν α) (c : Op ν × Allocator α Byte) :
    Option (Outcome (World ν α)) :=
  match c.1 with
  | .constructSize this size => constructSize c.2 w this size
  | .constructBytes this extData => constructBytes c.2 w this extData
  | .constructString this str => constructString c.2 w this str
  | .copyConstruct this source => copyConstruct z c.2 w this source
  | .moveConstruct this source => moveConstruct w this source
  | .copyAssign this source => copyAssign z c.2 w this source
  | .moveAssign this source => moveAssign w this source
  | .indexAssign this offset value => indexAssign w this offset value
  | .destroy this => destroy w this

/-- One statement that returns normally. -/
def step (z : ZeroCopy) (w : World ν α) (c : Op ν × Allocator α Byte) : Option (World ν α) :=
  match exec z w c with
  | some (.returned w') => some w'
  | _ => none

/-- One statement in a program that catches what it throws. -/
def attempt (z : ZeroCopy) : World ν α → Op ν × Allocator α Byte → Option (World ν α) :=
  Machine.caught (exec z)

/-! ## The value model -/

/-- The bytes of every buffer alive. -/
abbrev Values (ν : Type) := ν → Option Bytes

/--
What each statement means for values; `none` when it is not a legal statement
there: constructing over a buffer that is alive, naming one that is not, or
indexing past the end. The bytes of a buffer constructed by size are whatever
the new memory contained.
-/
def valueStep (v : Values ν) (c : Op ν × Allocator α Byte) : Option (Values ν) :=
  match c.1 with
  | .constructSize this size =>
      if (v this).isNone then some (Function.update v this (some (c.2.garbage size))) else none
  | .constructBytes this extData =>
      if (v this).isNone then some (Function.update v this (some extData)) else none
  | .constructString this str =>
      if (v this).isNone then some (Function.update v this (some str)) else none
  | .copyConstruct this source => do
      let bytes ← v source
      if (v this).isNone then some (Function.update v this (some bytes)) else none
  | .moveConstruct this source => do
      let bytes ← v source
      if (v this).isNone then
        some (Function.update (Function.update v this (some bytes)) source (some []))
      else none
  | .copyAssign this source => do
      let bytes ← v source
      if (v this).isSome then some (Function.update v this (some bytes)) else none
  | .moveAssign this source => do
      let bytes ← v source
      if this = source then some v
      else if (v this).isSome then
        some (Function.update (Function.update v this (some bytes)) source (some []))
      else none
  | .indexAssign this offset value => do
      let bytes ← v this
      let bytes ← Bytes.put? bytes offset value
      some (Function.update v this (some bytes))
  | .destroy this =>
      if (v this).isSome then some (Function.update v this none) else none

end DBuffer

end GBMU
