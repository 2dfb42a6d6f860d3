import GBMU.Common.DBuffer

/-!
# Contents, when allocations may fail

The value model of `GBMU/Common/DBuffer.lean` covers programs whose allocations
all succeed. This one covers the others, and it tells a buffer with no bytes in its
block from one with no block. A default constructor and a move leave the second, with
length 0, and so does a copy assignment that throws, with the length the buffer had
before. From there a buffer may be destroyed, moved, or assigned to again. Its bytes
may not be asked for; whether it may be copied when its length is 0 is for the
`ZeroCopy` to say.

The model knows no heap. It is told what the runtime answered to each request for
memory: a refusal, or a grant with whatever the new memory contained.
-/

namespace GBMU.DBuffer

/-- What a buffer holds. -/
inductive Content where
  | held (bytes : Bytes)
  /-- No block: `__data` is null, whatever `__len` says. -/
  | null (len : Nat)

namespace Content

/-- What `size()` answers. -/
def len : Content → Nat
  | .held bytes => bytes.length
  | .null len => len

/-- The block there is. -/
def block? : Content → Option Bytes
  | .held bytes => some bytes
  | .null _ => none

/-- The bytes a copy takes. -/
def bytes? (z : ZeroCopy) : Content → Option Bytes
  | .held bytes => some bytes
  | .null len => z.front len none

def get? : Content → Nat → Option Byte
  | .held bytes, offset => Bytes.get? bytes offset
  | .null _, _ => none

def put? : Content → Nat → Byte → Option Content
  | .held bytes, offset, value => (Bytes.put? bytes offset value).map .held
  | .null _, _, _ => none

/-- A copy takes as many bytes of the block as `size()` says. -/
theorem bytes?_eq_front (z : ZeroCopy) (content : Content) :
    content.bytes? z = z.front content.len content.block? := by
  cases content with
  | held bytes => exact (z.front_length bytes).symm
  | null len => rfl

theorem get?_eq (content : Content) (offset : Nat) :
    content.get? offset = content.block?.bind (fun bytes => Bytes.get? bytes offset) := by
  cases content <;> rfl

theorem put?_eq (content : Content) (offset : Nat) (value : Byte) :
    content.put? offset value
      = (content.block?.bind (fun bytes => Bytes.put? bytes offset value)).map .held := by
  cases content <;> rfl

end Content

/-- What the runtime answered: a refusal, or what the new memory contains. -/
abbrev Answer := Option (Nat → Bytes)

/-- The contents of every buffer alive. -/
abbrev Contents (ν : Type) := ν → Option Content

variable {ν : Type} [DecidableEq ν]

/--
Allocate and copy `bytes` into `this`. A refusal leaves `thrown`; it comes before the
bytes are looked for, and there may be none.
-/
def copyContent (v : Contents ν) (this : ν) (bytes : Option Bytes) (thrown : Contents ν) :
    Answer → Option (Outcome (Contents ν))
  | none => some (.threw thrown)
  | some _ => bytes.map (fun bytes => .returned (Function.update v this (some (.held bytes))))

/-- The content of `source` in `this`, and no block in `source`. -/
def moveContent (v : Contents ν) (this source : ν) (content : Content) : Contents ν :=
  Function.update (Function.update v this (some content)) source (some (.null 0))

/--
What each statement means for contents, and when it means anything. A constructor
builds a buffer that is not alive; a refusal makes it build nothing.
-/
def contentExec (z : ZeroCopy) (v : Contents ν) (c : Op ν × Answer) :
    Option (Outcome (Contents ν)) :=
  match c.1 with
  | .constructSize this size =>
      if (v this).isSome then none
      else if size = 0 then some (.returned (Function.update v this (some (.null 0))))
      else
        match c.2 with
        | none => some (.threw v)
        | some garbage => some (.returned (Function.update v this (some (.held (garbage size)))))
  | .constructBytes this extData =>
      if (v this).isSome then none else copyContent v this (some extData) v c.2
  | .constructString this str =>
      if (v this).isSome then none else copyContent v this (some str) v c.2
  | .copyConstruct this source => do
      let content ← v source
      if (v this).isSome then none else copyContent v this (content.bytes? z) v c.2
  | .moveConstruct this source => do
      let content ← v source
      if (v this).isSome then none else some (.returned (moveContent v this source content))
  | .copyAssign this source => do
      let old ← v this
      let content ← v source
      if this = source then some (.returned v)
      else
        copyContent v this (content.bytes? z) (Function.update v this (some (.null old.len))) c.2
  | .moveAssign this source => do
      let _ ← v this
      let content ← v source
      if this = source then some (.returned v)
      else some (.returned (moveContent v this source content))
  | .indexAssign this offset value => do
      let content ← v this
      let content ← content.put? offset value
      some (.returned (Function.update v this (some content)))
  | .destroy this => do
      let _ ← v this
      some (.returned (Function.update v this none))

/-- One statement in a program that catches what it throws. -/
def contentStep (z : ZeroCopy) : Contents ν → Op ν × Answer → Option (Contents ν) :=
  Machine.caught (contentExec z)

/-! ## Each statement, where its names are as they should be -/

section Statements

variable {z : ZeroCopy} {v : Contents ν} {x y : ν} {old content : Content} {answer : Answer}

theorem contentExec_constructSize_zero (hx : v x = none) :
    contentExec z v (.constructSize x 0, answer)
      = some (.returned (Function.update v x (some (.null 0)))) := by
  unfold contentExec
  dsimp only
  rw [hx, if_neg (by simp), if_pos rfl]

theorem contentExec_constructSize_refused (hx : v x = none) {n : Nat} (hn : n ≠ 0) :
    contentExec z v (.constructSize x n, none) = some (.threw v) := by
  unfold contentExec
  dsimp only
  rw [hx, if_neg (by simp), if_neg hn]

theorem contentExec_constructSize_granted (hx : v x = none) {n : Nat} (hn : n ≠ 0)
    (garbage : Nat → Bytes) :
    contentExec z v (.constructSize x n, some garbage)
      = some (.returned (Function.update v x (some (.held (garbage n))))) := by
  unfold contentExec
  dsimp only
  rw [hx, if_neg (by simp), if_neg hn]

theorem contentExec_constructBytes (hx : v x = none) (extData : Bytes) :
    contentExec z v (.constructBytes x extData, answer)
      = copyContent v x (some extData) v answer := by
  unfold contentExec
  dsimp only
  rw [hx, if_neg (by simp)]

theorem contentExec_constructString (hx : v x = none) (str : Bytes) :
    contentExec z v (.constructString x str, answer) = copyContent v x (some str) v answer := by
  unfold contentExec
  dsimp only
  rw [hx, if_neg (by simp)]

theorem contentExec_copyConstruct (hx : v x = none) (hy : v y = some content) :
    contentExec z v (.copyConstruct x y, answer)
      = copyContent v x (content.bytes? z) v answer := by
  unfold contentExec
  dsimp only
  rw [hy, hx, Option.bind_eq_bind, Option.bind_some, if_neg (by simp)]

theorem contentExec_moveConstruct (hx : v x = none) (hy : v y = some content) :
    contentExec z v (.moveConstruct x y, answer)
      = some (.returned (moveContent v x y content)) := by
  unfold contentExec
  dsimp only
  rw [hy, hx, Option.bind_eq_bind, Option.bind_some, if_neg (by simp)]

theorem contentExec_copyAssign (hxy : x ≠ y) (hx : v x = some old) (hy : v y = some content) :
    contentExec z v (.copyAssign x y, answer)
      = copyContent v x (content.bytes? z) (Function.update v x (some (.null old.len))) answer := by
  unfold contentExec
  dsimp only
  rw [hx, hy, Option.bind_eq_bind, Option.bind_some, Option.bind_some, if_neg hxy]

theorem contentExec_copyAssign_self (hx : v x = some old) :
    contentExec z v (.copyAssign x x, answer) = some (.returned v) := by
  unfold contentExec
  dsimp only
  rw [hx, Option.bind_eq_bind, Option.bind_some, Option.bind_some, if_pos rfl]

theorem contentExec_moveAssign (hxy : x ≠ y) (hx : v x = some old) (hy : v y = some content) :
    contentExec z v (.moveAssign x y, answer)
      = some (.returned (moveContent v x y content)) := by
  unfold contentExec
  dsimp only
  rw [hx, hy, Option.bind_eq_bind, Option.bind_some, Option.bind_some, if_neg hxy]

theorem contentExec_moveAssign_self (hx : v x = some old) :
    contentExec z v (.moveAssign x x, answer) = some (.returned v) := by
  unfold contentExec
  dsimp only
  rw [hx, Option.bind_eq_bind, Option.bind_some, Option.bind_some, if_pos rfl]

theorem contentExec_indexAssign (hx : v x = some content) (offset : Nat) (value : Byte) :
    contentExec z v (.indexAssign x offset value, answer)
      = (content.put? offset value).bind
          (fun c => some (.returned (Function.update v x (some c)))) := by
  unfold contentExec
  dsimp only
  rw [hx, Option.bind_eq_bind, Option.bind_some]

theorem contentExec_destroy (hx : v x = some content) :
    contentExec z v (.destroy x, answer) = some (.returned (Function.update v x none)) := by
  unfold contentExec
  dsimp only
  rw [hx, Option.bind_eq_bind, Option.bind_some]

end Statements

end GBMU.DBuffer
