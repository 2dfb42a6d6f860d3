import GBMU.Common.Contents

/-!
# Programs that keep addresses

`get_data_addr()` hands out `__data`. A program may keep the address in a variable,
read and write through it, and build another buffer from it with
`dbuffer_t(void*, size_t)`, while it goes on with its buffers.

`Holdings` is the same program without addresses. A variable there stands for a
buffer, the one that holds the block; `heldBy` says which buffer that is after a
statement, since a move hands the block on and an assignment or a destructor frees
it. A variable whose block is freed stands for nothing, and may not be used: not even
to copy no bytes from it, unless the `ZeroCopy` allows that.

On the heap an address is a number. Once the runtime hands it out again, an old copy
of it leads to the new block.
-/

namespace GBMU.DBuffer

variable {σ ν α : Type} [DecidableEq σ] [DecidableEq ν] [DecidableEq α]

/-- One statement of a program that keeps addresses in variables. -/
inductive AddrOp (σ ν : Type) where
  | buffer (op : Op ν)
  /-- `var = this.get_data_addr()`. -/
  | getDataAddr (var : σ) (this : ν)
  /-- `var[offset]`, read. -/
  | read (var : σ) (offset : Nat)
  /-- `var[offset] = value`. -/
  | write (var : σ) (offset : Nat) (value : Byte)
  /-- `dbuffer_t this(var, length)`. -/
  | construct (this : ν) (var : σ) (length : Nat)

/-! ## On the heap -/

/-- The world, and the address in each variable; `none` is the null pointer. -/
structure AddrWorld (σ ν α : Type) where
  world : World ν α
  addrs : σ → Option α

/-- Before any buffer is constructed, with every variable null. -/
def noAddrs : AddrWorld σ ν α := { world := noBuffers, addrs := fun _ => none }

/-- One statement, with the allocator that serves it. -/
def addrExec (z : ZeroCopy) (s : AddrWorld σ ν α) (c : AddrOp σ ν × Allocator α Byte) :
    Option (Outcome (AddrWorld σ ν α)) :=
  match c.1 with
  | .buffer op => (exec z s.world (op, c.2)).map (.map (fun w => { s with world := w }))
  | .getDataAddr var this =>
      (getDataAddr s.world this).map (fun p =>
        .returned { s with addrs := Function.update s.addrs var p })
  | .read var offset =>
      (s.addrs var).bind (fun p =>
        (BlockHeap.load s.world.heap p offset).map (fun _ => .returned s))
  | .write var offset value =>
      (s.addrs var).bind (fun p =>
        (BlockHeap.store s.world.heap p offset value).map (fun heap =>
          .returned { s with world := { s.world with heap := heap } }))
  | .construct this var length =>
      (constructFrom c.2 s.world this length
        (fun heap => BlockHeap.peek z heap (s.addrs var) length)).map
          (.map (fun w => { s with world := w }))

/-- One statement in a program that catches what it throws. -/
def addrStep (z : ZeroCopy) :
    AddrWorld σ ν α → AddrOp σ ν × Allocator α Byte → Option (AddrWorld σ ν α) :=
  Machine.caught (addrExec z)

/-! ## Without addresses -/

/--
The buffer that holds a block after a statement, when `x` held it before; `none`
when the statement frees it.
-/
def heldBy (x : ν) : Op ν → Option ν
  | .moveConstruct this source => if source = x then some this else some x
  | .copyAssign this source => if this = x ∧ this ≠ source then none else some x
  | .moveAssign this source =>
      if this = source then some x
      else if source = x then some this
      else if this = x then none
      else some x
  | .destroy this => if this = x then none else some x
  | _ => some x

/-- The contents, and the buffer each variable stands for. -/
structure Holdings (σ ν : Type) where
  contents : Contents ν
  holders : σ → Option ν

def noHoldings : Holdings σ ν := { contents := fun _ => none, holders := fun _ => none }

/-- What a variable that stands for a buffer leads to. -/
def Holdings.content (t : Holdings σ ν) (var : σ) : Option Content :=
  (t.holders var).bind t.contents

/-- One statement, with the answer to its request for memory. -/
def holdExec (z : ZeroCopy) (t : Holdings σ ν) (c : AddrOp σ ν × Answer) :
    Option (Outcome (Holdings σ ν)) :=
  match c.1 with
  | .buffer op =>
      (contentExec z t.contents (op, c.2)).map (.map (fun v =>
        { contents := v, holders := fun var => (t.holders var).bind (fun x => heldBy x op) }))
  | .getDataAddr var this =>
      (t.contents this).map (fun _ =>
        .returned { t with holders := Function.update t.holders var (some this) })
  | .read var offset =>
      (t.content var).bind (fun content => (content.get? offset).map (fun _ => .returned t))
  | .write var offset value =>
      (t.holders var).bind (fun x =>
        (contentExec z t.contents (.indexAssign x offset value, c.2)).map (.map (fun v =>
          { t with contents := v })))
  | .construct this var length =>
      if (t.contents this).isSome then none
      else
        (copyContent t.contents this (z.front length ((t.content var).bind Content.block?))
          t.contents c.2).map (.map (fun v => { t with contents := v }))

/-- One statement in a program that catches what it throws. -/
def holdStep (z : ZeroCopy) : Holdings σ ν → AddrOp σ ν × Answer → Option (Holdings σ ν) :=
  Machine.caught (holdExec z)

end GBMU.DBuffer
