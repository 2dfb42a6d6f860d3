import GBMU.Common.Addresses
import GBMU.Proof.BufferContents

/-!
# How long an address lasts

An address handed out by `get_data_addr()` is good for as long as some buffer holds
the block: through copies from the buffer, writes to it and moves of it, until an
assignment to the buffer or its destructor frees the block.

The statements change the pointers in few ways: `addrsAfter` lists them, and
`exec_addrs` says that each statement, returning or throwing, does what is
listed. The rest is read off the list. A variable that stands for a buffer has the
buffer's address (`addr_heldBy`), and an address no buffer has is dead until the
runtime hands it out again (`addr_origin`).
-/

namespace GBMU.DBuffer

variable {σ ν α : Type} [DecidableEq σ] [DecidableEq ν] [DecidableEq α] {z : ZeroCopy}

/-! ## What a statement does to the pointers -/

/-- The pointers after a statement; `new` is that of the buffer it builds or fills. -/
def addrsAfter (addr : ν → Option (Option α)) (new : Option (Option α)) :
    Op ν → ν → Option (Option α)
  | .constructSize this _ => Function.update addr this new
  | .constructBytes this _ => Function.update addr this new
  | .constructString this _ => Function.update addr this new
  | .copyConstruct this _ => Function.update addr this new
  | .moveConstruct this source =>
      Function.update (Function.update addr this (addr source)) source (some none)
  | .copyAssign this source =>
      if this = source then addr else Function.update addr this new
  | .moveAssign this source =>
      if this = source then addr
      else Function.update (Function.update addr this (addr source)) source (some none)
  | .indexAssign _ _ _ => addr
  | .destroy this => Function.update addr this none

omit [DecidableEq α] in
theorem getDataAddr_setFields (w : World ν α) (x : ν) (fields : DBuffer α) :
    getDataAddr (setFields w x fields)
      = Function.update (getDataAddr w) x (some fields.data) := by
  funext y
  unfold getDataAddr setFields
  by_cases hyx : y = x
  · subst hyx; simp
  · simp [hyx]

omit [DecidableEq α] in
theorem getDataAddr_remove (w : World ν α) (x : ν) :
    getDataAddr ({ w with objs := Function.update w.objs x none } : World ν α)
      = Function.update (getDataAddr w) x none := by
  funext y
  unfold getDataAddr
  by_cases hyx : y = x
  · subst hyx; simp
  · simp [hyx]

omit [DecidableEq ν] [DecidableEq α] in
theorem getDataAddr_of_objs {w : World ν α} {x : ν} {fields : DBuffer α}
    (hx : w.objs x = some fields) : getDataAddr w x = some fields.data := by
  rw [getDataAddr, hx]
  rfl

omit [DecidableEq α] in
/-- A dead name has no pointer to update. -/
theorem update_getDataAddr_dead {w : World ν α} {x : ν} (hx : w.objs x = none) :
    Function.update (getDataAddr w) x none = getDataAddr w := by
  refine Function.update_eq_self_iff.mpr ?_
  rw [getDataAddr, hx]
  rfl

/-- The new pointer, if it leads anywhere, is what the runtime answered. -/
def Granted (A : Allocator α Byte) (heap : BlockHeap α Byte) (new : Option (Option α)) : Prop :=
  ∀ p, new = some (some p) → A.pick heap = some p

omit [DecidableEq α] in
theorem granted_none (A : Allocator α Byte) (heap : BlockHeap α Byte) : Granted A heap none := by
  intro p he
  cases he

omit [DecidableEq α] in
theorem granted_null (A : Allocator α Byte) (heap : BlockHeap α Byte) :
    Granted A heap (some none) := by
  intro p he
  cases he

omit [DecidableEq α] in
theorem granted_pick {A : Allocator α Byte} {heap : BlockHeap α Byte} {p : α}
    (hpick : A.pick heap = some p) : Granted A heap (some (some p)) := by
  intro q he
  cases he
  exact hpick

/-- A copying constructor throws and changes nothing, or builds a buffer on a new block. -/
theorem constructFrom_cases {A : Allocator α Byte} {w : World ν α} {x : ν} {n : Nat}
    {src : BlockHeap α Byte → Option Bytes} {o : Outcome (World ν α)}
    (ho : constructFrom A w x n src = some o) :
    o = .threw w ∨ ∃ p, A.pick w.heap = some p
      ∧ getDataAddr o.state = Function.update (getDataAddr w) x (some (some p)) := by
  cases hpick : A.pick w.heap with
  | none =>
      rw [constructFrom_refused hpick] at ho
      exact Or.inl (Option.some.inj ho).symm
  | some p =>
      rw [constructFrom, allocate_granted hpick] at ho
      obtain ⟨w₁, hw₁, ho⟩ := Option.bind_eq_some_iff.mp ho
      cases ho
      obtain ⟨bytes, _, hfill⟩ := Option.bind_eq_some_iff.mp hw₁
      obtain ⟨heap, _, hw₁⟩ := Option.bind_eq_some_iff.mp hfill
      cases hw₁
      exact Or.inr ⟨p, rfl, getDataAddr_setFields ..⟩

theorem constructFrom_addrs {A : Allocator α Byte} {w : World ν α} {x : ν} {n : Nat}
    {src : BlockHeap α Byte → Option Bytes} {o : Outcome (World ν α)} (hx : w.objs x = none)
    (ho : constructFrom A w x n src = some o) :
    ∃ new, Granted A w.heap new
      ∧ getDataAddr o.state = Function.update (getDataAddr w) x new := by
  rcases constructFrom_cases ho with rfl | ⟨p, hpick, haddr⟩
  · exact ⟨none, granted_none _ _, (update_getDataAddr_dead hx).symm⟩
  · exact ⟨some (some p), granted_pick hpick, haddr⟩

theorem constructSize_addrs {A : Allocator α Byte} {w : World ν α} {x : ν} {n : Nat}
    {o : Outcome (World ν α)} (hx : w.objs x = none) (ho : constructSize A w x n = some o) :
    ∃ new, Granted A w.heap new
      ∧ getDataAddr o.state = Function.update (getDataAddr w) x new := by
  by_cases hn : n = 0
  · rw [constructSize, if_neg (not_not_intro hn)] at ho
    cases ho
    exact ⟨some none, granted_null _ _, getDataAddr_setFields ..⟩
  · cases hpick : A.pick w.heap with
    | none =>
        rw [constructSize, if_pos hn, allocate_refused hpick] at ho
        cases ho
        exact ⟨none, granted_none _ _, (update_getDataAddr_dead hx).symm⟩
    | some p =>
        rw [constructSize, if_pos hn, allocate_granted hpick] at ho
        cases ho
        exact ⟨some (some p), granted_pick hpick, getDataAddr_setFields ..⟩

/-- `__free` takes the block of one buffer, and leaves the others their fields. -/
theorem free_addrs {w w₁ : World ν α} {x : ν} (hx : (w.objs x).isSome)
    (hfree : free w x = some w₁) :
    w₁.heap = heapWithout w x
      ∧ getDataAddr w₁ = Function.update (getDataAddr w) x (some none)
      ∧ ∀ y, y ≠ x → w₁.objs y = w.objs y := by
  obtain ⟨fields, hf⟩ := Option.isSome_iff_exists.mp hx
  have hw₁ := free_eq_some hf hfree
  refine ⟨?_, ?_, ?_⟩
  · rw [hw₁]
    rfl
  · rw [hw₁]
    exact getDataAddr_setFields ..
  · intro y hyx
    rw [hw₁]
    exact Function.update_of_ne hyx ..

theorem copyAssign_addrs {A : Allocator α Byte} {w : World ν α} {x y : ν} {o : Outcome (World ν α)}
    (hxy : x ≠ y) (hx : (w.objs x).isSome) (hy : (w.objs y).isSome)
    (ho : copyAssign z A w x y = some o) :
    ∃ new, Granted A (heapWithout w x) new
      ∧ getDataAddr o.state = Function.update (getDataAddr w) x new := by
  cases hfree : free w x with
  | none => simp [copyAssign, hxy, hfree] at ho
  | some w₁ =>
      obtain ⟨hheap, haddr, hothers⟩ := free_addrs hx hfree
      obtain ⟨src, hsrc⟩ := Option.isSome_iff_exists.mp hy
      rw [copyAssign_eq hxy hfree ((hothers y (Ne.symm hxy)).trans hsrc)] at ho
      rcases constructFrom_cases ho with rfl | ⟨p, hpick, hp⟩
      · exact ⟨some none, granted_null _ _, haddr⟩
      · rw [hheap] at hpick
        exact ⟨some (some p), granted_pick hpick, by rw [hp, haddr, Function.update_idem]⟩

theorem moveAssign_addrs {w : World ν α} {x y : ν} {o : Outcome (World ν α)} (hxy : x ≠ y)
    (hx : (w.objs x).isSome) (hy : (w.objs y).isSome) (ho : moveAssign w x y = some o) :
    getDataAddr o.state
      = Function.update (Function.update (getDataAddr w) x (getDataAddr w y)) y (some none) := by
  cases hfree : free w x with
  | none => simp [moveAssign, hxy, hfree] at ho
  | some w₁ =>
      obtain ⟨_, haddr, hothers⟩ := free_addrs hx hfree
      obtain ⟨src, hsrc⟩ := Option.isSome_iff_exists.mp hy
      simp only [moveAssign, ne_eq, hxy, not_false_eq_true, if_true, hfree,
        Option.bind_eq_bind, Option.bind_some, hothers y (Ne.symm hxy), hsrc] at ho
      cases ho
      show getDataAddr (setFields (setFields w₁ x src) y _) = _
      rw [getDataAddr_setFields, getDataAddr_setFields, haddr, Function.update_idem,
        getDataAddr_of_objs hsrc]

omit [DecidableEq α] in
theorem moveConstruct_addrs {w : World ν α} {x y : ν} {o : Outcome (World ν α)}
    (hy : (w.objs y).isSome) (ho : moveConstruct w x y = some o) :
    getDataAddr o.state
      = Function.update (Function.update (getDataAddr w) x (getDataAddr w y)) y (some none) := by
  obtain ⟨src, hsrc⟩ := Option.isSome_iff_exists.mp hy
  rw [moveConstruct, hsrc, Option.bind_eq_bind, Option.bind_some] at ho
  cases ho
  show getDataAddr (setFields (setFields w x src) y _) = _
  rw [getDataAddr_setFields, getDataAddr_setFields, getDataAddr_of_objs hsrc]

theorem destroy_addrs {w : World ν α} {x : ν} {o : Outcome (World ν α)} (hx : (w.objs x).isSome)
    (ho : destroy w x = some o) :
    getDataAddr o.state = Function.update (getDataAddr w) x none := by
  obtain ⟨w₁, hfree, ho⟩ := Option.bind_eq_some_iff.mp ho
  cases ho
  obtain ⟨_, haddr, _⟩ := free_addrs hx hfree
  show getDataAddr { w₁ with objs := Function.update w₁.objs x none } = _
  rw [getDataAddr_remove, haddr, Function.update_idem]

omit [DecidableEq ν] in
theorem indexAssign_addrs {w : World ν α} {x : ν} {offset : Nat} {value : Byte}
    {o : Outcome (World ν α)} (ho : indexAssign w x offset value = some o) :
    getDataAddr o.state = getDataAddr w := by
  obtain ⟨fields, _, ho⟩ := Option.bind_eq_some_iff.mp ho
  obtain ⟨p, _, ho⟩ := Option.bind_eq_some_iff.mp ho
  obtain ⟨heap, _, ho⟩ := Option.bind_eq_some_iff.mp ho
  cases ho
  rfl

/-- **Each statement does to the pointers what is listed.** -/
theorem exec_addrs {w : World ν α} {c : Op ν × Allocator α Byte} {o : Outcome (World ν α)}
    (hscoped : Scoped w c.1) (ho : exec z w c = some o) :
    ∃ new, Granted c.2 (requestHeap w c.1) new
      ∧ getDataAddr o.state = addrsAfter (getDataAddr w) new c.1 := by
  obtain ⟨op, A⟩ := c
  cases op with
  | constructSize x n => exact constructSize_addrs hscoped ho
  | constructBytes x extData => exact constructFrom_addrs hscoped ho
  | constructString x str => exact constructFrom_addrs hscoped ho
  | copyConstruct x y =>
      obtain ⟨src, _, ho⟩ := Option.bind_eq_some_iff.mp ho
      exact constructFrom_addrs hscoped.1 ho
  | moveConstruct x y => exact ⟨none, granted_none _ _, moveConstruct_addrs hscoped.2 ho⟩
  | copyAssign x y =>
      by_cases hxy : x = y
      · subst hxy
        cases (copyAssign_self z A w x).symm.trans ho
        exact ⟨none, granted_none _ _, (if_pos rfl).symm⟩
      · obtain ⟨new, hnew, haddr⟩ := copyAssign_addrs hxy hscoped.1 hscoped.2 ho
        exact ⟨new, hnew, haddr.trans (if_neg hxy).symm⟩
  | moveAssign x y =>
      by_cases hxy : x = y
      · subst hxy
        cases (moveAssign_self w x).symm.trans ho
        exact ⟨none, granted_none _ _, (if_pos rfl).symm⟩
      · exact ⟨none, granted_none _ _,
          (moveAssign_addrs hxy hscoped.1 hscoped.2 ho).trans (if_neg hxy).symm⟩
  | indexAssign x offset value => exact ⟨none, granted_none _ _, indexAssign_addrs ho⟩
  | destroy x => exact ⟨none, granted_none _ _, destroy_addrs hscoped ho⟩

/-! ## Who holds a block -/

omit [DecidableEq α] in
/-- After a move `this` has the pointer of `source`, and all but the two have their own. -/
theorem move_held {addr : ν → Option (Option α)} {this source x y : ν} (hne : this ≠ source)
    (hy : source = x ∧ y = this ∨ source ≠ x ∧ this ≠ x ∧ y = x) :
    Function.update (Function.update addr this (addr source)) source (some none) y = addr x := by
  rcases hy with ⟨rfl, rfl⟩ | ⟨hsource, hthis, rfl⟩
  · rw [Function.update_of_ne hne, Function.update_self]
  · rw [Function.update_of_ne (Ne.symm hsource), Function.update_of_ne (Ne.symm hthis)]

omit [DecidableEq α] in
/-- **The buffer that holds the block of `x` has the pointer `x` had.** -/
theorem addr_heldBy {w : World ν α} {op : Op ν} {new : Option (Option α)} {x y : ν} {o : Option α}
    (hscoped : Scoped w op) (hx : getDataAddr w x = some o) (hy : heldBy x op = some y) :
    addrsAfter (getDataAddr w) new op y = some o := by
  -- a buffer under construction is not alive yet, and so is not `x`
  have hdead : ∀ {this}, w.objs this = none → x ≠ this := by
    rintro this hthis rfl
    rw [getDataAddr, hthis] at hx
    cases hx
  have hother : ∀ {this}, x ≠ this → Function.update (getDataAddr w) this new x = some o := by
    intro this hne
    rw [Function.update_of_ne hne, hx]
  cases op with
  | constructSize this n =>
      cases hy
      exact hother (hdead hscoped)
  | constructBytes this extData =>
      cases hy
      exact hother (hdead hscoped)
  | constructString this str =>
      cases hy
      exact hother (hdead hscoped)
  | copyConstruct this source =>
      cases hy
      exact hother (hdead hscoped.1)
  | moveConstruct this source =>
      have hne : this ≠ source := by
        rintro rfl
        have halive := hscoped.2
        rw [hscoped.1] at halive
        cases halive
      simp only [heldBy] at hy
      rw [addrsAfter, ← hx]
      split at hy <;> cases hy
      · rename_i hsource
        exact move_held hne (Or.inl ⟨hsource, rfl⟩)
      · rename_i hsource
        exact move_held hne (Or.inr ⟨hsource, Ne.symm (hdead hscoped.1), rfl⟩)
  | copyAssign this source =>
      simp only [heldBy] at hy
      simp only [addrsAfter]
      split at hy <;> cases hy
      rename_i hkept
      split
      · exact hx
      · rename_i hself
        exact hother (fun he => hkept ⟨he.symm, hself⟩)
  | moveAssign this source =>
      simp only [heldBy] at hy
      simp only [addrsAfter]
      split at hy
      · rename_i hself
        cases hy
        rw [if_pos hself, hx]
      · rename_i hself
        rw [if_neg hself, ← hx]
        split at hy
        · rename_i hsource
          cases hy
          exact move_held hself (Or.inl ⟨hsource, rfl⟩)
        · rename_i hsource
          split at hy <;> cases hy
          rename_i hthis
          exact move_held hself (Or.inr ⟨hsource, hthis, rfl⟩)
  | indexAssign this offset value =>
      cases hy
      exact hx
  | destroy this =>
      simp only [heldBy] at hy
      simp only [addrsAfter]
      split at hy <;> cases hy
      rename_i hthis
      rw [Function.update_of_ne (Ne.symm hthis), hx]

omit [DecidableEq α] in
/-- A pointer found after an update is the new one, or was there before. -/
theorem update_origin {addr : ν → Option (Option α)} {new : Option (Option α)} {this y : ν} {p : α}
    (hy : Function.update addr this new y = some (some p)) :
    (this = y ∧ new = some (some p)) ∨ (this ≠ y ∧ addr y = some (some p)) := by
  by_cases hyt : y = this
  · subst hyt
    rw [Function.update_self] at hy
    exact Or.inl ⟨rfl, hy⟩
  · rw [Function.update_of_ne hyt] at hy
    exact Or.inr ⟨Ne.symm hyt, hy⟩

omit [DecidableEq α] in
/-- So it is after a move, which nulls the source. -/
theorem move_origin {addr : ν → Option (Option α)} {this source y : ν} {p : α}
    (hy : Function.update (Function.update addr this (addr source)) source (some none) y
      = some (some p)) :
    (this = y ∧ addr source = some (some p))
      ∨ (this ≠ y ∧ source ≠ y ∧ addr y = some (some p)) := by
  rcases update_origin hy with ⟨_, he⟩ | ⟨hsource, hy⟩
  · cases he
  · rcases update_origin hy with ⟨hthis, he⟩ | ⟨hthis, he⟩
    · exact Or.inl ⟨hthis, he⟩
    · exact Or.inr ⟨hthis, hsource, he⟩

omit [DecidableEq α] in
/-- **Every pointer comes from the buffer that handed it on, or from the runtime.** -/
theorem addr_origin {addr : ν → Option (Option α)} {op : Op ν} {new : Option (Option α)} {y : ν}
    {p : α} (hy : addrsAfter addr new op y = some (some p)) :
    (∃ x, addr x = some (some p) ∧ heldBy x op = some y) ∨ new = some (some p) := by
  cases op with
  | constructSize this n =>
      rcases update_origin hy with ⟨_, hnew⟩ | ⟨_, he⟩
      · exact Or.inr hnew
      · exact Or.inl ⟨y, he, rfl⟩
  | constructBytes this extData =>
      rcases update_origin hy with ⟨_, hnew⟩ | ⟨_, he⟩
      · exact Or.inr hnew
      · exact Or.inl ⟨y, he, rfl⟩
  | constructString this str =>
      rcases update_origin hy with ⟨_, hnew⟩ | ⟨_, he⟩
      · exact Or.inr hnew
      · exact Or.inl ⟨y, he, rfl⟩
  | copyConstruct this source =>
      rcases update_origin hy with ⟨_, hnew⟩ | ⟨_, he⟩
      · exact Or.inr hnew
      · exact Or.inl ⟨y, he, rfl⟩
  | moveConstruct this source =>
      rcases move_origin hy with ⟨rfl, he⟩ | ⟨_, hsource, he⟩
      · exact Or.inl ⟨source, he, if_pos rfl⟩
      · exact Or.inl ⟨y, he, if_neg hsource⟩
  | copyAssign this source =>
      simp only [addrsAfter] at hy
      split at hy
      · rename_i hself
        exact Or.inl ⟨y, hy, if_neg (fun h => h.2 hself)⟩
      · rcases update_origin hy with ⟨_, hnew⟩ | ⟨hthis, he⟩
        · exact Or.inr hnew
        · exact Or.inl ⟨y, he, if_neg (fun h => hthis h.1)⟩
  | moveAssign this source =>
      simp only [addrsAfter] at hy
      split at hy
      · rename_i hself
        exact Or.inl ⟨y, hy, if_pos hself⟩
      · rename_i hself
        rcases move_origin hy with ⟨rfl, he⟩ | ⟨hthis, hsource, he⟩
        · exact Or.inl ⟨source, he, (if_neg hself).trans (if_pos rfl)⟩
        · exact Or.inl ⟨y, he, (if_neg hself).trans ((if_neg hsource).trans (if_neg hthis))⟩
  | indexAssign this offset value => exact Or.inl ⟨y, hy, rfl⟩
  | destroy this =>
      rcases update_origin hy with ⟨_, hnew⟩ | ⟨hthis, he⟩
      · cases hnew
      · exact Or.inl ⟨y, he, if_neg hthis⟩

/-! ## Variables and buffers -/

/-- A statement constructs a buffer that is not alive, and otherwise names ones that are. -/
def AddrScoped (w : World ν α) : AddrOp σ ν → Prop
  | .buffer op => Scoped w op
  | .getDataAddr _ this => (w.objs this).isSome
  | .construct this _ _ => w.objs this = none
  | _ => True

/-- The heap a statement has when it asks for memory. -/
def addrRequestHeap (w : World ν α) : AddrOp σ ν → BlockHeap α Byte
  | .buffer op => requestHeap w op
  | _ => w.heap

/-- A statement, and what the runtime answers to it. -/
def addrAnswered (s : AddrWorld σ ν α) (c : AddrOp σ ν × Allocator α Byte) :
    AddrOp σ ν × Answer :=
  (c.1, answerAt c.2 (addrRequestHeap s.world c.1))

/-- The runtime hands out no address that a variable has. -/
def Unissued (s : AddrWorld σ ν α) (c : AddrOp σ ν × Allocator α Byte) : Prop :=
  ∀ var p, s.addrs var = some p → c.2.pick (addrRequestHeap s.world c.1) ≠ some p

/-- The heap and the contents tell the same story, and the variables follow their buffers. -/
structure Follows (s : AddrWorld σ ν α) (t : Holdings σ ν) : Prop where
  shows : Shows s.world t.contents
  /-- A variable that stands for a buffer has the buffer's address. -/
  held : ∀ {var x}, t.holders var = some x → getDataAddr s.world x = some (s.addrs var)

/-- A variable that stands for no buffer leads to no block. -/
def Dangles (s : AddrWorld σ ν α) (t : Holdings σ ν) : Prop :=
  ∀ var p, t.holders var = none → s.addrs var = some p → p ∉ s.world.heap

omit [DecidableEq ν] [DecidableEq α] in
theorem getDataAddr_eq_some {w : World ν α} {x : ν} {o : Option α} :
    getDataAddr w x = some o ↔ ∃ fields, w.objs x = some fields ∧ fields.data = o :=
  Option.map_eq_some_iff

omit [DecidableEq ν] [DecidableEq α] in
theorem own_of_addr {w : World ν α} {x : ν} {o : Option α} (hx : getDataAddr w x = some o) :
    own w x = o := by
  obtain ⟨fields, hf, rfl⟩ := getDataAddr_eq_some.mp hx
  exact own_eq hf

omit [DecidableEq ν] in
/-- The blocks are those the pointers lead to. -/
theorem Shows.mem_heap_iff {w : World ν α} {v : Contents ν} (h : Shows w v) {p : α} :
    p ∈ w.heap ↔ ∃ x, getDataAddr w x = some (some p) := by
  constructor
  · intro hp
    obtain ⟨x, hx⟩ := h.owns.covered hp
    obtain ⟨fields, hf, hd⟩ := own_eq_some.mp hx
    exact ⟨x, getDataAddr_eq_some.mpr ⟨fields, hf, hd⟩⟩
  · rintro ⟨x, hx⟩
    obtain ⟨bytes, hlookup, _⟩ := h.owns.block (own_of_addr hx)
    exact Finmap.mem_iff.mpr ⟨bytes, hlookup⟩

omit [DecidableEq σ] [DecidableEq ν] in
theorem Follows.isSome {s : AddrWorld σ ν α} {t : Holdings σ ν} (h : Follows s t) {var : σ} {x : ν}
    (hx : t.holders var = some x) : (s.world.objs x).isSome := by
  obtain ⟨fields, hf, _⟩ := getDataAddr_eq_some.mp (h.held hx)
  rw [hf]
  rfl

/-! ## One statement -/

/-- A statement about buffers. -/
theorem Follows.buffer {s : AddrWorld σ ν α} {t : Holdings σ ν} {op : Op ν}
    {A : Allocator α Byte} (h : Follows s t) (hscoped : Scoped s.world op) :
    Option.Rel (Outcome.Rel Follows) (addrExec z s (.buffer op, A))
      (holdExec z t (addrAnswered s (.buffer op, A))) := by
  refine Machine.rel_map_of_eq (exec_rel (c := (op, A)) h.shows hscoped) ?_
  intro o e ho hends
  refine hends.map (fun hshows => ⟨hshows, ?_⟩)
  intro var y hy
  obtain ⟨x, hx, hxy⟩ := Option.bind_eq_some_iff.mp hy
  obtain ⟨new, _, haddr⟩ := exec_addrs (c := (op, A)) hscoped ho
  show DBuffer.getDataAddr o.state y = some (s.addrs var)
  rw [haddr]
  exact addr_heldBy hscoped (h.held hx) hxy

theorem Follows.getDataAddr {s : AddrWorld σ ν α} {t : Holdings σ ν} {A : Allocator α Byte}
    (h : Follows s t) (var : σ) {x : ν} (hx : (s.world.objs x).isSome) :
    Option.Rel (Outcome.Rel Follows) (addrExec z s (.getDataAddr var x, A))
      (holdExec z t (addrAnswered s (.getDataAddr var x, A))) := by
  obtain ⟨fields, content, hf, hcontent⟩ := h.shows.exists_of_isSome hx
  unfold addrExec holdExec addrAnswered
  dsimp only
  rw [getDataAddr_of_objs hf, hcontent]
  refine .some (.returned ⟨h.shows, ?_⟩)
  intro var' y hy
  dsimp only at hy ⊢
  by_cases hvar : var' = var
  · subst hvar
    rw [Function.update_self] at hy ⊢
    cases hy
    exact getDataAddr_of_objs hf
  · rw [Function.update_of_ne hvar] at hy ⊢
    exact h.held hy

omit [DecidableEq σ] [DecidableEq ν] in
/-- Reading through a variable reads the buffer it stands for. -/
theorem Follows.load {s : AddrWorld σ ν α} {t : Holdings σ ν} (h : Follows s t) {var : σ} {x : ν}
    (hx : t.holders var = some x) (offset : Nat) :
    (s.addrs var).bind (fun p => BlockHeap.load s.world.heap p offset)
      = (t.content var).bind (fun content => content.get? offset) := by
  obtain ⟨fields, hf, hd⟩ := getDataAddr_eq_some.mp (h.held hx)
  have hindex := h.shows.index x offset
  rw [DBuffer.index, hf, Option.bind_eq_bind, Option.bind_some, hd] at hindex
  rw [Holdings.content, hx, Option.bind_some, ← hindex]
  rfl

theorem Follows.read {s : AddrWorld σ ν α} {t : Holdings σ ν} (h : Follows s t) {var : σ} {x : ν}
    (hx : t.holders var = some x) (A : Allocator α Byte) (offset : Nat) :
    Option.Rel (Outcome.Rel Follows) (addrExec z s (.read var offset, A))
      (holdExec z t (addrAnswered s (.read var offset, A))) := by
  have hs : addrExec z s (.read var offset, A)
      = ((s.addrs var).bind (fun p => BlockHeap.load s.world.heap p offset)).map
          (fun _ => .returned s) := by
    rw [Option.map_bind]
    rfl
  have ht : holdExec z t (addrAnswered s (.read var offset, A))
      = ((t.content var).bind (fun content => content.get? offset)).map
          (fun _ => .returned t) := by
    rw [Option.map_bind]
    rfl
  rw [hs, ht, h.load hx offset]
  exact Machine.rel_map (fun _ => .returned h) _

/-- Writing through a variable is writing to the buffer it stands for. -/
theorem Follows.store {s : AddrWorld σ ν α} {t : Holdings σ ν} (h : Follows s t) {var : σ} {x : ν}
    (hx : t.holders var = some x) (A : Allocator α Byte) (offset : Nat) (value : Byte) :
    addrExec z s (.write var offset value, A)
      = (exec z s.world (.indexAssign x offset value, A)).map
          (.map (fun w => { s with world := w })) := by
  obtain ⟨fields, hf, hd⟩ := getDataAddr_eq_some.mp (h.held hx)
  unfold addrExec exec indexAssign
  dsimp only
  rw [hf, Option.bind_eq_bind, Option.bind_some, hd]
  cases s.addrs var with
  | none => rfl
  | some p =>
      rw [Option.bind_some, Option.bind_eq_bind, Option.bind_some]
      cases BlockHeap.store s.world.heap p offset value <;> rfl

theorem Follows.write {s : AddrWorld σ ν α} {t : Holdings σ ν} (h : Follows s t) {var : σ} {x : ν}
    (hx : t.holders var = some x) (A : Allocator α Byte) (offset : Nat) (value : Byte) :
    Option.Rel (Outcome.Rel Follows) (addrExec z s (.write var offset value, A))
      (holdExec z t (addrAnswered s (.write var offset value, A))) := by
  rw [h.store hx A]
  unfold holdExec addrAnswered
  dsimp only
  rw [hx, Option.bind_some]
  have hrel := exec_rel (z := z) (c := (.indexAssign x offset value, A)) h.shows (h.isSome hx)
  refine Machine.rel_map_of_eq hrel ?_
  intro o e ho hends
  refine hends.map (fun hshows => ⟨hshows, ?_⟩)
  intro var' y hy
  show DBuffer.getDataAddr o.state y = some (s.addrs var')
  rw [indexAssign_addrs ho]
  exact h.held hy

omit [DecidableEq ν] in
/-- What an address leads to is the block of its buffer, whatever is allocated meanwhile. -/
theorem Shows.peek_front {w : World ν α} {v : Contents ν} (h : Shows w v) {x : ν} {o : Option α}
    (hx : DBuffer.getDataAddr w x = some o) (n : Nat) {p : α} (garbage : Bytes) (hp : p ∉ w.heap) :
    BlockHeap.peek z (w.heap.insert p garbage) o n = z.front n (block v x) := by
  have hlookup := h.owns.lookup_insert x hp garbage
  rw [own_of_addr hx] at hlookup
  rw [BlockHeap.peek, hlookup]

/-- A buffer built from what a variable leads to. -/
theorem Follows.construct {s : AddrWorld σ ν α} {t : Holdings σ ν} (h : Follows s t) {this : ν}
    (hthis : s.world.objs this = none) (var : σ) (n : Nat) (A : Allocator α Byte)
    (hsrc : ∀ (p : α) (garbage : Bytes), p ∉ s.world.heap →
      BlockHeap.peek z (s.world.heap.insert p garbage) (s.addrs var) n
        = z.front n ((t.content var).bind Content.block?)) :
    Option.Rel (Outcome.Rel Follows) (addrExec z s (.construct this var n, A))
      (holdExec z t (addrAnswered s (.construct this var n, A))) := by
  have hdead : t.contents this = none := h.shows.dead_iff.mp hthis
  have hnew : ¬ (t.contents this).isSome := by simp [hdead]
  have hrel : Option.Rel (Outcome.Rel Shows)
      (constructFrom A s.world this n (fun heap => BlockHeap.peek z heap (s.addrs var) n))
      (copyContent t.contents this (z.front n ((t.content var).bind Content.block?)) t.contents
        (answerAt A s.world.heap)) :=
    (h.shows.hollow hdead).copy h.shows ZeroCopy.length_of_front hsrc
  unfold addrExec holdExec addrAnswered
  dsimp only
  rw [if_neg hnew]
  refine Machine.rel_map_of_eq hrel ?_
  intro o e ho hends
  refine hends.map (fun hshows => ⟨hshows, ?_⟩)
  intro var' y hy
  obtain ⟨new, _, haddr⟩ := constructFrom_addrs hthis ho
  have hne : y ≠ this := by
    rintro rfl
    have halive := h.isSome hy
    rw [hthis] at halive
    cases halive
  show DBuffer.getDataAddr o.state y = some (s.addrs var')
  rw [haddr, Function.update_of_ne hne]
  exact h.held hy

/--
A use of a variable that stands for no buffer. A constructor whose memory is refused
does not come to use it, and one for no bytes does where `z` says so.
-/
def Stale (z : ZeroCopy) (t : Holdings σ ν) (c : AddrOp σ ν × Answer) : Prop :=
  match c.1 with
  | .read var _ => t.holders var = none
  | .write var _ _ => t.holders var = none
  | .construct _ var length =>
      t.holders var = none ∧ c.2.isSome ∧ (length ≠ 0 ∨ z = .undefined)
  | _ => False

/-- The contents call such a use undefined. -/
theorem holdExec_of_stale {t : Holdings σ ν} {c : AddrOp σ ν × Answer} (h : Stale z t c) :
    holdExec z t c = none := by
  obtain ⟨op, answer⟩ := c
  unfold holdExec
  cases op with
  | buffer => cases h
  | getDataAddr => cases h
  | read var offset =>
      have hvar : t.holders var = none := h
      dsimp only
      rw [Holdings.content, hvar]
      rfl
  | write var offset value =>
      have hvar : t.holders var = none := h
      dsimp only
      rw [hvar]
      rfl
  | construct this var n =>
      obtain ⟨hvar, hanswer, hn⟩ := h
      obtain ⟨garbage, rfl⟩ := Option.isSome_iff_exists.mp hanswer
      have hfront : z.front n (none : Option Bytes) = none := by
        rw [ZeroCopy.front, if_neg]
        rintro ⟨hzero, hz⟩
        rcases hn with hn | hn
        · exact hn hzero
        · rw [hn] at hz
          cases hz
      dsimp only
      rw [Holdings.content, hvar, Option.bind_none, Option.bind_none, hfront]
      split <;> rfl

/-- A variable that stands for no buffer has an address that leads nowhere, or none. -/
def LeadsNowhere (s : AddrWorld σ ν α) (c : AddrOp σ ν × Allocator α Byte) (var : σ) : Prop :=
  ∀ p, s.addrs var = some p →
    p ∉ s.world.heap ∧ c.2.pick (addrRequestHeap s.world c.1) ≠ some p

/-- Using an address that leads nowhere is undefined. -/
theorem read_nowhere {s : AddrWorld σ ν α} {var : σ} {offset : Nat} {A : Allocator α Byte}
    (h : LeadsNowhere s (.read var offset, A) var) : addrExec z s (.read var offset, A) = none := by
  unfold addrExec
  dsimp only
  cases hp : s.addrs var with
  | none => rfl
  | some p =>
      rw [Option.bind_some, BlockHeap.load, Finmap.lookup_eq_none.mpr (h p hp).1]
      rfl

theorem write_nowhere {s : AddrWorld σ ν α} {var : σ} {offset : Nat} {value : Byte}
    {A : Allocator α Byte} (h : LeadsNowhere s (.write var offset value, A) var) :
    addrExec z s (.write var offset value, A) = none := by
  unfold addrExec
  dsimp only
  cases hp : s.addrs var with
  | none => rfl
  | some p =>
      rw [Option.bind_some, BlockHeap.store, Finmap.lookup_eq_none.mpr (h p hp).1]
      rfl

omit [DecidableEq σ] [DecidableEq ν] in
theorem peek_nowhere {s : AddrWorld σ ν α} {this : ν} {var : σ} {n : Nat} {A : Allocator α Byte}
    {p : α} (h : LeadsNowhere s (.construct this var n, A) var)
    (hpick : A.pick s.world.heap = some p) (garbage : Bytes) :
    BlockHeap.peek z (s.world.heap.insert p garbage) (s.addrs var) n = z.front n none := by
  rw [BlockHeap.peek]
  cases hq : s.addrs var with
  | none => rfl
  | some q =>
      obtain ⟨hdead, hne⟩ := h q hq
      have hqp : q ≠ p := by
        rintro rfl
        exact hne hpick
      rw [Option.bind_some, Finmap.lookup_insert_of_ne _ hqp, Finmap.lookup_eq_none.mpr hdead]

/--
A buffer built from a variable that stands for none: no byte is asked of it where that
is allowed, or the allocation is refused first, or it is undefined.
-/
theorem Follows.construct_unheld {s : AddrWorld σ ν α} {t : Holdings σ ν} (h : Follows s t)
    {this : ν} {var : σ} (hthis : s.world.objs this = none) (hx : t.holders var = none) (n : Nat)
    (A : Allocator α Byte) :
    Option.Rel (Outcome.Rel Follows) (addrExec z s (.construct this var n, A))
        (holdExec z t (addrAnswered s (.construct this var n, A)))
      ∨ holdExec z t (addrAnswered s (.construct this var n, A)) = none
        ∧ (LeadsNowhere s (.construct this var n, A) var →
            addrExec z s (.construct this var n, A) = none) := by
  have hcontent : t.content var = none := by
    rw [Holdings.content, hx]
    rfl
  cases hfront : z.front n (none : Option Bytes) with
  | some bytes =>
      refine Or.inl (h.construct hthis var n A (fun p garbage _ => ?_))
      rw [BlockHeap.peek, hcontent, ZeroCopy.front_of_none hfront]
      exact hfront.symm
  | none =>
      have hdead : t.contents this = none := h.shows.dead_iff.mp hthis
      have hnew : ¬ (t.contents this).isSome := by simp [hdead]
      unfold holdExec addrAnswered addrRequestHeap answerAt
      dsimp only
      rw [if_neg hnew, hcontent, Option.bind_none, hfront]
      cases hpick : A.pick s.world.heap with
      | none =>
          unfold addrExec
          dsimp only
          rw [constructFrom_refused hpick]
          exact Or.inl (.some (.threw h))
      | some p =>
          refine Or.inr ⟨rfl, fun hnowhere => ?_⟩
          unfold addrExec
          dsimp only
          rw [constructFrom_none hpick n _ ((peek_nowhere hnowhere hpick _).trans hfront)]
          rfl

/--
**One statement of a program that keeps addresses.** It ends as the contents say; or
it uses a variable that stands for no buffer, which the contents call undefined, and
so it is on the heap unless the address leads somewhere again.
-/
theorem addr_exec {s : AddrWorld σ ν α} {t : Holdings σ ν} {c : AddrOp σ ν × Allocator α Byte}
    (h : Follows s t) (hscoped : AddrScoped s.world c.1) :
    Option.Rel (Outcome.Rel Follows) (addrExec z s c) (holdExec z t (addrAnswered s c))
      ∨ holdExec z t (addrAnswered s c) = none
        ∧ ∃ var, t.holders var = none ∧ (LeadsNowhere s c var → addrExec z s c = none) := by
  obtain ⟨op, A⟩ := c
  cases op with
  | buffer op => exact Or.inl (h.buffer hscoped)
  | getDataAddr var x => exact Or.inl (h.getDataAddr var hscoped)
  | read var offset =>
      cases hx : t.holders var with
      | none => exact Or.inr ⟨holdExec_of_stale hx, var, hx, read_nowhere⟩
      | some x => exact Or.inl (h.read hx A offset)
  | write var offset value =>
      cases hx : t.holders var with
      | none => exact Or.inr ⟨holdExec_of_stale hx, var, hx, write_nowhere⟩
      | some x => exact Or.inl (h.write hx A offset value)
  | construct this var n =>
      cases hx : t.holders var with
      | some x =>
          refine Or.inl (h.construct hscoped var n A (fun p garbage hp => ?_))
          rw [Holdings.content, hx]
          exact h.shows.peek_front (h.held hx) n garbage hp
      | none =>
          rcases h.construct_unheld hscoped hx n A with hrel | ⟨hnone, hnowhere⟩
          · exact Or.inl hrel
          · exact Or.inr ⟨hnone, var, hx, hnowhere⟩

/-! ## Addresses that lead nowhere -/

omit [DecidableEq σ] [DecidableEq ν] in
/--
A statement that hands blocks on as `pass` says, and brings no address a variable has,
leaves the variables without a buffer as they should be.
-/
theorem dangles_of_origin {s s' : AddrWorld σ ν α} {t t' : Holdings σ ν} (pass : ν → Option ν)
    (h : Follows s t) (h' : Follows s' t') (hdangles : Dangles s t) (haddrs : s'.addrs = s.addrs)
    (hholders : ∀ var, t'.holders var = (t.holders var).bind pass)
    (horigin : ∀ {var p y}, s.addrs var = some p → getDataAddr s'.world y = some (some p) →
      ∃ x, getDataAddr s.world x = some (some p) ∧ pass x = some y) : Dangles s' t' := by
  intro var p hvar hp hmem
  rw [haddrs] at hp
  obtain ⟨y, hy⟩ := h'.shows.mem_heap_iff.mp hmem
  obtain ⟨x, hx, hpass⟩ := horigin hp hy
  cases hz : t.holders var with
  | none => exact hdangles var p hz hp (h.shows.mem_heap_iff.mpr ⟨x, hx⟩)
  | some z =>
      -- the holder has the address too, and so is the buffer that handed the block on
      have hzx : z = x :=
        h.shows.owns.excl (own_of_addr ((h.held hz).trans (congrArg some hp))) (own_of_addr hx)
      rw [hholders, hz, Option.bind_some, hzx, hpass] at hvar
      cases hvar

/-- **A block given up stays given up until the runtime hands its address out.** -/
theorem dangles_exec {s : AddrWorld σ ν α} {t : Holdings σ ν} {c : AddrOp σ ν × Allocator α Byte}
    {o : Outcome (AddrWorld σ ν α)} {e : Outcome (Holdings σ ν)} (h : Follows s t)
    (hdangles : Dangles s t) (hscoped : AddrScoped s.world c.1) (hunissued : Unissued s c)
    (ho : addrExec z s c = some o) (he : holdExec z t (addrAnswered s c) = some e)
    (h' : Follows o.state e.state) : Dangles o.state e.state := by
  obtain ⟨op, A⟩ := c
  cases op with
  | buffer op =>
      obtain ⟨o, hw, rfl⟩ := Option.map_eq_some_iff.mp ho
      obtain ⟨e, _, rfl⟩ := Option.map_eq_some_iff.mp he
      refine dangles_of_origin (heldBy · op) h h' hdangles ?_ ?_ ?_
      · rw [Outcome.state_map]
      · intro var
        rw [Outcome.state_map]
      · intro var p y hvar hy
        obtain ⟨new, hnew, haddr⟩ := exec_addrs (c := (op, A)) hscoped hw
        rw [Outcome.state_map] at hy
        dsimp only at hy
        rw [haddr] at hy
        rcases addr_origin hy with hx | hissued
        · exact hx
        · exact absurd (hnew p hissued) (hunissued var p hvar)
  | getDataAddr var x =>
      obtain ⟨_, _, rfl⟩ := Option.map_eq_some_iff.mp ho
      obtain ⟨content, _, rfl⟩ := Option.map_eq_some_iff.mp he
      intro var' p hvar hp
      dsimp only [Outcome.state] at hvar hp
      by_cases hsame : var' = var
      · subst hsame
        rw [Function.update_self] at hvar
        cases hvar
      · rw [Function.update_of_ne hsame] at hvar hp
        exact hdangles var' p hvar hp
  | read var offset =>
      obtain ⟨q, _, ho⟩ := Option.bind_eq_some_iff.mp ho
      obtain ⟨_, _, rfl⟩ := Option.map_eq_some_iff.mp ho
      obtain ⟨content, _, he⟩ := Option.bind_eq_some_iff.mp he
      obtain ⟨_, _, rfl⟩ := Option.map_eq_some_iff.mp he
      exact hdangles
  | write var offset value =>
      obtain ⟨q, _, ho⟩ := Option.bind_eq_some_iff.mp ho
      obtain ⟨heap, _, rfl⟩ := Option.map_eq_some_iff.mp ho
      obtain ⟨x, _, he⟩ := Option.bind_eq_some_iff.mp he
      obtain ⟨e, _, rfl⟩ := Option.map_eq_some_iff.mp he
      refine dangles_of_origin some h h' hdangles rfl ?_ (fun _ hy => ⟨_, hy, rfl⟩)
      intro var
      rw [Outcome.state_map, Option.bind_fun_some]
  | construct this var n =>
      obtain ⟨built, hbuilt, rfl⟩ := Option.map_eq_some_iff.mp ho
      have hkept : e.state.holders = t.holders := by
        unfold holdExec addrAnswered at he
        dsimp only at he
        split at he
        · cases he
        · obtain ⟨e, _, rfl⟩ := Option.map_eq_some_iff.mp he
          rw [Outcome.state_map]
      refine dangles_of_origin some h h' hdangles ?_ ?_ ?_
      · rw [Outcome.state_map]
      · intro var
        rw [hkept, Option.bind_fun_some]
      · intro var p y hvar hy
        obtain ⟨new, hnew, haddr⟩ := constructFrom_addrs hscoped hbuilt
        rw [Outcome.state_map] at hy
        dsimp only at hy
        rw [haddr] at hy
        rcases update_origin hy with ⟨_, hissued⟩ | ⟨_, hy⟩
        · exact absurd (hnew p hissued) (hunissued var p hvar)
        · exact ⟨y, hy, rfl⟩

/-! ## Whole programs -/

omit [DecidableEq σ] [DecidableEq ν] in
theorem follows_noAddrs : Follows (noAddrs : AddrWorld σ ν α) noHoldings :=
  ⟨shows_noBuffers, fun hx => by cases hx⟩

/-- What can be seen of the heap, through buffers and variables, is what the contents say. -/
structure SeenThrough (s : AddrWorld σ ν α) (t : Holdings σ ν) : Prop where
  seenAs : SeenAs s.world t.contents
  /-- A variable that stands for a buffer has the buffer's address, -/
  held : ∀ {var x}, t.holders var = some x → getDataAddr s.world x = some (s.addrs var)
  /-- and leads to the buffer's bytes. -/
  load : ∀ {var x} offset, t.holders var = some x →
    (s.addrs var).bind (fun p => BlockHeap.load s.world.heap p offset)
      = (t.contents x).bind (fun content => content.get? offset)

omit [DecidableEq σ] [DecidableEq ν] in
theorem Follows.seenThrough {s : AddrWorld σ ν α} {t : Holdings σ ν} (h : Follows s t) :
    SeenThrough s t := by
  refine ⟨h.shows.seenAs, h.held, ?_⟩
  intro var x offset hx
  rw [h.load hx offset, Holdings.content, hx, Option.bind_some]

/-- The lockstep of the two programs, while no address a variable has is handed out. -/
theorem unissued_exec {s : AddrWorld σ ν α} {t : Holdings σ ν} {c : AddrOp σ ν × Allocator α Byte}
    (h : Follows s t ∧ Dangles s t) (hok : AddrScoped s.world c.1 ∧ Unissued s c) :
    Option.Rel (Outcome.Rel (fun s t => Follows s t ∧ Dangles s t)) (addrExec z s c)
      (holdExec z t (addrAnswered s c)) := by
  rcases addr_exec h.1 hok.1 with hrel | ⟨hnone, var, hvar, hnowhere⟩
  · refine Machine.rel_of_eq hrel ?_
    intro o e ho he hends
    have hdangles := dangles_exec h.1 h.2 hok.1 hok.2 ho he hends.state
    cases hends with
    | returned h' => exact .returned ⟨h', hdangles⟩
    | threw h' => exact .threw ⟨h', hdangles⟩
  · rw [hnone, hnowhere (fun p hp => ⟨h.2 var p hvar hp, hok.2 var p hp⟩)]
    exact .none

/-- Their runs. -/
theorem run_unissued {calls : List (AddrOp σ ν × Allocator α Byte)}
    (hok : Machine.Throughout (addrStep z) (noAddrs : AddrWorld σ ν α) calls
      (fun s c => AddrScoped s.world c.1 ∧ Unissued s c)) :
    Machine.endings (addrExec z) (noAddrs : AddrWorld σ ν α) calls
        = Machine.endings (holdExec z) noHoldings
            (Machine.annotate (addrStep z) addrAnswered noAddrs calls)
      ∧ Option.Rel (fun s t => Follows s t ∧ Dangles s t)
          (Machine.run (addrStep z) (noAddrs : AddrWorld σ ν α) calls)
          (Machine.run (holdStep z) noHoldings
            (Machine.annotate (addrStep z) addrAnswered noAddrs calls)) := by
  have hstep : ∀ (s : AddrWorld σ ν α) (t : Holdings σ ν) c, Follows s t ∧ Dangles s t →
      AddrScoped s.world c.1 ∧ Unissued s c →
      Option.Rel (Outcome.Rel (fun s t => Follows s t ∧ Dangles s t)) (addrExec z s c)
        (holdExec z t (addrAnswered s c)) := fun _ _ _ => unissued_exec
  exact Machine.caught_rel hstep calls ⟨follows_noAddrs, fun _ _ _ hp => by cases hp⟩ hok

/--
**How long an address lasts.**

Take a program that keeps addresses of its buffers, whose statements name buffers as
C++ demands, and let any allocation fail. Replace every variable by the buffer that
holds the block. Where the program without addresses is defined, so is the program
with them, and its statements end the same way: a variable has the address of its
buffer, and leads to its bytes. Where the runtime hands out no address that a
variable still has, the two programs are defined together. A variable that stands for
no buffer then leads to no block, and to use it is undefined: to read or write through
it, or to build a buffer from it, were it of no bytes (there, where `z` says so).
-/
theorem addresses_followed {calls : List (AddrOp σ ν × Allocator α Byte)}
    (hscoped : Machine.Throughout (addrStep z) (noAddrs : AddrWorld σ ν α) calls
      (fun s c => AddrScoped s.world c.1)) :
    (∀ t, Machine.run (holdStep z) noHoldings
          (Machine.annotate (addrStep z) addrAnswered noAddrs calls) = some t →
        Machine.endings (addrExec z) (noAddrs : AddrWorld σ ν α) calls
            = Machine.endings (holdExec z) noHoldings
                (Machine.annotate (addrStep z) addrAnswered noAddrs calls)
          ∧ ∃ s, Machine.run (addrStep z) (noAddrs : AddrWorld σ ν α) calls = some s
            ∧ SeenThrough s t)
      ∧ (Machine.Throughout (addrStep z) (noAddrs : AddrWorld σ ν α) calls Unissued →
        Machine.endings (addrExec z) (noAddrs : AddrWorld σ ν α) calls
            = Machine.endings (holdExec z) noHoldings
                (Machine.annotate (addrStep z) addrAnswered noAddrs calls)
          ∧ Option.Rel (fun s t => SeenThrough s t ∧ Dangles s t)
              (Machine.run (addrStep z) noAddrs calls)
              (Machine.run (holdStep z) noHoldings
                (Machine.annotate (addrStep z) addrAnswered noAddrs calls))
          ∧ ∀ pre c post s t, calls = pre ++ c :: post →
              Machine.run (addrStep z) noAddrs pre = some s →
              Machine.run (holdStep z) noHoldings
                (Machine.annotate (addrStep z) addrAnswered noAddrs pre) = some t →
              Stale z t (addrAnswered s c) → addrExec z s c = none) := by
  constructor
  · intro t ht
    have hstep : ∀ (s : AddrWorld σ ν α) (t : Holdings σ ν) c e, Follows s t →
        AddrScoped s.world c.1 → holdExec z t (addrAnswered s c) = some e →
        ∃ o, addrExec z s c = some o ∧ Outcome.Rel Follows o e := by
      intro s t c e h hscoped he
      rcases addr_exec h hscoped with hrel | ⟨hnone, _⟩
      · exact Machine.exists_of_rel hrel he
      · rw [hnone] at he
        cases he
    obtain ⟨hendings, s, hs, h⟩ := Machine.caught_matched hstep calls follows_noAddrs hscoped ht
    exact ⟨hendings, s, hs, h.seenThrough⟩
  · intro hunissued
    have hok := hscoped.and hunissued
    obtain ⟨hendings, hrun⟩ := run_unissued hok
    refine ⟨hendings, Machine.rel_imp hrun (fun _ _ h => ⟨h.1.seenThrough, h.2⟩), ?_⟩
    intro pre c post s t hsplit hs ht hstale
    subst hsplit
    obtain ⟨_, hpre⟩ := run_unissued hok.left
    rw [hs, ht] at hpre
    cases hpre with
    | some h =>
        have hone := unissued_exec (z := z) h (hok pre c post s rfl hs)
        rw [holdExec_of_stale hstale] at hone
        generalize addrExec z s c = r at hone ⊢
        cases hone
        rfl

/--
An address is used after its buffer is moved and kept after the block is gone, while
memory is granted elsewhere.
-/
def kept : List (AddrOp Nat Nat × Allocator Nat Byte) :=
  [(.buffer (.constructBytes 0 [1, 2]), Allocator.bump 0), (.getDataAddr 0 0, outOfMemory),
    (.buffer (.moveConstruct 1 0), outOfMemory), (.write 0 1 9, outOfMemory),
    (.construct 2 0 2, Allocator.bump 0), (.read 0 1, outOfMemory),
    (.buffer (.destroy 1), outOfMemory), (.buffer (.constructString 1 [4]), Allocator.bump 0)]

/-- A buffer of no bytes is built from an address whose block is gone. -/
def stale : AddrOp Nat Nat × Allocator Nat Byte := (.construct 3 0 0, Allocator.bump 0)

theorem addresses_followed_sample :
    (∃ s t, Machine.run (addrStep .undefined) (noAddrs : AddrWorld Nat Nat Nat) kept = some s
        ∧ SeenThrough s t)
      ∧ Machine.endings (addrExec .undefined) (noAddrs : AddrWorld Nat Nat Nat) (kept ++ [stale])
          = List.replicate 8 (some .returned) ++ [none] := by
  have hkept : Machine.Throughout (addrStep .undefined) (noAddrs : AddrWorld Nat Nat Nat)
      (kept ++ [stale]) (fun s c => AddrScoped s.world c.1) :=
    .cons rfl rfl (.cons rfl rfl (.cons ⟨rfl, rfl⟩ rfl (.cons trivial rfl
      (.cons rfl rfl (.cons trivial rfl (.cons rfl rfl (.cons rfl rfl (.last rfl))))))))
  have hrefused : ∀ (s : AddrWorld Nat Nat Nat) (op : AddrOp Nat Nat),
      Unissued s (op, outOfMemory) := by
    intro s op var p _ hpick
    cases hpick
  -- the one address a variable has is 1, and the runtime hands out 2, 3 and 4
  have hgranted : ∀ {s : AddrWorld Nat Nat Nat} {c : AddrOp Nat Nat × Allocator Nat Byte} (q : Nat),
      s.addrs = Function.update (fun _ => none) 0 (some 1) →
      c.2.pick (addrRequestHeap s.world c.1) = some q → q ≠ 1 → Unissued s c := by
    intro s c q haddrs hpick hq var p hp hp'
    rw [hpick] at hp'
    cases hp'
    rw [haddrs] at hp
    by_cases hvar : var = 0
    · subst hvar
      cases hp
      exact hq rfl
    · rw [Function.update_of_ne hvar] at hp
      cases hp
  have hunissued : Machine.Throughout (addrStep .undefined) (noAddrs : AddrWorld Nat Nat Nat)
      (kept ++ [stale]) Unissued :=
    .cons (fun _ _ h => by cases h) rfl (.cons (hrefused _ _) rfl (.cons (hrefused _ _) rfl
      (.cons (hrefused _ _) rfl (.cons (hgranted 2 rfl rfl (by decide)) rfl
        (.cons (hrefused _ _) rfl (.cons (hrefused _ _) rfl
          (.cons (hgranted 3 rfl rfl (by decide)) rfl
            (.last (hgranted 4 rfl rfl (by decide))))))))))
  obtain ⟨hforward, _⟩ := addresses_followed hkept.left
  obtain ⟨_, hexact⟩ := addresses_followed hkept
  obtain ⟨hendings, _⟩ := hexact hunissued
  obtain ⟨_, s, hs, hseen⟩ := hforward _ rfl
  exact ⟨⟨s, _, hs, hseen⟩, hendings.trans rfl⟩

end GBMU.DBuffer
