import Mathlib.Data.Finmap
import Mathlib.Order.Lattice.Nat

/-!
# A heap of blocks, and who owns them

A heap is a finite map from addresses to blocks of cells. `free`, `load`,
`store`, `fill` and `peek` answer `none` where C has undefined behaviour: a dead
address, an offset past the end of a block.

One case is a parameter. To `memcpy` no bytes at all through a null or a dangling
pointer is undefined too, but the implementations copy nothing and go on.
`ZeroCopy` says which of the two is meant.

An `Allocator` is one answer of the runtime to one request for memory: it may
refuse, and when it does not, the address it picks is not in use. Passing a
different allocator to every operation of a program covers every behaviour an
allocator can have, reuse of freed addresses included.

`Owns` is the ownership discipline: every block of the heap has exactly one
owner, every non-null pointer names a live block, and an owner's value is the
content of its block, if it has one. The lemmas after it say how each heap
operation moves ownership; a program verified with them frees nothing twice,
touches nothing after it is freed and leaks nothing.
-/

/-- What it is to copy no cells through a pointer that leads to no block. -/
inductive ZeroCopy where
  /-- Undefined behaviour, as the C and C++ standards have it. -/
  | undefined
  /-- Nothing happens, as on the implementations. -/
  | nothing
  deriving DecidableEq

/-- The first `n` cells of the block a pointer leads to, where `none` is no block. -/
def ZeroCopy.front {β : Type*} (z : ZeroCopy) (n : Nat) : Option (List β) → Option (List β)
  | some l => if n ≤ l.length then some (l.take n) else none
  | none => if n = 0 ∧ z = .nothing then some [] else none

/-- All of a block. -/
theorem ZeroCopy.front_length {β : Type*} (z : ZeroCopy) (l : List β) :
    z.front l.length (some l) = some l := by
  rw [ZeroCopy.front, if_pos (Nat.le_refl _), List.take_length]

/-- A finite map from addresses to blocks. -/
abbrev BlockHeap (α β : Type*) := Finmap (fun _ : α => List β)

/-- One answer of the runtime to `new β[n]`. -/
structure Allocator (α β : Type*) where
  /-- The address handed out; `none` when the request is refused. -/
  pick : BlockHeap α β → Option α
  /-- What a new block of `n` cells happens to contain. -/
  garbage : Nat → List β
  /-- An address in use is never handed out. -/
  fresh : ∀ {h : BlockHeap α β} {a : α}, pick h = some a → a ∉ h
  /-- A new block has the size asked for. -/
  length_garbage : ∀ n, (garbage n).length = n

/-- As many cells are read as are asked for. -/
theorem ZeroCopy.length_of_front {β : Type*} {z : ZeroCopy} {n : Nat} {o : Option (List β)}
    {l : List β} (h : z.front n o = some l) : l.length = n := by
  cases o with
  | none =>
      rw [ZeroCopy.front, Option.ite_none_right_eq_some] at h
      obtain ⟨⟨rfl, _⟩, hl⟩ := h
      cases hl
      rfl
  | some l' =>
      rw [ZeroCopy.front, Option.ite_none_right_eq_some] at h
      obtain ⟨hn, hl⟩ := h
      cases hl
      rw [List.length_take]
      omega

/-- What may be read through a pointer to no block may be read through any. -/
theorem ZeroCopy.front_of_none {β : Type*} {z : ZeroCopy} {n : Nat} {l : List β}
    (h : z.front n none = some l) (o : Option (List β)) : z.front n o = some l := by
  cases o with
  | none => exact h
  | some l' =>
      rw [ZeroCopy.front, Option.ite_none_right_eq_some] at h
      obtain ⟨⟨rfl, _⟩, hl⟩ := h
      cases hl
      rw [ZeroCopy.front, if_pos (Nat.zero_le _), List.take_zero]

/-- Allocators exist: over addresses `Nat`, one past the highest address in use is free. -/
def Allocator.bump {β : Type*} (cell : β) : Allocator Nat β where
  pick h := some (h.keys.sup id + 1)
  garbage n := List.replicate n cell
  fresh := by
    intro h a ha hmem
    cases ha
    have := Finset.le_sup (f := id) (Finmap.mem_keys.mpr hmem)
    simp only [id_eq] at this
    omega
  length_garbage n := List.length_replicate ..

/-- The runtime may always refuse. -/
def Allocator.exhausted {α β : Type*} (cell : β) : Allocator α β where
  pick _ := none
  garbage n := List.replicate n cell
  fresh := by
    intro h a hpick
    cases hpick
  length_garbage n := List.length_replicate ..

namespace BlockHeap

variable {α β ω : Type*} [DecidableEq α]

/-- `new β[n]`: the new address and heap, or `none` when the allocator refuses. -/
def alloc (A : Allocator α β) (h : BlockHeap α β) (n : Nat) : Option (α × BlockHeap α β) :=
  (A.pick h).map (fun a => (a, h.insert a (A.garbage n)))

/-- `delete[] a`. -/
def free (h : BlockHeap α β) (a : α) : Option (BlockHeap α β) :=
  if a ∈ h then some (h.erase a) else none

/-- Read cell `k` of the block at `a`. -/
def load (h : BlockHeap α β) (a : α) (k : Nat) : Option β :=
  (h.lookup a).bind (fun l => l[k]?)

/-- Write cell `k` of the block at `a`. -/
def store (h : BlockHeap α β) (a : α) (k : Nat) (v : β) : Option (BlockHeap α β) :=
  (h.lookup a).bind (fun l => if k < l.length then some (h.insert a (l.set k v)) else none)

/-- `memcpy(dst, bytes, bytes.length)`: overwrite the first cells of the block at `dst`. -/
def fill (h : BlockHeap α β) (dst : α) (bytes : List β) : Option (BlockHeap α β) :=
  (h.lookup dst).bind (fun l =>
    if bytes.length ≤ l.length then some (h.insert dst (bytes ++ l.drop bytes.length)) else none)

/-- The first `n` cells behind a pointer; `none` is the null pointer. -/
def peek (z : ZeroCopy) (h : BlockHeap α β) (src : Option α) (n : Nat) : Option (List β) :=
  z.front n (src.bind (fun a => h.lookup a))

/-! ## What each operation does to a known block -/

theorem free_eq {h : BlockHeap α β} {a : α} {l : List β} (ha : h.lookup a = some l) :
    h.free a = some (h.erase a) := by
  have hmem : a ∈ h := Finmap.mem_iff.mpr ⟨l, ha⟩
  rw [free, if_pos hmem]

theorem store_eq {h : BlockHeap α β} {a : α} {l : List β} {k : Nat} {v : β}
    (ha : h.lookup a = some l) (hk : k < l.length) :
    h.store a k v = some (h.insert a (l.set k v)) := by
  rw [store, ha, Option.bind_some, if_pos hk]

/-- Filling a block of the same size replaces its content. -/
theorem fill_eq {h : BlockHeap α β} {a : α} {l bytes : List β} (ha : h.lookup a = some l)
    (hlen : bytes.length = l.length) : h.fill a bytes = some (h.insert a bytes) := by
  rw [fill, ha, Option.bind_some, if_pos (by omega), hlen, List.drop_length, List.append_nil]

/-! ## Ownership -/

/--
`own` says which block each owner points to and `val` what is in it. The heap
consists of exactly these blocks.
-/
structure Owns (h : BlockHeap α β) (own : ω → Option α) (val : ω → Option (List β)) : Prop where
  /-- A non-null pointer names a live block, which holds the owner's value. -/
  block : ∀ {x a}, own x = some a → ∃ l, h.lookup a = some l ∧ val x = some l
  /-- A null pointer holds nothing. -/
  null : ∀ {x}, own x = none → val x = none
  /-- No two owners share a block. -/
  excl : ∀ {x y a}, own x = some a → own y = some a → x = y
  /-- Every block has an owner. -/
  covered : ∀ {a}, a ∈ h → ∃ x, own x = some a

variable {h h' : BlockHeap α β} {own : ω → Option α} {val : ω → Option (List β)}

/-- The empty heap is owned by owners that point nowhere. -/
theorem owns_empty : Owns (∅ : BlockHeap α β) (fun _ : ω => none) (fun _ => none) where
  block := by intro x a h; cases h
  null := by intro x _; rfl
  excl := by intro x y a h; cases h
  covered := by intro a ha; exact absurd ha Finmap.notMem_empty

/-- What a pointer leads to is its owner's value. -/
theorem Owns.lookup (ho : Owns h own val) (x : ω) : (own x).bind (fun a => h.lookup a) = val x := by
  cases hx : own x with
  | none => exact (ho.null hx).symm
  | some a =>
      obtain ⟨l, hl, hv⟩ := ho.block hx
      rw [Option.bind_some, hl, hv]

/-- So it is while blocks are allocated elsewhere. -/
theorem Owns.lookup_insert (ho : Owns h own val) (x : ω) {a : α} (ha : a ∉ h) (l : List β) :
    (own x).bind (fun b => (h.insert a l).lookup b) = val x := by
  rw [← ho.lookup x]
  cases hx : own x with
  | none => rfl
  | some b =>
      obtain ⟨l', hl', _⟩ := ho.block hx
      have hba : b ≠ a := fun he => ha (he ▸ Finmap.mem_iff.mpr ⟨_, hl'⟩)
      exact Finmap.lookup_insert_of_ne _ hba

/-- An owner without a value points nowhere. -/
theorem Owns.own_eq_none (ho : Owns h own val) {x : ω} (hv : val x = none) : own x = none := by
  cases hx : own x with
  | none => rfl
  | some a =>
      obtain ⟨l, _, hl⟩ := ho.block hx
      rw [hv] at hl
      cases hl

/-- When nobody points anywhere, the heap is empty. -/
theorem Owns.eq_empty (ho : Owns h own val) (hnone : ∀ x, own x = none) : h = ∅ := by
  refine Finmap.ext_lookup (fun a => ?_)
  rw [Finmap.lookup_empty]
  refine Finmap.lookup_eq_none.mpr (fun ha => ?_)
  obtain ⟨x, hx⟩ := ho.covered ha
  rw [hnone x] at hx
  cases hx

/-- Owners may be renamed. -/
theorem Owns.rename (ho : Owns h own val) (e : ω ≃ ω) : Owns h (own ∘ e) (val ∘ e) where
  block := fun hx => ho.block hx
  null := fun hx => ho.null hx
  excl := fun hx hy => e.injective (ho.excl hx hy)
  covered := by
    intro a ha
    obtain ⟨x, hx⟩ := ho.covered ha
    exact ⟨e.symm x, by rw [Function.comp_apply, e.apply_symm_apply, hx]⟩

variable [DecidableEq ω]

/--
One owner gets a new pointer and a new value, on a heap in which the blocks of the
others are what they were.
-/
theorem Owns.replace {x : ω} {o : Option α} {v : Option (List β)} (ho : Owns h own val)
    (hblock : ∀ {a}, o = some a → ∃ l, h'.lookup a = some l ∧ v = some l)
    (hnull : o = none → v = none)
    (hothers : ∀ {y a}, y ≠ x → own y = some a → o ≠ some a ∧ h'.lookup a = h.lookup a)
    (hcovered : ∀ {a}, a ∈ h' → o = some a ∨ ∃ y, y ≠ x ∧ own y = some a) :
    Owns h' (Function.update own x o) (Function.update val x v) := by
  refine ⟨?_, ?_, ?_, ?_⟩
  · intro y a hy
    by_cases hyx : y = x
    · subst hyx
      rw [Function.update_self] at hy ⊢
      exact hblock hy
    · rw [Function.update_of_ne hyx] at hy ⊢
      rw [(hothers hyx hy).2]
      exact ho.block hy
  · intro y hy
    by_cases hyx : y = x
    · subst hyx
      rw [Function.update_self] at hy ⊢
      exact hnull hy
    · rw [Function.update_of_ne hyx] at hy ⊢
      exact ho.null hy
  · intro y z a hy hz
    by_cases hyx : y = x <;> by_cases hzx : z = x
    · rw [hyx, hzx]
    · subst hyx
      rw [Function.update_self] at hy
      rw [Function.update_of_ne hzx] at hz
      exact absurd hy (hothers hzx hz).1
    · subst hzx
      rw [Function.update_self] at hz
      rw [Function.update_of_ne hyx] at hy
      exact absurd hz (hothers hyx hy).1
    · rw [Function.update_of_ne hyx] at hy
      rw [Function.update_of_ne hzx] at hz
      exact ho.excl hy hz
  · intro a ha
    rcases hcovered ha with hx | ⟨y, hyx, hy⟩
    · exact ⟨x, by rw [Function.update_self, hx]⟩
    · exact ⟨y, by rw [Function.update_of_ne hyx, hy]⟩

/-- A block is put at an address no other owner points to, by one who leaves no block behind. -/
theorem Owns.put {x : ω} {a : α} (ho : Owns h own val) (hx : ∀ {b}, own x = some b → b = a)
    (ha : ∀ {y}, y ≠ x → own y ≠ some a) (l : List β) :
    Owns (h.insert a l) (Function.update own x (some a)) (Function.update val x (some l)) := by
  refine ho.replace ?_ nofun ?_ ?_
  · rintro b ⟨⟩
    exact ⟨l, Finmap.lookup_insert h, rfl⟩
  · intro y b hyx hy
    have hba : b ≠ a := by
      rintro rfl
      exact ha hyx hy
    exact ⟨fun he => hba (Option.some.inj he).symm, Finmap.lookup_insert_of_ne h hba⟩
  · intro b hb
    by_cases hba : b = a
    · exact Or.inl (hba ▸ rfl)
    · obtain ⟨y, hy⟩ := ho.covered ((Finmap.mem_insert.mp hb).resolve_left hba)
      refine Or.inr ⟨y, ?_, hy⟩
      rintro rfl
      exact hba (hx hy)

/-- An owner that points nowhere takes a block at an unused address. -/
theorem Owns.alloc {x : ω} {a : α} (ho : Owns h own val) (hx : own x = none) (ha : a ∉ h)
    (l : List β) :
    Owns (h.insert a l) (Function.update own x (some a)) (Function.update val x (some l)) := by
  refine ho.put ?_ ?_ l
  · intro b hb
    rw [hx] at hb
    cases hb
  · intro y _ hy
    obtain ⟨l', hl', _⟩ := ho.block hy
    exact ha (Finmap.mem_iff.mpr ⟨l', hl'⟩)

/-- Overwriting an owned block changes its owner's value and nothing else. -/
theorem Owns.store {x : ω} {a : α} (ho : Owns h own val) (hx : own x = some a) (l : List β) :
    Owns (h.insert a l) own (Function.update val x (some l)) := by
  have hsame : Function.update own x (some a) = own := by rw [← hx, Function.update_eq_self]
  rw [← hsame]
  refine ho.put ?_ ?_ l
  · intro b hb
    rw [hx] at hb
    exact (Option.some.inj hb).symm
  · intro y hyx hy
    exact hyx (ho.excl hy hx)

/-- Freeing a block leaves its owner pointing nowhere. -/
theorem Owns.free {x : ω} {a : α} (ho : Owns h own val) (hx : own x = some a) :
    Owns (h.erase a) (Function.update own x none) (Function.update val x none) := by
  refine ho.replace nofun (fun _ => rfl) ?_ ?_
  · intro y b hyx hy
    have hba : b ≠ a := by
      rintro rfl
      exact hyx (ho.excl hy hx)
    exact ⟨nofun, Finmap.lookup_erase_ne hba⟩
  · intro b hb
    obtain ⟨hba, hb⟩ := Finmap.mem_erase.mp hb
    obtain ⟨y, hy⟩ := ho.covered hb
    refine Or.inr ⟨y, ?_, hy⟩
    rintro rfl
    rw [hx] at hy
    exact hba (Option.some.inj hy).symm

/-- A pointer moves from `y` to an owner `x` that pointed nowhere: the two change names. -/
theorem Owns.move {x y : ω} (ho : Owns h own val) (hx : own x = none) :
    Owns h (Function.update (Function.update own x (own y)) y none)
      (Function.update (Function.update val x (val y)) y none) := by
  have hswap := ho.rename (Equiv.swap y x)
  rw [Equiv.comp_swap_eq_update, Equiv.comp_swap_eq_update, hx, ho.null hx] at hswap
  exact hswap

end BlockHeap
