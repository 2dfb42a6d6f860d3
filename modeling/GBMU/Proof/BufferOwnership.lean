import GBMU.Proof.BufferContents

/-!
# Buffers own their blocks

A buffer is meant to behave like a value: copying copies the bytes, moving moves
them, and nobody else sees it. The object behind it is a raw pointer, so that
reading is only right if no two buffers ever share a block and no block outlives
its buffer.

While the runtime grants what it is asked for, a buffer has a block or the length 0,
and its contents are a value. `Valued v u` says which one, a copy of an empty buffer
taken to copy nothing. `Valued.exec` matches the contents with the values statement
by statement; what the contents mean for the heap is known from
`GBMU/Proof/BufferContents.lean`, and the two together take every legal program
through the heap without undefined behaviour.
-/

namespace GBMU.DBuffer

variable {ν α : Type} [DecidableEq ν] [DecidableEq α]

/-- The statements that ask for memory. -/
def Asks : Op ν → Prop
  | .constructSize _ size => size ≠ 0
  | .constructBytes _ _ => True
  | .constructString _ _ => True
  | .copyConstruct _ _ => True
  | .copyAssign this source => this ≠ source
  | _ => False

/-- What a statement asks for is granted. -/
def Grants (w : World ν α) (c : Op ν × Allocator α Byte) : Prop :=
  Asks c.1 → (c.2.pick (requestHeap w c.1)).isSome

/-- The values are the bytes a copy takes. -/
def Valued (v : Contents ν) (u : Values ν) : Prop :=
  ∀ x, (v x).map (Content.bytes? .nothing) = (u x).map some

/-! ## The two models under an update -/

omit [DecidableEq ν] in
theorem Valued.dead {v : Contents ν} {u : Values ν} {x : ν} (h : Valued v u) (hx : u x = none) :
    v x = none := by
  have hvalue := h x
  rw [hx] at hvalue
  exact Option.map_eq_none_iff.mp hvalue

omit [DecidableEq ν] in
theorem Valued.alive {v : Contents ν} {u : Values ν} {x : ν} {bytes : Bytes} (h : Valued v u)
    (hx : u x = some bytes) :
    ∃ content, v x = some content ∧ content.bytes? .nothing = some bytes := by
  have hvalue := h x
  rw [hx] at hvalue
  exact Option.map_eq_some_iff.mp hvalue

omit [DecidableEq ν] in
theorem Valued.exists_value {v : Contents ν} {u : Values ν} {x : ν} {content : Content}
    (h : Valued v u) (hx : v x = some content) :
    ∃ bytes, u x = some bytes ∧ content.bytes? .nothing = some bytes := by
  have hvalue := h x
  rw [hx] at hvalue
  obtain ⟨bytes, hu, hbytes⟩ := Option.map_eq_some_iff.mp hvalue.symm
  exact ⟨bytes, hu, hbytes.symm⟩

theorem Valued.update {v : Contents ν} {u : Values ν} (h : Valued v u) (x : ν)
    {content : Content} {bytes : Bytes} (hbytes : content.bytes? .nothing = some bytes) :
    Valued (Function.update v x (some content)) (Function.update u x (some bytes)) := by
  intro y
  by_cases hyx : y = x
  · subst hyx
    rw [Function.update_self, Function.update_self, Option.map_some, Option.map_some, hbytes]
  · rw [Function.update_of_ne hyx, Function.update_of_ne hyx]
    exact h y

theorem Valued.remove {v : Contents ν} {u : Values ν} (h : Valued v u) (x : ν) :
    Valued (Function.update v x none) (Function.update u x none) := by
  intro y
  by_cases hyx : y = x
  · subst hyx
    rw [Function.update_self, Function.update_self]
    rfl
  · rw [Function.update_of_ne hyx, Function.update_of_ne hyx]
    exact h y

/-- A buffer without a block and without length is empty. -/
theorem Content.bytes?_null_zero : (Content.null 0).bytes? .nothing = some [] := rfl

theorem Valued.move {v : Contents ν} {u : Values ν} (h : Valued v u) (x y : ν)
    {content : Content} {bytes : Bytes} (hbytes : content.bytes? .nothing = some bytes) :
    Valued (moveContent v x y content)
      (Function.update (Function.update u x (some bytes)) y (some [])) :=
  (h.update x hbytes).update y Content.bytes?_null_zero

/-! ## One statement -/

/-- A copy that is granted its memory. -/
theorem Valued.copy {v thrown : Contents ν} {u : Values ν} (h : Valued v u) (x : ν)
    {bytes : Option Bytes} {l : Bytes} (hbytes : bytes = some l) (garbage : Nat → Bytes) :
    ∃ v', copyContent v x bytes thrown (some garbage) = some (.returned v')
      ∧ Valued v' (Function.update u x (some l)) := by
  subst hbytes
  exact ⟨_, rfl, h.update x rfl⟩

omit [DecidableEq α] in
/-- **A legal statement does to the contents what it means for values**, memory granted. -/
theorem Valued.exec {v : Contents ν} {u u' : Values ν} {c : Op ν × Allocator α Byte}
    {answer : Answer} (h : Valued v u) (hanswer : Asks c.1 → answer = some c.2.garbage)
    (hu : valueStep u c = some u') :
    ∃ v', contentExec .nothing v (c.1, answer) = some (.returned v') ∧ Valued v' u' := by
  obtain ⟨op, A⟩ := c
  -- in each case, read off what makes the statement legal
  cases op with
  | constructSize x n =>
      simp only [valueStep, Option.ite_none_right_eq_some, Option.some.injEq] at hu
      obtain ⟨hx, rfl⟩ := hu
      have hv := h.dead (Option.isNone_iff_eq_none.mp hx)
      by_cases hn : n = 0
      · -- size 0 allocates nothing: the pointer stays null
        subst hn
        have hempty : A.garbage 0 = [] := List.length_eq_zero_iff.mp (A.length_garbage 0)
        rw [contentExec_constructSize_zero hv, hempty]
        exact ⟨_, rfl, h.update x Content.bytes?_null_zero⟩
      · rw [hanswer hn, contentExec_constructSize_granted hv hn]
        exact ⟨_, rfl, h.update x rfl⟩
  | constructBytes x extData =>
      simp only [valueStep, Option.ite_none_right_eq_some, Option.some.injEq] at hu
      obtain ⟨hx, rfl⟩ := hu
      rw [contentExec_constructBytes (h.dead (Option.isNone_iff_eq_none.mp hx)), hanswer trivial]
      exact h.copy x rfl A.garbage
  | constructString x str =>
      simp only [valueStep, Option.ite_none_right_eq_some, Option.some.injEq] at hu
      obtain ⟨hx, rfl⟩ := hu
      rw [contentExec_constructString (h.dead (Option.isNone_iff_eq_none.mp hx)), hanswer trivial]
      exact h.copy x rfl A.garbage
  | copyConstruct x y =>
      obtain ⟨bytes, hy, hu⟩ := Option.bind_eq_some_iff.mp hu
      simp only [Option.ite_none_right_eq_some, Option.some.injEq] at hu
      obtain ⟨hx, rfl⟩ := hu
      have hv := h.dead (Option.isNone_iff_eq_none.mp hx)
      obtain ⟨content, hcontent, hbytes⟩ := h.alive hy
      rw [contentExec_copyConstruct hv hcontent, hanswer trivial]
      exact h.copy x hbytes A.garbage
  | moveConstruct x y =>
      obtain ⟨bytes, hy, hu⟩ := Option.bind_eq_some_iff.mp hu
      simp only [Option.ite_none_right_eq_some, Option.some.injEq] at hu
      obtain ⟨hx, rfl⟩ := hu
      have hv := h.dead (Option.isNone_iff_eq_none.mp hx)
      obtain ⟨content, hcontent, hbytes⟩ := h.alive hy
      rw [contentExec_moveConstruct hv hcontent]
      exact ⟨_, rfl, h.move x y hbytes⟩
  | copyAssign x y =>
      obtain ⟨bytes, hy, hu⟩ := Option.bind_eq_some_iff.mp hu
      simp only [Option.ite_none_right_eq_some, Option.some.injEq] at hu
      obtain ⟨hx, rfl⟩ := hu
      obtain ⟨old, hold⟩ := Option.isSome_iff_exists.mp hx
      obtain ⟨oldContent, hv, _⟩ := h.alive hold
      obtain ⟨content, hcontent, hbytes⟩ := h.alive hy
      by_cases hxy : x = y
      · subst hxy
        rw [contentExec_copyAssign_self hv, Function.update_eq_self_iff.mpr hy.symm]
        exact ⟨v, rfl, h⟩
      · rw [contentExec_copyAssign hxy hv hcontent, hanswer hxy]
        exact h.copy x hbytes A.garbage
  | moveAssign x y =>
      obtain ⟨bytes, hy, hu⟩ := Option.bind_eq_some_iff.mp hu
      obtain ⟨content, hcontent, hbytes⟩ := h.alive hy
      by_cases hxy : x = y
      · subst hxy
        rw [if_pos rfl] at hu
        cases hu
        rw [contentExec_moveAssign_self hcontent]
        exact ⟨v, rfl, h⟩
      · simp only [hxy, if_false, Option.ite_none_right_eq_some, Option.some.injEq] at hu
        obtain ⟨hx, rfl⟩ := hu
        obtain ⟨old, hold⟩ := Option.isSome_iff_exists.mp hx
        obtain ⟨oldContent, hv, _⟩ := h.alive hold
        rw [contentExec_moveAssign hxy hv hcontent]
        exact ⟨_, rfl, h.move x y hbytes⟩
  | indexAssign x offset value =>
      obtain ⟨bytes, hx, hu⟩ := Option.bind_eq_some_iff.mp hu
      obtain ⟨bytes', hput, hu⟩ := Option.bind_eq_some_iff.mp hu
      cases hu
      obtain ⟨content, hcontent, hbytes⟩ := h.alive hx
      rw [contentExec_indexAssign hcontent]
      cases content with
      | null n =>
          -- a byte to write, and so a block
          have hempty : bytes = [] := Content.bytes_of_null hbytes
          subst hempty
          cases hput
      | held bytes₀ =>
          cases hbytes
          rw [Content.put?, hput]
          exact ⟨_, rfl, h.update x rfl⟩
  | destroy x =>
      simp only [valueStep, Option.ite_none_right_eq_some, Option.some.injEq] at hu
      obtain ⟨hx, rfl⟩ := hu
      obtain ⟨old, hold⟩ := Option.isSome_iff_exists.mp hx
      obtain ⟨content, hcontent, _⟩ := h.alive hold
      rw [contentExec_destroy hcontent]
      exact ⟨_, rfl, h.remove x⟩

/-- The heap world and the value world tell the same story. -/
def Agrees (w : World ν α) (u : Values ν) : Prop := ∃ v : Contents ν, Shows w v ∧ Valued v u

/-- **A legal statement granted its memory does to the heap what it means for values.** -/
theorem step_spec {w : World ν α} {u u' : Values ν} {c : Op ν × Allocator α Byte}
    (h : Agrees w u) (hgrant : Grants w c) (hu : valueStep u c = some u') :
    ∃ w', step .nothing w c = some w' ∧ Agrees w' u' := by
  obtain ⟨v, hshows, hvalued⟩ := h
  have hanswer : Asks c.1 → answerAt c.2 (requestHeap w c.1) = some c.2.garbage := by
    intro hasks
    obtain ⟨p, hp⟩ := Option.isSome_iff_exists.mp (hgrant hasks)
    rw [answerAt, hp]
    rfl
  obtain ⟨v', hv', hvalued'⟩ := hvalued.exec hanswer hu
  have hrel := exec_rel (z := .nothing) hshows (hshows.scoped hv')
  rw [answered, hv'] at hrel
  obtain ⟨o, ho, hends⟩ := Machine.exists_of_rel hrel rfl
  cases hends with
  | @returned w' _ hshows' => exact ⟨w', by rw [step, ho], v', hshows', hvalued'⟩

/-! ## Whole programs -/

omit [DecidableEq ν] in
theorem agrees_noBuffers : Agrees (noBuffers : World ν α) (fun _ => none) :=
  ⟨fun _ => none, shows_noBuffers, fun _ => rfl⟩

/-- The representation invariant, in terms of the fields alone. -/
structure Exclusive (w : World ν α) : Prop where
  /-- A non-null `__data` names a live block of `__len` bytes. -/
  block : ∀ {x fields p}, w.objs x = some fields → fields.data = some p →
    ∃ bytes, w.heap.lookup p = some bytes ∧ bytes.length = fields.len
  /-- A null `__data` goes with `__len` 0. -/
  null : ∀ {x fields}, w.objs x = some fields → fields.data = none → fields.len = 0
  /-- No two buffers name the same block. -/
  excl : ∀ {x y fx fy p}, w.objs x = some fx → w.objs y = some fy →
    fx.data = some p → fy.data = some p → x = y
  /-- Every live block is named by a buffer. -/
  named : ∀ {p}, p ∈ w.heap → ∃ x fields, w.objs x = some fields ∧ fields.data = some p

omit [DecidableEq ν] in
theorem Agrees.exclusive {w : World ν α} {u : Values ν} (h : Agrees w u) : Exclusive w := by
  obtain ⟨v, hshows, hvalued⟩ := h
  have hseen := hshows.seenAs
  refine ⟨hseen.block, ?_, hseen.excl, hseen.named⟩
  intro x fields hx hnull
  obtain ⟨content, hv, hlen⟩ := hshows.alive hx
  obtain ⟨bytes, _, hbytes⟩ := hvalued.exists_value hv
  have hblock := hshows.owns.null ((own_eq hx).trans hnull)
  rw [block_of_eq hv] at hblock
  cases content with
  | held _ => cases hblock
  | null n =>
      rw [hlen, ← Content.length_of_bytes? hbytes, Content.bytes_of_null hbytes]
      rfl

omit [DecidableEq ν] in
theorem Agrees.size {w : World ν α} {u : Values ν} (h : Agrees w u) (x : ν) :
    size w x = (u x).map List.length := by
  obtain ⟨v, hshows, hvalued⟩ := h
  rw [DBuffer.size, hshows.len x]
  cases hv : v x with
  | none =>
      have hu := hvalued x
      rw [hv] at hu
      rw [Option.map_eq_none_iff.mp hu.symm]
      rfl
  | some content =>
      obtain ⟨bytes, hu, hbytes⟩ := hvalued.exists_value hv
      rw [hu, Option.map_some, Option.map_some, Content.length_of_bytes? hbytes]

omit [DecidableEq ν] in
/-- `operator[]` reads the value. -/
theorem Agrees.index {w : World ν α} {u : Values ν} {x : ν} {bytes : Bytes} (h : Agrees w u)
    (hx : u x = some bytes) (offset : Nat) : index w x offset = Bytes.get? bytes offset := by
  obtain ⟨v, hshows, hvalued⟩ := h
  obtain ⟨content, hv, hbytes⟩ := hvalued.alive hx
  rw [hshows.index, hv, Option.bind_some, Content.get?_of_bytes? hbytes]

omit [DecidableEq ν] in
/-- When no buffer is alive, every block has been freed. -/
theorem Agrees.heap_empty {w : World ν α} {u : Values ν} (h : Agrees w u)
    (hdead : ∀ x, w.objs x = none) : w.heap = ∅ := by
  obtain ⟨v, hshows, _⟩ := h
  refine hshows.owns.eq_empty (fun x => ?_)
  rw [own, hdead x]
  rfl

/--
**Buffers have value semantics and exclusive ownership.**

Take any program that is legal for values, and let every request for memory in it
be granted, at any fresh address. Run on the heap, no statement has undefined
behaviour, a copy of an empty buffer copying nothing: nothing is freed twice, nothing
is read or written after it is freed or past its end. In the state reached, every
block belongs to exactly one buffer and has the length that buffer says; nothing is
left on the heap once no buffer is alive; and the lengths and bytes seen through the
buffers are those of the value model.
-/
theorem program_values {calls : List (Op ν × Allocator α Byte)} {u : Values ν}
    (hgrants : Machine.Throughout (step .nothing) (noBuffers : World ν α) calls Grants)
    (hlegal : Machine.run valueStep (fun _ => none) calls = some u) :
    ∃ w : World ν α, Machine.run (step .nothing) noBuffers calls = some w
      ∧ Exclusive w
      ∧ ((∀ x, w.objs x = none) → w.heap = ∅)
      ∧ (∀ x, size w x = (u x).map List.length)
      ∧ ∀ x bytes offset, u x = some bytes → offset < bytes.length →
          index w x offset = Bytes.get? bytes offset := by
  have hstep : ∀ (w : World ν α) (u u' : Values ν) (c : Op ν × Allocator α Byte), Agrees w u →
      Grants w c → valueStep u c = some u' → ∃ w', step .nothing w c = some w' ∧ Agrees w' u' :=
    fun _ _ _ _ => step_spec
  obtain ⟨w, hrun, hagree⟩ := Machine.run_simulated hstep calls agrees_noBuffers hgrants hlegal
  exact ⟨w, hrun, hagree.exclusive, hagree.heap_empty, hagree.size,
    fun _ _ offset hx _ => hagree.index hx offset⟩

/-- A program with a copy, a write that must not show through it, and moves. -/
def sampleProgram : List (Op Nat × Allocator Nat Byte) :=
  [.constructBytes 0 [1, 2], .copyConstruct 1 0, .indexAssign 1 0 9, .moveAssign 0 1,
    .copyAssign 1 0, .constructSize 2 0, .destroy 1].map (fun op => (op, Allocator.bump 0))

theorem program_values_sample :
    ∃ w : World Nat Nat, Machine.run (step .nothing) noBuffers sampleProgram = some w
      ∧ Exclusive w
      ∧ ((∀ x, w.objs x = none) → w.heap = ∅)
      ∧ (size w 0 = some 2 ∧ size w 1 = none ∧ size w 2 = some 0)
      ∧ index w 0 0 = some 9 := by
  obtain ⟨u, hu⟩ : ∃ u, Machine.run valueStep (fun _ => none) sampleProgram = some u := ⟨_, rfl⟩
  have hgrants : Machine.Throughout (step .nothing) (noBuffers : World Nat Nat) sampleProgram
      Grants := by
    intro pre c post w hsplit _ _
    have hc : c ∈ sampleProgram := by
      rw [hsplit]
      exact List.mem_append_right _ (List.mem_cons_self ..)
    obtain ⟨op, _, rfl⟩ := List.mem_map.mp hc
    rfl
  obtain ⟨w, hrun, hexcl, hempty, hsize, hindex⟩ := program_values hgrants hu
  cases hu
  exact ⟨w, hrun, hexcl, hempty, ⟨hsize 0, hsize 1, hsize 2⟩, hindex 0 [9, 2] 0 rfl (by decide)⟩

end GBMU.DBuffer
