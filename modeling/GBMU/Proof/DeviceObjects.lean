import GBMU.Device.Objects
import GBMU.Proof.BufferContents

/-!
# Devices share a heap and nothing else

The objects of `GBMU/Device/Objects.lean` keep their memories on one heap. `Shown`
ties them to their values: the memories through `DBuffer.Shows`, the registers by
equality. A defaulted member function runs the memory's own and then, unless that
threw, the registers'; `Follows` says what this makes of the way the memory ended,
and carries the buffers' lockstep theorem over to devices.

From there on the heap is not mentioned any more. What a statement does to the
devices it does not name is read off the values, and so is what a copy of a device
is good for.
-/

namespace GBMU.Devices

open DBuffer (Shows Contents Answer answerAt heapWithout)

variable {ν α : Type} [DecidableEq ν] [DecidableEq α] {z : ZeroCopy}

/-- What the memories hold. -/
def memoryOf (v : DeviceValues ν) : Contents ν := fun x => (v x).map Device.memory

/-- The objects and the values tell the same story. -/
structure Shown (d : Devices ν α) (v : DeviceValues ν) : Prop where
  /-- The memories hold what the values say. -/
  memories : Shows d.memories (memoryOf v)
  /-- The registers are those of the values. -/
  regs : ∀ x, d.regs x = (v x).map Device.regs

/--
Where the memory ended in one of these ways, and `regs` is what the registers
become unless it threw, the device ends like this.
-/
inductive Follows (d : Devices ν α) (regs : ν → Option Registers) :
    Outcome (Contents ν) → Outcome (DeviceValues ν) → Prop where
  | returned {v : DeviceValues ν} (hregs : ∀ x, regs x = (v x).map Device.regs) :
      Follows d regs (.returned (memoryOf v)) (.returned v)
  | threw {v : DeviceValues ν} (hregs : ∀ x, d.regs x = (v x).map Device.regs) :
      Follows d regs (.threw (memoryOf v)) (.threw v)

theorem memoryOf_update (v : DeviceValues ν) (x : ν) (device : Option Device) :
    memoryOf (Function.update v x device)
      = Function.update (memoryOf v) x (device.map Device.memory) := by
  funext y
  unfold memoryOf
  by_cases hyx : y = x
  · subst hyx
    rw [Function.update_self, Function.update_self]
  · rw [Function.update_of_ne hyx, Function.update_of_ne hyx]

omit [DecidableEq ν] in
theorem memoryOf_eq {v : DeviceValues ν} {x : ν} {device : Device} (hx : v x = some device) :
    memoryOf v x = some device.memory := by
  rw [memoryOf, hx]
  rfl

omit [DecidableEq ν] in
theorem memoryOf_eq_none {v : DeviceValues ν} {x : ν} (hx : v x = none) : memoryOf v x = none := by
  rw [memoryOf, hx]
  rfl

/-- Registers that are those of the values stay so when both get the same new ones. -/
theorem regs_update {regs : ν → Option Registers} {v : DeviceValues ν}
    (hregs : ∀ x, regs x = (v x).map Device.regs) (x : ν) {new : Option Registers}
    {device : Option Device} (hnew : new = device.map Device.regs) :
    ∀ y, Function.update regs x new y = (Function.update v x device y).map Device.regs := by
  intro y
  by_cases hyx : y = x
  · subst hyx
    rw [Function.update_self, Function.update_self, hnew]
  · rw [Function.update_of_ne hyx, Function.update_of_ne hyx]
    exact hregs y

/-- Registers that stay what they are. -/
theorem regs_update_same {regs : ν → Option Registers} {v : DeviceValues ν}
    (hregs : ∀ x, regs x = (v x).map Device.regs) {x : ν} {old device : Device}
    (hx : v x = some old) (hsame : device.regs = old.regs) :
    ∀ y, regs y = (Function.update v x (some device) y).map Device.regs := by
  have hself : Function.update regs x (some device.regs) = regs := by
    refine Function.update_eq_self_iff.mpr ?_
    rw [hsame, hregs x, hx, Option.map_some]
  intro y
  have hnew : some device.regs = (some device).map Device.regs := rfl
  rw [← regs_update hregs x hnew y, hself]

omit [DecidableEq ν] in
/-- **What the memory did, carried over to the device.** -/
theorem Shown.after {d : Devices ν α} {regs : ν → Option Registers}
    {memory : Option (Outcome (World ν α))} {contents : Option (Outcome (Contents ν))}
    {values : Option (Outcome (DeviceValues ν))}
    (hmemory : Option.Rel (Outcome.Rel Shows) memory contents)
    (hfollows : Option.Rel (Follows d regs) contents values) :
    Option.Rel (Outcome.Rel Shown) (memory.map (d.afterMemory regs)) values := by
  cases hmemory with
  | none =>
      cases hfollows
      exact .none
  | some hends =>
      cases hfollows with
      | some hfollows =>
          cases hfollows with
          | returned hregs =>
              cases hends with
              | returned hshows => exact .some (.returned ⟨hshows, hregs⟩)
          | threw hregs =>
              cases hends with
              | threw hshows => exact .some (.threw ⟨hshows, hregs⟩)

/-! ## One statement -/

/-- A statement constructs a device that is not alive, and otherwise names ones that are. -/
def Scoped (d : Devices ν α) : DeviceOp ν → Prop
  | .construct this _ => d.regs this = none
  | .copyConstruct this source => d.regs this = none ∧ (d.regs source).isSome
  | .moveConstruct this source => d.regs this = none ∧ (d.regs source).isSome
  | .copyAssign this source => (d.regs this).isSome ∧ (d.regs source).isSome
  | .moveAssign this source => (d.regs this).isSome ∧ (d.regs source).isSome
  | .destroy this => (d.regs this).isSome
  | .setReg this _ => (d.regs this).isSome
  | .writeInnerVaddr this _ _ => (d.regs this).isSome
  | .writePhysAddr this _ _ => (d.regs this).isSome

/-- The heap a statement has when it asks for memory. -/
def requestHeap (d : Devices ν α) : DeviceOp ν → BlockHeap α Byte
  | .copyAssign this _ => heapWithout d.memories this
  | _ => d.memories.heap

/-- A statement, and what the runtime answers to it. -/
def answered (d : Devices ν α) (c : DeviceOp ν × Allocator α Byte) : DeviceOp ν × Answer :=
  (c.1, answerAt c.2 (requestHeap d c.1))

omit [DecidableEq ν] in
/-- A device alive has registers, a value and a memory on the heap. -/
theorem Shown.alive {d : Devices ν α} {v : DeviceValues ν} {x : ν} (h : Shown d v)
    (hx : (d.regs x).isSome) :
    ∃ device, v x = some device ∧ d.regs x = some device.regs
      ∧ (d.memories.objs x).isSome := by
  have hregs := h.regs x
  rw [hregs, Option.isSome_map] at hx
  rcases Option.isSome_iff_exists.mp hx with ⟨device, hdevice⟩
  rcases h.memories.fields (memoryOf_eq hdevice) with ⟨fields, hfields, _⟩
  refine ⟨device, hdevice, ?_, ?_⟩
  · rw [hregs, hdevice]
    rfl
  · rw [hfields]
    rfl

omit [DecidableEq ν] in
theorem Shown.dead {d : Devices ν α} {v : DeviceValues ν} {x : ν} (h : Shown d v)
    (hx : d.regs x = none) : v x = none ∧ d.memories.objs x = none := by
  have hregs := h.regs x
  rw [hx] at hregs
  have hvalue := Option.map_eq_none_iff.mp hregs.symm
  exact ⟨hvalue, h.memories.dead_iff.mpr (memoryOf_eq_none hvalue)⟩

/-! ### Following the memory -/

omit [DecidableEq ν] [DecidableEq α] in
/-- The memory returned, with these contents. -/
theorem follows_returned {d : Devices ν α} {regs : ν → Option Registers} {v : DeviceValues ν}
    {contents : Contents ν} (hcontents : memoryOf v = contents)
    (hregs : ∀ x, regs x = (v x).map Device.regs) :
    Follows d regs (.returned contents) (.returned v) := by
  rw [← hcontents]
  exact .returned hregs

omit [DecidableEq α] in
theorem follows_copy {d : Devices ν α} {v thrown : DeviceValues ν} {x : ν} {src : Device}
    {contents : Contents ν} (hregs : ∀ y, d.regs y = (v y).map Device.regs)
    (hthrown : ∀ y, d.regs y = (thrown y).map Device.regs) (hcontents : memoryOf thrown = contents)
    (answer : Answer) :
    Option.Rel (Follows d (Function.update d.regs x (some src.regs)))
      (DBuffer.copyContent (memoryOf v) x (src.memory.bytes? z) contents answer)
      (v.copy x (src.copied z) thrown answer) := by
  unfold DBuffer.copyContent DeviceValues.copy Device.copied
  cases answer with
  | none =>
      rw [← hcontents]
      exact .some (.threw hthrown)
  | some garbage =>
      cases src.memory.bytes? z with
      | none => exact .none
      | some bytes =>
          refine .some (follows_returned ?_ (regs_update hregs x rfl))
          rw [memoryOf_update]
          rfl

omit [DecidableEq α] in
theorem follows_move {d : Devices ν α} {v : DeviceValues ν} {x y : ν} {src : Device}
    (hregs : ∀ u, d.regs u = (v u).map Device.regs) (hyx : y ≠ x) (hy : v y = some src) :
    Follows d (Function.update d.regs x (some src.regs))
      (.returned (DBuffer.moveContent (memoryOf v) x y src.memory))
      (.returned (v.move x y src)) := by
  refine follows_returned ?_ ?_
  · unfold DeviceValues.move
    rw [memoryOf_update, memoryOf_update]
    rfl
  · have hsource : Function.update v x (some src) y = some src := by
      rw [Function.update_of_ne hyx, hy]
    exact regs_update_same (regs_update hregs x rfl) hsource rfl

omit [DecidableEq α] in
/-- Assigned to itself, a device stays what it is. -/
theorem follows_self {d : Devices ν α} {v : DeviceValues ν} {x : ν} {device : Device}
    (hregs : ∀ y, d.regs y = (v y).map Device.regs) (hx : v x = some device) :
    Follows d (Function.update d.regs x (some device.regs)) (.returned (memoryOf v))
      (.returned v) := by
  refine .returned ?_
  have hself : d.regs x = some device.regs := by rw [hregs x, hx, Option.map_some]
  rw [Function.update_eq_self_iff.mpr hself.symm]
  exact hregs

/-! ### The cases -/

theorem Shown.construct {A : Allocator α Byte} {d : Devices ν α} {v : DeviceValues ν} {x : ν}
    (h : Shown d v) (hx : d.regs x = none) (cls : DeviceClass) :
    Option.Rel (Outcome.Rel Shown) (exec z d (.construct x cls, A))
      (v.exec z (answered d (.construct x cls, A))) := by
  rcases h.dead hx with ⟨hvalue, hdead⟩
  have hmemory := DBuffer.exec_rel (z := z) (c := (.constructSize x cls.memorySize, A)) h.memories
    hdead
  refine Shown.after hmemory ?_
  have hsize : cls.memorySize ≠ 0 := by cases cls <;> decide
  have hnone : ¬ (v x).isSome := by simp [hvalue]
  have hnothing : memoryOf v x = none := memoryOf_eq_none hvalue
  have hheap : DBuffer.requestHeap d.memories (.constructSize x cls.memorySize)
      = requestHeap d (.construct x cls) := rfl
  unfold DBuffer.answered DeviceValues.exec answered
  dsimp only
  rw [if_neg hnone, hheap]
  cases answerAt A (requestHeap d (.construct x cls)) with
  | none =>
      rw [DBuffer.contentExec_constructSize_refused hnothing hsize]
      exact .some (.threw h.regs)
  | some garbage =>
      rw [DBuffer.contentExec_constructSize_granted hnothing hsize]
      refine .some (follows_returned ?_ (regs_update h.regs x rfl))
      rw [memoryOf_update]
      rfl

theorem Shown.copyConstruct {A : Allocator α Byte} {d : Devices ν α} {v : DeviceValues ν}
    {x y : ν} (h : Shown d v) (hx : d.regs x = none) (hy : (d.regs y).isSome) :
    Option.Rel (Outcome.Rel Shown) (exec z d (.copyConstruct x y, A))
      (v.exec z (answered d (.copyConstruct x y, A))) := by
  rcases h.dead hx with ⟨hvalue, hdead⟩
  rcases h.alive hy with ⟨src, hsrc, hregs, halive⟩
  have hmemory := DBuffer.exec_rel (z := z) (c := (.copyConstruct x y, A)) h.memories
    ⟨hdead, halive⟩
  have hnone : ¬ (v x).isSome := by simp [hvalue]
  unfold exec DeviceValues.exec answered
  dsimp only
  rw [hregs, hsrc, Option.bind_eq_bind, Option.bind_some, Option.bind_eq_bind, Option.bind_some,
    if_neg hnone]
  refine Shown.after hmemory ?_
  rw [DBuffer.answered, DBuffer.contentExec_copyConstruct (memoryOf_eq_none hvalue)
    (memoryOf_eq hsrc)]
  exact follows_copy h.regs h.regs rfl _

theorem Shown.moveConstruct {A : Allocator α Byte} {d : Devices ν α} {v : DeviceValues ν}
    {x y : ν} (h : Shown d v) (hx : d.regs x = none) (hy : (d.regs y).isSome) :
    Option.Rel (Outcome.Rel Shown) (exec z d (.moveConstruct x y, A))
      (v.exec z (answered d (.moveConstruct x y, A))) := by
  rcases h.dead hx with ⟨hvalue, hdead⟩
  rcases h.alive hy with ⟨src, hsrc, hregs, halive⟩
  have hmemory := DBuffer.exec_rel (z := z) (c := (.moveConstruct x y, A)) h.memories
    ⟨hdead, halive⟩
  have hnone : ¬ (v x).isSome := by simp [hvalue]
  have hyx : y ≠ x := by
    intro he
    rw [he, hvalue] at hsrc
    cases hsrc
  unfold exec DeviceValues.exec answered
  dsimp only
  rw [hregs, hsrc, Option.bind_eq_bind, Option.bind_some, Option.bind_eq_bind, Option.bind_some,
    if_neg hnone]
  refine Shown.after hmemory ?_
  rw [DBuffer.answered, DBuffer.contentExec_moveConstruct (memoryOf_eq_none hvalue)
    (memoryOf_eq hsrc)]
  exact .some (follows_move h.regs hyx hsrc)

/-- Assignments look at the class first. -/
theorem Shown.copyAssign {A : Allocator α Byte} {d : Devices ν α} {v : DeviceValues ν}
    {x y : ν} (h : Shown d v) (hx : (d.regs x).isSome) (hy : (d.regs y).isSome) :
    Option.Rel (Outcome.Rel Shown) (exec z d (.copyAssign x y, A))
      (v.exec z (answered d (.copyAssign x y, A))) := by
  rcases h.alive hx with ⟨old, hold, hregsx, halivex⟩
  rcases h.alive hy with ⟨src, hsrc, hregsy, halivey⟩
  have hmemory := DBuffer.exec_rel (z := z) (c := (.copyAssign x y, A)) h.memories
    ⟨halivex, halivey⟩
  unfold exec DeviceValues.exec answered
  dsimp only
  rw [hregsx, hregsy, hold, hsrc, Option.bind_eq_bind, Option.bind_some, Option.bind_some,
    Option.bind_eq_bind, Option.bind_some, Option.bind_some]
  by_cases hcls : old.regs.cls = src.regs.cls
  · rw [if_neg (not_not_intro hcls), if_neg (not_not_intro hcls)]
    refine Shown.after hmemory ?_
    rw [DBuffer.answered]
    by_cases hxy : x = y
    · subst hxy
      rw [hold] at hsrc
      cases hsrc
      rw [DBuffer.contentExec_copyAssign_self (memoryOf_eq hold), if_pos rfl]
      exact .some (follows_self h.regs hold)
    · rw [DBuffer.contentExec_copyAssign hxy (memoryOf_eq hold) (memoryOf_eq hsrc), if_neg hxy]
      have hfreed : old.freed.regs = old.regs := rfl
      refine follows_copy h.regs (regs_update_same h.regs hold hfreed) ?_ _
      rw [memoryOf_update]
      rfl
  · rw [if_pos hcls, if_pos hcls]
    exact .none

theorem Shown.moveAssign {A : Allocator α Byte} {d : Devices ν α} {v : DeviceValues ν}
    {x y : ν} (h : Shown d v) (hx : (d.regs x).isSome) (hy : (d.regs y).isSome) :
    Option.Rel (Outcome.Rel Shown) (exec z d (.moveAssign x y, A))
      (v.exec z (answered d (.moveAssign x y, A))) := by
  rcases h.alive hx with ⟨old, hold, hregsx, halivex⟩
  rcases h.alive hy with ⟨src, hsrc, hregsy, halivey⟩
  have hmemory := DBuffer.exec_rel (z := z) (c := (.moveAssign x y, A)) h.memories
    ⟨halivex, halivey⟩
  unfold exec DeviceValues.exec answered
  dsimp only
  rw [hregsx, hregsy, hold, hsrc, Option.bind_eq_bind, Option.bind_some, Option.bind_some,
    Option.bind_eq_bind, Option.bind_some, Option.bind_some]
  by_cases hcls : old.regs.cls = src.regs.cls
  · rw [if_neg (not_not_intro hcls), if_neg (not_not_intro hcls)]
    refine Shown.after hmemory ?_
    rw [DBuffer.answered]
    by_cases hxy : x = y
    · subst hxy
      rw [hold] at hsrc
      cases hsrc
      rw [DBuffer.contentExec_moveAssign_self (memoryOf_eq hold), if_pos rfl]
      exact .some (follows_self h.regs hold)
    · rw [DBuffer.contentExec_moveAssign hxy (memoryOf_eq hold) (memoryOf_eq hsrc), if_neg hxy]
      exact .some (follows_move h.regs (Ne.symm hxy) hsrc)
  · rw [if_pos hcls, if_pos hcls]
    exact .none

theorem Shown.destroy {A : Allocator α Byte} {d : Devices ν α} {v : DeviceValues ν} {x : ν}
    (h : Shown d v) (hx : (d.regs x).isSome) :
    Option.Rel (Outcome.Rel Shown) (exec z d (.destroy x, A))
      (v.exec z (answered d (.destroy x, A))) := by
  rcases h.alive hx with ⟨device, hdevice, _, halive⟩
  have hmemory := DBuffer.exec_rel (z := z) (c := (.destroy x, A)) h.memories halive
  refine Shown.after hmemory ?_
  rw [DBuffer.answered, DBuffer.contentExec_destroy (memoryOf_eq hdevice)]
  unfold DeviceValues.exec answered
  dsimp only
  rw [hdevice, Option.bind_eq_bind, Option.bind_some]
  refine .some (follows_returned ?_ (regs_update h.regs x rfl))
  rw [memoryOf_update]
  rfl

/-- `__memory[physAddr] = data`, which leaves the registers alone. -/
theorem Shown.writePhysAddr {A : Allocator α Byte} {d : Devices ν α} {v : DeviceValues ν} {x : ν}
    (h : Shown d v) (hx : (d.regs x).isSome) (physAddr : Word) (data : Byte) :
    Option.Rel (Outcome.Rel Shown) (exec z d (.writePhysAddr x physAddr data, A))
      (v.exec z (answered d (.writePhysAddr x physAddr data, A))) := by
  rcases h.alive hx with ⟨device, hdevice, _, halive⟩
  have hmemory :=
    DBuffer.exec_rel (z := z) (c := (.indexAssign x physAddr.toNat data, A)) h.memories halive
  refine Shown.after hmemory ?_
  rw [DBuffer.answered, DBuffer.contentExec_indexAssign (memoryOf_eq hdevice)]
  unfold DeviceValues.exec answered Device.writePhysAddr
  dsimp only
  rw [hdevice, Option.bind_eq_bind, Option.bind_some]
  cases device.memory.put? physAddr.toNat data with
  | none => exact .none
  | some memory =>
      refine .some (follows_returned ?_ (regs_update_same h.regs hdevice rfl))
      rw [memoryOf_update]
      rfl

theorem Shown.writeInnerVaddr {A : Allocator α Byte} {d : Devices ν α} {v : DeviceValues ν}
    {x : ν} (h : Shown d v) (hx : (d.regs x).isSome) (innerVaddr : Word) (data : Byte) :
    Option.Rel (Outcome.Rel Shown) (exec z d (.writeInnerVaddr x innerVaddr data, A))
      (v.exec z (answered d (.writeInnerVaddr x innerVaddr data, A))) := by
  rcases h.alive hx with ⟨device, hdevice, hregs, _⟩
  have hphys := fun physAddr => h.writePhysAddr (A := A) (z := z) hx physAddr data
  unfold exec DeviceValues.exec answered at hphys ⊢
  dsimp only at hphys ⊢
  simp only [hregs, hdevice, Option.bind_eq_bind, Option.bind_some, Device.writeInnerVaddr]
  -- the address comes from the registers, and the rest is the physical access
  cases haddr : device.regs.calcPhysAddr innerVaddr with
  | none => exact .none
  | some physAddr =>
      have hwrite := hphys physAddr
      rw [hdevice] at hwrite
      exact hwrite

theorem Shown.setReg {A : Allocator α Byte} {d : Devices ν α} {v : DeviceValues ν} {x : ν}
    (h : Shown d v) (hx : (d.regs x).isSome) (value : Byte) :
    Option.Rel (Outcome.Rel Shown) (exec z d (.setReg x value, A))
      (v.exec z (answered d (.setReg x value, A))) := by
  rcases h.alive hx with ⟨device, hdevice, hregs, _⟩
  unfold exec DeviceValues.exec answered Device.setReg
  dsimp only
  simp only [hregs, hdevice, Option.bind_eq_bind, Option.bind_some]
  cases device.regs.setReg value with
  | none => exact .none
  | some regs =>
      refine .some (.returned ⟨?_, regs_update h.regs x rfl⟩)
      have hmemory : memoryOf (Function.update v x (some { device with regs := regs }))
          = memoryOf v := by
        rw [memoryOf_update, Function.update_eq_self_iff.mpr]
        exact (memoryOf_eq hdevice).symm
      show Shows d.memories _
      rw [hmemory]
      exact h.memories

/-- **The objects do what the values say, or both go wrong.** -/
theorem exec_shown {d : Devices ν α} {v : DeviceValues ν} {c : DeviceOp ν × Allocator α Byte}
    (h : Shown d v) (hscoped : Scoped d c.1) :
    Option.Rel (Outcome.Rel Shown) (exec z d c) (v.exec z (answered d c)) := by
  obtain ⟨op, A⟩ := c
  cases op with
  | construct x cls => exact h.construct hscoped cls
  | copyConstruct x y => exact h.copyConstruct hscoped.1 hscoped.2
  | moveConstruct x y => exact h.moveConstruct hscoped.1 hscoped.2
  | copyAssign x y => exact h.copyAssign hscoped.1 hscoped.2
  | moveAssign x y => exact h.moveAssign hscoped.1 hscoped.2
  | destroy x => exact h.destroy hscoped
  | setReg x value => exact h.setReg hscoped value
  | writeInnerVaddr x innerVaddr data => exact h.writeInnerVaddr hscoped innerVaddr data
  | writePhysAddr x physAddr data => exact h.writePhysAddr hscoped physAddr data

/-! ## Whole programs -/

omit [DecidableEq ν] in
theorem shown_noDevices : Shown (noDevices : Devices ν α) (fun _ => none) :=
  ⟨DBuffer.shows_noBuffers, fun _ => rfl⟩

/-- What can be seen of the objects is what the values say. -/
structure SeenAs (d : Devices ν α) (v : DeviceValues ν) : Prop where
  readPhysAddr : ∀ x physAddr,
    d.readPhysAddr x physAddr = (v x).bind (fun device => device.readPhysAddr physAddr)
  readInnerVaddr : ∀ x innerVaddr,
    d.readInnerVaddr x innerVaddr = (v x).bind (fun device => device.readInnerVaddr innerVaddr)
  getReg : ∀ x, d.getReg x = (v x).bind (fun device => device.regs.getReg)
  /-- The memories are sound, and no two devices share one. -/
  memories : DBuffer.SeenAs d.memories (memoryOf v)

omit [DecidableEq ν] in
theorem Shown.readPhysAddr {d : Devices ν α} {v : DeviceValues ν} (h : Shown d v) (x : ν)
    (physAddr : Word) :
    d.readPhysAddr x physAddr = (v x).bind (fun device => device.readPhysAddr physAddr) := by
  rw [Devices.readPhysAddr, h.memories.index, memoryOf]
  cases v x with
  | none => rfl
  | some device => rfl

omit [DecidableEq ν] in
theorem Shown.seenAs {d : Devices ν α} {v : DeviceValues ν} (h : Shown d v) : SeenAs d v := by
  refine ⟨h.readPhysAddr, ?_, ?_, h.memories.seenAs⟩
  · intro x innerVaddr
    unfold Devices.readInnerVaddr
    rw [h.regs x]
    cases hx : v x with
    | none => rfl
    | some device =>
        simp only [h.readPhysAddr, hx, Option.map_some, Option.bind_eq_bind, Option.bind_some]
        rfl
  · intro x
    rw [Devices.getReg, h.regs x]
    cases v x with
    | none => rfl
    | some device => rfl

theorem run_shown {calls : List (DeviceOp ν × Allocator α Byte)}
    (hscoped : Machine.Throughout (attempt z) (noDevices : Devices ν α) calls
      (fun d c => Scoped d c.1)) :
    Machine.endings (exec z) (noDevices : Devices ν α) calls
        = Machine.endings (DeviceValues.exec z) (fun _ => none)
            (Machine.annotate (attempt z) answered noDevices calls)
      ∧ Option.Rel Shown (Machine.run (attempt z) (noDevices : Devices ν α) calls)
          (Machine.run (DeviceValues.step z) (fun _ => none)
            (Machine.annotate (attempt z) answered noDevices calls)) := by
  have hstep : ∀ (d : Devices ν α) (v : DeviceValues ν) (c : DeviceOp ν × Allocator α Byte),
      Shown d v → Scoped d c.1 →
      Option.Rel (Outcome.Rel Shown) (exec z d c) (v.exec z (answered d c)) :=
    fun _ _ _ => exec_shown
  exact Machine.caught_rel hstep calls shown_noDevices hscoped

/--
**Devices are values.**

Take a program that constructs, copies, moves, assigns, destroys and writes any
number of object, work and video RAMs, whose statements name devices as C++
demands, and let the runtime answer each request for memory as it likes. Statement
by statement the objects, with their memories on one heap, end as the values do:
both return, both throw, or both go wrong, where it is up to `z` whether the copy of
a device that was moved from goes wrong. While they do not, every read of every
device, inner or physical, and every register read answers what the value says, and
no two devices share memory.
-/
theorem objects_faithful {calls : List (DeviceOp ν × Allocator α Byte)}
    (hscoped : Machine.Throughout (attempt z) (noDevices : Devices ν α) calls
      (fun d c => Scoped d c.1)) :
    Machine.endings (exec z) (noDevices : Devices ν α) calls
        = Machine.endings (DeviceValues.exec z) (fun _ => none)
            (Machine.annotate (attempt z) answered noDevices calls)
      ∧ Option.Rel SeenAs (Machine.run (attempt z) (noDevices : Devices ν α) calls)
          (Machine.run (DeviceValues.step z) (fun _ => none)
            (Machine.annotate (attempt z) answered noDevices calls)) := by
  obtain ⟨hendings, hrun⟩ := run_shown hscoped
  exact ⟨hendings, Machine.rel_imp hrun (fun _ _ h => h.seenAs)⟩

/--
An object RAM is written and copied, a second work RAM is refused. At the end a work
RAM that was moved from is copied.
-/
def threeDevices : List (DeviceOp Nat × Allocator Nat Byte) :=
  [(.construct 0 .oram, Allocator.bump 0), (.construct 1 .wram, Allocator.bump 0),
    (.construct 2 .wram, DBuffer.outOfMemory), (.writePhysAddr 0 5 7, Allocator.bump 0),
    (.setReg 1 3, Allocator.bump 0), (.copyConstruct 3 0, Allocator.bump 0),
    (.moveConstruct 4 1, Allocator.bump 0), (.destroy 0, Allocator.bump 0),
    (.copyConstruct 0 1, Allocator.bump 0)]

set_option maxRecDepth 4000 in
theorem objects_faithful_sample :
    (Machine.endings (exec .undefined) (noDevices : Devices Nat Nat) threeDevices).getLast?
        = some none
      ∧ Option.Rel SeenAs
          (Machine.run (attempt .nothing) (noDevices : Devices Nat Nat) threeDevices)
          (Machine.run (DeviceValues.step .nothing) (fun _ => none)
            (Machine.annotate (attempt .nothing) answered noDevices threeDevices)) := by
  have hscoped : ∀ z, Machine.Throughout (attempt z) (noDevices : Devices Nat Nat) threeDevices
      (fun d c => Scoped d c.1) := by
    intro z
    refine .cons rfl rfl ?_
    refine .cons rfl rfl ?_
    refine .cons rfl rfl ?_
    refine .cons rfl rfl ?_
    refine .cons rfl rfl ?_
    refine .cons ⟨rfl, rfl⟩ rfl ?_
    refine .cons ⟨rfl, rfl⟩ rfl ?_
    refine .cons rfl rfl ?_
    exact .last ⟨rfl, rfl⟩
  obtain ⟨hendings, _⟩ := objects_faithful (hscoped .undefined)
  obtain ⟨_, hseen⟩ := objects_faithful (hscoped .nothing)
  exact ⟨(congrArg List.getLast? hendings).trans rfl, hseen⟩

end GBMU.Devices
