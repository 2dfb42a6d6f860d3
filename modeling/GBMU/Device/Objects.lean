import GBMU.Common.Contents
import GBMU.Device.ORAM
import GBMU.Device.VRAM
import GBMU.Device.WRAM

/-!
# Devices as objects

An `ORAM`, a `WRAM` and a `VRAM` are each a `dbuffer_t` called `__memory` and the
registers of the class, in this order. Their constructors, assignments and
destructors are the defaulted ones, which go member by member: if the memory
throws, the registers are not reached.

A program works on named devices. Its state is the world the memories live in,
each under the name of its device, and the registers of every device alive.

The *value* of a device is its registers and what its memory holds.
`DeviceValues.exec` says what each statement means for values; that the objects do
it, on a heap they share, is proved in `GBMU/Proof/DeviceObjects.lean`. A device that
was moved from has a memory without a block, and as with buffers the `ZeroCopy` says
what copying it is.
-/

namespace GBMU

/-- The classes whose objects keep a `dbuffer_t`. -/
inductive DeviceClass where
  | oram
  | wram
  | vram
  deriving DecidableEq

/-- The registers of an object, according to its class. -/
inductive Registers where
  | oram
  | wram (regs : WRAM.Registers)
  | vram (regs : VRAM.Registers)

/-- The size the constructor passes to `__memory`. -/
def DeviceClass.memorySize : DeviceClass → Nat
  | .oram => oramSize.toNat
  | .wram => WRAM.maxSize.toNat
  | .vram => vramMaxSize.toNat

/-- What the constructor puts into `__regs`. -/
def DeviceClass.initRegs : DeviceClass → Registers
  | .oram => .oram
  | .wram => .wram { SVBK := svbkInitValue }
  | .vram => .vram { VBK := vbkInitValue }

namespace Registers

def cls : Registers → DeviceClass
  | .oram => .oram
  | .wram _ => .wram
  | .vram _ => .vram

/-- `set_SVBK_reg`, `set_VBK_reg`. -/
def setReg : Registers → Byte → Option Registers
  | .oram, _ => none
  | .wram regs, value => some (.wram (WRAM.setSVBKReg { memory := [], regs := regs } value).regs)
  | .vram regs, value => some (.vram (VRAM.setVBKReg { memory := [], regs := regs } value).regs)

/-- `get_SVBK_reg`, `get_VBK_reg`. -/
def getReg : Registers → Option Byte
  | .oram => none
  | .wram regs => some (WRAM.getSVBKReg { memory := [], regs := regs })
  | .vram regs => some (VRAM.getVBKReg { memory := [], regs := regs })

/-- `__calc_phys_addr`, which looks at the registers alone. -/
def calcPhysAddr : Registers → Word → Option Word
  | .oram, _ => none
  | .wram regs, innerVaddr =>
      some ((WRAM.calcPhysAddr { memory := [], regs := regs } innerVaddr).setWidth 16)
  | .vram regs, innerVaddr =>
      some ((VRAM.calcPhysAddr { memory := [], regs := regs } innerVaddr).setWidth 16)

end Registers

/-- One statement of a program that works on devices. -/
inductive DeviceOp (ν : Type) where
  | construct (this : ν) (cls : DeviceClass)
  | copyConstruct (this source : ν)
  | moveConstruct (this source : ν)
  | copyAssign (this source : ν)
  | moveAssign (this source : ν)
  | destroy (this : ν)
  | setReg (this : ν) (value : Byte)
  | writeInnerVaddr (this : ν) (innerVaddr : Word) (data : Byte)
  | writePhysAddr (this : ν) (physAddr : Word) (data : Byte)

/-! ## The objects -/

/-- The memories, and the registers of the devices alive. -/
structure Devices (ν α : Type) where
  memories : World ν α
  regs : ν → Option Registers

namespace Devices

variable {ν α : Type} [DecidableEq ν] [DecidableEq α]

def noDevices : Devices ν α := { memories := DBuffer.noBuffers, regs := fun _ => none }

/-- Once the memory has ended: its exception leaves the registers as they are. -/
def afterMemory (d : Devices ν α) (regs : ν → Option Registers) :
    Outcome (World ν α) → Outcome (Devices ν α)
  | .returned w => .returned { memories := w, regs := regs }
  | .threw w => .threw { d with memories := w }

/-- One statement, with the allocator that serves it. An assignment needs one class. -/
def exec (z : ZeroCopy) (d : Devices ν α) (c : DeviceOp ν × Allocator α Byte) :
    Option (Outcome (Devices ν α)) :=
  match c.1 with
  | .construct this cls =>
      (DBuffer.constructSize c.2 d.memories this cls.memorySize).map
        (d.afterMemory (Function.update d.regs this (some cls.initRegs)))
  | .copyConstruct this source => do
      let regs ← d.regs source
      (DBuffer.copyConstruct z c.2 d.memories this source).map
        (d.afterMemory (Function.update d.regs this (some regs)))
  | .moveConstruct this source => do
      let regs ← d.regs source
      (DBuffer.moveConstruct d.memories this source).map
        (d.afterMemory (Function.update d.regs this (some regs)))
  | .copyAssign this source => do
      let old ← d.regs this
      let regs ← d.regs source
      if old.cls ≠ regs.cls then none
      else
        (DBuffer.copyAssign z c.2 d.memories this source).map
          (d.afterMemory (Function.update d.regs this (some regs)))
  | .moveAssign this source => do
      let old ← d.regs this
      let regs ← d.regs source
      if old.cls ≠ regs.cls then none
      else
        (DBuffer.moveAssign d.memories this source).map
          (d.afterMemory (Function.update d.regs this (some regs)))
  | .destroy this =>
      (DBuffer.destroy d.memories this).map (d.afterMemory (Function.update d.regs this none))
  | .setReg this value => do
      let regs ← d.regs this
      let regs ← regs.setReg value
      some (.returned { d with regs := Function.update d.regs this (some regs) })
  | .writeInnerVaddr this innerVaddr data => do
      let regs ← d.regs this
      let physAddr ← regs.calcPhysAddr innerVaddr
      (DBuffer.indexAssign d.memories this physAddr.toNat data).map (d.afterMemory d.regs)
  | .writePhysAddr this physAddr data =>
      (DBuffer.indexAssign d.memories this physAddr.toNat data).map (d.afterMemory d.regs)

/-- One statement in a program that catches what it throws. -/
def attempt (z : ZeroCopy) :
    Devices ν α → DeviceOp ν × Allocator α Byte → Option (Devices ν α) :=
  Machine.caught (exec z)

def readPhysAddr (d : Devices ν α) (this : ν) (physAddr : Word) : Option Byte :=
  DBuffer.index d.memories this physAddr.toNat

def readInnerVaddr (d : Devices ν α) (this : ν) (innerVaddr : Word) : Option Byte := do
  let regs ← d.regs this
  let physAddr ← regs.calcPhysAddr innerVaddr
  d.readPhysAddr this physAddr

def getReg (d : Devices ν α) (this : ν) : Option Byte := (d.regs this).bind Registers.getReg

end Devices

/-! ## The values -/

/-- A device by itself. -/
structure Device where
  regs : Registers
  memory : DBuffer.Content

namespace Device

def ofORAM (o : ORAM) : Device := { regs := .oram, memory := .held o.memory }
def ofWRAM (w : WRAM) : Device := { regs := .wram w.regs, memory := .held w.memory }
def ofVRAM (v : VRAM) : Device := { regs := .vram v.regs, memory := .held v.memory }

def readPhysAddr (d : Device) (physAddr : Word) : Option Byte := d.memory.get? physAddr.toNat

def readInnerVaddr (d : Device) (innerVaddr : Word) : Option Byte :=
  (d.regs.calcPhysAddr innerVaddr).bind d.readPhysAddr

def writePhysAddr (d : Device) (physAddr : Word) (data : Byte) : Option Device :=
  (d.memory.put? physAddr.toNat data).map (fun memory => { d with memory := memory })

def writeInnerVaddr (d : Device) (innerVaddr : Word) (data : Byte) : Option Device :=
  (d.regs.calcPhysAddr innerVaddr).bind (fun physAddr => d.writePhysAddr physAddr data)

def setReg (d : Device) (value : Byte) : Option Device :=
  (d.regs.setReg value).map (fun regs => { d with regs := regs })

/-- What a copy of the device is: its memory has a block of its own. -/
def copied (z : ZeroCopy) (d : Device) : Option Device :=
  (d.memory.bytes? z).map (fun bytes => { d with memory := .held bytes })

/-- What a moved-from device keeps: its registers. -/
def emptied (d : Device) : Device := { d with memory := .null 0 }

/-- What a refused copy assignment leaves of its target. -/
def freed (d : Device) : Device := { d with memory := .null d.memory.len }

end Device

/-- What a device does to itself. -/
inductive DeviceWrite where
  | setReg (value : Byte)
  | innerVaddr (innerVaddr : Word) (data : Byte)
  | physAddr (physAddr : Word) (data : Byte)

def Device.step (d : Device) : DeviceWrite → Option Device
  | .setReg value => d.setReg value
  | .innerVaddr innerVaddr data => d.writeInnerVaddr innerVaddr data
  | .physAddr physAddr data => d.writePhysAddr physAddr data

/-- A device just constructed, its memory containing what it happens to. -/
def Device.construct (cls : DeviceClass) (garbage : Nat → Bytes) : Device :=
  { regs := cls.initRegs, memory := .held (garbage cls.memorySize) }

/-- The value of every device alive. -/
abbrev DeviceValues (ν : Type) := ν → Option Device

namespace DeviceValues

open DBuffer (Answer)

variable {ν : Type} [DecidableEq ν]

/-- Put `copied` into `this`; a refusal comes first and leaves `thrown`. -/
def copy (v : DeviceValues ν) (this : ν) (copied : Option Device) (thrown : DeviceValues ν) :
    Answer → Option (Outcome (DeviceValues ν))
  | none => some (.threw thrown)
  | some _ => copied.map (fun d => .returned (Function.update v this (some d)))

/-- `source` in `this`, and its registers alone in `source`. -/
def move (v : DeviceValues ν) (this source : ν) (d : Device) : DeviceValues ν :=
  Function.update (Function.update v this (some d)) source (some d.emptied)

/-- What each statement means for values. -/
def exec (z : ZeroCopy) (v : DeviceValues ν) (c : DeviceOp ν × Answer) :
    Option (Outcome (DeviceValues ν)) :=
  match c.1 with
  | .construct this cls =>
      if (v this).isSome then none
      else
        match c.2 with
        | none => some (.threw v)
        | some garbage =>
            some (.returned (Function.update v this (some (Device.construct cls garbage))))
  | .copyConstruct this source => do
      let src ← v source
      if (v this).isSome then none else v.copy this (src.copied z) v c.2
  | .moveConstruct this source => do
      let src ← v source
      if (v this).isSome then none else some (.returned (v.move this source src))
  | .copyAssign this source => do
      let old ← v this
      let src ← v source
      if old.regs.cls ≠ src.regs.cls then none
      else if this = source then some (.returned v)
      else v.copy this (src.copied z) (Function.update v this (some old.freed)) c.2
  | .moveAssign this source => do
      let old ← v this
      let src ← v source
      if old.regs.cls ≠ src.regs.cls then none
      else if this = source then some (.returned v)
      else some (.returned (v.move this source src))
  | .destroy this => do
      let _ ← v this
      some (.returned (Function.update v this none))
  | .setReg this value => do
      let d ← v this
      let d ← d.setReg value
      some (.returned (Function.update v this (some d)))
  | .writeInnerVaddr this innerVaddr data => do
      let d ← v this
      let d ← d.writeInnerVaddr innerVaddr data
      some (.returned (Function.update v this (some d)))
  | .writePhysAddr this physAddr data => do
      let d ← v this
      let d ← d.writePhysAddr physAddr data
      some (.returned (Function.update v this (some d)))

/-- One statement in a program that catches what it throws. -/
def step (z : ZeroCopy) : DeviceValues ν → DeviceOp ν × Answer → Option (DeviceValues ν) :=
  Machine.caught (exec z)

end DeviceValues

end GBMU
