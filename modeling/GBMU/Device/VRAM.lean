import GBMU.Common.DBuffer
import GBMU.Common.Macro
import GBMU.Config

/-!
# Video RAM

`device/GB_vram.h`: 16 KB in two banks of 8 KB. `VBK` keeps one bit, which
selects the bank. An inner address counts modulo the bank size, so the CPU's
`0x8000..0x9FFF` and offsets from 0 reach the same bytes.
-/

namespace GBMU

/-- `VRAM::Registers`. -/
structure VRAM.Registers where
  VBK : Reg8

structure VRAM where
  memory : Bytes
  regs : VRAM.Registers

namespace VRAM

/-- `Registers::RESERVED_BITS`. -/
def reservedBits : U32 := bitMask 7 1

/-- `VRAM()`; the buffer starts out with whatever the new memory contained. -/
def construct (memory : Vector Byte vramMaxSize.toNat) : VRAM :=
  { memory := memory.toList, regs := { VBK := vbkInitValue } }

def getVBKReg (v : VRAM) : Byte := (v.regs.VBK.setWidth 32 ||| reservedBits).setWidth 8

def setVBKReg (v : VRAM) (value : Byte) : VRAM :=
  { v with regs := { VBK := (BitVec.ofBool (bitN 0 (value.setWidth 32))).setWidth 8 } }

def calcPhysAddr (v : VRAM) (innerVaddr : Word) : U32 :=
  let bankOffset := innerVaddr.setWidth 32 % vramBankSize
  let bankBase := if bitN 0 (v.regs.VBK.setWidth 32) then vramBankSize else 0
  bankBase + bankOffset

def readPhysAddr (v : VRAM) (physAddr : Word) : Option Byte :=
  Bytes.get? v.memory physAddr.toNat

def writePhysAddr (v : VRAM) (physAddr : Word) (value : Byte) : Option VRAM :=
  (Bytes.put? v.memory physAddr.toNat value).map (fun memory => { v with memory := memory })

def readInnerVaddr (v : VRAM) (innerVaddr : Word) : Option Byte :=
  v.readPhysAddr ((v.calcPhysAddr innerVaddr).setWidth 16)

def writeInnerVaddr (v : VRAM) (innerVaddr : Word) (value : Byte) : Option VRAM :=
  v.writePhysAddr ((v.calcPhysAddr innerVaddr).setWidth 16) value

inductive Op where
  | setVBKReg (value : Byte)
  | writeInnerVaddr (innerVaddr : Word) (value : Byte)
  | writePhysAddr (physAddr : Word) (value : Byte)

def step (v : VRAM) : Op → Option VRAM
  | .setVBKReg value => some (v.setVBKReg value)
  | .writeInnerVaddr innerVaddr value => v.writeInnerVaddr innerVaddr value
  | .writePhysAddr physAddr value => v.writePhysAddr physAddr value

/-- Every call; a read changes nothing and answers a byte. -/
inductive Call where
  | op (op : Op)
  | getVBKReg
  | readInnerVaddr (innerVaddr : Word)
  | readPhysAddr (physAddr : Word)

def call (v : VRAM) : Call → Option (VRAM × Option Byte)
  | .op op => (v.step op).map (fun v' => (v', none))
  | .getVBKReg => some (v, some v.getVBKReg)
  | .readInnerVaddr innerVaddr => (v.readInnerVaddr innerVaddr).map (fun value => (v, some value))
  | .readPhysAddr physAddr => (v.readPhysAddr physAddr).map (fun value => (v, some value))

end VRAM

end GBMU
