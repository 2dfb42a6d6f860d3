import GBMU.Common.DBuffer
import GBMU.Common.Macro
import GBMU.Config

/-!
# Work RAM

`device/GB_wram.h`: 32 KB in eight banks of 4 KB. CPU addresses below
`WRAMX_BASE_VADDR` reach bank 0; the others reach the bank the low three bits of
`SVBK` select, where 0 selects bank 1. The memory is used through the value of
its `dbuffer_t`, and an access past its end has no defined outcome.
-/

namespace GBMU

/-- `WRAM::Registers`. -/
structure WRAM.Registers where
  SVBK : Reg8

structure WRAM where
  memory : Bytes
  regs : WRAM.Registers

namespace WRAM

/-- `Registers::RESERVED_BITS`. -/
def reservedBits : U32 := bitsSet 6 []

def maxSize : U32 := wramCgbSize
def bankSize : U32 := wramCgbBankSize

def withContent (memory : Vector Byte maxSize.toNat) (svbk : Reg8) : WRAM :=
  { memory := memory.toList, regs := { SVBK := svbk } }

/-- `WRAM()`; the buffer starts out with whatever the new memory contained. -/
def construct (memory : Vector Byte maxSize.toNat) : WRAM := withContent memory svbkInitValue

def getBankIdxBits (w : WRAM) : U32 := bitSlice 2 0 (w.regs.SVBK.setWidth 32)

def getCurrentBankIdx (w : WRAM) : U32 :=
  let bankBits := w.getBankIdxBits
  if bankBits = 0x0 then 0x1 else bankBits

def calcPhysAddr (w : WRAM) (innerVaddr : Word) : U32 :=
  let bankIdx := if innerVaddr ≥ wramxBaseVaddr then w.getCurrentBankIdx else 0x0
  let bankOffset := innerVaddr.setWidth 32 % bankSize
  bankIdx * bankSize + bankOffset

def getSVBKReg (w : WRAM) : Byte := (w.regs.SVBK.setWidth 32 ||| reservedBits).setWidth 8

def setSVBKReg (w : WRAM) (value : Byte) : WRAM := { w with regs := { SVBK := value } }

def readPhysAddr (w : WRAM) (physAddr : Word) : Option Byte :=
  Bytes.get? w.memory physAddr.toNat

def writePhysAddr (w : WRAM) (physAddr : Word) (data : Byte) : Option WRAM :=
  (Bytes.put? w.memory physAddr.toNat data).map (fun memory => { w with memory := memory })

/-- The `u32` address narrows to the `word_t` parameter of `read_phys_addr`. -/
def readInnerVaddr (w : WRAM) (innerVaddr : Word) : Option Byte :=
  w.readPhysAddr ((w.calcPhysAddr innerVaddr).setWidth 16)

def writeInnerVaddr (w : WRAM) (innerVaddr : Word) (data : Byte) : Option WRAM :=
  w.writePhysAddr ((w.calcPhysAddr innerVaddr).setWidth 16) data

/-- The calls that change the state. -/
inductive Op where
  | setSVBKReg (value : Byte)
  | writeInnerVaddr (innerVaddr : Word) (data : Byte)
  | writePhysAddr (physAddr : Word) (data : Byte)

def step (w : WRAM) : Op → Option WRAM
  | .setSVBKReg value => some (w.setSVBKReg value)
  | .writeInnerVaddr innerVaddr data => w.writeInnerVaddr innerVaddr data
  | .writePhysAddr physAddr data => w.writePhysAddr physAddr data

/-- Every call; a read changes nothing and answers a byte. -/
inductive Call where
  | op (op : Op)
  | getSVBKReg
  | readInnerVaddr (innerVaddr : Word)
  | readPhysAddr (physAddr : Word)

def call (w : WRAM) : Call → Option (WRAM × Option Byte)
  | .op op => (w.step op).map (fun w' => (w', none))
  | .getSVBKReg => some (w, some w.getSVBKReg)
  | .readInnerVaddr innerVaddr => (w.readInnerVaddr innerVaddr).map (fun data => (w, some data))
  | .readPhysAddr physAddr => (w.readPhysAddr physAddr).map (fun data => (w, some data))

end WRAM

end GBMU
