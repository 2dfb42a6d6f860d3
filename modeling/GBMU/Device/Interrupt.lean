import GBMU.Common.Macro
import GBMU.Config

/-!
# Interrupt controller

`device/GB_interrupt.h`: the registers `IE` (enabled), `IF` (requested) and
`IME`, and the search for the interrupt to handle. Bits 7 to 5 of the two bytes
are reserved; they are forced to 1 when a register is written or read, so that
the search always finds a bit, and answers `NO_INTERRUPT` when it finds bit 5.

The search returns an `int` that is cast to the enumeration. Here the cast takes
a proof that an enumerator has that value, `bitLsb_interruptsToHandle_lt`.
-/

namespace GBMU

/-- `InterruptController::InterruptIdx`. -/
inductive InterruptIdx where
  | vblankInt
  | lcdstatInt
  | timoverInt
  | serioInt
  | joypadInt
  | noInterrupt
  deriving DecidableEq

/-- The value of an enumerator. -/
def InterruptIdx.val : InterruptIdx → U8
  | .vblankInt => 0
  | .lcdstatInt => 1
  | .timoverInt => 2
  | .serioInt => 3
  | .joypadInt => 4
  | .noInterrupt => 5

/-- The enumerator of a value. -/
def InterruptIdx.ofFin : Fin 6 → InterruptIdx
  | 0 => .vblankInt
  | 1 => .lcdstatInt
  | 2 => .timoverInt
  | 3 => .serioInt
  | 4 => .joypadInt
  | 5 => .noInterrupt

theorem InterruptIdx.toNat_val_ofFin (i : Fin 6) : (InterruptIdx.ofFin i).val.toNat = i := by
  revert i; decide

/-- `InterruptController::Registers`. -/
structure InterruptController.Registers where
  IE : Reg8 := intcIEInitValue
  IF : Reg8 := intcIFInitValue
  IME : Bool := intcIMEInitValue

structure InterruptController where
  registers : InterruptController.Registers := {}

namespace InterruptController

def regReservedBitMask : U32 := bitMask 7 5
def regReservedBits : U32 := -1 &&& regReservedBitMask

theorem getLsbD_regReservedBits (i : Nat) :
    regReservedBits.getLsbD i = (decide (5 ≤ i) && decide (i ≤ 7)) := by
  have hones : (-1 : U32) = BitVec.allOnes 32 := rfl
  rw [regReservedBits, hones, BitVec.allOnes_and, regReservedBitMask,
    getLsbD_bitMask (by decide) (by decide)]
  show (decide (i < 32) && decide (5 ≤ i) && decide (i ≤ 7)) = _
  by_cases h : i ≤ 7
  · have : i < 32 := by omega
    simp [h, this]
  · simp [h]

/-- The byte `x | REG_RESERVED_BITS`. -/
theorem getLsbD_or_reserved (x : Byte) {i : Nat} (hi : i < 8) :
    ((x.setWidth 32 ||| regReservedBits).setWidth 8 : Byte).getLsbD i
      = (x.getLsbD i || decide (5 ≤ i)) := by
  have h32 : i < 32 := by omega
  have h7 : i ≤ 7 := by omega
  rw [BitVec.getLsbD_setWidth, BitVec.getLsbD_or, BitVec.getLsbD_setWidth, getLsbD_regReservedBits]
  simp [hi, h32, h7]

/-! ## Operations -/

def requestInterrupt (c : InterruptController) (interrupt : InterruptIdx) : InterruptController :=
  { c with registers := { c.registers with
      IF := (bitNSet (interrupt.val.setWidth 32) (c.registers.IF.setWidth 32)).setWidth 8 } }

def resetInterrupt (c : InterruptController) (interrupt : InterruptIdx) : InterruptController :=
  { c with registers := { c.registers with
      IF := (bitNReset (interrupt.val.setWidth 32) (c.registers.IF.setWidth 32)).setWidth 8 } }

/-- The local `interrupts_to_handle`. -/
def interruptsToHandle (c : InterruptController) : U8 :=
  ((c.registers.IF.setWidth 32 &&& c.registers.IE.setWidth 32) ||| regReservedBits).setWidth 8

theorem getLsbD_interruptsToHandle (c : InterruptController) {i : Nat} (hi : i < 8) :
    c.interruptsToHandle.getLsbD i
      = ((c.registers.IF.getLsbD i && c.registers.IE.getLsbD i) || decide (5 ≤ i)) := by
  have hand : c.interruptsToHandle
      = ((c.registers.IF &&& c.registers.IE).setWidth 32 ||| regReservedBits).setWidth 8 := by
    rw [BitVec.setWidth_and]; rfl
  rw [hand, getLsbD_or_reserved _ hi, BitVec.getLsbD_and]

/-- Bit 5 is always there to be found, so the search answers at most 5. -/
theorem exists_leastSet_interruptsToHandle (c : InterruptController) :
    ∃ i, i ≤ 5 ∧ Bits.LeastSet (c.interruptsToHandle.setWidth 16 : U16) i := by
  refine Bits.exists_leastSet ?_
  rw [BitVec.getLsbD_setWidth, getLsbD_interruptsToHandle c (by decide)]
  simp

theorem bitLsb_interruptsToHandle_lt (c : InterruptController) :
    (bitLsb (c.interruptsToHandle.setWidth 16)).toNat < 6 := by
  obtain ⟨i, hi, hleast⟩ := exists_leastSet_interruptsToHandle c
  rw [bitLsb_eq hleast, Int.toNat_natCast]
  omega

def getHighestPriorityInterrupt (c : InterruptController) : InterruptIdx :=
  InterruptIdx.ofFin
    ⟨(bitLsb (c.interruptsToHandle.setWidth 16)).toNat, bitLsb_interruptsToHandle_lt c⟩

def setIEReg (c : InterruptController) (value : Byte) : InterruptController :=
  { c with registers := { c.registers with
      IE := (value.setWidth 32 ||| regReservedBits).setWidth 8 } }

def getIEReg (c : InterruptController) : Byte :=
  (c.registers.IE.setWidth 32 ||| regReservedBits).setWidth 8

def setIFReg (c : InterruptController) (value : Byte) : InterruptController :=
  { c with registers := { c.registers with
      IF := (value.setWidth 32 ||| regReservedBits).setWidth 8 } }

def getIFReg (c : InterruptController) : Byte :=
  (c.registers.IF.setWidth 32 ||| regReservedBits).setWidth 8

def setIMEReg (c : InterruptController) (value : Bool) : InterruptController :=
  { c with registers := { c.registers with IME := value } }

def getIMEReg (c : InterruptController) : Bool := c.registers.IME

/-- The calls that change the state. -/
inductive Op where
  | requestInterrupt (interrupt : InterruptIdx)
  | resetInterrupt (interrupt : InterruptIdx)
  | setIEReg (value : Byte)
  | setIFReg (value : Byte)
  | setIMEReg (value : Bool)

def step (c : InterruptController) : Op → InterruptController
  | .requestInterrupt interrupt => c.requestInterrupt interrupt
  | .resetInterrupt interrupt => c.resetInterrupt interrupt
  | .setIEReg value => c.setIEReg value
  | .setIFReg value => c.setIFReg value
  | .setIMEReg value => c.setIMEReg value

/-- Every call. -/
inductive Call where
  | op (op : Op)
  | getIEReg
  | getIFReg
  | getIMEReg
  | getHighestPriorityInterrupt

inductive Reply where
  | done
  | byte (value : Byte)
  | flag (value : Bool)
  | interrupt (interrupt : InterruptIdx)

def call (c : InterruptController) : Call → Option (InterruptController × Reply)
  | .op op => some (c.step op, .done)
  | .getIEReg => some (c, .byte c.getIEReg)
  | .getIFReg => some (c, .byte c.getIFReg)
  | .getIMEReg => some (c, .flag c.getIMEReg)
  | .getHighestPriorityInterrupt => some (c, .interrupt c.getHighestPriorityInterrupt)

end InterruptController

end GBMU
