import GBMU.Device.Interrupt

/-!
# Joypad

`device/GB_joypad.h`: a byte of pressed keys, the byte sampled at the previous
`step`, and the two select lines. `step` raises an interrupt through a pointer
to the controller, which may be null; calling through a null pointer has no
defined outcome. A joypad and the controller it may point to are a `System`.
-/

namespace GBMU

/-- `JoyPad::KeyIdx`. -/
inductive KeyIdx where
  | aKey
  | bKey
  | scKey
  | stKey
  | rtKey
  | lfKey
  | upKey
  | dwKey
  deriving DecidableEq

/-- The value of an enumerator. -/
def KeyIdx.val : KeyIdx → U16
  | .aKey => 0
  | .bKey => 1
  | .scKey => 2
  | .stKey => 3
  | .rtKey => 4
  | .lfKey => 5
  | .upKey => 6
  | .dwKey => 7

/-- `InterruptController*`: null, or the controller of the system. -/
inductive InterruptLink where
  | null
  | controller

structure JoyPad where
  interruptLink : InterruptLink
  previousStepKeySet : Byte
  pressedKeySet : Byte
  p14 : Bool
  p15 : Bool

namespace JoyPad

/-! ## `JoyPad::PortBitIdx` -/

def p10Idx : U32 := 0
def p11Idx : U32 := 1
def p12Idx : U32 := 2
def p13Idx : U32 := 3
def p14Idx : U32 := 4
def p15Idx : U32 := 5

def p1ReservedBits : U32 :=
  ((~~~bitsSet p10Idx [p11Idx, p12Idx, p13Idx, p14Idx, p15Idx]).setWidth 8 : Reg8).setWidth 32

def construct (icLink : InterruptLink) : JoyPad :=
  { interruptLink := icLink
    previousStepKeySet := 0
    pressedKeySet := 0
    p14 := true
    p15 := false }

/-- The mask of keys that went from unpressed to pressed since the previous step. -/
def pressedSinceStep (j : JoyPad) : U32 :=
  let previouslyUnpressed : Byte := (~~~(j.previousStepKeySet.setWidth 32 : U32)).setWidth 8
  previouslyUnpressed.setWidth 32 &&& j.pressedKeySet.setWidth 32

def raiseInterrupt (j : JoyPad) (ic : InterruptController) : Option InterruptController :=
  match j.interruptLink with
  | .null => none
  | .controller => some (ic.requestInterrupt .joypadInt)

def step (j : JoyPad) (ic : InterruptController) : Option (JoyPad × InterruptController) := do
  let ic ← if j.pressedSinceStep ≠ 0 then j.raiseInterrupt ic else some ic
  some ({ j with previousStepKeySet := j.pressedKeySet }, ic)

def pressKey (j : JoyPad) (keyIdx : KeyIdx) : JoyPad :=
  { j with pressedKeySet :=
      (bitNSet (keyIdx.val.setWidth 32) (j.pressedKeySet.setWidth 32)).setWidth 8 }

def unpressKey (j : JoyPad) (keyIdx : KeyIdx) : JoyPad :=
  { j with pressedKeySet :=
      (bitNReset (keyIdx.val.setWidth 32) (j.pressedKeySet.setWidth 32)).setWidth 8 }

def setP1Reg (j : JoyPad) (value : Byte) : JoyPad :=
  { j with
    p14 := bitN p14Idx (value.setWidth 32)
    p15 := bitN p15Idx (value.setWidth 32) }

/-- The local `search_field`: the key set between runs of ones, inverted. -/
def searchField (j : JoyPad) : U32 := ~~~((j.pressedKeySet.setWidth 32 : U32) <<< 4)

/-- The local `search_window_lsb`. -/
def searchWindowLsb (j : JoyPad) : U32 :=
  (((BitVec.ofBool j.p15).setWidth 32 <<< 1) ||| (BitVec.ofBool j.p14).setWidth 32) * 4

def getP1Reg (j : JoyPad) : Byte :=
  (bitSlice (j.searchWindowLsb + 3) j.searchWindowLsb j.searchField
    ||| p1ReservedBits
    ||| (BitVec.ofBool j.p14).setWidth 32 <<< p14Idx
    ||| (BitVec.ofBool j.p15).setWidth 32 <<< p15Idx).setWidth 8

/-! ## A joypad and a controller -/

structure System where
  joypad : JoyPad
  controller : InterruptController

/-- The calls that change the state, on either device. -/
inductive Op where
  | pressKey (keyIdx : KeyIdx)
  | unpressKey (keyIdx : KeyIdx)
  | setP1Reg (value : Byte)
  | step
  | controller (op : InterruptController.Op)

def System.step (s : System) : Op → Option System
  | .pressKey keyIdx => some { s with joypad := s.joypad.pressKey keyIdx }
  | .unpressKey keyIdx => some { s with joypad := s.joypad.unpressKey keyIdx }
  | .setP1Reg value => some { s with joypad := s.joypad.setP1Reg value }
  | .step => (s.joypad.step s.controller).map (fun p => { joypad := p.1, controller := p.2 })
  | .controller op => some { s with controller := s.controller.step op }

/-- Every call on either device. -/
inductive Call where
  | pressKey (keyIdx : KeyIdx)
  | unpressKey (keyIdx : KeyIdx)
  | setP1Reg (value : Byte)
  | getP1Reg
  | step
  | controller (call : InterruptController.Call)

/-- What can be seen of a call: its result, or whether a `step` raised the interrupt. -/
inductive Reply where
  | done
  | byte (value : Byte)
  | raised (value : Bool)
  | controller (reply : InterruptController.Reply)

def System.call (s : System) : Call → Option (System × Reply)
  | .pressKey keyIdx => (s.step (.pressKey keyIdx)).map (fun s' => (s', .done))
  | .unpressKey keyIdx => (s.step (.unpressKey keyIdx)).map (fun s' => (s', .done))
  | .setP1Reg value => (s.step (.setP1Reg value)).map (fun s' => (s', .done))
  | .getP1Reg => some (s, .byte s.joypad.getP1Reg)
  | .step => (s.step .step).map (fun s' => (s', .raised (s.joypad.pressedSinceStep != 0)))
  | .controller call =>
      (s.controller.call call).map (fun p => ({ s with controller := p.1 }, .controller p.2))

end JoyPad

end GBMU
