import GBMU.Proof.InterruptLines
import GBMU.Proof.JoypadKeys

/-!
# Joypad interrupts come from sampled key edges

The controller is shared: the program requests, resets and rewrites `IF` while
the joypad adds its own requests. Each event assigns bit `JOYPAD_INT` of `IF` or
leaves it alone (`assignsJoypadInt`), and whether a `step` assigns it is a fact
about the history before it (`KeyEdge`). So the bit holds its last assignment.
Everything else in the controller is as if the joypad were not there (`Alike`).
-/

namespace GBMU.JoyPad

/-! ## Key edges -/

/-- Some key is held and was not held at the last `step`. -/
def KeyEdge (ops : List Op) : Prop :=
  ∃ k : KeyIdx, held ops k = true ∧ held (uptoLastStep ops) k = false

instance (ops : List Op) : Decidable (KeyEdge ops) :=
  decidable_of_iff (∃ k ∈ allKeys, held ops k = true ∧ held (uptoLastStep ops) k = false)
    ⟨fun ⟨k, _, hk⟩ => ⟨k, hk⟩, fun ⟨k, hk⟩ => ⟨k, mem_allKeys k, hk⟩⟩

theorem getLsbD_pressedSinceStep (j : JoyPad) (i : Nat) :
    j.pressedSinceStep.getLsbD i
      = (decide (i < 8) && !j.previousStepKeySet.getLsbD i && j.pressedKeySet.getLsbD i) := by
  unfold pressedSinceStep
  rw [BitVec.getLsbD_and, BitVec.getLsbD_setWidth, BitVec.getLsbD_setWidth, BitVec.getLsbD_not,
    BitVec.getLsbD_setWidth, BitVec.getLsbD_setWidth]
  by_cases hi : i < 8
  · have h32 : i < 32 := by omega
    simp [hi, h32]
  · simp [hi]

/-- After a history, the test in `step` is that of the history. -/
theorem Tracks.pressedSinceStep_iff {j : JoyPad} {ops : List Op} (h : Tracks j ops) :
    j.pressedSinceStep ≠ 0 ↔ KeyEdge ops := by
  have hzero : (0 : U32) = 0#32 := rfl
  rw [hzero, Bits.ne_zero_iff]
  constructor
  · intro hbit
    rcases hbit with ⟨i, hi⟩
    rw [getLsbD_pressedSinceStep, Bool.and_eq_true, Bool.and_eq_true, decide_eq_true_eq,
      Bool.not_eq_true'] at hi
    obtain ⟨⟨hi8, hprevious⟩, hpressed⟩ := hi
    obtain ⟨k, rfl⟩ := exists_keyIdx hi8
    exact ⟨k, by rwa [← h.pressed], by rwa [← h.sampled]⟩
  · intro hkey
    rcases hkey with ⟨k, hnow, hbefore⟩
    refine ⟨k.val.toNat, ?_⟩
    rw [getLsbD_pressedSinceStep, h.pressed, h.sampled, hnow, hbefore]
    simp [keyIdx_val_lt k]

/-- So a `step` requests `JOYPAD_INT` exactly on an edge. -/
theorem Tracks.step_eq {s : System} {ops : List Op} (h : Tracks s.joypad ops) :
    s.step .step = some
      { joypad := { s.joypad with previousStepKeySet := s.joypad.pressedKeySet }
        controller :=
          if KeyEdge ops then s.controller.requestInterrupt .joypadInt else s.controller } := by
  show (s.joypad.step s.controller).map _ = _
  rw [JoyPad.step_eq h.link]
  simp only [h.pressedSinceStep_iff, Option.map_some]

/-! ## The joypad's bit of `IF` -/

def joypadBit (ic : InterruptController) : Bool := ic.registers.IF.getLsbD 4

/-- What an operation of the controller assigns to the joypad's bit. -/
def controllerAssigns : InterruptController.Op → Option Bool
  | .requestInterrupt n => if n = .joypadInt then some true else none
  | .resetInterrupt n => if n = .joypadInt then some false else none
  | .setIFReg value => some (value.getLsbD 4)
  | _ => none

/-- What an event, after the history before it, assigns to the joypad's bit. -/
def assignsJoypadInt : List Op × Op → Option Bool
  | (pre, .step) => if KeyEdge pre then some true else none
  | (_, .controller op) => controllerAssigns op
  | _ => none

theorem joypadBit_controller (ic : InterruptController) (op : InterruptController.Op) :
    joypadBit (ic.step op) = (controllerAssigns op).getD (joypadBit ic) := by
  unfold joypadBit
  cases op with
  | requestInterrupt n =>
      refine (InterruptController.getLsbD_requestInterrupt ic n (by decide)).trans ?_
      cases n <;> simp [controllerAssigns, InterruptIdx.val]
  | resetInterrupt n =>
      refine (InterruptController.getLsbD_resetInterrupt ic n (by decide)).trans ?_
      cases n <;> simp [controllerAssigns, InterruptIdx.val]
  | setIEReg value => rfl
  | setIFReg value =>
      refine (InterruptController.getLsbD_or_reserved value (by decide)).trans ?_
      simp [controllerAssigns]
  | setIMEReg value => rfl

/-! ## The rest of the controller -/

/-- Controllers that differ at most in the joypad's bit of `IF`. -/
structure Alike (a b : InterruptController) : Prop where
  IE : a.registers.IE = b.registers.IE
  IME : a.registers.IME = b.registers.IME
  IF : ∀ i < 8, i ≠ 4 → a.registers.IF.getLsbD i = b.registers.IF.getLsbD i

theorem Alike.request {a b : InterruptController} (h : Alike a b) :
    Alike (a.requestInterrupt .joypadInt) b := by
  refine ⟨h.IE, h.IME, fun i hi hne => ?_⟩
  rw [InterruptController.getLsbD_requestInterrupt a _ hi, h.IF i hi hne]
  simp [InterruptIdx.val, hne]

theorem Alike.step {a b : InterruptController} (h : Alike a b) (op : InterruptController.Op) :
    Alike (a.step op) (b.step op) := by
  cases op with
  | requestInterrupt n =>
      refine ⟨h.IE, h.IME, fun i hi hne => ?_⟩
      show (a.requestInterrupt n).registers.IF.getLsbD i
        = (b.requestInterrupt n).registers.IF.getLsbD i
      rw [InterruptController.getLsbD_requestInterrupt a n hi,
        InterruptController.getLsbD_requestInterrupt b n hi, h.IF i hi hne]
  | resetInterrupt n =>
      refine ⟨h.IE, h.IME, fun i hi hne => ?_⟩
      show (a.resetInterrupt n).registers.IF.getLsbD i = (b.resetInterrupt n).registers.IF.getLsbD i
      rw [InterruptController.getLsbD_resetInterrupt a n hi,
        InterruptController.getLsbD_resetInterrupt b n hi, h.IF i hi hne]
  | setIEReg value => exact ⟨rfl, h.IME, h.IF⟩
  | setIFReg value => exact ⟨h.IE, h.IME, fun _ _ _ => rfl⟩
  | setIMEReg value => exact ⟨h.IE, rfl, h.IF⟩

def Op.controller? : Op → Option InterruptController.Op
  | .controller op => some op
  | _ => none

/-- What the controller's own operations in a history make of it. -/
def controllerAlone (ic : InterruptController) (ops : List Op) : InterruptController :=
  (ops.filterMap Op.controller?).foldl InterruptController.step ic

theorem controllerAlone_snoc (ic : InterruptController) (ops : List Op) (op : Op) :
    controllerAlone ic (ops ++ [op])
      = match op.controller? with
        | some op => (controllerAlone ic ops).step op
        | none => controllerAlone ic ops := by
  unfold controllerAlone
  rw [List.filterMap_append, List.foldl_append]
  cases h : op.controller? <;> simp [h]

/-! ## The invariant -/

/-- The system is what the history `ops` made of it, starting from the controller `ic`. -/
structure Follows (ic : InterruptController) (s : System) (ops : List Op) : Prop where
  joypad : Tracks s.joypad ops
  bit : joypadBit s.controller
    = (History.last assignsJoypadInt (History.moments ops)).getD (joypadBit ic)
  rest : Alike s.controller (controllerAlone ic ops)

theorem last_moments_snoc (ops : List Op) (op : Op) (initial : Bool) :
    (History.last assignsJoypadInt (History.moments (ops ++ [op]))).getD initial
      = (assignsJoypadInt (ops, op)).getD
          ((History.last assignsJoypadInt (History.moments ops)).getD initial) := by
  rw [History.moments_snoc, History.last_snoc]
  cases assignsJoypadInt (ops, op) <;> rfl

theorem follows_step {ic : InterruptController} {s : System} {ops : List Op} (op : Op)
    (h : Follows ic s ops) : ∃ s', s.step op = some s' ∧ Follows ic s' (ops ++ [op]) := by
  obtain ⟨s', hs', htracks⟩ := tracks_step op h.joypad
  refine ⟨s', hs', htracks, ?_, ?_⟩
  · rw [last_moments_snoc, ← h.bit]
    cases op with
    | step =>
        -- a request on an edge, nothing otherwise
        rw [h.joypad.step_eq] at hs'
        cases hs'
        show joypadBit (if KeyEdge ops then _ else _)
          = (if KeyEdge ops then some true else none).getD _
        by_cases hedge : KeyEdge ops
        · rw [if_pos hedge, if_pos hedge]
          exact joypadBit_controller s.controller (.requestInterrupt .joypadInt)
        · rw [if_neg hedge, if_neg hedge]
          rfl
    | controller op =>
        cases hs'
        exact joypadBit_controller s.controller op
    | pressKey k | unpressKey k | setP1Reg value => cases hs'; rfl
  · rw [controllerAlone_snoc]
    cases op with
    | step =>
        rw [h.joypad.step_eq] at hs'
        cases hs'
        -- the request touches the joypad's bit alone
        show Alike (if KeyEdge ops then _ else _) _
        by_cases hedge : KeyEdge ops
        · rw [if_pos hedge]
          exact h.rest.request
        · rw [if_neg hedge]
          exact h.rest
    | controller op =>
        cases hs'
        exact h.rest.step op
    | pressKey k | unpressKey k | setP1Reg value => cases hs'; exact h.rest

theorem follows_construct (ic : InterruptController) :
    Follows ic { joypad := construct .controller, controller := ic } [] where
  joypad := tracks_construct
  bit := by rw [History.moments_nil, History.last_nil, Option.getD_none]
  rest := ⟨rfl, rfl, fun _ _ _ => rfl⟩

theorem run_follows (ic : InterruptController) (ops : List Op) :
    ∃ s, Machine.run System.step { joypad := construct .controller, controller := ic } ops = some s
      ∧ Follows ic s ops :=
  History.run_history (P := Follows ic) (fun _ _ op h => follows_step op h)
    (follows_construct ic) ops

/--
**Joypad interrupts are raised on exactly the sampled key edges.**

For any controller and any interleaving of the operations of both devices, the
run is defined, and at its end: a `step` requests `JOYPAD_INT` if and only if
some key is held that was not held at the previous `step`, and changes nothing
else of the controller; bit `JOYPAD_INT` of `IF` is what the last event that
assigns it said, or as at the start; and `IE`, `IME` and every other bit of `IF`
are what the controller's own operations alone would have left.
-/
theorem raised_on_key_edges (ic : InterruptController) (ops : List Op) :
    ∃ s, Machine.run System.step { joypad := construct .controller, controller := ic } ops = some s
      ∧ (s.joypad.pressedSinceStep ≠ 0
          ↔ ∃ k : KeyIdx, held ops k = true ∧ held (uptoLastStep ops) k = false)
      ∧ (∃ j, s.step .step = some
          { joypad := j
            controller :=
              if KeyEdge ops then s.controller.requestInterrupt .joypadInt else s.controller })
      ∧ s.controller.registers.IF.getLsbD 4
          = (History.last assignsJoypadInt (History.moments ops)).getD (ic.registers.IF.getLsbD 4)
      ∧ s.controller.registers.IE = (controllerAlone ic ops).registers.IE
      ∧ s.controller.registers.IME = (controllerAlone ic ops).registers.IME
      ∧ ∀ i < 8, i ≠ 4 → s.controller.registers.IF.getLsbD i
          = (controllerAlone ic ops).registers.IF.getLsbD i := by
  obtain ⟨s, hrun, h⟩ := run_follows ic ops
  exact ⟨s, hrun, h.joypad.pressedSinceStep_iff, ⟨_, h.joypad.step_eq⟩, h.bit, h.rest.IE,
    h.rest.IME, h.rest.IF⟩

end GBMU.JoyPad
