import GBMU.Lib.Observation
import GBMU.Proof.RegisterWriteBack

/-!
# What a call never learns

`IME` is kept by the controller and consulted by none of its functions; the select
lines of `P1` change what `P1` reads and not what `step` samples; the joypad calls
the controller and is never called back. Each of these is an unwinding: the calls
on the one side move to states that the calls on the other side cannot tell
apart, so the latter are answered as if the former had never been made, in every
run and from every state.
-/

namespace GBMU

namespace InterruptController

/-- Every call but those about `IME`. -/
def Call.apartFromIME : Call → Bool
  | .op (.setIMEReg _) => false
  | .getIMEReg => false
  | _ => true

/-- The same lines, pending and enabled. -/
structure SameLines (c d : InterruptController) : Prop where
  pending : lines c.registers.IF = lines d.registers.IF
  enabled : lines c.registers.IE = lines d.registers.IE

/-- An operation depends on the lines alone. -/
theorem SameLines.step {c d : InterruptController} (h : SameLines c d) (op : Op) :
    SameLines (c.step op) (d.step op) := by
  have hc := abs_step c op
  have hd := abs_step d op
  have hpending := h.pending
  have henabled := h.enabled
  constructor
  · show (c.step op).abs.pending = (d.step op).abs.pending
    rw [hc, hd]
    cases op <;> simp [Abstract.step, abs, hpending]
  · show (c.step op).abs.enabled = (d.step op).abs.enabled
    rw [hc, hd]
    cases op <;> simp [Abstract.step, abs, henabled]

theorem SameLines.highest {c d : InterruptController} (h : SameLines c d) :
    c.getHighestPriorityInterrupt = d.getHighestPriorityInterrupt := by
  rw [getHighestPriorityInterrupt_eq, getHighestPriorityInterrupt_eq]
  unfold abs
  rw [h.pending, h.enabled]

theorem unwinding_IME : Machine.Unwinding call Call.apartFromIME SameLines where
  lowCall := by
    intro c d q hlow h
    cases q with
    | op op => exact .some ⟨h.step op, rfl⟩
    | getIEReg => exact .some ⟨h, congrArg Reply.byte (or_reserved_congr h.enabled)⟩
    | getIFReg => exact .some ⟨h, congrArg Reply.byte (or_reserved_congr h.pending)⟩
    | getIMEReg => cases hlow
    | getHighestPriorityInterrupt => exact .some ⟨h, congrArg Reply.interrupt h.highest⟩
  highCall := by
    intro c d q hhigh h
    cases q with
    | op op =>
        cases op with
        | setIMEReg value => exact ⟨_, _, rfl, h.pending, h.enabled⟩
        | requestInterrupt n => cases hhigh
        | resetInterrupt n => cases hhigh
        | setIEReg value => cases hhigh
        | setIFReg value => cases hhigh
    | getIEReg => cases hhigh
    | getIFReg => cases hhigh
    | getIMEReg => exact ⟨_, _, rfl, h⟩
    | getHighestPriorityInterrupt => cases hhigh

end InterruptController

namespace JoyPad

/-- Every call but those on the register `P1`. -/
def Call.apartFromP1 : Call → Bool
  | .setP1Reg _ => false
  | .getP1Reg => false
  | _ => true

/-- Every call but those of the controller. -/
def Call.onJoypad : Call → Bool
  | .controller _ => false
  | _ => true

/-- The same system, up to the select lines. -/
structure SameKeys (s t : System) : Prop where
  link : s.joypad.interruptLink = t.joypad.interruptLink
  sampled : s.joypad.previousStepKeySet = t.joypad.previousStepKeySet
  pressed : s.joypad.pressedKeySet = t.joypad.pressedKeySet
  controller : s.controller = t.controller

theorem SameKeys.pressedSinceStep {s t : System} (h : SameKeys s t) :
    s.joypad.pressedSinceStep = t.joypad.pressedSinceStep := by
  unfold JoyPad.pressedSinceStep
  rw [h.sampled, h.pressed]

/-- Joypads with the same link raise alike, or both fail. -/
theorem raiseInterrupt_rel {j k : JoyPad} (h : j.interruptLink = k.interruptLink)
    (c d : InterruptController) :
    Option.Rel (fun a b => a = c.requestInterrupt .joypadInt ∧ b = d.requestInterrupt .joypadInt)
      (j.raiseInterrupt c) (k.raiseInterrupt d) := by
  unfold raiseInterrupt
  rw [h]
  cases k.interruptLink with
  | null => exact .none
  | controller => exact .some ⟨rfl, rfl⟩

/-- What a step answers and leaves, from what it does with an edge and without one. -/
theorem step_rel {R : System → System → Prop} {s t : System}
    (hlink : s.joypad.interruptLink = t.joypad.interruptLink)
    (hedge : s.joypad.pressedSinceStep = t.joypad.pressedSinceStep)
    (hsample : ∀ c d, (c = s.controller ∧ d = t.controller
        ∨ c = s.controller.requestInterrupt .joypadInt
          ∧ d = t.controller.requestInterrupt .joypadInt) →
      R { joypad := { s.joypad with previousStepKeySet := s.joypad.pressedKeySet },
          controller := c }
        { joypad := { t.joypad with previousStepKeySet := t.joypad.pressedKeySet },
          controller := d }) :
    Option.Rel (fun a b => R a.1 b.1 ∧ a.2 = b.2) (s.call .step) (t.call .step) := by
  unfold System.call System.step JoyPad.step
  rw [← hedge]
  by_cases hzero : s.joypad.pressedSinceStep = 0
  · simp only [hzero, ne_eq, not_true_eq_false, if_false]
    exact .some ⟨hsample _ _ (Or.inl ⟨rfl, rfl⟩), rfl⟩
  · simp only [hzero, ne_eq, not_false_eq_true, if_true]
    have hraise := raiseInterrupt_rel hlink s.controller t.controller
    generalize s.joypad.raiseInterrupt s.controller = a at hraise
    generalize t.joypad.raiseInterrupt t.controller = b at hraise
    cases hraise with
    | none => exact .none
    | some hab => exact .some ⟨hsample _ _ (Or.inr hab), rfl⟩

theorem unwinding_P1 : Machine.Unwinding System.call Call.apartFromP1 SameKeys where
  lowCall := by
    intro s t q hlow h
    cases q with
    | pressKey k =>
        refine .some ⟨⟨h.link, h.sampled, ?_, h.controller⟩, rfl⟩
        show (s.joypad.pressKey k).pressedKeySet = (t.joypad.pressKey k).pressedKeySet
        unfold pressKey
        rw [h.pressed]
    | unpressKey k =>
        refine .some ⟨⟨h.link, h.sampled, ?_, h.controller⟩, rfl⟩
        show (s.joypad.unpressKey k).pressedKeySet = (t.joypad.unpressKey k).pressedKeySet
        unfold unpressKey
        rw [h.pressed]
    | setP1Reg value => cases hlow
    | getP1Reg => cases hlow
    | step =>
        refine step_rel h.link h.pressedSinceStep ?_
        intro c d hcd
        refine ⟨h.link, h.pressed, h.pressed, ?_⟩
        rcases hcd with ⟨rfl, rfl⟩ | ⟨rfl, rfl⟩
        · exact h.controller
        · exact congrArg (fun c => c.requestInterrupt .joypadInt) h.controller
    | controller q =>
        unfold System.call
        dsimp only
        rw [h.controller]
        exact Machine.rel_map (fun p => ⟨⟨h.link, h.sampled, h.pressed, rfl⟩, rfl⟩) _
  highCall := by
    intro s t q hhigh h
    cases q with
    | setP1Reg value => exact ⟨_, _, rfl, h.link, h.sampled, h.pressed, h.controller⟩
    | getP1Reg => exact ⟨_, _, rfl, h⟩
    | pressKey k => cases hhigh
    | unpressKey k => cases hhigh
    | step => cases hhigh
    | controller q => cases hhigh

theorem unwinding_controller :
    Machine.Unwinding System.call Call.onJoypad (fun s t => s.joypad = t.joypad) where
  lowCall := by
    rintro ⟨j, c⟩ ⟨_, d⟩ q hlow rfl
    cases q with
    | pressKey k => exact .some ⟨rfl, rfl⟩
    | unpressKey k => exact .some ⟨rfl, rfl⟩
    | setP1Reg value => exact .some ⟨rfl, rfl⟩
    | getP1Reg => exact .some ⟨rfl, rfl⟩
    | step =>
        exact step_rel (R := fun s t => s.joypad = t.joypad) (s := ⟨j, c⟩) (t := ⟨j, d⟩) rfl rfl
          (fun _ _ _ => rfl)
    | controller q => cases hlow
  highCall := by
    intro s t q hhigh h
    cases q with
    | controller q =>
        cases q with
        | op op => exact ⟨_, _, rfl, h⟩
        | getIEReg => exact ⟨_, _, rfl, h⟩
        | getIFReg => exact ⟨_, _, rfl, h⟩
        | getIMEReg => exact ⟨_, _, rfl, h⟩
        | getHighestPriorityInterrupt => exact ⟨_, _, rfl, h⟩
    | pressKey k => cases hhigh
    | unpressKey k => cases hhigh
    | setP1Reg value => cases hhigh
    | getP1Reg => cases hhigh
    | step => cases hhigh

end JoyPad

/--
**Three things that cannot be learned.**

In every run, from every state: the calls of a controller that are not about
`IME` are answered as if `IME` had never been touched, the priority search
included; the calls of a joypad and its controller that are not on `P1` as if `P1`
had never been written, whether a `step` raises included; and the calls of a
joypad as if nobody had called the controller.
-/
theorem nothing_learned :
    (∀ (c : InterruptController) (calls : List InterruptController.Call),
        Machine.lowTrace InterruptController.call InterruptController.Call.apartFromIME c calls
          = Machine.trace InterruptController.call c
              (calls.filter InterruptController.Call.apartFromIME))
      ∧ (∀ (s : JoyPad.System) (calls : List JoyPad.Call),
        Machine.lowTrace JoyPad.System.call JoyPad.Call.apartFromP1 s calls
          = Machine.trace JoyPad.System.call s (calls.filter JoyPad.Call.apartFromP1))
      ∧ ∀ (s : JoyPad.System) (calls : List JoyPad.Call),
        Machine.lowTrace JoyPad.System.call JoyPad.Call.onJoypad s calls
          = Machine.trace JoyPad.System.call s (calls.filter JoyPad.Call.onJoypad) := by
  refine ⟨?_, ?_, ?_⟩
  · intro c calls
    exact InterruptController.unwinding_IME.purge calls ⟨rfl, rfl⟩
  · intro s calls
    exact JoyPad.unwinding_P1.purge calls ⟨rfl, rfl, rfl, rfl⟩
  · intro s calls
    exact JoyPad.unwinding_controller.purge calls rfl

end GBMU
