import GBMU.Proof.JoypadInterrupts

/-!
# A joypad without a controller

`JoyPad`'s constructor takes the link to the controller, null by default, and
`step` calls through it on a key edge. An edge is relative to the previous sample,
so what is dangerous could depend on the whole run; it does not. As long as no
`step` has failed every sample was empty (`Unlinked`), and with an empty sample
any key that is held is an edge.
-/

namespace GBMU.JoyPad

/-- An unlinked joypad that has not failed in the history `ops`. -/
structure Unlinked (j : JoyPad) (ops : List Op) : Prop where
  link : j.interruptLink = .null
  /-- The pressed set is the keys held. -/
  pressed : ∀ k : KeyIdx, j.pressedKeySet.getLsbD k.val.toNat = held ops k
  /-- No key was held at the last `step`. -/
  sampled : j.previousStepKeySet = 0

theorem unlinked_construct : Unlinked (construct .null) [] where
  link := rfl
  pressed := fun k => by cases k <;> rfl
  sampled := rfl

/-- What the history must be for an event to be harmless. -/
def Harmless (pre : List Op) (op : Op) : Prop := op.isStep = true → ∀ k, held pre k = false

/-- No key is held when the pressed set is empty. -/
theorem Unlinked.pressedKeySet_eq_zero {j : JoyPad} {ops : List Op} (h : Unlinked j ops) :
    j.pressedKeySet = 0 ↔ ∀ k, held ops k = false := by
  constructor
  · intro hzero k
    rw [← h.pressed, hzero]
    exact BitVec.getLsbD_zero
  · intro hnone
    refine BitVec.eq_of_getLsbD_eq (fun i hi => ?_)
    obtain ⟨k, rfl⟩ := exists_keyIdx hi
    rw [h.pressed, hnone]
    exact BitVec.getLsbD_zero.symm

/-- With an empty sample, the edges are the keys held. -/
theorem pressedSinceStep_eq_zero {j : JoyPad} (h : j.previousStepKeySet = 0) :
    j.pressedSinceStep = 0 ↔ j.pressedKeySet = 0 := by
  constructor
  · intro hzero
    refine BitVec.eq_of_getLsbD_eq (fun i hi => ?_)
    have hi' : j.pressedSinceStep.getLsbD i = (0 : U32).getLsbD i := by rw [hzero]
    rw [getLsbD_pressedSinceStep, h] at hi'
    simpa [hi] using hi'
  · intro hzero
    refine BitVec.eq_of_getLsbD_eq (fun i _ => ?_)
    rw [getLsbD_pressedSinceStep, hzero]
    simp

/-- One more event, from what it does to the two key sets. -/
theorem Unlinked.snoc {j j' : JoyPad} {ops : List Op} {op : Op} (h : Unlinked j ops)
    (hlink : j'.interruptLink = j.interruptLink)
    (hpressed : ∀ k : KeyIdx, j'.pressedKeySet.getLsbD k.val.toNat
      = (keyEvent k op).getD (j.pressedKeySet.getLsbD k.val.toNat))
    (hsampled : j'.previousStepKeySet = 0) : Unlinked j' (ops ++ [op]) where
  link := hlink.trans h.link
  pressed := fun k => by rw [hpressed, held_snoc, h.pressed]
  sampled := hsampled

theorem unlinked_step {s : System} {pre : List Op} {op : Op} (h : Unlinked s.joypad pre)
    (hop : Harmless pre op) : ∃ s', s.step op = some s' ∧ Unlinked s'.joypad (pre ++ [op]) := by
  cases op with
  | pressKey k =>
      exact ⟨_, rfl, h.snoc rfl (pressedKeySet_pressKey s.joypad k) h.sampled⟩
  | unpressKey k =>
      exact ⟨_, rfl, h.snoc rfl (pressedKeySet_unpressKey s.joypad k) h.sampled⟩
  | setP1Reg value => exact ⟨_, rfl, h.snoc rfl (fun _ => rfl) h.sampled⟩
  | controller op => exact ⟨_, rfl, h.snoc rfl (fun _ => rfl) h.sampled⟩
  | step =>
      -- nothing is held, so there is no edge and the next sample is empty again
      have hempty : s.joypad.pressedKeySet = 0 := h.pressedKeySet_eq_zero.mpr (hop rfl)
      have hquiet : s.joypad.pressedSinceStep = 0 :=
        (pressedSinceStep_eq_zero h.sampled).mpr hempty
      refine ⟨⟨{ s.joypad with previousStepKeySet := s.joypad.pressedKeySet }, s.controller⟩, ?_,
        h.snoc rfl (fun _ => rfl) hempty⟩
      simp only [System.step, JoyPad.step, hquiet, ne_eq, not_true, if_false, Option.bind_eq_bind,
        Option.bind_some, Option.map_some]

/-- A `step` with a key held dereferences the null link. -/
theorem unlinked_fault {s : System} {pre : List Op} {op : Op} (h : Unlinked s.joypad pre)
    (hop : ¬ Harmless pre op) : s.step op = none := by
  have hstep : op.isStep = true := by
    by_contra hne
    exact hop (fun he => absurd he hne)
  have hheld : ¬ ∀ k, held pre k = false := fun hnone => hop (fun _ => hnone)
  cases op with
  | step =>
      have hedge : s.joypad.pressedSinceStep ≠ 0 := by
        intro hzero
        exact hheld (h.pressedKeySet_eq_zero.mp ((pressedSinceStep_eq_zero h.sampled).mp hzero))
      simp only [System.step, JoyPad.step, if_pos hedge, raiseInterrupt, h.link,
        Option.bind_eq_bind, Option.bind_none, Option.map_none]
  | pressKey k | unpressKey k | setP1Reg value | controller op => cases hstep

/--
**An unlinked joypad is safe to step exactly while no key is held.**

For a joypad built with the null link and any sequence of operations, the run
never reaches the null dereference if and only if, at every `step` in it, the
last event about each key before that `step`, if there is one, is an unpress.
-/
theorem unlinked_run_defined_iff (ic : InterruptController) (ops : List Op) :
    (∃ s, Machine.run System.step { joypad := construct .null, controller := ic } ops = some s)
      ↔ ∀ pre post : List Op, ops = pre ++ .step :: post → ∀ k : KeyIdx, held pre k = false := by
  have hiff : (∃ s, Machine.run System.step { joypad := construct .null, controller := ic } ops
      = some s) ↔ ∀ pre op post, ops = pre ++ op :: post → Harmless pre op :=
    History.run_defined_iff (P := fun (s : System) pre => Unlinked s.joypad pre)
      (fun _ _ _ h (hop : Harmless _ _) => unlinked_step h hop)
      (fun _ _ _ h hop => unlinked_fault h hop) unlinked_construct ops
  rw [hiff]
  constructor
  · intro h pre post hsplit
    exact h pre .step post hsplit rfl
  · intro h pre op post hsplit hstep
    cases op with
    | step => exact h pre post hsplit
    | pressKey k | unpressKey k | setP1Reg value | controller op => cases hstep

end GBMU.JoyPad
