import GBMU.Proof.JoypadInterrupts
import GBMU.Proof.JoypadMatrix

/-!
# Key edges and line edges

The note in `step` names two events as one: a line of the matrix that goes from
high to low, and a key that goes from unpressed to pressed. They are the same
event when each key is looked at in its own row. They are not when the lines are
those `P1` shows, because the selection decides which keys `P1` shows and may
change between two samples: a key of the other row is pressed without any line
falling, and a key held all the time pulls a line down when its row is selected.

`step` looks at the keys alone. `lineFalls_iff` says when `P1` would have shown
the same.
-/

namespace GBMU.JoyPad

/-- Some line of `P1` is low in `j` and was high in `j₀`. -/
def LineFalls (j₀ j : JoyPad) : Prop :=
  ∃ i : Fin 4, j.getP1Reg.getLsbD i = false ∧ j₀.getP1Reg.getLsbD i = true

/-- The byte with `P15` low, and the byte with `P14` low. -/
def actionRow : Byte := 0x10
def arrowRow : Byte := 0x20

/-- Some line would have fallen, had the row been selected at both samples. -/
def RowFalls (row : Byte) (j₀ j : JoyPad) : Prop := LineFalls (j₀.setP1Reg row) (j.setP1Reg row)

/-- The key is held, and was not held at the last `step`. -/
def NewlyPressed (ops : List Op) (k : KeyIdx) : Prop :=
  held ops k = true ∧ held (uptoLastStep ops) k = false

/-- One row is selected, and was selected at the last sample. -/
structure SameRow (j₀ j : JoyPad) : Prop where
  p14 : j.p14 = j₀.p14
  p15 : j.p15 = j₀.p15
  single : j.p14 ≠ j.p15

/-! ## Lines of a selected row -/

/-- With one row selected at both samples, the lines that fall are its keys that were pressed. -/
theorem SameRow.lineFalls_iff {j₀ j : JoyPad} (h : SameRow j₀ j) :
    LineFalls j₀ j ↔ ∃ k : KeyIdx, j.rowSelected k = true
      ∧ j.pressedKeySet.getLsbD k.val.toNat = true
      ∧ j₀.pressedKeySet.getLsbD k.val.toNat = false := by
  have hne := h.single
  constructor
  · intro hfall
    rcases hfall with ⟨i, hlow, hhigh⟩
    rw [getLsbD_getP1Reg_line] at hlow hhigh
    rw [← h.p14, ← h.p15] at hhigh
    cases h15 : j.p15 with
    | false =>
        have h14 : j.p14 = true := by simpa [h15] using hne
        rw [h14, h15] at hlow hhigh
        exact ⟨actionKey i, by rw [rowSelected_actionKey, h14, h15]; rfl, by simpa using hlow,
          by simpa using hhigh⟩
    | true =>
        have h14 : j.p14 = false := by simpa [h15] using hne
        rw [h14, h15] at hlow hhigh
        exact ⟨arrowKey i, by rw [rowSelected_arrowKey, h14, h15]; rfl, by simpa using hlow,
          by simpa using hhigh⟩
  · intro hkey
    rcases hkey with ⟨k, hrow, hnow, hbefore⟩
    obtain ⟨i, hk⟩ := exists_row k
    refine ⟨i, ?_⟩
    rw [getLsbD_getP1Reg_line, getLsbD_getP1Reg_line, ← h.p14, ← h.p15]
    rcases hk with rfl | rfl
    · rw [rowSelected_actionKey, Bool.and_eq_true, Bool.not_eq_true'] at hrow
      simp [hrow, hnow, hbefore]
    · rw [rowSelected_arrowKey, Bool.and_eq_true, Bool.not_eq_true'] at hrow
      simp [hrow, hnow, hbefore]

theorem sameRow_setP1Reg (j₀ j : JoyPad) {row : Byte} (h : row.getLsbD 4 ≠ row.getLsbD 5) :
    SameRow (j₀.setP1Reg row) (j.setP1Reg row) where
  p14 := rfl
  p15 := rfl
  single := by rwa [setP1Reg_p14, setP1Reg_p15]

/-- Seen each in its row, the lines that fall are the keys that were pressed. -/
theorem rowFalls_iff (j₀ j : JoyPad) :
    RowFalls actionRow j₀ j ∨ RowFalls arrowRow j₀ j
      ↔ ∃ k : KeyIdx, j.pressedKeySet.getLsbD k.val.toNat = true
          ∧ j₀.pressedKeySet.getLsbD k.val.toNat = false := by
  rw [RowFalls, RowFalls, (sameRow_setP1Reg j₀ j (by decide)).lineFalls_iff,
    (sameRow_setP1Reg j₀ j (by decide)).lineFalls_iff]
  constructor
  · intro hrow
    rcases hrow with ⟨k, _, hk⟩ | ⟨k, _, hk⟩
    · exact ⟨k, hk⟩
    · exact ⟨k, hk⟩
  · intro hkey
    rcases hkey with ⟨k, hk⟩
    rcases exists_row k with ⟨i, rfl | rfl⟩
    · refine Or.inl ⟨actionKey i, ?_, hk⟩
      rw [rowSelected_actionKey, setP1Reg_p14, setP1Reg_p15]
      decide
    · refine Or.inr ⟨arrowKey i, ?_, hk⟩
      rw [rowSelected_arrowKey, setP1Reg_p14, setP1Reg_p15]
      decide

/-! ## The samples of a run -/

/-- A requested interrupt is a line of `P1` that falls, at the `step` after the history `ops`. -/
def RaisedOnLineFall (ic : InterruptController) (ops : List Op) : Prop :=
  let start : System := { joypad := construct .controller, controller := ic }
  ∃ s₀ s, Machine.run System.step start (uptoLastStep ops) = some s₀
    ∧ Machine.run System.step start ops = some s
    ∧ (s.joypad.pressedSinceStep ≠ 0 ↔ LineFalls s₀.joypad s.joypad)

/--
**A joypad interrupt is a line that falls in its own row.**

For any run, at the `step` that follows it, compared with the sample before: the
step requests `JOYPAD_INT`, and changes nothing else of the controller, if and
only if some line falls when the action row is selected at both samples, or when
the arrow row is. What `P1` shows under the selection in force agrees with this,
where that selection is one row and was the same at the sample before, if and only
if a key of that row was pressed or none was.
-/
theorem raised_on_row_falls (ic : InterruptController) (ops : List Op) :
    let start : System := { joypad := construct .controller, controller := ic }
    ∃ s₀ s, Machine.run System.step start (uptoLastStep ops) = some s₀
      ∧ Machine.run System.step start ops = some s
      ∧ s.step .step = some
          { joypad := { s.joypad with previousStepKeySet := s.joypad.pressedKeySet }
            controller :=
              if s.joypad.pressedSinceStep ≠ 0 then s.controller.requestInterrupt .joypadInt
              else s.controller }
      ∧ (s.joypad.pressedSinceStep ≠ 0
          ↔ RowFalls actionRow s₀.joypad s.joypad ∨ RowFalls arrowRow s₀.joypad s.joypad)
      ∧ (SameRow s₀.joypad s.joypad →
          ((s.joypad.pressedSinceStep ≠ 0 ↔ LineFalls s₀.joypad s.joypad)
            ↔ ((∃ k, NewlyPressed ops k) →
                ∃ k, NewlyPressed ops k ∧ s.joypad.rowSelected k = true))) := by
  intro start
  obtain ⟨s₀, hrun₀, ht₀⟩ := run_tracks ic (uptoLastStep ops)
  obtain ⟨s, hrun, ht⟩ := run_tracks ic ops
  have hedge : s.joypad.pressedSinceStep ≠ 0 ↔ ∃ k, NewlyPressed ops k :=
    ht.pressedSinceStep_iff
  -- the key sets of the two states are those the history tells
  have hkeys : ∀ k : KeyIdx, (s.joypad.pressedKeySet.getLsbD k.val.toNat = true
      ∧ s₀.joypad.pressedKeySet.getLsbD k.val.toNat = false) ↔ NewlyPressed ops k := by
    intro k
    rw [ht.pressed, ht₀.pressed]
    exact Iff.rfl
  refine ⟨s₀, s, hrun₀, hrun, ?_, ?_, fun hsame => ?_⟩
  · show (s.joypad.step s.controller).map _ = _
    rw [JoyPad.step_eq ht.link, Option.map_some]
  · rw [hedge, rowFalls_iff]
    exact exists_congr (fun k => (hkeys k).symm)
  · have hfall : LineFalls s₀.joypad s.joypad
        ↔ ∃ k, NewlyPressed ops k ∧ s.joypad.rowSelected k = true := by
      rw [hsame.lineFalls_iff]
      exact exists_congr (fun k => by rw [hkeys k, and_comm])
    rw [hedge, hfall]
    exact ⟨Iff.mp, fun h => ⟨h, fun ⟨k, hk, _⟩ => ⟨k, hk⟩⟩⟩

/--
An arrow key is pressed while the action row is selected: a request, and no line
falls. Then the arrow row is selected: a line falls, and no request.
-/
theorem not_raised_on_line_fall :
    ¬ RaisedOnLineFall {} [.pressKey .rtKey]
      ∧ ¬ RaisedOnLineFall {} [.pressKey .rtKey, .step, .setP1Reg arrowRow] := by
  constructor
  · intro hraised
    rcases hraised with ⟨s₀, s, hrun₀, hrun, hiff⟩
    cases hrun₀
    cases hrun
    obtain ⟨i, hlow, hhigh⟩ := hiff.mp (by decide)
    revert hlow hhigh
    revert i
    decide
  · intro hraised
    rcases hraised with ⟨s₀, s, hrun₀, hrun, hiff⟩
    cases hrun₀
    cases hrun
    exact hiff.mpr ⟨0, by decide, by decide⟩ (by decide)

end GBMU.JoyPad
