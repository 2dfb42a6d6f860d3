import Mathlib.Data.Fintype.Defs
import GBMU.Device.Joypad
import GBMU.Lib.History

/-!
# What a joypad remembers of its history

A key is *held* when the last event about it is a press. The pressed set is the
keys held now, the sampled set the keys held at the last `step`, and the select
lines are those of the last byte written to `P1` (`Tracks`); this is an invariant
of state and history, kept by every operation on either device.

`Tracks` is all that is needed later of how a joypad came to its state: the key
edges a `step` sees and what `P1` shows are both questions about what it holds.
-/

namespace GBMU.JoyPad

theorem keyIdx_val_lt (k : KeyIdx) : k.val.toNat < 8 := by
  cases k <;> decide

theorem keyIdx_val_inj {k l : KeyIdx} : k.val.toNat = l.val.toNat ↔ k = l := by
  cases k <;> cases l <;> decide

def allKeys : List KeyIdx := [.aKey, .bKey, .scKey, .stKey, .rtKey, .lfKey, .upKey, .dwKey]

theorem mem_allKeys (k : KeyIdx) : k ∈ allKeys := by
  cases k <;> decide

theorem exists_keyIdx {i : Nat} (hi : i < 8) : ∃ k : KeyIdx, k.val.toNat = i := by
  have hall : ∀ i : Fin 8, ∃ k ∈ allKeys, k.val.toNat = i.val := by decide
  obtain ⟨k, _, hk⟩ := hall ⟨i, hi⟩
  exact ⟨k, hk⟩

/-! ## Reading a history -/

/-- What an event does to the key `k`. -/
def keyEvent (k : KeyIdx) : Op → Option Bool
  | .pressKey l => if l = k then some true else none
  | .unpressKey l => if l = k then some false else none
  | _ => none

/-- The last event about the key `k` is a press. -/
def held (ops : List Op) (k : KeyIdx) : Bool := (History.last (keyEvent k) ops).getD false

def setsP1 : Op → Option Byte
  | .setP1Reg value => some value
  | _ => none

/-- Bit `n` of the byte last written to `P1`. -/
def selectLine (n : Nat) (initial : Bool) (ops : List Op) : Bool :=
  ((History.last setsP1 ops).map (fun value => value.getLsbD n)).getD initial

def Op.isStep : Op → Bool
  | .step => true
  | _ => false

/-- The history before the last `step`, empty when there is none. -/
def uptoLastStep (ops : List Op) : List Op :=
  (ops.reverse.dropWhile (fun op => !op.isStep)).tail.reverse

theorem uptoLastStep_snoc (ops : List Op) (op : Op) :
    uptoLastStep (ops ++ [op]) = if op.isStep then ops else uptoLastStep ops := by
  unfold uptoLastStep
  rw [List.reverse_append, List.reverse_singleton, List.singleton_append, List.dropWhile_cons]
  cases op.isStep <;> simp

theorem held_snoc (ops : List Op) (op : Op) (k : KeyIdx) :
    held (ops ++ [op]) k = (keyEvent k op).getD (held ops k) := by
  rw [held, History.last_snoc, held]
  cases keyEvent k op <;> rfl

theorem selectLine_snoc (n : Nat) (initial : Bool) (ops : List Op) (op : Op) :
    selectLine n initial (ops ++ [op])
      = ((setsP1 op).map (fun value => value.getLsbD n)).getD (selectLine n initial ops) := by
  rw [selectLine, History.last_snoc, selectLine]
  cases setsP1 op <;> rfl

/-! ## The key set -/

theorem getLsbD_pressKey (j : JoyPad) (k : KeyIdx) {i : Nat} (hi : i < 8) :
    (j.pressKey k).pressedKeySet.getLsbD i
      = (j.pressedKeySet.getLsbD i || decide (i = k.val.toNat)) := by
  have hk := keyIdx_val_lt k
  exact getLsbD_bitNSet_byte k.val j.pressedKeySet (by omega) hi

theorem getLsbD_unpressKey (j : JoyPad) (k : KeyIdx) {i : Nat} (hi : i < 8) :
    (j.unpressKey k).pressedKeySet.getLsbD i
      = (j.pressedKeySet.getLsbD i && !decide (i = k.val.toNat)) := by
  have hk := keyIdx_val_lt k
  exact getLsbD_bitNReset_byte k.val j.pressedKeySet (by omega) hi

/-- A pressed or released key, against the event. -/
theorem pressedKeySet_pressKey (j : JoyPad) (k l : KeyIdx) :
    (j.pressKey k).pressedKeySet.getLsbD l.val.toNat
      = (keyEvent l (.pressKey k)).getD (j.pressedKeySet.getLsbD l.val.toNat) := by
  rw [getLsbD_pressKey _ _ (keyIdx_val_lt l)]
  by_cases hkl : k = l
  · simp [keyEvent, hkl]
  · simp [keyEvent, hkl, mt keyIdx_val_inj.mp (Ne.symm hkl)]

theorem pressedKeySet_unpressKey (j : JoyPad) (k l : KeyIdx) :
    (j.unpressKey k).pressedKeySet.getLsbD l.val.toNat
      = (keyEvent l (.unpressKey k)).getD (j.pressedKeySet.getLsbD l.val.toNat) := by
  rw [getLsbD_unpressKey _ _ (keyIdx_val_lt l)]
  by_cases hkl : k = l
  · simp [keyEvent, hkl]
  · simp [keyEvent, hkl, mt keyIdx_val_inj.mp (Ne.symm hkl)]

theorem setP1Reg_p14 (j : JoyPad) (value : Byte) : (j.setP1Reg value).p14 = value.getLsbD 4 :=
  bitN_byte p14Idx value

theorem setP1Reg_p15 (j : JoyPad) (value : Byte) : (j.setP1Reg value).p15 = value.getLsbD 5 :=
  bitN_byte p15Idx value

/-! ## The invariant -/

/-- The joypad `j` is what the history `ops` made of it. -/
structure Tracks (j : JoyPad) (ops : List Op) : Prop where
  link : j.interruptLink = .controller
  /-- The pressed set is the keys held. -/
  pressed : ∀ k : KeyIdx, j.pressedKeySet.getLsbD k.val.toNat = held ops k
  /-- The sampled set is the keys held at the last `step`. -/
  sampled : ∀ k : KeyIdx, j.previousStepKeySet.getLsbD k.val.toNat = held (uptoLastStep ops) k
  p14 : j.p14 = selectLine 4 true ops
  p15 : j.p15 = selectLine 5 false ops

theorem tracks_construct : Tracks (construct .controller) [] where
  link := rfl
  pressed := fun k => by cases k <;> rfl
  sampled := fun k => by cases k <;> rfl
  p14 := rfl
  p15 := rfl

/-- What `step` does to a joypad, and to the controller it is linked to. -/
theorem step_eq {j : JoyPad} (hlink : j.interruptLink = .controller) (ic : InterruptController) :
    j.step ic = some ({ j with previousStepKeySet := j.pressedKeySet },
      if j.pressedSinceStep ≠ 0 then ic.requestInterrupt .joypadInt else ic) := by
  unfold step raiseInterrupt
  rw [hlink]
  split <;> rfl

/-- One more event, from what it does to each field. -/
theorem Tracks.snoc {j j' : JoyPad} {ops : List Op} {op : Op} (h : Tracks j ops)
    (hlink : j'.interruptLink = j.interruptLink)
    (hpressed : ∀ k : KeyIdx, j'.pressedKeySet.getLsbD k.val.toNat
      = (keyEvent k op).getD (j.pressedKeySet.getLsbD k.val.toNat))
    (hsampled : j'.previousStepKeySet = if op.isStep then j.pressedKeySet else j.previousStepKeySet)
    (h14 : j'.p14 = ((setsP1 op).map (fun value => value.getLsbD 4)).getD j.p14)
    (h15 : j'.p15 = ((setsP1 op).map (fun value => value.getLsbD 5)).getD j.p15) :
    Tracks j' (ops ++ [op]) where
  link := hlink.trans h.link
  pressed := fun k => by rw [hpressed, held_snoc, h.pressed]
  sampled := by
    intro k
    rw [hsampled, uptoLastStep_snoc]
    cases op.isStep with
    | false => exact h.sampled k
    | true => exact h.pressed k
  p14 := by rw [h14, selectLine_snoc, h.p14]
  p15 := by rw [h15, selectLine_snoc, h.p15]

/-- **Every operation keeps the invariant, and is defined.** -/
theorem tracks_step {s : System} {ops : List Op} (op : Op) (h : Tracks s.joypad ops) :
    ∃ s', s.step op = some s' ∧ Tracks s'.joypad (ops ++ [op]) := by
  cases op with
  | pressKey k =>
      exact ⟨_, rfl, h.snoc rfl (pressedKeySet_pressKey s.joypad k) rfl rfl rfl⟩
  | unpressKey k =>
      exact ⟨_, rfl, h.snoc rfl (pressedKeySet_unpressKey s.joypad k) rfl rfl rfl⟩
  | setP1Reg value =>
      exact ⟨_, rfl, h.snoc rfl (fun _ => rfl) rfl (setP1Reg_p14 _ _) (setP1Reg_p15 _ _)⟩
  | step =>
      have hstep := congrArg (Option.map (fun p => System.mk p.1 p.2)) (step_eq h.link s.controller)
      exact ⟨_, hstep, h.snoc rfl (fun _ => rfl) rfl rfl rfl⟩
  | controller op => exact ⟨_, rfl, h.snoc rfl (fun _ => rfl) rfl rfl rfl⟩

theorem run_tracks (ic : InterruptController) (ops : List Op) :
    ∃ s, Machine.run System.step { joypad := construct .controller, controller := ic } ops = some s
      ∧ Tracks s.joypad ops :=
  History.run_history (P := fun (s : System) ops => Tracks s.joypad ops)
    (fun _ _ op h => tracks_step op h) tracks_construct ops

end GBMU.JoyPad
