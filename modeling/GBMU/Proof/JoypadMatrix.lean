import GBMU.Proof.JoypadKeys

/-!
# `P1` reads the key matrix

`get_P1_reg` looks through a window of four bits at a word in which the key set
lies between runs of ones; the select lines place the window. `getLsbD_window`
says what any of the four windows shows, and `getLsbD_getP1Reg` what the whole
register reads, in any state. With the invariant of the history this gives the
matrix after any run.
-/

namespace GBMU.JoyPad

/-- The key of the action row on line `P1j`. -/
def actionKey : Fin 4 → KeyIdx
  | 0 => .aKey
  | 1 => .bKey
  | 2 => .scKey
  | 3 => .stKey

/-- The key of the arrow row on line `P1j`. -/
def arrowKey : Fin 4 → KeyIdx
  | 0 => .rtKey
  | 1 => .lfKey
  | 2 => .upKey
  | 3 => .dwKey

theorem actionKey_val (j : Fin 4) : (actionKey j).val.toNat = j := by
  revert j; decide

theorem arrowKey_val (j : Fin 4) : (arrowKey j).val.toNat = 4 + j := by
  revert j; decide

/-- The two rows hold all the keys. -/
theorem exists_row (k : KeyIdx) : ∃ i : Fin 4, k = actionKey i ∨ k = arrowKey i := by
  cases k with
  | aKey | rtKey => exact ⟨0, by decide⟩
  | bKey | lfKey => exact ⟨1, by decide⟩
  | scKey | upKey => exact ⟨2, by decide⟩
  | stKey | dwKey => exact ⟨3, by decide⟩

/-! ## The window -/

/-- Bit `n` of the search field is low for a pressed key, four bits up. -/
theorem getLsbD_searchField (j : JoyPad) {n : Nat} (hn : n < 32) :
    j.searchField.getLsbD n = !(decide (4 ≤ n) && j.pressedKeySet.getLsbD (n - 4)) := by
  rw [searchField, BitVec.getLsbD_not, BitVec.getLsbD_shiftLeft, BitVec.getLsbD_setWidth]
  by_cases h4 : n < 4
  · have : ¬ 4 ≤ n := by omega
    simp [hn, h4, this]
  · have h4' : 4 ≤ n := by omega
    have hsub : n - 4 < 32 := by omega
    simp [hn, h4, h4', hsub]

/-- A window of four bits, wherever the select lines put it. -/
theorem getLsbD_window (j : JoyPad) {lsb : U32} (hlsb : lsb ≤ 12) (i : Nat) :
    (bitSlice (lsb + 3) lsb j.searchField).getLsbD i
      = (decide (i < 4)
        && !(decide (4 ≤ lsb.toNat + i) && j.pressedKeySet.getLsbD (lsb.toNat + i - 4))) := by
  have hlsb' : lsb.toNat ≤ 12 := hlsb
  have hmsb : (lsb + 3).toNat = lsb.toNat + 3 := by
    rw [BitVec.toNat_add]
    show (lsb.toNat + 3) % 2 ^ 32 = _
    omega
  have hle : lsb ≤ lsb + 3 := by
    show lsb.toNat ≤ (lsb + 3).toNat
    omega
  have hlt : lsb + 3 < 32 := by
    show (lsb + 3).toNat < 32
    omega
  rw [getLsbD_bitSlice hle hlt, hmsb]
  by_cases hi : i < 4
  · have hin : lsb.toNat + i ≤ lsb.toNat + 3 := by omega
    rw [getLsbD_searchField j (by omega)]
    simp [hi, hin]
  · have hout : ¬ lsb.toNat + i ≤ lsb.toNat + 3 := by omega
    simp [hi, hout]

/-- The select lines place the window at 0, 4, 8 or 12. -/
theorem searchWindowLsb_toNat (j : JoyPad) :
    j.searchWindowLsb.toNat = 8 * j.p15.toNat + 4 * j.p14.toNat := by
  unfold searchWindowLsb
  cases j.p14 <;> cases j.p15 <;> decide

theorem searchWindowLsb_le (j : JoyPad) : j.searchWindowLsb ≤ 12 := by
  show j.searchWindowLsb.toNat ≤ 12
  rw [searchWindowLsb_toNat]
  cases j.p14 <;> cases j.p15 <;> decide

theorem getLsbD_p1ReservedBits (i : Nat) :
    p1ReservedBits.getLsbD i = (decide (i < 8) && decide (6 ≤ i)) := by
  have hval : p1ReservedBits = 0xC0 := by decide
  rw [hval]
  rcases Nat.lt_or_ge i 8 with h | h
  · have : ∀ i : Fin 8, (0xC0 : U32).getLsbD i.val = decide (6 ≤ i.val) := by decide
    rw [this ⟨i, h⟩]
    simp [h]
  · have hwide : (0xC0 : U32) = (0xC0 : BitVec 8).setWidth 32 := rfl
    rw [hwide, BitVec.getLsbD_setWidth, BitVec.getLsbD_of_ge _ _ h]
    simp [Nat.not_lt.mpr h]

theorem getLsbD_lineBit (b : Bool) (n : U32) {i : Nat} (hi : i < 32) :
    ((BitVec.ofBool b).setWidth 32 <<< n : U32).getLsbD i = (b && decide (i = n.toNat)) := by
  rw [BitVec.shiftLeft_eq', BitVec.getLsbD_shiftLeft, BitVec.getLsbD_setWidth,
    BitVec.getLsbD_ofBool]
  rcases Nat.lt_trichotomy i n.toNat with h | h | h
  · have : i ≠ n.toNat := by omega
    simp [h, this]
  · subst h
    simp [hi]
  · have hne : i ≠ n.toNat := by omega
    have hpos : i - n.toNat ≠ 0 := by omega
    simp [hne, hpos]

/-- What `P1` reads, bit by bit. -/
theorem getLsbD_getP1Reg (j : JoyPad) {i : Nat} (hi : i < 8) :
    j.getP1Reg.getLsbD i
      = ((bitSlice (j.searchWindowLsb + 3) j.searchWindowLsb j.searchField).getLsbD i
          || decide (6 ≤ i) || (j.p14 && decide (i = 4)) || (j.p15 && decide (i = 5))) := by
  have h32 : i < 32 := by omega
  rw [getP1Reg, BitVec.getLsbD_setWidth, BitVec.getLsbD_or, BitVec.getLsbD_or, BitVec.getLsbD_or,
    getLsbD_p1ReservedBits, getLsbD_lineBit _ _ h32, getLsbD_lineBit _ _ h32]
  simp [hi, p14Idx, p15Idx]

/-- **The four key lines, in any state**: line `i` is low when a key on it is pressed and its row
selected. -/
theorem getLsbD_getP1Reg_line (j : JoyPad) (i : Fin 4) :
    j.getP1Reg.getLsbD i
      = !((!j.p15 && j.p14 && j.pressedKeySet.getLsbD (actionKey i).val.toNat)
          || (j.p15 && !j.p14 && j.pressedKeySet.getLsbD (arrowKey i).val.toNat)) := by
  have hi := i.isLt
  have h6 : ¬ 6 ≤ i.val := by omega
  have h4 : i.val ≠ 4 := by omega
  have h5 : i.val ≠ 5 := by omega
  rw [getLsbD_getP1Reg j (by omega), getLsbD_window j (searchWindowLsb_le j),
    searchWindowLsb_toNat, actionKey_val, arrowKey_val, decide_eq_true hi, Bool.true_and]
  -- the four windows: ones, the action row, the arrow row, ones
  cases j.p15 with
  | false =>
      cases j.p14 with
      | false =>
          have : ¬ 4 ≤ i.val := by omega
          simp [h6, this]
      | true => simp [h6, h4]
  | true =>
      cases j.p14 with
      | false =>
          have hsub : 8 + i.val - 4 = 4 + i.val := by omega
          have hle : 4 ≤ 8 + i.val := by omega
          simp [h6, h5, hsub, hle]
      | true =>
          have hhigh : j.pressedKeySet.getLsbD (12 + i.val - 4) = false :=
            BitVec.getLsbD_of_ge _ _ (by omega)
          simp [h6, h4, h5, hhigh]

theorem getLsbD_getP1Reg_select (j : JoyPad) :
    j.getP1Reg.getLsbD 4 = j.p14 ∧ j.getP1Reg.getLsbD 5 = j.p15 := by
  constructor
  · rw [getLsbD_getP1Reg j (by decide), getLsbD_window j (searchWindowLsb_le j)]
    simp
  · rw [getLsbD_getP1Reg j (by decide), getLsbD_window j (searchWindowLsb_le j)]
    simp

/-- `P1` is its two select lines, its four key lines and two ones. -/
theorem getP1Reg_congr {j j' : JoyPad} (h14 : j.p14 = j'.p14) (h15 : j.p15 = j'.p15)
    (hlines : ∀ i : Fin 4, j.getP1Reg.getLsbD i = j'.getP1Reg.getLsbD i) :
    j.getP1Reg = j'.getP1Reg := by
  refine BitVec.eq_of_getLsbD_eq (fun i hi => ?_)
  rcases Nat.lt_or_ge i 4 with h4 | h4
  · exact hlines ⟨i, h4⟩
  · have h4' : ¬ i < 4 := by omega
    rw [getLsbD_getP1Reg j hi, getLsbD_getP1Reg j' hi, getLsbD_window j (searchWindowLsb_le j),
      getLsbD_window j' (searchWindowLsb_le j'), h14, h15]
    simp [h4']

/-! ## Keys of the row that is not selected -/

/-- The line a key pulls is selected: action keys by `P15 = 0`, arrow keys by `P14 = 0`. -/
def rowSelected (j : JoyPad) (k : KeyIdx) : Bool :=
  if k.val.toNat < 4 then !j.p15 && j.p14 else j.p15 && !j.p14

theorem rowSelected_actionKey (j : JoyPad) (i : Fin 4) :
    j.rowSelected (actionKey i) = (!j.p15 && j.p14) := by
  have hlt : (actionKey i).val.toNat < 4 := by rw [actionKey_val]; exact i.isLt
  rw [rowSelected, if_pos hlt]

theorem rowSelected_arrowKey (j : JoyPad) (i : Fin 4) :
    j.rowSelected (arrowKey i) = (j.p15 && !j.p14) := by
  have hge : ¬ (arrowKey i).val.toNat < 4 := by rw [arrowKey_val]; omega
  rw [rowSelected, if_neg hge]

/-- Key sets that differ only in keys of rows not selected read alike. -/
theorem getP1Reg_eq_of_unselected {j j' : JoyPad} (h14 : j.p14 = j'.p14) (h15 : j.p15 = j'.p15)
    (hkeys : ∀ k : KeyIdx, j.rowSelected k = true →
      j.pressedKeySet.getLsbD k.val.toNat = j'.pressedKeySet.getLsbD k.val.toNat) :
    j.getP1Reg = j'.getP1Reg := by
  refine getP1Reg_congr h14 h15 (fun i => ?_)
  have hact := hkeys (actionKey i)
  have harr := hkeys (arrowKey i)
  rw [rowSelected_actionKey] at hact
  rw [rowSelected_arrowKey] at harr
  rw [getLsbD_getP1Reg_line, getLsbD_getP1Reg_line, ← h14, ← h15]
  cases h14' : j.p14 <;> cases h15' : j.p15 <;> simp_all

theorem getP1Reg_pressKey {j : JoyPad} {k : KeyIdx} (h : j.rowSelected k = false) :
    (j.pressKey k).getP1Reg = j.getP1Reg := by
  symm
  refine getP1Reg_eq_of_unselected rfl rfl (fun l hl => ?_)
  have hne : l ≠ k := by
    rintro rfl
    rw [h] at hl
    exact Bool.noConfusion hl
  rw [getLsbD_pressKey j k (keyIdx_val_lt l)]
  simp [mt keyIdx_val_inj.mp hne]

theorem getP1Reg_unpressKey {j : JoyPad} {k : KeyIdx} (h : j.rowSelected k = false) :
    (j.unpressKey k).getP1Reg = j.getP1Reg := by
  symm
  refine getP1Reg_eq_of_unselected rfl rfl (fun l hl => ?_)
  have hne : l ≠ k := by
    rintro rfl
    rw [h] at hl
    exact Bool.noConfusion hl
  rw [getLsbD_unpressKey j k (keyIdx_val_lt l)]
  simp [mt keyIdx_val_inj.mp hne]

/--
**After any run, `P1` reads the key matrix.**

Bits 7 and 6 are 1, bits 5 and 4 are those of the byte last written; line `i` of
the low four is 0 exactly when the action row is selected and its key `i` is
held, or the arrow row is selected and its key `i` is held; with both rows or
neither selected the four are 1. Keys of a row that is not selected never show,
and neither does a `step`.
-/
theorem p1_reads_matrix (ic : InterruptController) (ops : List Op) :
    let p14 := selectLine 4 true ops
    let p15 := selectLine 5 false ops
    ∃ s, Machine.run System.step { joypad := construct .controller, controller := ic } ops = some s
      ∧ s.joypad.getP1Reg.getLsbD 7 = true ∧ s.joypad.getP1Reg.getLsbD 6 = true
      ∧ s.joypad.getP1Reg.getLsbD 5 = p15 ∧ s.joypad.getP1Reg.getLsbD 4 = p14
      ∧ (∀ i : Fin 4, s.joypad.getP1Reg.getLsbD i = false
          ↔ (p15 = false ∧ p14 = true ∧ held ops (actionKey i) = true)
            ∨ (p15 = true ∧ p14 = false ∧ held ops (arrowKey i) = true))
      ∧ (p14 = p15 → ∀ i : Fin 4, s.joypad.getP1Reg.getLsbD i = true)
      ∧ (∀ k, s.joypad.rowSelected k = false →
          (s.joypad.pressKey k).getP1Reg = s.joypad.getP1Reg
            ∧ (s.joypad.unpressKey k).getP1Reg = s.joypad.getP1Reg)
      ∧ ∀ s', s.step .step = some s' → s'.joypad.getP1Reg = s.joypad.getP1Reg := by
  intro p14 p15
  obtain ⟨s, hrun, ht⟩ := run_tracks ic ops
  have h14 : s.joypad.p14 = p14 := ht.p14
  have h15 : s.joypad.p15 = p15 := ht.p15
  have hline : ∀ i : Fin 4, s.joypad.getP1Reg.getLsbD i
      = !((!p15 && p14 && held ops (actionKey i)) || (p15 && !p14 && held ops (arrowKey i))) := by
    intro i
    rw [getLsbD_getP1Reg_line, h14, h15, ht.pressed, ht.pressed]
  refine ⟨s, hrun, ?_, ?_, ?_, ?_, ?_, ?_, ?_, ?_⟩
  · rw [getLsbD_getP1Reg _ (by decide)]
    simp
  · rw [getLsbD_getP1Reg _ (by decide)]
    simp
  · rw [(getLsbD_getP1Reg_select _).2, h15]
  · rw [(getLsbD_getP1Reg_select _).1, h14]
  · intro i
    rw [hline]
    cases p14 <;> cases p15 <;> simp
  · intro heq i
    rw [hline, heq]
    cases p15 <;> simp
  · intro k hk
    exact ⟨getP1Reg_pressKey hk, getP1Reg_unpressKey hk⟩
  · intro s' hs'
    have hstep := congrArg (Option.map (fun p => System.mk p.1 p.2)) (step_eq ht.link s.controller)
    have hs : s.step .step = some s' := hs'
    rw [System.step, hstep] at hs
    cases hs
    rfl

end GBMU.JoyPad
