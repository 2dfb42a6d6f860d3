import GBMU.Proof.InterruptLines
import GBMU.Proof.JoypadMatrix
import GBMU.Proof.VRAMBanks
import GBMU.Proof.WRAMBanks

/-!
# Writing back what was read

A program that changes one bit of a register reads it, changes the bit and
writes the rest back. That the rest is harmless is not obvious: a read forces
reserved bits to 1 and a write stores or drops them, differently in each device,
so writing back what was read usually does change the state.

For each device there is a relation that ignores what cannot be observed, and it
is a bisimulation of the whole interface. Writing back a register moves to a
related state, so no sequence of calls can tell.
-/

namespace GBMU

/-! ## Interrupt controller: the reserved bits of `IE` and `IF` -/

namespace InterruptController

theorem bisimulation : Machine.Bisimulation call (fun c d => c.abs = d.abs) where
  call := by
    intro c d q h
    have hread := sameReadings_of_abs_eq h
    cases q with
    | op op => exact .some ⟨by rw [abs_step, abs_step, h], rfl⟩
    | getIEReg => exact .some ⟨h, congrArg Reply.byte hread.getIE⟩
    | getIFReg => exact .some ⟨h, congrArg Reply.byte hread.getIF⟩
    | getIMEReg => exact .some ⟨h, congrArg Reply.flag hread.getIME⟩
    | getHighestPriorityInterrupt => exact .some ⟨h, congrArg Reply.interrupt hread.highest⟩

theorem abs_writeBack_IE (c : InterruptController) : (c.setIEReg c.getIEReg).abs = c.abs := by
  have hlines : lines (c.setIEReg c.getIEReg).registers.IE = lines c.registers.IE :=
    (lines_or_reserved _).trans (lines_or_reserved _)
  exact congrArg (fun e => { c.abs with enabled := e }) hlines

theorem abs_writeBack_IF (c : InterruptController) : (c.setIFReg c.getIFReg).abs = c.abs := by
  have hlines : lines (c.setIFReg c.getIFReg).registers.IF = lines c.registers.IF :=
    (lines_or_reserved _).trans (lines_or_reserved _)
  exact congrArg (fun p => { c.abs with pending := p }) hlines

end InterruptController

/-! ## Joypad: nothing is ignored but what its controller ignores -/

namespace JoyPad

/-- `set_P1_reg(get_P1_reg())` is the identity. -/
theorem setP1Reg_getP1Reg (j : JoyPad) : j.setP1Reg j.getP1Reg = j := by
  have h14 := setP1Reg_p14 j j.getP1Reg
  have h15 := setP1Reg_p15 j j.getP1Reg
  rw [(getLsbD_getP1Reg_select j).1] at h14
  rw [(getLsbD_getP1Reg_select j).2] at h15
  show { j with p14 := (j.setP1Reg j.getP1Reg).p14, p15 := (j.setP1Reg j.getP1Reg).p15 } = j
  rw [h14, h15]

/-- The same joypad, and controllers alike. -/
structure Indistinct (s t : System) : Prop where
  joypad : s.joypad = t.joypad
  controller : s.controller.abs = t.controller.abs

theorem bisimulation : Machine.Bisimulation System.call Indistinct where
  call := by
    rintro ⟨j, c⟩ ⟨_, d⟩ q ⟨rfl, h⟩
    cases q with
    | pressKey k => exact .some ⟨⟨rfl, h⟩, rfl⟩
    | unpressKey k => exact .some ⟨⟨rfl, h⟩, rfl⟩
    | setP1Reg value => exact .some ⟨⟨rfl, h⟩, rfl⟩
    | getP1Reg => exact .some ⟨⟨rfl, h⟩, rfl⟩
    | step =>
        have hreq : (c.requestInterrupt .joypadInt).abs = (d.requestInterrupt .joypadInt).abs := by
          have := InterruptController.abs_step c (.requestInterrupt .joypadInt)
          rw [h, ← InterruptController.abs_step d (.requestInterrupt .joypadInt)] at this
          exact this
        unfold System.call System.step JoyPad.step raiseInterrupt
        -- an edge through a null link is undefined on both sides
        by_cases hedge : j.pressedSinceStep = 0
        · simp only [hedge, ne_eq, not_true_eq_false, if_false]
          exact .some ⟨⟨rfl, h⟩, rfl⟩
        · simp only [hedge, ne_eq, not_false_eq_true, if_true]
          cases j.interruptLink with
          | null => exact .none
          | controller => exact .some ⟨⟨rfl, hreq⟩, rfl⟩
    | controller q =>
        have hcall := InterruptController.bisimulation.call q h
        unfold System.call
        dsimp only
        generalize c.call q = a at hcall
        generalize d.call q = b at hcall
        cases hcall with
        | none => exact .none
        | some hab => exact .some ⟨⟨rfl, hab.1⟩, congrArg Reply.controller hab.2⟩

end JoyPad

/-! ## Work RAM: bit 6 of `SVBK` -/

namespace WRAM

/-- The same memory, and `SVBK` registers that differ at most in the reserved bit. -/
structure Indistinct (w u : WRAM) : Prop where
  memory : w.memory = u.memory
  svbk : ∀ i, i ≠ 6 → w.regs.SVBK.getLsbD i = u.regs.SVBK.getLsbD i

theorem getLsbD_getSVBKReg (w : WRAM) {i : Nat} (hi : i < 8) :
    w.getSVBKReg.getLsbD i = (w.regs.SVBK.getLsbD i || decide (i = 6)) := by
  have h32 : i < 32 := by omega
  have hreserved : reservedBits.getLsbD i = decide (i = 6) := by
    have hone := Bits.getLsbD_one_shiftLeft (w := 32) 6 i
    rw [decide_eq_true h32, Bool.true_and] at hone
    exact hone
  rw [getSVBKReg, BitVec.getLsbD_setWidth, BitVec.getLsbD_or, BitVec.getLsbD_setWidth, hreserved]
  simp [hi, h32]

theorem Indistinct.getSVBKReg {w u : WRAM} (h : Indistinct w u) : w.getSVBKReg = u.getSVBKReg := by
  refine BitVec.eq_of_getLsbD_eq (fun i hi => ?_)
  rw [getLsbD_getSVBKReg w hi, getLsbD_getSVBKReg u hi]
  by_cases h6 : i = 6
  · simp [h6]
  · rw [h.svbk i h6]

/-- The bank is computed from bits 2 to 0. -/
theorem Indistinct.calcPhysAddr {w u : WRAM} (h : Indistinct w u) (a : Word) :
    w.calcPhysAddr a = u.calcPhysAddr a := by
  have hbits : w.getBankIdxBits = u.getBankIdxBits := by
    refine BitVec.eq_of_getLsbD_eq (fun i _ => ?_)
    rw [getBankIdxBits, getBankIdxBits, getLsbD_bitSlice (by decide) (by decide),
      getLsbD_bitSlice (by decide) (by decide)]
    by_cases hle : (0 : U32).toNat + i ≤ (2 : U32).toNat
    · have hi : i ≤ 2 := by simpa using hle
      rw [BitVec.getLsbD_setWidth, BitVec.getLsbD_setWidth, h.svbk _ (by simp; omega)]
    · simp only [hle, decide_false, Bool.false_and]
  unfold WRAM.calcPhysAddr getCurrentBankIdx
  rw [hbits]

theorem ignores : Banked.Ignores banked getSVBKReg Indistinct where
  memory := Indistinct.memory
  window := by
    intro w u h a
    show ((w.calcPhysAddr a).setWidth 16).toNat = ((u.calcPhysAddr a).setWidth 16).toNat
    rw [h.calcPhysAddr a]
  register := Indistinct.getSVBKReg
  select := fun h _ => ⟨h.memory, fun _ _ => rfl⟩
  setMemory := fun h _ => ⟨rfl, h.svbk⟩

def Call.place : Call → Banked.Device.Call Byte Word Word Byte
  | .op operation => .access operation.place
  | .getSVBKReg => .register
  | .readInnerVaddr innerVaddr => .readWindow innerVaddr
  | .readPhysAddr physAddr => .readDirect physAddr

theorem call_eq (w : WRAM) (q : Call) : w.call q = banked.call getSVBKReg w q.place := by
  cases q with
  | op op => rw [call, Call.place, Banked.Device.call, step_eq]
  | getSVBKReg => rfl
  | readInnerVaddr innerVaddr => rfl
  | readPhysAddr physAddr => rfl

theorem bisimulation : Machine.Bisimulation call Indistinct :=
  ignores.bisimulation Call.place call_eq

theorem indistinct_writeBack (w : WRAM) : Indistinct (w.setSVBKReg w.getSVBKReg) w := by
  refine ⟨rfl, fun i h6 => ?_⟩
  show w.getSVBKReg.getLsbD i = _
  rcases Nat.lt_or_ge i 8 with hlt | hge
  · rw [getLsbD_getSVBKReg w hlt]
    simp [h6]
  · rw [BitVec.getLsbD_of_ge _ i hge, BitVec.getLsbD_of_ge _ i hge]

end WRAM

/-! ## Video RAM: all of `VBK` but bit 0 -/

namespace VRAM

/-- The same memory, and `VBK` registers with the same bit 0. -/
structure Indistinct (v u : VRAM) : Prop where
  memory : v.memory = u.memory
  vbk : v.regs.VBK.getLsbD 0 = u.regs.VBK.getLsbD 0

theorem getLsbD_getVBKReg (v : VRAM) {i : Nat} (hi : i < 8) :
    v.getVBKReg.getLsbD i = ((decide (i = 0) && v.regs.VBK.getLsbD 0) || decide (1 ≤ i)) := by
  have h32 : i < 32 := by omega
  have h7 : i ≤ 7 := by omega
  have hreserved : reservedBits.getLsbD i = decide (1 ≤ i) := by
    rw [reservedBits, getLsbD_bitMask (by decide) (by decide)]
    simp [h32, h7]
  rw [getVBKReg, BitVec.getLsbD_setWidth, BitVec.getLsbD_or, BitVec.getLsbD_setWidth, hreserved]
  rcases Nat.eq_zero_or_pos i with h0 | hpos
  · subst h0
    simp
  · have h1 : 1 ≤ i := hpos
    simp [hi, h1]

theorem Indistinct.getVBKReg {v u : VRAM} (h : Indistinct v u) : v.getVBKReg = u.getVBKReg := by
  refine BitVec.eq_of_getLsbD_eq (fun i hi => ?_)
  rw [getLsbD_getVBKReg v hi, getLsbD_getVBKReg u hi, h.vbk]

theorem Indistinct.calcPhysAddr {v u : VRAM} (h : Indistinct v u) (a : Word) :
    v.calcPhysAddr a = u.calcPhysAddr a := by
  have hbit : bitN 0 (v.regs.VBK.setWidth 32) = bitN 0 (u.regs.VBK.setWidth 32) := by
    rw [bitN_byte, bitN_byte]
    exact h.vbk
  unfold VRAM.calcPhysAddr
  rw [hbit]

theorem ignores : Banked.Ignores banked getVBKReg Indistinct where
  memory := Indistinct.memory
  window := by
    intro v u h a
    show ((v.calcPhysAddr a).setWidth 16).toNat = ((u.calcPhysAddr a).setWidth 16).toNat
    rw [h.calcPhysAddr a]
  register := Indistinct.getVBKReg
  select := fun h _ => ⟨h.memory, rfl⟩
  setMemory := fun h _ => ⟨rfl, h.vbk⟩

def Call.place : Call → Banked.Device.Call Byte Word Word Byte
  | .op operation => .access operation.place
  | .getVBKReg => .register
  | .readInnerVaddr innerVaddr => .readWindow innerVaddr
  | .readPhysAddr physAddr => .readDirect physAddr

theorem call_eq (v : VRAM) (q : Call) : v.call q = banked.call getVBKReg v q.place := by
  cases q with
  | op op => rw [call, Call.place, Banked.Device.call, step_eq]
  | getVBKReg => rfl
  | readInnerVaddr innerVaddr => rfl
  | readPhysAddr physAddr => rfl

theorem bisimulation : Machine.Bisimulation call Indistinct :=
  ignores.bisimulation Call.place call_eq

theorem indistinct_writeBack (v : VRAM) : Indistinct (v.setVBKReg v.getVBKReg) v := by
  refine ⟨rfl, ?_⟩
  rw [getLsbD_setVBKReg, getLsbD_getVBKReg v (by decide)]
  simp

end VRAM

/--
**No sequence of calls can tell that a register was written back.**

In every state of every device, and for every continuation, the replies after
`set_R_reg(get_R_reg())` are the replies without it: for `IE` and `IF` on the
controller alone and with a joypad attached, for `P1`, for `SVBK` and for `VBK`.
-/
theorem write_back_neutral :
    (∀ (c : InterruptController) (calls : List InterruptController.Call),
        Machine.trace InterruptController.call (c.setIEReg c.getIEReg) calls
            = Machine.trace InterruptController.call c calls
          ∧ Machine.trace InterruptController.call (c.setIFReg c.getIFReg) calls
            = Machine.trace InterruptController.call c calls)
      ∧ (∀ (j : JoyPad) (c : InterruptController) (calls : List JoyPad.Call),
        Machine.trace JoyPad.System.call ⟨j.setP1Reg j.getP1Reg, c⟩ calls
            = Machine.trace JoyPad.System.call ⟨j, c⟩ calls
          ∧ Machine.trace JoyPad.System.call ⟨j, c.setIEReg c.getIEReg⟩ calls
            = Machine.trace JoyPad.System.call ⟨j, c⟩ calls
          ∧ Machine.trace JoyPad.System.call ⟨j, c.setIFReg c.getIFReg⟩ calls
            = Machine.trace JoyPad.System.call ⟨j, c⟩ calls)
      ∧ (∀ (w : WRAM) (calls : List WRAM.Call),
        Machine.trace WRAM.call (w.setSVBKReg w.getSVBKReg) calls = Machine.trace WRAM.call w calls)
      ∧ ∀ (v : VRAM) (calls : List VRAM.Call),
        Machine.trace VRAM.call (v.setVBKReg v.getVBKReg) calls
          = Machine.trace VRAM.call v calls := by
  refine ⟨fun c calls => ⟨?_, ?_⟩, fun j c calls => ⟨?_, ?_, ?_⟩, fun w calls => ?_,
    fun v calls => ?_⟩
  · exact InterruptController.bisimulation.trace_eq calls c.abs_writeBack_IE
  · exact InterruptController.bisimulation.trace_eq calls c.abs_writeBack_IF
  · rw [j.setP1Reg_getP1Reg]
  · exact JoyPad.bisimulation.trace_eq calls ⟨rfl, c.abs_writeBack_IE⟩
  · exact JoyPad.bisimulation.trace_eq calls ⟨rfl, c.abs_writeBack_IF⟩
  · exact WRAM.bisimulation.trace_eq calls w.indistinct_writeBack
  · exact VRAM.bisimulation.trace_eq calls v.indistinct_writeBack

end GBMU
