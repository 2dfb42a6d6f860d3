import Mathlib.Data.Finset.Option
import GBMU.Device.Interrupt
import GBMU.Lib.PriorityServer

/-!
# The interrupt controller, without its bits

What the controller is for needs no bytes: five lines, a set of them pending, a
set of them enabled, a master flag. `Abstract` is that machine. `abs` reads it
off the registers, ignoring the three reserved bits, and every operation of the
code is the operation of the same name on `abs` (`abs_step`).

The reserved bits are stored in two ways, 1 after a register write and anything
in a constructed state or after a reset of `NO_INTERRUPT`. Nothing read back
depends on which.
-/

namespace GBMU

/-- The five lines, by priority. -/
abbrev Line := Fin 5

/-- The line of an enumerator; `NO_INTERRUPT` has none. -/
def InterruptIdx.line : InterruptIdx → Option Line
  | .vblankInt => some 0
  | .lcdstatInt => some 1
  | .timoverInt => some 2
  | .serioInt => some 3
  | .joypadInt => some 4
  | .noInterrupt => none

def InterruptIdx.ofLine : Option Line → InterruptIdx
  | some i => .ofFin i.castSucc
  | none => .noInterrupt

theorem InterruptIdx.line_ofLine (o : Option Line) : (InterruptIdx.ofLine o).line = o := by
  cases o with
  | none => rfl
  | some i => revert i; decide

theorem InterruptIdx.ofLine_line (n : InterruptIdx) : InterruptIdx.ofLine n.line = n := by
  cases n <;> rfl

theorem InterruptIdx.line_eq_some {n : InterruptIdx} {i : Line} :
    n.line = some i ↔ i.val = n.val.toNat := by
  revert i
  cases n <;> decide

theorem InterruptIdx.val_lt (n : InterruptIdx) : n.val.toNat < 32 := by
  cases n <;> decide

namespace InterruptController

/-- The lines whose bits are set. -/
def lines (x : Byte) : Finset Line := Finset.univ.filter (fun i => x.getLsbD i = true)

@[simp] theorem mem_lines {x : Byte} {i : Line} : i ∈ lines x ↔ x.getLsbD i = true := by
  simp [lines]

/-! ## The abstract controller -/

structure Abstract where
  pending : Finset Line
  enabled : Finset Line
  ime : Bool

def Abstract.step (s : Abstract) : Op → Abstract
  | .requestInterrupt n => { s with pending := s.pending ∪ n.line.toFinset }
  | .resetInterrupt n => { s with pending := s.pending \ n.line.toFinset }
  | .setIEReg value => { s with enabled := lines value }
  | .setIFReg value => { s with pending := lines value }
  | .setIMEReg value => { s with ime := value }

/-- The abstract state behind the registers. -/
def abs (c : InterruptController) : Abstract :=
  { pending := lines c.registers.IF
    enabled := lines c.registers.IE
    ime := c.registers.IME }

/-! ## What each operation does to the lines -/

theorem getLsbD_requestInterrupt (c : InterruptController) (n : InterruptIdx) {i : Nat}
    (hi : i < 8) : (c.requestInterrupt n).registers.IF.getLsbD i
      = (c.registers.IF.getLsbD i || decide (i = n.val.toNat)) :=
  getLsbD_bitNSet_byte n.val c.registers.IF n.val_lt hi

theorem getLsbD_resetInterrupt (c : InterruptController) (n : InterruptIdx) {i : Nat}
    (hi : i < 8) : (c.resetInterrupt n).registers.IF.getLsbD i
      = (c.registers.IF.getLsbD i && !decide (i = n.val.toNat)) :=
  getLsbD_bitNReset_byte n.val c.registers.IF n.val_lt hi

theorem lines_requestInterrupt (c : InterruptController) (n : InterruptIdx) :
    lines (c.requestInterrupt n).registers.IF = lines c.registers.IF ∪ n.line.toFinset := by
  ext i
  have hi : i.val < 8 := by omega
  rw [mem_lines, getLsbD_requestInterrupt c n hi, Finset.mem_union, mem_lines, Option.mem_toFinset,
    Option.mem_def, InterruptIdx.line_eq_some]
  simp

theorem lines_resetInterrupt (c : InterruptController) (n : InterruptIdx) :
    lines (c.resetInterrupt n).registers.IF = lines c.registers.IF \ n.line.toFinset := by
  ext i
  have hi : i.val < 8 := by omega
  rw [mem_lines, getLsbD_resetInterrupt c n hi, Finset.mem_sdiff, mem_lines, Option.mem_toFinset,
    Option.mem_def, InterruptIdx.line_eq_some]
  simp

/-- Forcing the reserved bits does not touch the lines. -/
theorem lines_or_reserved (x : Byte) :
    lines ((x.setWidth 32 ||| regReservedBits).setWidth 8) = lines x := by
  ext i
  have hi : i.val < 8 := by omega
  have h5 : ¬ 5 ≤ i.val := by omega
  rw [mem_lines, mem_lines, getLsbD_or_reserved x hi]
  simp [h5]

/-- **Every operation is the abstract operation of the same name.** -/
theorem abs_step (c : InterruptController) (op : Op) :
    (c.step op).abs = c.abs.step op := by
  cases op with
  | requestInterrupt n =>
      exact congrArg (fun p => { c.abs with pending := p }) (lines_requestInterrupt c n)
  | resetInterrupt n =>
      exact congrArg (fun p => { c.abs with pending := p }) (lines_resetInterrupt c n)
  | setIEReg value =>
      exact congrArg (fun e => { c.abs with enabled := e }) (lines_or_reserved value)
  | setIFReg value =>
      exact congrArg (fun p => { c.abs with pending := p }) (lines_or_reserved value)
  | setIMEReg value => rfl

theorem abs_run (c : InterruptController) (ops : List Op) :
    (ops.foldl step c).abs = ops.foldl Abstract.step c.abs :=
  (List.foldl_hom abs (fun c op => (abs_step c op).symm)).symm

/-! ## What is read back -/

/-- Below the reserved bits, the word searched is the lines pending and enabled. -/
theorem getLsbD_interruptsToHandle_line (c : InterruptController) (i : Line) :
    (c.interruptsToHandle.setWidth 16 : U16).getLsbD i = true
      ↔ i ∈ c.abs.pending ∧ i ∈ c.abs.enabled := by
  have h16 : i.val < 16 := by omega
  have h5 : ¬ 5 ≤ i.val := by omega
  rw [BitVec.getLsbD_setWidth, getLsbD_interruptsToHandle c (by omega)]
  simp [abs, h16, h5]

/-- The search finds the least line pending and enabled, or the sentinel. -/
theorem getHighestPriorityInterrupt_eq (c : InterruptController) :
    c.getHighestPriorityInterrupt
      = .ofLine (PriorityServer.next c.abs.enabled c.abs.pending) := by
  obtain ⟨i, hi, hleast⟩ := exists_leastSet_interruptsToHandle c
  have hval : (bitLsb (c.interruptsToHandle.setWidth 16)).toNat = i := by
    rw [bitLsb_eq hleast, Int.toNat_natCast]
  have hfin : c.getHighestPriorityInterrupt = InterruptIdx.ofFin ⟨i, by omega⟩ := by
    unfold getHighestPriorityInterrupt
    simp only [hval]
  -- no line below `i` is pending and enabled
  have hbelow : ∀ j : Line, j.val < i → ¬ (j ∈ c.abs.pending ∧ j ∈ c.abs.enabled) := by
    intro j hji hj
    have := hleast.below j.val hji
    rw [(getLsbD_interruptsToHandle_line c j).mpr hj] at this
    exact Bool.noConfusion this
  rw [hfin]
  rcases Nat.lt_or_ge i 5 with hlt | hge
  · have hset := (getLsbD_interruptsToHandle_line c ⟨i, hlt⟩).mp hleast.set
    have hnext : PriorityServer.next c.abs.enabled c.abs.pending = some ⟨i, hlt⟩ := by
      refine PriorityServer.next_eq_some.mpr ⟨hset.1, hset.2, fun j hp he => ?_⟩
      exact Nat.le_of_not_lt (fun hji => hbelow j hji ⟨hp, he⟩)
    rw [hnext]
    rfl
  · -- only the sentinel is set
    have hnext : PriorityServer.next c.abs.enabled c.abs.pending = none :=
      PriorityServer.next_eq_none.mpr (fun j hp he => hbelow j (by omega) ⟨hp, he⟩)
    have hi5 : i = 5 := by omega
    subst hi5
    rw [hnext]
    rfl

theorem getHighestPriorityInterrupt_line (c : InterruptController) :
    c.getHighestPriorityInterrupt.line = PriorityServer.next c.abs.enabled c.abs.pending := by
  rw [getHighestPriorityInterrupt_eq, InterruptIdx.line_ofLine]

/-- The `int` found is the value of the enumerator answered. -/
theorem bitLsb_interruptsToHandle (c : InterruptController) :
    bitLsb (c.interruptsToHandle.setWidth 16) = c.getHighestPriorityInterrupt.val.toNat := by
  obtain ⟨i, _, hleast⟩ := exists_leastSet_interruptsToHandle c
  have hnonneg : 0 ≤ bitLsb (c.interruptsToHandle.setWidth 16) := by
    rw [bitLsb_eq hleast]
    omega
  unfold getHighestPriorityInterrupt
  rw [InterruptIdx.toNat_val_ofFin]
  exact (Int.toNat_of_nonneg hnonneg).symm

/-- A register is read back from its lines alone. -/
theorem or_reserved_congr {x y : Byte} (h : lines x = lines y) :
    ((x.setWidth 32 ||| regReservedBits).setWidth 8 : Byte)
      = (y.setWidth 32 ||| regReservedBits).setWidth 8 := by
  refine BitVec.eq_of_getLsbD_eq (fun i hi => ?_)
  rw [getLsbD_or_reserved x hi, getLsbD_or_reserved y hi]
  by_cases h5 : 5 ≤ i
  · simp [h5]
  · have hmem : (⟨i, by omega⟩ : Line) ∈ lines x ↔ (⟨i, by omega⟩ : Line) ∈ lines y := by rw [h]
    rw [mem_lines, mem_lines, ← Bool.eq_iff_iff] at hmem
    simp [hmem]

/-- Controllers alike up to reserved bits read alike. -/
structure SameReadings (c d : InterruptController) : Prop where
  highest : c.getHighestPriorityInterrupt = d.getHighestPriorityInterrupt
  getIF : c.getIFReg = d.getIFReg
  getIE : c.getIEReg = d.getIEReg
  getIME : c.getIMEReg = d.getIMEReg

theorem sameReadings_of_abs_eq {c d : InterruptController} (h : c.abs = d.abs) :
    SameReadings c d where
  highest := by rw [getHighestPriorityInterrupt_eq, getHighestPriorityInterrupt_eq, h]
  getIF := or_reserved_congr (congrArg Abstract.pending h)
  getIE := or_reserved_congr (congrArg Abstract.enabled h)
  getIME := congrArg Abstract.ime h

/-- What an operation sets `IME` to. -/
def Op.setsIME : Op → Option Bool
  | .setIMEReg value => some value
  | _ => none

/--
**The controller is the abstract controller, over whole runs.**

From any registers and after any operations: the answer of the priority search
is the least line pending and enabled, `NO_INTERRUPT` exactly when there is none,
and the `int` behind it is never 6 or 7; `IF` and `IE` read as the pending and
the enabled lines under three reserved ones; `IME` reads as last set. None of it
depends on the reserved bits of the registers the run started from.
-/
theorem refines_abstract (regs : Registers) (ops : List Op) :
    let c := ops.foldl step { registers := regs }
    let s := ops.foldl Abstract.step (abs { registers := regs })
    (∀ i, c.getHighestPriorityInterrupt = .ofLine (some i)
        ↔ i ∈ s.pending ∧ i ∈ s.enabled ∧ ∀ j ∈ s.pending, j ∈ s.enabled → i ≤ j)
      ∧ (c.getHighestPriorityInterrupt = .noInterrupt ↔ ∀ i ∈ s.pending, i ∉ s.enabled)
      ∧ bitLsb (c.interruptsToHandle.setWidth 16) = c.getHighestPriorityInterrupt.val.toNat
      ∧ bitLsb (c.interruptsToHandle.setWidth 16) ≤ 5
      ∧ lines c.getIFReg = s.pending ∧ lines c.getIEReg = s.enabled
      ∧ (∀ i, 5 ≤ i → i < 8 → c.getIFReg.getLsbD i = true ∧ c.getIEReg.getLsbD i = true)
      ∧ c.getIMEReg = (History.last Op.setsIME ops).getD regs.IME
      ∧ ∀ regs' : Registers, lines regs'.IE = lines regs.IE → lines regs'.IF = lines regs.IF →
          regs'.IME = regs.IME → SameReadings (ops.foldl step { registers := regs' }) c := by
  intro c s
  have hcs : c.abs = s := abs_run _ ops
  have hline : c.getHighestPriorityInterrupt.line = PriorityServer.next s.enabled s.pending := by
    rw [getHighestPriorityInterrupt_line, hcs]
  refine ⟨?_, ?_, bitLsb_interruptsToHandle c, ?_, ?_, ?_, ?_, ?_, ?_⟩
  · intro i
    rw [← PriorityServer.next_eq_some, ← hline]
    constructor
    · intro h
      rw [h, InterruptIdx.line_ofLine]
    · intro h
      rw [← h, InterruptIdx.ofLine_line]
  · rw [← PriorityServer.next_eq_none, ← hline]
    cases c.getHighestPriorityInterrupt <;> simp [InterruptIdx.line]
  · have := bitLsb_interruptsToHandle_lt c
    omega
  · rw [← hcs]
    exact lines_or_reserved _
  · rw [← hcs]
    exact lines_or_reserved _
  · intro i h5 h8
    constructor
    · exact (getLsbD_or_reserved c.registers.IF h8).trans (by simp [h5])
    · exact (getLsbD_or_reserved c.registers.IE h8).trans (by simp [h5])
  · exact History.tracks getIMEReg (fun c op => by cases op <;> rfl) _ ops
  · intro regs' hIE hIF hIME
    refine sameReadings_of_abs_eq ?_
    rw [hcs, abs_run]
    have habs : abs { registers := regs' } = abs { registers := regs } := by
      rw [abs, abs, hIE, hIF, hIME]
    rw [habs]

end InterruptController

end GBMU
