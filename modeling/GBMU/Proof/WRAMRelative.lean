import GBMU.Proof.WRAMBanks

/-!
# Work RAM under window-relative addresses

The bus handlers drafted for work RAM subtract the base of the window first, so
that `read_inner_vaddr` gets an offset in `[0x0000, 0x1FFF]`, as the same function
of the video RAM does. The upper half of these offsets should reach the selected
bank. `__calc_phys_addr` compares the offset with the CPU address
`WRAMX_BASE_VADDR`, which no offset reaches: every access goes to bank 0, and the
two halves of the window fall on each other.
-/

namespace GBMU.WRAM

/-- What an offset in `[0x0000, 0x1FFF]` means: the CPU address it was made from. -/
def relativeCell (svbk : Byte) (o : Word) : Cell := windowCell svbk (wram0BaseVaddr + o)

/-- A bank switch, or a write through the window at one of the offsets `W`. -/
def Op.Uses (W : Word → Prop) : Op → Prop
  | .setSVBKReg _ => True
  | .writeInnerVaddr o _ => W o
  | .writePhysAddr _ _ => False

/-- Work RAM is banked for a program that uses the offsets `W`. -/
structure RelativeLaw (W : Word → Prop) : Prop where
  /-- A read gives the latest byte written to the cell the offset means, or its initial byte. -/
  read : ∀ (memory : Vector Byte maxSize.toNat) (svbk : Byte) (ops : List Op),
    (∀ op ∈ ops, op.Uses W) →
    ∃ w, Machine.run step (withContent memory svbk) ops = some w
      ∧ ∀ o, W o → w.readInnerVaddr o
          = some ((History.last (Banked.writes (relativeCell w.regs.SVBK o))
              (Banked.writeLog relativeCell (reference memory svbk) (ops.map Op.access))).getD
                ((reference memory svbk).cells (relativeCell w.regs.SVBK o)))
  /-- Two offsets never share a cell, whatever is selected at either access. -/
  apart : ∀ (w w' : WRAM) (o o' : Word), W o → W o' → o ≠ o' →
    w.calcPhysAddr o ≠ w'.calcPhysAddr o'

/-! ## Where the code and the intention meet -/

/-- No offset reaches the threshold, so the code takes bank 0. -/
theorem cellAt_offset (svbk : Byte) {o : Word} (ho : o ≤ 0x1FFF) :
    cellAt svbk o = (0, Fin.ofNat 4096 o.toNat) := by
  have ho' : o.toNat ≤ 0x1FFF := ho
  have hlow : ¬ wramxBaseVaddr ≤ o := by
    intro hc
    have : 0xD000 ≤ o.toNat := hc
    omega
  rw [cellAt, if_neg hlow]

/-- In the lower half the intended cell is in bank 0, whatever is selected. -/
theorem relativeCell_lower (svbk : Byte) {o : Word} (ho : o < 0x1000) :
    relativeCell svbk o = (0, Fin.ofNat 4096 o.toNat) := by
  have ho' : o.toNat < 0x1000 := ho
  have hbase : wram0BaseVaddr.toNat = 0xC000 := by decide
  have hlow : wram0BaseVaddr + o ≤ wram0LastVaddr := by
    show (wram0BaseVaddr + o).toNat ≤ 0xCFFF
    rw [BitVec.toNat_add, hbase]
    omega
  rw [relativeCell, windowCell, if_pos hlow, BitVec.add_comm, BitVec.add_sub_cancel]

/-- In the upper half it is in the selected bank. -/
theorem relativeCell_upper (svbk : Byte) {o : Word} (hlo : ¬ o < 0x1000) (hhi : o ≤ 0x1FFF) :
    relativeCell svbk o = (selectedBank svbk, Fin.ofNat 4096 (o - 0x1000).toNat) := by
  have hlo' : ¬ o.toNat < 0x1000 := hlo
  have hhi' : o.toNat ≤ 0x1FFF := hhi
  have hbase : wram0BaseVaddr.toNat = 0xC000 := by decide
  have hhigh : ¬ wram0BaseVaddr + o ≤ wram0LastVaddr := by
    show ¬ (wram0BaseVaddr + o).toNat ≤ 0xCFFF
    rw [BitVec.toNat_add, hbase]
    omega
  have hsub : wram0BaseVaddr + o - wramxBaseVaddr = o - 0x1000 := by
    have hbases : wramxBaseVaddr = wram0BaseVaddr + 0x1000 := by decide
    rw [hbases, ← BitVec.sub_sub, BitVec.add_comm wram0BaseVaddr o, BitVec.add_sub_cancel]
  rw [relativeCell, windowCell, if_neg hhigh, hsub]

theorem cellAt_eq_relativeCell (svbk : Byte) {o : Word} (ho : o < 0x1000) :
    cellAt svbk o = relativeCell svbk o := by
  have ho' : o.toNat < 0x1000 := ho
  have hbound : o ≤ 0x1FFF := by
    show o.toNat ≤ 0x1FFF
    omega
  rw [cellAt_offset svbk hbound, relativeCell_lower svbk ho]

/-! ## The law on the lower half -/

theorem relativeLaw_of_lower {W : Word → Prop} (hW : ∀ o, W o → o < 0x1000) : RelativeLaw W where
  read := by
    intro memory svbk ops hops
    have hwithin : ∀ op ∈ ops, op.Within 0x0000 0x0FFF := by
      intro op hop
      have huse := hops op hop
      cases op with
      | setSVBKReg value => exact trivial
      | writeInnerVaddr o b =>
          have hlt : o.toNat < 0x1000 := hW o huse
          exact ⟨Nat.zero_le _, show o.toNat ≤ 0xFFF by omega⟩
      | writePhysAddr p b => exact huse.elim
    obtain ⟨w, hrun, hr⟩ := run_refines relativeCell (fun svbk o _ hhi => by
      have hhi' : o.toNat ≤ 0xFFF := hhi
      exact cellAt_eq_relativeCell svbk (show o.toNat < 0x1000 by omega))
      (refines_withContent memory svbk) hwithin
    refine ⟨w, hrun, fun o ho => ?_⟩
    rw [hr.readInnerVaddr o, ← hr.reg, cellAt_eq_relativeCell _ (hW o ho),
      Banked.cells_eq_latest]
  apart := by
    intro w w' o o' ho ho' hne heq
    have hlt : o.toNat < 0x1000 := hW o ho
    have hlt' : o'.toNat < 0x1000 := hW o' ho'
    have hindex : (cellAt w.regs.SVBK o).index = (cellAt w'.regs.SVBK o').index := by
      rw [← calcPhysAddr_toNat, ← calcPhysAddr_toNat, heq]
    rw [Banked.Cell.index_inj, cellAt_offset _ (show o.toNat ≤ 0x1FFF by omega),
      cellAt_offset _ (show o'.toNat ≤ 0x1FFF by omega)] at hindex
    -- below 4 KB an offset is its own place in bank 0
    have hval : o.toNat % 4096 = o'.toNat % 4096 := congrArg (fun c => c.2.val) hindex
    exact hne (BitVec.eq_of_toNat_eq (by omega))

/-! ## Its failure on the upper half -/

/-- Banks 2 and 3 are written at one offset, and bank 2 is selected again. -/
def twoBanksAt (o : Word) : List Op :=
  [.setSVBKReg 2, .writeInnerVaddr o 7, .setSVBKReg 3, .writeInnerVaddr o 9, .setSVBKReg 2]

/-- The byte of bank 3 is read in bank 2. -/
theorem read_twoBanksAt (memory : Vector Byte maxSize.toNat) (svbk : Byte) {o : Word}
    (ho : o ≤ 0x1FFF) :
    ∃ w, Machine.run step (withContent memory svbk) (twoBanksAt o) = some w
      ∧ w.regs.SVBK = 2 ∧ w.readInnerVaddr o = some 9 := by
  have hwithin : ∀ op ∈ twoBanksAt o, op.Within 0x0000 0x1FFF := by
    simp only [twoBanksAt, List.forall_mem_cons, Op.Within, List.not_mem_nil, false_imp_iff,
      implies_true, and_true, true_and, and_self]
    exact ⟨Nat.zero_le _, ho⟩
  obtain ⟨w, hrun, hr⟩ := run_refines (fun _ o => (0, Fin.ofNat 4096 o.toNat))
    (fun svbk _ _ hhi => cellAt_offset svbk hhi) (refines_withContent memory svbk) hwithin
  refine ⟨w, hrun, hr.reg, ?_⟩
  rw [hr.readInnerVaddr o, cellAt_offset _ ho]
  exact congrArg some (Function.update_self ..)

/-- The cell meant holds the byte written to it in bank 2. -/
theorem reference_twoBanksAt (s : Banked.State Byte Cell Byte) {o : Word} (hlo : ¬ o < 0x1000)
    (hhi : o ≤ 0x1FFF) :
    (((twoBanksAt o).map Op.access).foldl (Banked.step relativeCell) s).cells
      (relativeCell 2 o) = 7 := by
  have hne : relativeCell 2 o ≠ relativeCell 3 o := by
    intro hc
    rw [relativeCell_upper 2 hlo hhi, relativeCell_upper 3 hlo hhi] at hc
    have hbank : selectedBank 2 = selectedBank 3 := congrArg Prod.fst hc
    exact absurd hbank (by decide)
  show Function.update (Function.update s.cells (relativeCell 2 o) 7) (relativeCell 3 o) 9
    (relativeCell 2 o) = 7
  rw [Function.update_of_ne hne, Function.update_self]

theorem not_relativeLaw_of_upper {W : Word → Prop} {o : Word} (hW : W o) (hlo : ¬ o < 0x1000)
    (hhi : o ≤ 0x1FFF) : ¬ RelativeLaw W := by
  intro h
  have hops : ∀ op ∈ twoBanksAt o, op.Uses W := by
    simp only [twoBanksAt, List.forall_mem_cons, Op.Uses, List.not_mem_nil, false_imp_iff,
      implies_true, and_true, true_and]
    exact ⟨hW, hW⟩
  obtain ⟨w, hrun, hread⟩ := h.read (Vector.replicate _ 0) 0 (twoBanksAt o) hops
  obtain ⟨w', hrun', hreg, hread'⟩ := read_twoBanksAt (Vector.replicate _ 0) 0 hhi
  have hsame : w = w' := Option.some.inj (hrun.symm.trans hrun')
  have hlaw := hread o hW
  rw [← Banked.cells_eq_latest, hsame, hreg, reference_twoBanksAt _ hlo hhi, hread'] at hlaw
  exact absurd (Option.some.inj hlaw) (by decide)

/--
**Banking works on exactly the offsets below `0x1000`.**

For any set of offsets in `[0x0000, 0x1FFF]`, work RAM is banked for every program
that uses these offsets, from any state, if and only if all of them are below
`0x1000`.
-/
theorem relativeLaw_iff (W : Word → Prop) (hW : ∀ o, W o → o ≤ 0x1FFF) :
    RelativeLaw W ↔ ∀ o, W o → o < 0x1000 := by
  constructor
  · intro h o ho
    by_contra hge
    exact not_relativeLaw_of_upper ho hge (hW o ho) h
  · exact relativeLaw_of_lower

/-- A program that keeps to the two ends of the lower half. -/
theorem relativeLaw_iff_sample : RelativeLaw (fun o => o = 0x0000 ∨ o = 0x0FFF) := by
  refine (relativeLaw_iff _ ?_).mpr ?_
  · intro o ho
    rcases ho with rfl | rfl <;> decide
  · intro o ho
    rcases ho with rfl | rfl <;> decide

/-- The whole window, and in it bank 2 reading the byte of bank 3 at offset `0x1000`. -/
theorem not_relativeLaw_window :
    ¬ RelativeLaw (fun o => o ≤ 0x1FFF)
      ∧ ∃ w, Machine.run step (construct (Vector.replicate _ 0)) (twoBanksAt 0x1000) = some w
          ∧ w.regs.SVBK = 2 ∧ w.readInnerVaddr 0x1000 = some 9 :=
  ⟨not_relativeLaw_of_upper (o := 0x1000) (by decide) (by decide) (by decide),
    read_twoBanksAt _ _ (by decide)⟩

end GBMU.WRAM
