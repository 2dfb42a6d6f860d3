import GBMU.Device.WRAM
import GBMU.Lib.BankedDevice

/-!
# Work RAM is a banked memory

`cellAt` is the bank and offset that `__calc_phys_addr` reaches from a 16-bit
address: bank 0 below `WRAMX_BASE_VADDR`, the selected bank from there up, and
the address modulo 4 KB. It holds for every address, and it is all that the rest
of the development knows about the computation.

From it work RAM has a `layout`, which is what the library asks of a banked device:
`Refines` — the flat buffer lists the cells of a reference memory and `SVBK` is its
selection register — is preserved by every operation, and a run of operations is a
run of the reference memory. In the window the CPU uses, `[0xC000, 0xDFFF]`,
`cellAt` is the intended map `windowCell`.
-/

namespace GBMU.WRAM

/-- Eight banks of 4 KB. -/
abbrev Cell := Banked.Cell 8 4096

/-- The bank `SVBK` selects: its low three bits, with 0 standing for 1. -/
def selectedBank (svbk : Byte) : Fin 8 := max 1 (Fin.ofNat 8 svbk.toNat)

/-- What an address in `[0xC000, 0xDFFF]` means. -/
def windowCell (svbk : Byte) (a : Word) : Cell :=
  if a ≤ wram0LastVaddr then (0, Fin.ofNat 4096 (a - wram0BaseVaddr).toNat)
  else (selectedBank svbk, Fin.ofNat 4096 (a - wramxBaseVaddr).toNat)

/-- What a physical address below 32 KB means. -/
def physCell (p : Word) : Cell := (Fin.ofNat 8 (p.toNat / 4096), Fin.ofNat 4096 p.toNat)

/-- The cell `__calc_phys_addr` reaches from any address. -/
def cellAt (svbk : Byte) (a : Word) : Cell :=
  (if wramxBaseVaddr ≤ a then selectedBank svbk else 0, Fin.ofNat 4096 a.toNat)

/-! ## The address computation -/

theorem getBankIdxBits_toNat (w : WRAM) : w.getBankIdxBits.toNat = w.regs.SVBK.toNat % 8 := by
  rw [getBankIdxBits, toNat_bitSlice (by decide) (by decide)]
  have := w.regs.SVBK.isLt
  simp only [BitVec.toNat_setWidth]
  show w.regs.SVBK.toNat % 2 ^ 32 / 2 ^ 0 % 2 ^ (2 - 0 + 1) = _
  omega

theorem selectedBank_val (svbk : Byte) : (selectedBank svbk).val = max 1 (svbk.toNat % 8) := by
  rw [selectedBank, Fin.coe_max]
  rfl

theorem getCurrentBankIdx_toNat (w : WRAM) :
    w.getCurrentBankIdx.toNat = (selectedBank w.regs.SVBK).val := by
  have hbits := getBankIdxBits_toNat w
  rw [selectedBank_val, getCurrentBankIdx]
  split
  · rename_i h
    rw [h] at hbits
    rw [← hbits]
    rfl
  · rename_i h
    have : w.getBankIdxBits.toNat ≠ 0 := fun he => h (BitVec.eq_of_toNat_eq he)
    omega

/-- Bank base plus offset does not wrap. -/
theorem bankBase_add_offset {b : U32} (hb : b.toNat < 8) (a : Word) :
    (b * bankSize + a.setWidth 32 % bankSize).toNat = b.toNat * 4096 + a.toNat % 4096 := by
  have ha := a.isLt
  -- at most seven banks and an offset below one: far under 2 ^ 32
  rw [BitVec.toNat_add, BitVec.toNat_mul, BitVec.toNat_umod, BitVec.toNat_setWidth]
  show (b.toNat * 4096 % 2 ^ 32 + a.toNat % 2 ^ 32 % 4096) % 2 ^ 32 = _
  omega

/-- **`__calc_phys_addr` computes the index of `cellAt`.** -/
theorem calcPhysAddr_toNat (w : WRAM) (a : Word) :
    (w.calcPhysAddr a).toNat = (cellAt w.regs.SVBK a).index := by
  have hbank := getCurrentBankIdx_toNat w
  have hlt := (selectedBank w.regs.SVBK).isLt
  rw [Banked.Cell.index_eq, calcPhysAddr, cellAt]
  dsimp only [Fin.val_ofNat]
  split
  · rw [bankBase_add_offset (by omega), hbank]
  · exact bankBase_add_offset (b := 0x0) (by decide) a

/-- So it stays inside the 32 KB buffer, and narrowing it to a `word_t` loses nothing. -/
theorem calcPhysAddr_lt (w : WRAM) (a : Word) : (w.calcPhysAddr a).toNat < 32768 := by
  rw [calcPhysAddr_toNat]
  exact Banked.Cell.index_lt _

theorem calcPhysAddr_narrow (w : WRAM) (a : Word) :
    ((w.calcPhysAddr a).setWidth 16).toNat = (cellAt w.regs.SVBK a).index := by
  have hlt := calcPhysAddr_lt w a
  rw [← calcPhysAddr_toNat, BitVec.toNat_setWidth]
  omega

theorem physCell_index {p : Word} (hp : p.toNat < 32768) : (physCell p).index = p.toNat := by
  rw [Banked.Cell.index_eq, physCell]
  dsimp only [Fin.val_ofNat]
  omega

/-- In the window the CPU uses, the code reaches the intended cell. -/
theorem cellAt_eq_windowCell {svbk : Byte} {a : Word} (hlo : wram0BaseVaddr ≤ a)
    (hhi : a ≤ wramxLastVaddr) : cellAt svbk a = windowCell svbk a := by
  have hlo' : 0xC000 ≤ a.toNat := hlo
  have hhi' : a.toNat ≤ 0xDFFF := hhi
  unfold cellAt windowCell
  -- both bases are multiples of the bank size, so subtracting them keeps the offset
  by_cases hx : wramxBaseVaddr ≤ a
  · have hx' : 0xD000 ≤ a.toNat := hx
    have hn : ¬ a ≤ wram0LastVaddr := by
      intro hc
      have : a.toNat ≤ 0xCFFF := hc
      omega
    have hsub : (a - wramxBaseVaddr).toNat = a.toNat - 0xD000 := BitVec.toNat_sub_of_le hx
    rw [if_pos hx, if_neg hn, hsub]
    refine Prod.ext rfl (Fin.ext ?_)
    simp only [Fin.val_ofNat]
    omega
  · have hx' : a.toNat < 0xD000 := Nat.lt_of_not_le hx
    have hp : a ≤ wram0LastVaddr := by
      show a.toNat ≤ 0xCFFF
      omega
    have hsub : (a - wram0BaseVaddr).toNat = a.toNat - 0xC000 := BitVec.toNat_sub_of_le hlo
    rw [if_neg hx, if_pos hp, hsub]
    refine Prod.ext rfl (Fin.ext ?_)
    simp only [Fin.val_ofNat]
    omega

/-! ## The refinement -/

/-- Work RAM as a device over one list of bytes. -/
def banked : Banked.Device WRAM Byte Word Word Byte where
  memory := WRAM.memory
  setMemory := fun w memory => { w with memory := memory }
  select := setSVBKReg
  window := fun w innerVaddr => ((w.calcPhysAddr innerVaddr).setWidth 16).toNat
  direct := BitVec.toNat
  memory_setMemory := fun _ _ => rfl
  memory_select := fun _ _ => rfl

def Op.place : Op → Banked.Access Byte Word Word Byte
  | .setSVBKReg value => .select value
  | .writeInnerVaddr innerVaddr data => .window innerVaddr data
  | .writePhysAddr physAddr data => .direct physAddr data

theorem step_eq (w : WRAM) (op : Op) : w.step op = banked.step w op.place := by
  cases op <;> rfl

/-- `SVBK` is the register of the reference memory. -/
def Selects (w : WRAM) (svbk : Byte) : Prop := w.regs.SVBK = svbk

/-- **Work RAM is laid out bank after bank, and every inner address reaches `cellAt`.** -/
theorem layout : Banked.Layout banked Selects cellAt physCell where
  select := fun _ _ => rfl
  setMemory := fun _ h => h
  window := by
    intro w svbk a h
    subst h
    exact calcPhysAddr_narrow w a
  direct := physCell_index

/-- The buffer lists the cells of the reference memory; `SVBK` is its register. -/
abbrev Refines (w : WRAM) (s : Banked.State Byte Cell Byte) : Prop :=
  Banked.Refines banked Selects w s

/-- The reference memory a device starts from: the buffer cut into banks. -/
def reference (memory : Vector Byte maxSize.toNat) (svbk : Byte) : Banked.State Byte Cell Byte :=
  { reg := svbk, cells := @Banked.ofFlat Byte 8 4096 memory }

theorem refines_withContent (memory : Vector Byte maxSize.toNat) (svbk : Byte) :
    Refines (withContent memory svbk) (reference memory svbk) :=
  ⟨rfl, @Banked.flat_ofFlat Byte 8 4096 memory⟩

/-- An access through the window, at any address, reaches `cellAt`. -/
theorem Refines.readInnerVaddr {w : WRAM} {s : Banked.State Byte Cell Byte} (h : Refines w s)
    (a : Word) : w.readInnerVaddr a = some (s.cells (cellAt s.reg a)) :=
  layout.readWindow h a

theorem Refines.writeInnerVaddr {w : WRAM} {s : Banked.State Byte Cell Byte} (h : Refines w s)
    (a : Word) (data : Byte) :
    ∃ w', w.writeInnerVaddr a data = some w'
      ∧ Refines w' { s with cells := Function.update s.cells (cellAt s.reg a) data } :=
  layout.write h (layout.window a h.reg) data

/-- A physical access below 32 KB reaches `physCell`. -/
theorem Refines.readPhysAddr {w : WRAM} {s : Banked.State Byte Cell Byte} (h : Refines w s)
    {p : Word} (hp : p.toNat < 32768) : w.readPhysAddr p = some (s.cells (physCell p)) :=
  layout.readDirect h hp

/-- Inner accesses stay in `[lo, hi]`, physical ones in the buffer. -/
def Op.Within (lo hi : Word) : Op → Prop
  | .setSVBKReg _ => True
  | .writeInnerVaddr a _ => lo ≤ a ∧ a ≤ hi
  | .writePhysAddr p _ => p.toNat < 32768

/-- What an operation does to the reference memory. -/
def Op.access : Op → Banked.Access Byte Word Cell Byte
  | .setSVBKReg value => .select value
  | .writeInnerVaddr a data => .window a data
  | .writePhysAddr p data => .direct (physCell p) data

theorem access?_place {lo hi : Word} {op : Op} (h : op.Within lo hi) :
    Banked.Layout.access? banked physCell op.place = some op.access := by
  cases op with
  | setSVBKReg value => rfl
  | writeInnerVaddr a data => rfl
  | writePhysAddr p data =>
      have hp : banked.direct p < 8 * 4096 := h
      rw [Op.place, Banked.Layout.access?, Banked.Layout.cellOf?, if_pos hp]
      rfl

/-- **One operation is one access**, for any reading `win` of the window that the code realises. -/
theorem simulation {lo hi : Word} (win : Byte → Word → Cell)
    (hwin : ∀ svbk a, lo ≤ a → a ≤ hi → cellAt svbk a = win svbk a) :
    Machine.Simulation step (Machine.total (fun s op => Banked.step win s op.access))
      (Op.Within lo hi) Refines := by
  refine layout.simulation Op.place step_eq (fun _ => access?_place) ?_
  intro op hok a b hop svbk
  cases op with
  | writeInnerVaddr a' data =>
      cases hop
      exact hwin svbk a hok.1 hok.2
  | setSVBKReg value => cases hop
  | writePhysAddr p data => cases hop

/-- A run of operations is a run of the reference memory. -/
theorem run_refines {lo hi : Word} (win : Byte → Word → Cell)
    (hwin : ∀ svbk a, lo ≤ a → a ≤ hi → cellAt svbk a = win svbk a)
    {w : WRAM} {s : Banked.State Byte Cell Byte} (h : Refines w s) {ops : List Op}
    (hops : ∀ op ∈ ops, op.Within lo hi) :
    ∃ w', Machine.run step w ops = some w'
      ∧ Refines w' ((ops.map Op.access).foldl (Banked.step win) s) := by
  obtain ⟨w', hrun, hr⟩ := (simulation win hwin).run_total h hops
  exact ⟨w', hrun, by rw [List.foldl_map]; exact hr⟩

/--
**Work RAM is eight independent banks.**

From any content and any `SVBK`, a sequence of bank switches, writes through
`[0xC000, 0xDFFF]` and physical writes below 32 KB never leaves the buffer, and
every read afterwards, by either path, gives the byte of the latest write to the
same bank and offset, or the initial byte. The bank of each access is the one
selected at its moment. No index computed on the way exceeds the buffer, so
narrowing it to a `word_t` changes nothing.
-/
theorem refines_eightBanks (memory : Vector Byte maxSize.toNat) (svbk : Byte) (ops : List Op)
    (hops : ∀ op ∈ ops, op.Within wram0BaseVaddr wramxLastVaddr) :
    let s₀ := reference memory svbk
    let s := (ops.map Op.access).foldl (Banked.step windowCell) s₀
    ∃ w, Machine.run step (withContent memory svbk) ops = some w
      ∧ (∀ a, wram0BaseVaddr ≤ a → a ≤ wramxLastVaddr →
          w.readInnerVaddr a = some (s.cells (windowCell s.reg a)))
      ∧ (∀ p : Word, p.toNat < 32768 → w.readPhysAddr p = some (s.cells (physCell p)))
      ∧ (∀ c, s.cells c = (History.last (Banked.writes c)
          (Banked.writeLog windowCell s₀ (ops.map Op.access))).getD (s₀.cells c))
      ∧ ∀ (u : WRAM) (a : Word), (u.calcPhysAddr a).toNat < 32768
          ∧ ((u.calcPhysAddr a).setWidth 16).toNat = (u.calcPhysAddr a).toNat := by
  obtain ⟨w, hrun, hr⟩ := run_refines windowCell
    (fun _ _ hlo hhi => cellAt_eq_windowCell hlo hhi) (refines_withContent memory svbk) hops
  refine ⟨w, hrun, ?_, ?_, fun c => Banked.cells_eq_latest _ _ _ c, fun u a => ⟨?_, ?_⟩⟩
  · intro a hlo hhi
    rw [hr.readInnerVaddr a, cellAt_eq_windowCell hlo hhi]
  · intro p hp
    exact hr.readPhysAddr hp
  · exact calcPhysAddr_lt u a
  · rw [calcPhysAddr_narrow, calcPhysAddr_toNat]

/-- Bank 2 is written at offset 0, then bank 3; the first write survives in bank 2. -/
theorem refines_eightBanks_sample :
    ∃ w, Machine.run step (withContent (Vector.replicate _ 0) 2)
        [.writeInnerVaddr 0xD000 7, .setSVBKReg 3, .writeInnerVaddr 0xD000 9] = some w
      ∧ w.readPhysAddr 0x2000 = some 7 ∧ w.readInnerVaddr 0xD000 = some 9 := by
  obtain ⟨w, hrun, hinner, hphys, _⟩ := refines_eightBanks (Vector.replicate _ 0) 2
    [.writeInnerVaddr 0xD000 7, .setSVBKReg 3, .writeInnerVaddr 0xD000 9] (by
      simp only [List.forall_mem_cons, Op.Within, List.not_mem_nil, false_imp_iff, implies_true]
      decide)
  exact ⟨w, hrun, hphys 0x2000 (by decide), hinner 0xD000 (by decide) (by decide)⟩

end GBMU.WRAM
