import GBMU.Device.VRAM
import GBMU.Lib.BankedDevice

/-!
# Video RAM is a banked memory

The reference memory keeps the whole byte last written to `VBK`; the device
keeps bit 0 of it. `Selects` relates the two through that bit, and `windowCell`
reads nothing else of the register, so the bits `set_VBK_reg` drops are never
missed. With the address computation this is the `layout` of a banked device.
-/

namespace GBMU.VRAM

/-- Two banks of 8 KB. -/
abbrev Cell := Banked.Cell 2 8192

/-- The bank a byte written to `VBK` selects. -/
def selectedBank (vbk : Byte) : Fin 2 := if vbk.getLsbD 0 then 1 else 0

/-- What any 16-bit inner address means. -/
def windowCell (vbk : Byte) (a : Word) : Cell := (selectedBank vbk, Fin.ofNat 8192 a.toNat)

/-- What a physical address below 16 KB means. -/
def physCell (p : Word) : Cell := (Fin.ofNat 2 (p.toNat / 8192), Fin.ofNat 8192 p.toNat)

/-! ## The address computation -/

theorem selectedBank_congr {b c : Byte} (h : b.getLsbD 0 = c.getLsbD 0) :
    selectedBank b = selectedBank c := by
  rw [selectedBank, selectedBank, h]

/-- The one bit `set_VBK_reg` stores is bit 0 of its argument. -/
theorem getLsbD_setVBKReg (v : VRAM) (value : Byte) :
    (v.setVBKReg value).regs.VBK.getLsbD 0 = value.getLsbD 0 := by
  show ((BitVec.ofBool (bitN 0 (value.setWidth 32))).setWidth 8).getLsbD 0 = _
  rw [bitN_byte, BitVec.getLsbD_setWidth, BitVec.getLsbD_ofBool]
  simp

/-- Bank base plus offset does not wrap. -/
theorem calcPhysAddr_toNat (v : VRAM) (a : Word) :
    (v.calcPhysAddr a).toNat = (windowCell v.regs.VBK a).index := by
  have ha := a.isLt
  have hbit : bitN 0 (v.regs.VBK.setWidth 32) = v.regs.VBK.getLsbD 0 := bitN_byte 0 _
  have hsize : vramBankSize.toNat = 8192 := rfl
  rw [Banked.Cell.index_eq, calcPhysAddr, windowCell, selectedBank]
  dsimp only [Fin.val_ofNat]
  rw [hbit, BitVec.toNat_add, BitVec.toNat_umod, BitVec.toNat_setWidth, hsize]
  cases v.regs.VBK.getLsbD 0 with
  | false =>
      show (0 + a.toNat % 2 ^ 32 % 8192) % 2 ^ 32 = 0 * 8192 + a.toNat % 8192
      omega
  | true =>
      show (8192 + a.toNat % 2 ^ 32 % 8192) % 2 ^ 32 = 1 * 8192 + a.toNat % 8192
      omega

theorem calcPhysAddr_lt (v : VRAM) (a : Word) : (v.calcPhysAddr a).toNat < 16384 := by
  rw [calcPhysAddr_toNat]
  exact Banked.Cell.index_lt _

theorem calcPhysAddr_narrow (v : VRAM) (a : Word) :
    ((v.calcPhysAddr a).setWidth 16).toNat = (windowCell v.regs.VBK a).index := by
  have hlt := calcPhysAddr_lt v a
  rw [← calcPhysAddr_toNat, BitVec.toNat_setWidth]
  omega

theorem physCell_index {p : Word} (hp : p.toNat < 16384) : (physCell p).index = p.toNat := by
  rw [Banked.Cell.index_eq, physCell]
  dsimp only [Fin.val_ofNat]
  omega

/-- An offset and the CPU address `0x8000` above it mean the same cell. -/
theorem windowCell_base (vbk : Byte) {o : Word} (ho : o.toNat < 0x2000) :
    windowCell vbk (0x8000 + o) = windowCell vbk o := by
  have hadd : (0x8000 + o).toNat = 0x8000 + o.toNat := by
    rw [BitVec.toNat_add]
    show (0x8000 + o.toNat) % 2 ^ 16 = _
    omega
  refine Prod.ext rfl (Fin.ext ?_)
  -- 0x8000 is four times the bank size
  show (0x8000 + o).toNat % 8192 = o.toNat % 8192
  rw [hadd]
  omega

/-- Under different banks, no two addresses mean the same cell. -/
theorem windowCell_ne {b c : Byte} (h : b.getLsbD 0 ≠ c.getLsbD 0) (a a' : Word) :
    windowCell b a ≠ windowCell c a' := by
  intro he
  have hbank : selectedBank b = selectedBank c := congrArg Prod.fst he
  rw [selectedBank, selectedBank] at hbank
  cases hb : b.getLsbD 0 <;> cases hc : c.getLsbD 0 <;> simp_all

/-! ## The refinement -/

/-- Video RAM as a device over one list of bytes. -/
def banked : Banked.Device VRAM Byte Word Word Byte where
  memory := VRAM.memory
  setMemory := fun v memory => { v with memory := memory }
  select := setVBKReg
  window := fun v innerVaddr => ((v.calcPhysAddr innerVaddr).setWidth 16).toNat
  direct := BitVec.toNat
  memory_setMemory := fun _ _ => rfl
  memory_select := fun _ _ => rfl

def Op.place : Op → Banked.Access Byte Word Word Byte
  | .setVBKReg value => .select value
  | .writeInnerVaddr innerVaddr value => .window innerVaddr value
  | .writePhysAddr physAddr value => .direct physAddr value

theorem step_eq (v : VRAM) (op : Op) : v.step op = banked.step v op.place := by
  cases op <;> rfl

/-- `VBK` has bit 0 of the byte the reference memory keeps. -/
def Selects (v : VRAM) (vbk : Byte) : Prop := v.regs.VBK.getLsbD 0 = vbk.getLsbD 0

/-- **Video RAM is laid out bank after bank, and every inner address reaches `windowCell`.** -/
theorem layout : Banked.Layout banked Selects windowCell physCell where
  select := getLsbD_setVBKReg
  setMemory := fun _ h => h
  window := by
    intro v vbk a h
    have hcell : windowCell v.regs.VBK a = windowCell vbk a := by
      rw [windowCell, windowCell, selectedBank_congr h]
    rw [← hcell]
    exact calcPhysAddr_narrow v a
  direct := physCell_index

/-- The buffer lists the cells, and `VBK` selects as the register of the reference memory. -/
abbrev Refines (v : VRAM) (s : Banked.State Byte Cell Byte) : Prop :=
  Banked.Refines banked Selects v s

def reference (memory : Vector Byte vramMaxSize.toNat) : Banked.State Byte Cell Byte :=
  { reg := vbkInitValue, cells := @Banked.ofFlat Byte 2 8192 memory }

theorem refines_construct (memory : Vector Byte vramMaxSize.toNat) :
    Refines (construct memory) (reference memory) :=
  ⟨rfl, @Banked.flat_ofFlat Byte 2 8192 memory⟩

/-- Inner accesses go anywhere, physical ones stay in the buffer. -/
def Op.InRange : Op → Prop
  | .writePhysAddr p _ => p.toNat < 16384
  | _ => True

/-- What an operation does to the reference memory. -/
def Op.access : Op → Banked.Access Byte Word Cell Byte
  | .setVBKReg value => .select value
  | .writeInnerVaddr a value => .window a value
  | .writePhysAddr p value => .direct (physCell p) value

theorem access?_place {op : Op} (h : op.InRange) :
    Banked.Layout.access? banked physCell op.place = some op.access := by
  cases op with
  | setVBKReg value => rfl
  | writeInnerVaddr a value => rfl
  | writePhysAddr p value =>
      have hp : banked.direct p < 2 * 8192 := h
      rw [Op.place, Banked.Layout.access?, Banked.Layout.cellOf?, if_pos hp]
      rfl

theorem simulation :
    Machine.Simulation step
      (Machine.total (fun s op => Banked.step windowCell s (Op.access op))) Op.InRange Refines :=
  layout.simulation Op.place step_eq (fun _ => access?_place) (fun _ _ _ _ _ _ => rfl)

/--
**Video RAM is two independent banks, in both address conventions.**

From any content, a sequence of `VBK` writes, writes at any 16-bit address and
physical writes below 16 KB never leaves the buffer, and every read afterwards,
by either path, gives the byte of the latest write to the same bank and offset,
or the initial byte. The bank of an inner access is bit 0 of the byte last
written to `VBK` before it; banks do not show through each other, and
`0x8000 + o` and `o` are one address.
-/
theorem refines_twoBanks (memory : Vector Byte vramMaxSize.toNat) (ops : List Op)
    (hops : ∀ op ∈ ops, op.InRange) :
    let s₀ := reference memory
    let accesses := ops.map Op.access
    let s := accesses.foldl (Banked.step windowCell) s₀
    ∃ v, Machine.run step (construct memory) ops = some v
      ∧ s.reg = (History.last Banked.selects accesses).getD vbkInitValue
      ∧ (∀ a : Word, v.readInnerVaddr a = some (s.cells (windowCell s.reg a)))
      ∧ (∀ p : Word, p.toNat < 16384 → v.readPhysAddr p = some (s.cells (physCell p)))
      ∧ (∀ c, s.cells c = (History.last (Banked.writes c)
          (Banked.writeLog windowCell s₀ accesses)).getD (s₀.cells c))
      ∧ (∀ (vbk : Byte) (o : Word), o.toNat < 0x2000 →
          windowCell vbk (0x8000 + o) = windowCell vbk o)
      ∧ (∀ (b c : Byte) (a a' : Word), b.getLsbD 0 ≠ c.getLsbD 0 →
          windowCell b a ≠ windowCell c a')
      ∧ ∀ (u : VRAM) (a : Word), (u.calcPhysAddr a).toNat < 16384
          ∧ ((u.calcPhysAddr a).setWidth 16).toNat = (u.calcPhysAddr a).toNat := by
  obtain ⟨v, hrun, hr⟩ := simulation.run_total (refines_construct memory) hops
  rw [← List.foldl_map] at hr
  refine ⟨v, hrun, Banked.reg_eq_last _ _ _, layout.readWindow hr,
    fun p hp => layout.readDirect hr hp,
    fun c => Banked.cells_eq_latest _ _ _ c, fun vbk o ho => windowCell_base vbk ho,
    fun b c a a' hbc => windowCell_ne hbc a a', fun u a => ⟨calcPhysAddr_lt u a, ?_⟩⟩
  rw [calcPhysAddr_narrow, calcPhysAddr_toNat]

/-- Written under `VBK = 0xFF`, read by the physical path and at another alias of the offset. -/
theorem refines_twoBanks_sample :
    ∃ v, Machine.run step (construct (Vector.replicate _ 0))
        [.setVBKReg 0xFF, .writeInnerVaddr 0x8005 7, .writePhysAddr 0x0005 9] = some v
      ∧ v.readPhysAddr 0x2005 = some 7 ∧ v.readInnerVaddr 0x0005 = some 7 := by
  obtain ⟨v, hrun, _, hinner, hphys, _⟩ := refines_twoBanks (Vector.replicate _ 0)
    [.setVBKReg 0xFF, .writeInnerVaddr 0x8005 7, .writePhysAddr 0x0005 9] (by
      simp only [List.forall_mem_cons, Op.InRange, List.not_mem_nil, false_imp_iff, implies_true]
      decide)
  exact ⟨v, hrun, hphys 0x2005 (by decide), hinner 0x0005⟩

end GBMU.VRAM
