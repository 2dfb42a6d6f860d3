import GBMU.Device.ORAM
import GBMU.Proof.VRAMBanks
import GBMU.Proof.WRAMBanks

/-!
# The memories on every argument

An inner address is any 16-bit value, and so is a physical one, while the buffers
are 32 KB, 16 KB and 160 bytes long. The inner accesses of `WRAM` and `VRAM` always
stay inside; a physical access past the end of a buffer has no defined outcome, and
nothing else goes wrong in any run.

The addresses of `WRAM` outside `[0xC000, 0xDFFF]` reach cells too. `cellAt_eq_iff`
says which of them are one cell.
-/

namespace GBMU

namespace WRAM

/-- The cell of a physical address. -/
def cellOf? (p : Word) : Option Cell := if p.toNat < 32768 then some (physCell p) else none

def Op.access? : Op → Option (Banked.Access Byte Word Cell Byte)
  | .setSVBKReg value => some (.select value)
  | .writeInnerVaddr a data => some (.window a data)
  | .writePhysAddr p data => (cellOf? p).map (fun c => .direct c data)

theorem Op.access?_eq (op : Op) :
    op.access? = Banked.Layout.access? banked physCell op.place := by
  cases op <;> rfl

/-- **Work RAM is a banked memory, whatever the arguments.** -/
theorem realises (memory : Vector Byte maxSize.toNat) (svbk : Byte) :
    Banked.Realises step readInnerVaddr readPhysAddr cellAt Op.access? cellOf?
      (withContent memory svbk) (reference memory svbk) :=
  layout.realises Op.place step_eq Op.access?_eq (refines_withContent memory svbk)

/-- **Which inner addresses are one cell**, at two moments. -/
theorem cellAt_eq_iff (svbk svbk' : Byte) (a b : Word) :
    cellAt svbk a = cellAt svbk' b
      ↔ a.toNat % 4096 = b.toNat % 4096 ∧ (wramxBaseVaddr ≤ a ↔ wramxBaseVaddr ≤ b)
        ∧ (wramxBaseVaddr ≤ a → selectedBank svbk = selectedBank svbk') := by
  -- bank 0 is never selected
  have hpos : ∀ s, selectedBank s ≠ 0 := by
    intro s hs
    have hval : (selectedBank s).val = 0 := congrArg Fin.val hs
    rw [selectedBank_val] at hval
    omega
  have hoffset : Fin.ofNat 4096 a.toNat = Fin.ofNat 4096 b.toNat
      ↔ a.toNat % 4096 = b.toNat % 4096 := by
    rw [← Fin.val_inj, Fin.val_ofNat, Fin.val_ofNat]
  rw [cellAt, cellAt, Prod.mk.injEq, hoffset, and_comm]
  refine and_congr_right (fun _ => ?_)
  by_cases ha : wramxBaseVaddr ≤ a
  · by_cases hb : wramxBaseVaddr ≤ b
    · rw [if_pos ha, if_pos hb]
      exact ⟨fun h => ⟨⟨fun _ => hb, fun _ => ha⟩, fun _ => h⟩, fun h => h.2 ha⟩
    · rw [if_pos ha, if_neg hb]
      exact ⟨fun h => absurd h (hpos svbk), fun h => absurd (h.1.mp ha) hb⟩
  · by_cases hb : wramxBaseVaddr ≤ b
    · rw [if_neg ha, if_pos hb]
      exact ⟨fun h => absurd h.symm (hpos svbk'), fun h => absurd (h.1.mpr hb) ha⟩
    · rw [if_neg ha, if_neg hb]
      exact ⟨fun _ => ⟨⟨fun h => absurd h ha, fun h => absurd h hb⟩, fun h => absurd h ha⟩,
        fun _ => rfl⟩

end WRAM

namespace VRAM

/-- The cell of a physical address. -/
def cellOf? (p : Word) : Option Cell := if p.toNat < 16384 then some (physCell p) else none

def Op.access? : Op → Option (Banked.Access Byte Word Cell Byte)
  | .setVBKReg value => some (.select value)
  | .writeInnerVaddr a value => some (.window a value)
  | .writePhysAddr p value => (cellOf? p).map (fun c => .direct c value)

theorem Op.access?_eq (op : Op) :
    op.access? = Banked.Layout.access? banked physCell op.place := by
  cases op <;> rfl

/-- **Video RAM is a banked memory, whatever the arguments.** -/
theorem realises (memory : Vector Byte vramMaxSize.toNat) :
    Banked.Realises step readInnerVaddr readPhysAddr windowCell Op.access? cellOf?
      (construct memory) (reference memory) :=
  layout.realises Op.place step_eq Op.access?_eq (refines_construct memory)

end VRAM

namespace ORAM

/-- One piece of 160 bytes. -/
abbrev Cell := Banked.Cell 1 160

def physCell (p : Word) : Cell := (0, Fin.ofNat 160 p.toNat)

def cellOf? (p : Word) : Option Cell := if p.toNat < 160 then some (physCell p) else none

/-- The calls that change the state are `write_phys_addr(physAddr, value)`. -/
def step (o : ORAM) (op : Word × Byte) : Option ORAM := o.writePhysAddr op.1 op.2

def access? (op : Word × Byte) : Option (Banked.Access Unit Empty Cell Byte) :=
  (cellOf? op.1).map (fun c => .direct c op.2)

/-- There is no window. -/
def noWindow (_ : Unit) (a : Empty) : Cell := a.elim

def reference (memory : Vector Byte oramSize.toNat) : Banked.State Unit Cell Byte :=
  { reg := (), cells := @Banked.ofFlat Byte 1 160 memory }

theorem physCell_index {p : Word} (hp : p.toNat < 160) : (physCell p).index = p.toNat := by
  rw [Banked.Cell.index_eq, physCell]
  simp only [Fin.val_ofNat]
  show 0 * 160 + p.toNat % 160 = p.toNat
  omega

/-- Object RAM as a device with no window and nothing to select. -/
def banked : Banked.Device ORAM Unit Empty Word Byte where
  memory := ORAM.memory
  setMemory := fun _ memory => { memory := memory }
  select := fun o _ => o
  window := fun _ a => a.elim
  direct := BitVec.toNat
  memory_setMemory := fun _ _ => rfl
  memory_select := fun _ _ => rfl

theorem layout : Banked.Layout banked (fun _ _ => True) noWindow physCell where
  select := fun _ _ => trivial
  setMemory := fun _ _ => trivial
  window := fun a _ => a.elim
  direct := physCell_index

/-- **Object RAM is a memory of 160 bytes, whatever the arguments.** -/
theorem realises (memory : Vector Byte oramSize.toNat) :
    Banked.Realises step (fun _ a => a.elim) readPhysAddr noWindow access? cellOf?
      (construct memory) (reference memory) := by
  have h : Banked.Realises step (fun o a => banked.read o (banked.window o a)) readPhysAddr
      noWindow access? cellOf? (construct memory) (reference memory) :=
    layout.realises (fun op => .direct op.1 op.2) (fun _ _ => rfl) (fun _ => rfl)
      ⟨trivial, @Banked.flat_ofFlat Byte 1 160 memory⟩
  exact { h with window := fun _ _ _ a => a.elim }

end ORAM

/--
**The three memories, on every argument and in every run.**

Each realises a memory of cells: a run is defined exactly when no physical write
goes past the end of the buffer, every inner read is defined, and so is a physical
read inside of it, and each gives the byte of its cell after the accesses of the
run. Two inner addresses of `WRAM` are one cell, at any two moments, exactly when
they agree modulo 4 KB, lie on the same side of `WRAMX_BASE_VADDR` and, above it,
the bytes in `SVBK` select the same bank.
-/
theorem memories_exact :
    (∀ (memory : Vector Byte WRAM.maxSize.toNat) (svbk : Byte),
        Banked.Realises WRAM.step WRAM.readInnerVaddr WRAM.readPhysAddr WRAM.cellAt
          WRAM.Op.access? WRAM.cellOf? (WRAM.withContent memory svbk) (WRAM.reference memory svbk))
      ∧ (∀ memory : Vector Byte vramMaxSize.toNat,
        Banked.Realises VRAM.step VRAM.readInnerVaddr VRAM.readPhysAddr VRAM.windowCell
          VRAM.Op.access? VRAM.cellOf? (VRAM.construct memory) (VRAM.reference memory))
      ∧ (∀ memory : Vector Byte oramSize.toNat,
        Banked.Realises ORAM.step (fun _ a => a.elim) ORAM.readPhysAddr ORAM.noWindow
          ORAM.access? ORAM.cellOf? (ORAM.construct memory) (ORAM.reference memory))
      ∧ ∀ (svbk svbk' : Byte) (a b : Word), WRAM.cellAt svbk a = WRAM.cellAt svbk' b
          ↔ a.toNat % 4096 = b.toNat % 4096 ∧ (wramxBaseVaddr ≤ a ↔ wramxBaseVaddr ≤ b)
            ∧ (wramxBaseVaddr ≤ a → WRAM.selectedBank svbk = WRAM.selectedBank svbk') :=
  ⟨WRAM.realises, VRAM.realises, ORAM.realises, WRAM.cellAt_eq_iff⟩

end GBMU
