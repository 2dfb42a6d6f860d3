import GBMU.Proof.WRAMBanks

/-!
# The echo of work RAM

The address map calls `[0xE000, 0xEFFF]` the echo of WRAM0 and `[0xF000, 0xFDFF]`
the echo of WRAMX: an access at `e` should be the access at `e - 0x2000`.

The upper half is. The lower half is not, in any state: `__calc_phys_addr` asks
only whether the address is at least `WRAMX_BASE_VADDR`, and every echo address
is, so an access to the echo of WRAM0 lands in the selected bank, which is never
bank 0. `echoLaw_iff` draws the line exactly.
-/

namespace GBMU.WRAM

/-- The distance from an echo address to the address it repeats. -/
def echoDistance : Word := wram0EchoBaseVaddr - wram0BaseVaddr

/-- In the state `w`, the echo address `e` behaves as the address it repeats. -/
structure EchoLaw (w : WRAM) (e : Word) : Prop where
  /-- Both read the same byte. -/
  read : w.readInnerVaddr e = w.readInnerVaddr (e - echoDistance)
  /-- Writing either leaves the same state. -/
  write : ∀ b, w.writeInnerVaddr e b = w.writeInnerVaddr (e - echoDistance) b
  /-- What is written through the echo is seen through the main address. -/
  seen : ∀ b w', w.writeInnerVaddr e b = some w' → w'.readInnerVaddr (e - echoDistance) = some b
  /-- And the reverse. -/
  seenBack : ∀ b w', w.writeInnerVaddr (e - echoDistance) b = some w' →
    w'.readInnerVaddr e = some b
  /-- A write through the echo disturbs no other cell. -/
  frame : ∀ b w' (p : Word), w.writeInnerVaddr e b = some w' →
    p ≠ (w.calcPhysAddr (e - echoDistance)).setWidth 16 → w'.readPhysAddr p = w.readPhysAddr p

/-! ## What one write does, in any state -/

theorem writePhysAddr_cases {w w' : WRAM} {p : Word} {b : Byte}
    (h : w.writePhysAddr p b = some w') :
    p.toNat < w.memory.length ∧ w' = { w with memory := w.memory.set p.toNat b } := by
  rw [writePhysAddr, Bytes.put?] at h
  split at h
  · rename_i hlt
    exact ⟨hlt, (Option.some.inj h).symm⟩
  · exact absurd h (by simp)

/-- A byte written is read back through any address that computes to the same place. -/
theorem readInnerVaddr_of_write {w w' : WRAM} {a c : Word} {b : Byte}
    (h : w.writeInnerVaddr a b = some w') (hac : w.calcPhysAddr a = w.calcPhysAddr c) :
    w'.readInnerVaddr c = some b := by
  obtain ⟨hlt, rfl⟩ := writePhysAddr_cases h
  -- the computed address depends on `SVBK` alone, which the write kept
  show Bytes.get? _ ((w.calcPhysAddr c).setWidth 16).toNat = some b
  rw [← hac, Bytes.get?]
  exact List.getElem?_set_self hlt

theorem readPhysAddr_of_write {w w' : WRAM} {a p : Word} {b : Byte}
    (h : w.writeInnerVaddr a b = some w') (hp : p ≠ (w.calcPhysAddr a).setWidth 16) :
    w'.readPhysAddr p = w.readPhysAddr p := by
  obtain ⟨_, rfl⟩ := writePhysAddr_cases h
  rw [readPhysAddr, readPhysAddr, Bytes.get?, Bytes.get?]
  exact List.getElem?_set_ne (fun he => hp (BitVec.eq_of_toNat_eq he).symm)

/-- Addresses that compute to the same place obey the law. -/
theorem EchoLaw.of_calcPhysAddr_eq {w : WRAM} {e : Word}
    (h : w.calcPhysAddr e = w.calcPhysAddr (e - echoDistance)) : EchoLaw w e where
  read := by rw [readInnerVaddr, readInnerVaddr, h]
  write := by
    intro b
    rw [writeInnerVaddr, writeInnerVaddr, h]
  seen := fun _ _ hw => readInnerVaddr_of_write hw h
  seenBack := fun _ _ hw => readInnerVaddr_of_write hw h.symm
  frame := fun _ _ _ hw hp => readPhysAddr_of_write hw (by rwa [h])

/-! ## Which half the law holds in -/

theorem echo_sub_toNat {e : Word} (hlo : wram0EchoBaseVaddr ≤ e) :
    (e - echoDistance).toNat = e.toNat - 0x2000 := by
  have hlo' : 0xE000 ≤ e.toNat := hlo
  have hd : echoDistance ≤ e := by
    show 0x2000 ≤ e.toNat
    omega
  rw [BitVec.toNat_sub_of_le hd]
  rfl

/-- From `0xF000` up, the echo address and the main one are both in the banked half. -/
theorem calcPhysAddr_echo_upper (w : WRAM) {e : Word} (he : wramxEchoBaseVaddr ≤ e) :
    w.calcPhysAddr e = w.calcPhysAddr (e - echoDistance) := by
  have he' : 0xF000 ≤ e.toNat := he
  have hsub := echo_sub_toNat (e := e) (by show 0xE000 ≤ e.toNat; omega)
  have hx : wramxBaseVaddr ≤ e := by show 0xD000 ≤ e.toNat; omega
  have hx' : wramxBaseVaddr ≤ e - echoDistance := by
    show 0xD000 ≤ (e - echoDistance).toNat
    omega
  refine BitVec.eq_of_toNat_eq ?_
  -- the same bank, and the distance is a multiple of the bank size
  rw [calcPhysAddr_toNat, calcPhysAddr_toNat, Banked.Cell.index_inj, cellAt, cellAt, if_pos hx,
    if_pos hx']
  refine Prod.ext rfl (Fin.ext ?_)
  simp only [Fin.val_ofNat]
  omega

/-- Below `0xF000`, the echo address reaches the selected bank and the main one bank 0. -/
theorem cellAt_echo_lower (svbk : Byte) {e : Word} (hlo : wram0EchoBaseVaddr ≤ e)
    (he : ¬ wramxEchoBaseVaddr ≤ e) : cellAt svbk e ≠ cellAt svbk (e - echoDistance) := by
  have hlo' : 0xE000 ≤ e.toNat := hlo
  have he' : e.toNat < 0xF000 := Nat.lt_of_not_le he
  have hsub := echo_sub_toNat hlo
  have hx : wramxBaseVaddr ≤ e := by show 0xD000 ≤ e.toNat; omega
  have hx' : ¬ wramxBaseVaddr ≤ e - echoDistance := by
    intro hc
    have : 0xD000 ≤ (e - echoDistance).toNat := hc
    omega
  rw [cellAt, cellAt, if_pos hx, if_neg hx']
  intro hc
  -- but no value of `SVBK` selects bank 0
  have hbank : (selectedBank svbk).val = 0 := congrArg (fun c => c.1.val) hc
  rw [selectedBank_val] at hbank
  omega

/-- **In the echo of WRAM0 the law fails in every state of the device.** -/
theorem not_echoLaw_lower {w : WRAM} {s : Banked.State Byte Cell Byte} (h : Refines w s)
    {e : Word} (hlo : wram0EchoBaseVaddr ≤ e) (he : ¬ wramxEchoBaseVaddr ≤ e) :
    ¬ EchoLaw w e := by
  intro hlaw
  -- write a byte the main cell does not hold
  obtain ⟨b, hb⟩ : ∃ b : Byte, b ≠ s.cells (cellAt s.reg (e - echoDistance)) :=
    ⟨~~~ s.cells (cellAt s.reg (e - echoDistance)), by
      intro hc
      have := congrArg (fun x => x.getLsbD 0) hc
      simp at this⟩
  obtain ⟨w', hw', hr⟩ := h.writeInnerVaddr e b
  have hread := hr.readInnerVaddr (e - echoDistance)
  rw [hlaw.seen b w' hw'] at hread
  dsimp only at hread
  rw [Function.update_of_ne (cellAt_echo_lower s.reg hlo he).symm] at hread
  exact hb (Option.some.inj hread)

/--
**Exactly the echo of WRAMX is an echo.**

After any sequence of bank switches, writes through `[0xC000, 0xFDFF]` and
physical writes below 32 KB, an echo address behaves as the address `0x2000`
below it if and only if it is at least `0xF000`.
-/
theorem echoLaw_iff (memory : Vector Byte maxSize.toNat) (svbk : Byte) (ops : List Op)
    (hops : ∀ op ∈ ops, op.Within wram0BaseVaddr wramxEchoLastVaddr) :
    ∃ w, Machine.run step (withContent memory svbk) ops = some w
      ∧ ∀ e, wram0EchoBaseVaddr ≤ e → e ≤ wramxEchoLastVaddr →
          (EchoLaw w e ↔ wramxEchoBaseVaddr ≤ e) := by
  obtain ⟨w, hrun, hr⟩ := run_refines cellAt (fun _ _ _ _ => rfl)
    (refines_withContent memory svbk) hops
  refine ⟨w, hrun, fun e hlo _ => ⟨fun hlaw => ?_, fun he => ?_⟩⟩
  · by_cases he : wramxEchoBaseVaddr ≤ e
    · exact he
    · exact absurd hlaw (not_echoLaw_lower hr hlo he)
  · exact EchoLaw.of_calcPhysAddr_eq (calcPhysAddr_echo_upper w he)

/-- A byte written at `0xF123` in bank 5 is read at `0xD123`. -/
theorem echoLaw_iff_sample :
    ∃ w, Machine.run step (construct (Vector.replicate _ 0))
        [.setSVBKReg 5, .writeInnerVaddr 0xF123 7] = some w
      ∧ w.readInnerVaddr 0xF123 = w.readInnerVaddr 0xD123 := by
  obtain ⟨w, hrun, hiff⟩ := echoLaw_iff (Vector.replicate _ 0) svbkInitValue
    [.setSVBKReg 5, .writeInnerVaddr 0xF123 7] (by
      simp only [List.forall_mem_cons, Op.Within, List.not_mem_nil, false_imp_iff, implies_true]
      decide)
  exact ⟨w, hrun, ((hiff 0xF123 (by decide) (by decide)).mpr (by decide)).read⟩

/-- A byte written at `0xE000` on a fresh device is not read at `0xC000`. -/
theorem echo_lower_not_mirrored :
    ¬ ∀ (memory : Vector Byte maxSize.toNat) (svbk : Byte) (ops : List Op),
      (∀ op ∈ ops, op.Within wram0BaseVaddr wramxEchoLastVaddr) →
      ∀ w, Machine.run step (withContent memory svbk) ops = some w →
        ∀ e, wram0EchoBaseVaddr ≤ e → e ≤ wramxEchoLastVaddr → EchoLaw w e := by
  intro hall
  have hlaw := hall (Vector.replicate _ 0) svbkInitValue [] (by simp) _ rfl 0xE000
    (by decide) (by decide)
  exact not_echoLaw_lower (refines_withContent _ _) (by decide) (by decide) hlaw

end GBMU.WRAM
