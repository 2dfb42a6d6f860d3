import GBMU.Lib.Observation
import GBMU.Proof.JoypadInterrupts
import GBMU.Proof.RegisterWriteBack

/-!
# Nothing is hidden but what is ignored

`GBMU/Proof/RegisterWriteBack.lean` gives each device a relation that ignores the
bits no reply depends on. The relations are as coarse as they can be: states that
no sequence of calls tells apart are related. So the abstract controller keeps
exactly what a program can find out about the real one, and a joypad hides nothing
of its five fields.

For each field there is an experiment that reads it. The hard one is the set
sampled at the last `step`, which no call returns: release every key, press one,
`step`, and look whether the interrupt was requested.
-/

namespace GBMU

/-- Calls answered in equivalent states are answered alike. -/
theorem reply_eq {σ ι ο : Type} {call : σ → ι → Option (σ × ο)} {s t s' t' : σ} {i : ι} {o o' : ο}
    (h : Machine.Equivalent call s t) (hs : call s i = some (s', o))
    (ht : call t i = some (t', o')) : o = o' ∧ Machine.Equivalent call s' t' := by
  rcases h.answered hs with ⟨t₁, ht₁, hequiv⟩
  rw [ht] at ht₁
  cases ht₁
  exact ⟨rfl, hequiv⟩

/-! ## Interrupt controller -/

namespace InterruptController

/-- Registers that read alike have the same lines. -/
theorem lines_eq_of_getReg {x y : Byte}
    (h : ((x.setWidth 32 ||| regReservedBits).setWidth 8 : Byte)
      = (y.setWidth 32 ||| regReservedBits).setWidth 8) : lines x = lines y := by
  rw [← lines_or_reserved x, h, lines_or_reserved y]

/-- **Controllers are told apart exactly when their abstract states differ.** -/
theorem equivalent_iff (c d : InterruptController) :
    Machine.Equivalent call c d ↔ c.abs = d.abs := by
  constructor
  · intro h
    have hIE := Reply.byte.inj (reply_eq (i := .getIEReg) h rfl rfl).1
    have hIF := Reply.byte.inj (reply_eq (i := .getIFReg) h rfl rfl).1
    have hIME := Reply.flag.inj (reply_eq (i := .getIMEReg) h rfl rfl).1
    unfold abs
    rw [lines_eq_of_getReg hIE, lines_eq_of_getReg hIF]
    exact congrArg (Abstract.mk _ _) hIME
  · exact bisimulation.equivalent

end InterruptController

/-! ## Joypad -/

namespace JoyPad

/-- A `step` returns nothing, so a caller does not see whether it raised. -/
def Reply.quiet : Reply → Reply
  | .raised _ => .done
  | reply => reply

def System.quietCall (s : System) (q : Call) : Option (System × Reply) :=
  (s.call q).map (fun p => (p.1, p.2.quiet))

theorem quiet_bisimulation : Machine.Bisimulation System.quietCall Indistinct where
  call := fun q h => Machine.rel_map_imp (bisimulation.call q h)
    (fun _ _ hab => ⟨hab.1, congrArg Reply.quiet hab.2⟩)

/-- Equivalent states of a system. -/
abbrev Same (s t : System) : Prop := Machine.Equivalent System.quietCall s t

theorem Same.controller {s t : System} (h : Same s t) :
    s.controller.abs = t.controller.abs := by
  have hIE := (reply_eq (i := .controller .getIEReg) h rfl rfl).1
  have hIF := (reply_eq (i := .controller .getIFReg) h rfl rfl).1
  have hIME := (reply_eq (i := .controller .getIMEReg) h rfl rfl).1
  have hIE' := InterruptController.Reply.byte.inj (Reply.controller.inj hIE)
  have hIF' := InterruptController.Reply.byte.inj (Reply.controller.inj hIF)
  have hIME' := InterruptController.Reply.flag.inj (Reply.controller.inj hIME)
  unfold InterruptController.abs
  rw [InterruptController.lines_eq_of_getReg hIE', InterruptController.lines_eq_of_getReg hIF']
  exact congrArg (InterruptController.Abstract.mk _ _) hIME'

theorem Same.getP1Reg {s t : System} (h : Same s t) :
    s.joypad.getP1Reg = t.joypad.getP1Reg :=
  Reply.byte.inj (reply_eq (i := .getP1Reg) h rfl rfl).1

theorem Same.select {s t : System} (h : Same s t) :
    s.joypad.p14 = t.joypad.p14 ∧ s.joypad.p15 = t.joypad.p15 := by
  have hbyte := h.getP1Reg
  have hs := getLsbD_getP1Reg_select s.joypad
  have ht := getLsbD_getP1Reg_select t.joypad
  rw [← hbyte] at ht
  exact ⟨hs.1.symm.trans ht.1, hs.2.symm.trans ht.2⟩

@[simp] theorem pressedKeySet_setP1Reg (j : JoyPad) (value : Byte) :
    (j.setP1Reg value).pressedKeySet = j.pressedKeySet := rfl

/-- Selecting a row shows its keys. -/
theorem Same.key {s t : System} (h : Same s t) (k : KeyIdx) :
    s.joypad.pressedKeySet.getLsbD k.val.toNat = t.joypad.pressedKeySet.getLsbD k.val.toNat := by
  have hread : ∀ value : Byte,
      (s.joypad.setP1Reg value).getP1Reg = (t.joypad.setP1Reg value).getP1Reg := by
    intro value
    have hset : Same _ _ := (reply_eq (i := .setP1Reg value) h rfl rfl).2
    exact hset.getP1Reg
  rcases exists_row k with ⟨i, hrow⟩
  rcases hrow with hrow | hrow
  · have hbit := congrArg (fun b => b.getLsbD i.val) (hread 0x10)
    simp only [getLsbD_getP1Reg_line, setP1Reg_p14, setP1Reg_p15] at hbit
    subst hrow
    simpa using hbit
  · have hbit := congrArg (fun b => b.getLsbD i.val) (hread 0x20)
    simp only [getLsbD_getP1Reg_line, setP1Reg_p14, setP1Reg_p15] at hbit
    subst hrow
    simpa using hbit

theorem keySet_ext {x y : Byte} (h : ∀ k : KeyIdx, x.getLsbD k.val.toNat = y.getLsbD k.val.toNat) :
    x = y := by
  refine BitVec.eq_of_getLsbD_eq (fun i hi => ?_)
  rcases exists_keyIdx hi with ⟨k, rfl⟩
  exact h k

/-! ### The set sampled at the last step -/

/-- Release every key and press one. -/
def holdOnly (k : KeyIdx) : List Call := allKeys.map .unpressKey ++ [.pressKey k]

/-- The joypad after that. -/
def holding (j : JoyPad) (k : KeyIdx) : JoyPad := (allKeys.foldl unpressKey j).pressKey k

theorem run_holdOnly (s : System) (k : KeyIdx) :
    Machine.run (fun s q => (System.quietCall s q).map Prod.fst) s (holdOnly k)
      = some { s with joypad := holding s.joypad k } := rfl

theorem getLsbD_foldl_unpressKey {i : Nat} (hi : i < 8) (ks : List KeyIdx) (j : JoyPad) :
    (ks.foldl unpressKey j).pressedKeySet.getLsbD i
      = (j.pressedKeySet.getLsbD i && !decide (i ∈ ks.map (fun k => k.val.toNat))) := by
  induction ks generalizing j with
  | nil => simp
  | cons k ks ih =>
      rw [List.foldl_cons, ih, getLsbD_unpressKey j k hi]
      simp [Bool.and_assoc]

theorem getLsbD_holding (j : JoyPad) (k : KeyIdx) {i : Nat} (hi : i < 8) :
    (holding j k).pressedKeySet.getLsbD i = decide (i = k.val.toNat) := by
  rcases exists_keyIdx hi with ⟨l, rfl⟩
  have hall : l.val.toNat ∈ allKeys.map (fun k => k.val.toNat) :=
    List.mem_map_of_mem (mem_allKeys l)
  rw [holding, getLsbD_pressKey _ _ hi, getLsbD_foldl_unpressKey hi, decide_eq_true hall]
  simp

theorem previousStepKeySet_foldl (ks : List KeyIdx) (j : JoyPad) :
    (ks.foldl unpressKey j).previousStepKeySet = j.previousStepKeySet := by
  induction ks generalizing j with
  | nil => rfl
  | cons k ks ih => exact ih (j.unpressKey k)

theorem interruptLink_foldl (ks : List KeyIdx) (j : JoyPad) :
    (ks.foldl unpressKey j).interruptLink = j.interruptLink := by
  induction ks generalizing j with
  | nil => rfl
  | cons k ks ih => exact ih (j.unpressKey k)

/-- With one key held, a step sees an edge exactly when that key was not sampled. -/
theorem edge_holding (j : JoyPad) (k : KeyIdx) :
    (holding j k).pressedSinceStep ≠ 0 ↔ j.previousStepKeySet.getLsbD k.val.toNat = false := by
  have hprevious : (holding j k).previousStepKeySet = j.previousStepKeySet :=
    previousStepKeySet_foldl allKeys j
  have hzero : (0 : U32) = 0#32 := rfl
  rw [hzero, Bits.ne_zero_iff]
  constructor
  · intro hbit
    rcases hbit with ⟨i, hi⟩
    rw [getLsbD_pressedSinceStep, hprevious, Bool.and_eq_true, Bool.and_eq_true,
      decide_eq_true_eq] at hi
    rcases hi with ⟨⟨hlt, hsampled⟩, hheld⟩
    rw [getLsbD_holding j k hlt, decide_eq_true_eq] at hheld
    rw [← hheld]
    simpa using hsampled
  · intro hsampled
    refine ⟨k.val.toNat, ?_⟩
    have hlt := keyIdx_val_lt k
    rw [getLsbD_pressedSinceStep, hprevious, hsampled, getLsbD_holding j k hlt]
    simp [hlt]

/-- A step without an edge is harmless, linked or not. -/
theorem step_of_no_edge {j : JoyPad} (h : j.pressedSinceStep = 0) (ic : InterruptController) :
    j.step ic = some ({ j with previousStepKeySet := j.pressedKeySet }, ic) := by
  unfold step
  simp only [h, ne_eq, not_true_eq_false, if_false]
  rfl

/-- A step with an edge requests the interrupt, or there is nowhere to. -/
theorem step_of_edge {j : JoyPad} (h : j.pressedSinceStep ≠ 0) (ic : InterruptController) :
    j.step ic = match j.interruptLink with
      | .null => none
      | .controller =>
          some ({ j with previousStepKeySet := j.pressedKeySet },
            ic.requestInterrupt .joypadInt) := by
  unfold step raiseInterrupt
  simp only [h, ne_eq, not_false_eq_true, if_true]
  cases j.interruptLink <;> rfl

theorem joypadBit_congr {c d : InterruptController} (h : c.abs = d.abs) :
    joypadBit c = joypadBit d := by
  have hpending : (4 : Line) ∈ c.abs.pending ↔ (4 : Line) ∈ d.abs.pending := by rw [h]
  unfold InterruptController.abs at hpending
  rw [InterruptController.mem_lines, InterruptController.mem_lines] at hpending
  exact Bool.eq_iff_iff.mpr hpending

/-- The request of a step shows in `IF`, once it has been reset before. -/
theorem Same.edge {s t : System} (h : Same s t) (hs : s.joypad.pressedSinceStep ≠ 0) :
    t.joypad.pressedSinceStep ≠ 0 := by
  intro ht
  have hreset := (reply_eq (i := .controller (.op (.resetInterrupt .joypadInt))) h rfl rfl).2
  have hquiet : System.quietCall
      { t with controller := t.controller.step (.resetInterrupt .joypadInt) } .step
      = some ({ joypad := { t.joypad with previousStepKeySet := t.joypad.pressedKeySet },
                controller := t.controller.step (.resetInterrupt .joypadInt) }, .done) := by
    unfold System.quietCall System.call System.step
    simp only [step_of_no_edge ht, Option.map_some]
    rfl
  rcases hreset.symm.answered hquiet with ⟨s', hs', hsame⟩
  have hcleared := joypadBit_controller t.controller (.resetInterrupt .joypadInt)
  unfold System.quietCall System.call System.step at hs'
  simp only [step_of_edge hs] at hs'
  cases hlink : s.joypad.interruptLink with
  | null =>
      rw [hlink] at hs'
      cases hs'
  | controller =>
      rw [hlink] at hs'
      cases hs'
      have hbit := joypadBit_congr (Same.controller hsame)
      have hraised := joypadBit_controller
        (s.controller.step (.resetInterrupt .joypadInt)) (.requestInterrupt .joypadInt)
      rw [hcleared] at hbit
      rw [show InterruptController.step _ _ = InterruptController.requestInterrupt _ _ from rfl,
        ← hbit] at hraised
      cases hraised

theorem Same.edge_iff {s t : System} (h : Same s t) :
    s.joypad.pressedSinceStep ≠ 0 ↔ t.joypad.pressedSinceStep ≠ 0 :=
  ⟨h.edge, Same.edge h.symm⟩

theorem Same.holding {s t : System} (h : Same s t) (k : KeyIdx) :
    Same { s with joypad := JoyPad.holding s.joypad k }
      { t with joypad := JoyPad.holding t.joypad k } :=
  Machine.Equivalent.run (holdOnly k) h (run_holdOnly s k) (run_holdOnly t k)

theorem Same.sampled {s t : System} (h : Same s t) :
    s.joypad.previousStepKeySet = t.joypad.previousStepKeySet := by
  refine keySet_ext (fun k => ?_)
  have hedge := (h.holding k).edge_iff
  rw [edge_holding, edge_holding] at hedge
  cases hs : s.joypad.previousStepKeySet.getLsbD k.val.toNat with
  | false => exact (hedge.mp hs).symm
  | true =>
      cases ht : t.joypad.previousStepKeySet.getLsbD k.val.toNat with
      | false => exact absurd (hedge.mpr ht) (by simp [hs])
      | true => rfl

/-! ### The link -/

/-- The joypad with no key pressed and none sampled. -/
def settled (j : JoyPad) : JoyPad :=
  { allKeys.foldl unpressKey j with
    previousStepKeySet := (allKeys.foldl unpressKey j).pressedKeySet }

theorem foldl_unpressKey_eq_zero (j : JoyPad) :
    (allKeys.foldl unpressKey j).pressedKeySet = 0 := by
  refine keySet_ext (fun k => ?_)
  have hall : k.val.toNat ∈ allKeys.map (fun k => k.val.toNat) :=
    List.mem_map_of_mem (mem_allKeys k)
  rw [getLsbD_foldl_unpressKey (keyIdx_val_lt k), decide_eq_true hall]
  simp

theorem previousStepKeySet_settled (j : JoyPad) : (settled j).previousStepKeySet = 0 :=
  foldl_unpressKey_eq_zero j

theorem interruptLink_settled (j : JoyPad) : (settled j).interruptLink = j.interruptLink :=
  interruptLink_foldl allKeys j

theorem interruptLink_holding (j : JoyPad) (k : KeyIdx) :
    (holding j k).interruptLink = j.interruptLink :=
  interruptLink_foldl allKeys j

/-- With every key released, a step samples nothing and raises nothing. -/
theorem Same.settled {s t : System} (h : Same s t) :
    Same { s with joypad := JoyPad.settled s.joypad }
      { t with joypad := JoyPad.settled t.joypad } := by
  have hstep : ∀ s : System, System.quietCall
      { s with joypad := allKeys.foldl unpressKey s.joypad } .step
      = some ({ s with joypad := JoyPad.settled s.joypad }, .done) := by
    intro s
    have hnone : (allKeys.foldl unpressKey s.joypad).pressedSinceStep = 0 := by
      rw [pressedSinceStep, foldl_unpressKey_eq_zero]
      exact BitVec.and_zero
    unfold System.quietCall System.call System.step
    simp only [step_of_no_edge hnone, Option.map_some]
    rfl
  have hreleased : Same { s with joypad := allKeys.foldl unpressKey s.joypad }
      { t with joypad := allKeys.foldl unpressKey t.joypad } :=
    Machine.Equivalent.run (allKeys.map .unpressKey) h rfl rfl
  exact (reply_eq hreleased (hstep s) (hstep t)).2

/-- Whether a step with an edge is answered shows whether there is a controller. -/
theorem Same.link {s t : System} (h : Same s t) :
    s.joypad.interruptLink = t.joypad.interruptLink := by
  have hedge : ∀ j : JoyPad, (JoyPad.holding (JoyPad.settled j) .aKey).pressedSinceStep ≠ 0 := by
    intro j
    rw [edge_holding]
    rw [previousStepKeySet_settled]
    exact BitVec.getLsbD_zero
  have hlink : ∀ j : JoyPad,
      (JoyPad.holding (JoyPad.settled j) .aKey).interruptLink = j.interruptLink := by
    intro j
    rw [interruptLink_holding, interruptLink_settled]
  have hrel := (h.settled.holding .aKey).rel .step
  unfold System.quietCall System.call System.step at hrel
  simp only [step_of_edge (hedge _), hlink] at hrel
  cases hs : s.joypad.interruptLink <;> cases ht : t.joypad.interruptLink
  · rfl
  · rw [hs, ht] at hrel
    cases hrel
  · rw [hs, ht] at hrel
    cases hrel
  · rfl

/-- **Systems are told apart exactly when a joypad field or the abstract controllers differ.** -/
theorem equivalent_iff (s t : System) :
    Machine.Equivalent System.quietCall s t ↔ Indistinct s t := by
  constructor
  · intro h
    have hsame : Same s t := h
    refine ⟨?_, hsame.controller⟩
    obtain ⟨⟨link, previous, pressed, p14, p15⟩, c⟩ := s
    obtain ⟨⟨link', previous', pressed', p14', p15'⟩, d⟩ := t
    have hlink : link = link' := hsame.link
    have hprevious : previous = previous' := hsame.sampled
    have hpressed : pressed = pressed' := keySet_ext hsame.key
    have h14 : p14 = p14' := hsame.select.1
    have h15 : p15 = p15' := hsame.select.2
    rw [hlink, hprevious, hpressed, h14, h15]
  · exact quiet_bisimulation.equivalent

end JoyPad

/-! ## Memories -/

/-- Bytes that a `word_t` reaches are read one by one. -/
theorem bytes_ext {m n : Bytes} (hm : m.length ≤ 2 ^ 16) (hn : n.length ≤ 2 ^ 16)
    (h : ∀ p : Word, Bytes.get? m p.toNat = Bytes.get? n p.toNat) : m = n := by
  refine List.ext_getElem? (fun i => ?_)
  rcases Nat.lt_or_ge i (2 ^ 16) with hlt | hge
  · have hi := h (BitVec.ofNat 16 i)
    rw [BitVec.toNat_ofNat, Nat.mod_eq_of_lt hlt] at hi
    exact hi
  · rw [List.getElem?_eq_none (by omega), List.getElem?_eq_none (by omega)]

/-- A read that is answered alike found the same, or nothing on both sides. -/
theorem read_eq {δ : Type} {R : δ → δ → Prop} {d e : δ} {x y : Option Byte}
    (h : Option.Rel (fun a b => R a.1 b.1 ∧ a.2 = b.2) (x.map (fun b => (d, some b)))
      (y.map (fun b => (e, some b)))) : x = y := by
  cases x with
  | none =>
      cases y with
      | none => rfl
      | some b => cases h
  | some a =>
      cases y with
      | none => cases h
      | some b =>
          cases h with
          | some hreply => exact hreply.2

theorem WRAM.equivalent_iff {w u : WRAM} (hw : w.memory.length ≤ 2 ^ 16)
    (hu : u.memory.length ≤ 2 ^ 16) :
    Machine.Equivalent WRAM.call w u ↔ WRAM.Indistinct w u := by
  constructor
  · intro h
    refine ⟨bytes_ext hw hu (fun p => read_eq (h.rel (.readPhysAddr p))), ?_⟩
    have hreg := Option.some.inj (reply_eq (i := .getSVBKReg) h rfl rfl).1
    intro i h6
    rcases Nat.lt_or_ge i 8 with hlt | hge
    · have hbit := congrArg (fun b => b.getLsbD i) hreg
      simpa [WRAM.getLsbD_getSVBKReg _ hlt, h6] using hbit
    · rw [BitVec.getLsbD_of_ge _ i hge, BitVec.getLsbD_of_ge _ i hge]
  · exact WRAM.bisimulation.equivalent

theorem VRAM.equivalent_iff {v u : VRAM} (hv : v.memory.length ≤ 2 ^ 16)
    (hu : u.memory.length ≤ 2 ^ 16) :
    Machine.Equivalent VRAM.call v u ↔ VRAM.Indistinct v u := by
  constructor
  · intro h
    refine ⟨bytes_ext hv hu (fun p => read_eq (h.rel (.readPhysAddr p))), ?_⟩
    have hreg := Option.some.inj (reply_eq (i := .getVBKReg) h rfl rfl).1
    have hbit : v.getVBKReg.getLsbD 0 = u.getVBKReg.getLsbD 0 := by rw [hreg]
    have hzero : 0 < 8 := by omega
    rw [VRAM.getLsbD_getVBKReg v hzero, VRAM.getLsbD_getVBKReg u hzero] at hbit
    have hnone : decide (1 ≤ 0) = false := rfl
    simpa only [decide_true, Bool.true_and, hnone, Bool.or_false] using hbit
  · exact VRAM.bisimulation.equivalent

/--
**The devices keep what can be observed of them, and nothing else.**

Two states of the interrupt controller are told apart by some sequence of calls
exactly when their abstract states differ; two systems of a joypad and a
controller, exactly when some field of the joypad or the abstract controllers do,
the sampled key set and the null link included, although no call returns either.
-/
theorem interrupts_and_keys_observable :
    (∀ c d : InterruptController,
        Machine.Equivalent InterruptController.call c d ↔ c.abs = d.abs)
      ∧ ∀ s t : JoyPad.System,
        Machine.Equivalent JoyPad.System.quietCall s t ↔ JoyPad.Indistinct s t :=
  ⟨InterruptController.equivalent_iff, JoyPad.equivalent_iff⟩

/--
**So do the memories**, whose every byte a `word_t` can reach: two work RAMs are
told apart exactly when a byte or a bit of `SVBK` other than bit 6 differs, two
video RAMs exactly when a byte or bit 0 of `VBK` does.
-/
theorem memories_observable {w u : WRAM} {v x : VRAM} (hw : w.memory.length ≤ 2 ^ 16)
    (hu : u.memory.length ≤ 2 ^ 16) (hv : v.memory.length ≤ 2 ^ 16)
    (hx : x.memory.length ≤ 2 ^ 16) :
    (Machine.Equivalent WRAM.call w u ↔ WRAM.Indistinct w u)
      ∧ (Machine.Equivalent VRAM.call v x ↔ VRAM.Indistinct v x) :=
  ⟨WRAM.equivalent_iff hw hu, VRAM.equivalent_iff hv hx⟩

/-- Fresh memories of zeros, against the same under other registers. -/
theorem memories_observable_sample :
    Machine.Equivalent WRAM.call (WRAM.withContent (Vector.replicate _ 0) 0x45)
        (WRAM.withContent (Vector.replicate _ 0) 0x05)
      ∧ ¬ Machine.Equivalent VRAM.call (VRAM.construct (Vector.replicate _ 0))
        ((VRAM.construct (Vector.replicate _ 0)).setVBKReg 1) := by
  have hlen : ∀ {n : Nat}, n ≤ 2 ^ 16 → (Vector.replicate n (0 : Byte)).toList.length ≤ 2 ^ 16 := by
    intro n hn
    rw [Vector.length_toList]
    exact hn
  have hwram : WRAM.maxSize.toNat ≤ 2 ^ 16 := by decide
  have hvram : vramMaxSize.toNat ≤ 2 ^ 16 := by decide
  rcases memories_observable (w := WRAM.withContent (Vector.replicate _ 0) 0x45)
    (u := WRAM.withContent (Vector.replicate _ 0) 0x05)
    (v := VRAM.construct (Vector.replicate _ 0))
    (x := (VRAM.construct (Vector.replicate _ 0)).setVBKReg 1)
    (hlen hwram) (hlen hwram) (hlen hvram) (hlen hvram) with ⟨hw, hv⟩
  constructor
  · refine hw.mpr ⟨rfl, ?_⟩
    intro i h6
    rcases Nat.lt_or_ge i 8 with hlt | hge
    · have hall : ∀ i : Fin 8, i.val ≠ 6 →
          (0x45 : Byte).getLsbD i.val = (0x05 : Byte).getLsbD i.val := by decide
      exact hall ⟨i, hlt⟩ h6
    · exact (BitVec.getLsbD_of_ge _ i hge).trans (BitVec.getLsbD_of_ge _ i hge).symm
  · intro hequiv
    have hbit := (hv.mp hequiv).vbk
    revert hbit
    decide

end GBMU
