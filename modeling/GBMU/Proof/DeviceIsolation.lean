import GBMU.Proof.DeviceObjects
import GBMU.Proof.WRAMBanks

/-!
# A device among others

A statement changes the devices it constructs, assigns to, moves from, destroys or
writes, and no other (`exec_frame`). Two things follow for whole programs, whatever
happens to the devices around and whichever of their allocations fail.

A device that only its own member functions change goes through a run of its own,
as if it were alone; for a work RAM that run is one of the `WRAM` model, and so of
the eight-bank memory. A copy that no statement changes is still what it was when
it is assigned back.
-/

namespace GBMU.Devices

variable {ν α : Type} [DecidableEq ν] [DecidableEq α] {z : ZeroCopy}

/-- The statements after which `x` may be another. Copying from `x` is not one of them. -/
def Changes (x : ν) : DeviceOp ν → Prop
  | .construct this _ => this = x
  | .copyConstruct this _ => this = x
  | .moveConstruct this source => this = x ∨ source = x
  | .copyAssign this _ => this = x
  | .moveAssign this source => this = x ∨ source = x
  | .destroy this => this = x
  | .setReg this _ => this = x
  | .writeInnerVaddr this _ _ => this = x
  | .writePhysAddr this _ _ => this = x

/-- What a statement makes `x` do to itself. -/
def ownWrite (x : ν) : DeviceOp ν → Option DeviceWrite
  | .setReg this value => if this = x then some (.setReg value) else none
  | .writeInnerVaddr this innerVaddr data =>
      if this = x then some (.innerVaddr innerVaddr data) else none
  | .writePhysAddr this physAddr data =>
      if this = x then some (.physAddr physAddr data) else none
  | _ => none

/-! ## One statement -/

/-- A copy changes its target alone, granted or refused. -/
theorem copy_frame {v thrown : DeviceValues ν} {e : Outcome (DeviceValues ν)} {this x : ν}
    {copied : Option Device} {answer : DBuffer.Answer}
    (hcopy : v.copy this copied thrown answer = some e)
    (hx : this ≠ x) (hthrown : thrown x = v x) : e.state x = v x := by
  unfold DeviceValues.copy at hcopy
  cases answer with
  | none =>
      cases hcopy
      exact hthrown
  | some garbage =>
      rcases Option.map_eq_some_iff.mp hcopy with ⟨_, _, rfl⟩
      exact Function.update_of_ne (Ne.symm hx) ..

theorem move_frame {v : DeviceValues ν} {this source x : ν} {src : Device}
    (hx : ¬ (this = x ∨ source = x)) : v.move this source src x = v x := by
  rw [DeviceValues.move, Function.update_of_ne (fun he => hx (Or.inr he.symm)),
    Function.update_of_ne (fun he => hx (Or.inl he.symm))]

/-- **A statement leaves alone what it does not change.** -/
theorem exec_frame {v : DeviceValues ν} {e : Outcome (DeviceValues ν)} {x : ν}
    {c : DeviceOp ν × DBuffer.Answer} (he : v.exec z c = some e) (hx : ¬ Changes x c.1) :
    e.state x = v x := by
  obtain ⟨op, answer⟩ := c
  cases op with
  | construct this cls =>
      have hupdate := Function.update_of_ne (f := v) (Ne.symm hx)
      simp only [DeviceValues.exec, Option.ite_none_left_eq_some] at he
      cases answer with
      | none =>
          cases he.2
          rfl
      | some garbage =>
          cases he.2
          exact hupdate _
  | copyConstruct this source =>
      rcases Option.bind_eq_some_iff.mp he with ⟨src, _, he⟩
      rw [Option.ite_none_left_eq_some] at he
      exact copy_frame he.2 hx rfl
  | moveConstruct this source =>
      rcases Option.bind_eq_some_iff.mp he with ⟨src, _, he⟩
      rw [Option.ite_none_left_eq_some] at he
      cases he.2
      exact move_frame hx
  | copyAssign this source =>
      rcases Option.bind_eq_some_iff.mp he with ⟨old, _, he⟩
      rcases Option.bind_eq_some_iff.mp he with ⟨src, _, he⟩
      rw [Option.ite_none_left_eq_some] at he
      have hassign := he.2
      split at hassign
      · cases hassign
        rfl
      · exact copy_frame hassign hx (Function.update_of_ne (Ne.symm hx) ..)
  | moveAssign this source =>
      rcases Option.bind_eq_some_iff.mp he with ⟨old, _, he⟩
      rcases Option.bind_eq_some_iff.mp he with ⟨src, _, he⟩
      rw [Option.ite_none_left_eq_some] at he
      have hassign := he.2
      split at hassign
      · cases hassign
        rfl
      · cases hassign
        exact move_frame hx
  | destroy this =>
      rcases Option.bind_eq_some_iff.mp he with ⟨_, _, he⟩
      cases he
      exact Function.update_of_ne (Ne.symm hx) ..
  | setReg this value =>
      rcases Option.bind_eq_some_iff.mp he with ⟨_, _, he⟩
      rcases Option.bind_eq_some_iff.mp he with ⟨_, _, he⟩
      cases he
      exact Function.update_of_ne (Ne.symm hx) ..
  | writeInnerVaddr this innerVaddr data =>
      rcases Option.bind_eq_some_iff.mp he with ⟨_, _, he⟩
      rcases Option.bind_eq_some_iff.mp he with ⟨_, _, he⟩
      cases he
      exact Function.update_of_ne (Ne.symm hx) ..
  | writePhysAddr this physAddr data =>
      rcases Option.bind_eq_some_iff.mp he with ⟨_, _, he⟩
      rcases Option.bind_eq_some_iff.mp he with ⟨_, _, he⟩
      cases he
      exact Function.update_of_ne (Ne.symm hx) ..

/-- A statement that makes `x` do something to itself does that. -/
theorem exec_ownWrite {v : DeviceValues ν} {e : Outcome (DeviceValues ν)} {x : ν}
    {device : Device} {w : DeviceWrite} {c : DeviceOp ν × DBuffer.Answer}
    (hx : v x = some device) (he : v.exec z c = some e) (hown : ownWrite x c.1 = some w) :
    ∃ device', device.step w = some device' ∧ e.state x = some device' := by
  obtain ⟨op, answer⟩ := c
  -- one argument for the three kinds of write
  have hwrite : ∀ {result : Option Device},
      (result.bind fun d => some (.returned (Function.update v x (some d)))) = some e →
      ∃ device', result = some device' ∧ e.state x = some device' := by
    intro result hresult
    rcases Option.bind_eq_some_iff.mp hresult with ⟨device', hdevice', hv'⟩
    cases hv'
    exact ⟨device', hdevice', Function.update_self ..⟩
  cases op with
  | setReg this value =>
      rw [ownWrite, Option.ite_none_right_eq_some] at hown
      rcases hown with ⟨rfl, hw⟩
      cases hw
      unfold DeviceValues.exec at he
      dsimp only at he
      rw [hx, Option.bind_eq_bind, Option.bind_some] at he
      exact hwrite he
  | writeInnerVaddr this innerVaddr data =>
      rw [ownWrite, Option.ite_none_right_eq_some] at hown
      rcases hown with ⟨rfl, hw⟩
      cases hw
      unfold DeviceValues.exec at he
      dsimp only at he
      rw [hx, Option.bind_eq_bind, Option.bind_some] at he
      exact hwrite he
  | writePhysAddr this physAddr data =>
      rw [ownWrite, Option.ite_none_right_eq_some] at hown
      rcases hown with ⟨rfl, hw⟩
      cases hw
      unfold DeviceValues.exec at he
      dsimp only at he
      rw [hx, Option.bind_eq_bind, Option.bind_some] at he
      exact hwrite he
  | construct => cases hown
  | copyConstruct => cases hown
  | moveConstruct => cases hown
  | copyAssign => cases hown
  | moveAssign => cases hown
  | destroy => cases hown

/-! ## Alone -/

/-- `x` is an object with this value. -/
def HasValue (d : Devices ν α) (x : ν) (device : Device) : Prop :=
  ∃ v : DeviceValues ν, Shown d v ∧ v x = some device

/-- The value answers the reads. -/
structure Answers (d : Devices ν α) (x : ν) (device : Device) : Prop where
  readPhysAddr : ∀ physAddr, d.readPhysAddr x physAddr = device.readPhysAddr physAddr
  readInnerVaddr : ∀ innerVaddr, d.readInnerVaddr x innerVaddr = device.readInnerVaddr innerVaddr
  getReg : d.getReg x = device.regs.getReg

omit [DecidableEq ν] in
theorem HasValue.answers {d : Devices ν α} {x : ν} {device : Device} (h : HasValue d x device) :
    Answers d x device := by
  rcases h with ⟨v, hshown, hx⟩
  have hseen := hshown.seenAs
  refine ⟨?_, ?_, ?_⟩
  · intro physAddr
    rw [hseen.readPhysAddr, hx, Option.bind_some]
  · intro innerVaddr
    rw [hseen.readInnerVaddr, hx, Option.bind_some]
  · rw [hseen.getReg, hx, Option.bind_some]

/-- A statement that goes right is a statement on the values. -/
theorem Shown.step {d d' : Devices ν α} {v : DeviceValues ν} {c : DeviceOp ν × Allocator α Byte}
    (h : Shown d v) (hscoped : Scoped d c.1) (hstep : attempt z d c = some d') :
    ∃ e, v.exec z (answered d c) = some e ∧ Shown d' e.state := by
  obtain ⟨o, ho, rfl⟩ := Machine.caught_eq_some.mp hstep
  have hrel := exec_shown (z := z) h hscoped
  rw [ho] at hrel
  generalize v.exec z (answered d c) = r at hrel
  cases hrel with
  | some hends => exact ⟨_, rfl, hends.state⟩

/--
**A device that only its own member functions change goes through a run of its
own**, whatever the other statements of the program are.
-/
theorem run_alone {d d' : Devices ν α} {x : ν} {device : Device}
    {calls : List (DeviceOp ν × Allocator α Byte)} (h : HasValue d x device)
    (hscoped : Machine.Throughout (attempt z) d calls (fun d c => Scoped d c.1))
    (hown : ∀ c ∈ calls, Changes x c.1 → (ownWrite x c.1).isSome)
    (hrun : Machine.run (attempt z) d calls = some d') :
    ∃ device', Machine.run Device.step device (calls.filterMap (fun c => ownWrite x c.1))
        = some device' ∧ HasValue d' x device' := by
  refine Machine.run_component (R := fun d device => HasValue d x device) ?_ ?_ calls h
    (hscoped.and (.of_mem hown)) hrun
  · intro d d' device c hvalue hok hstep hnone
    rcases hvalue with ⟨v, hshown, hx⟩
    rcases hshown.step hok.1 hstep with ⟨e, he, hshown'⟩
    refine ⟨e.state, hshown', ?_⟩
    have hsame : ¬ Changes x c.1 := by
      intro hchanges
      have hsome := hok.2 hchanges
      rw [hnone] at hsome
      cases hsome
    rw [exec_frame he hsame, hx]
  · intro d d' device c w hvalue hok hstep hw
    rcases hvalue with ⟨v, hshown, hx⟩
    rcases hshown.step hok.1 hstep with ⟨e, he, hshown'⟩
    rcases exec_ownWrite hx he hw with ⟨device', hdevice', hx'⟩
    exact ⟨device', hdevice', e.state, hshown', hx'⟩

/-! ### The runs of the classes -/

/-- A write to a device, taken to be a work RAM. -/
def wramOp : DeviceWrite → WRAM.Op
  | .setReg value => .setSVBKReg value
  | .innerVaddr innerVaddr data => .writeInnerVaddr innerVaddr data
  | .physAddr physAddr data => .writePhysAddr physAddr data

/-- A write to a device, taken to be a video RAM. -/
def vramOp : DeviceWrite → VRAM.Op
  | .setReg value => .setVBKReg value
  | .innerVaddr innerVaddr data => .writeInnerVaddr innerVaddr data
  | .physAddr physAddr data => .writePhysAddr physAddr data

theorem step_ofWRAM (w : WRAM) (k : DeviceWrite) :
    (Device.ofWRAM w).step k = (w.step (wramOp k)).map Device.ofWRAM := by
  have hphys : ∀ physAddr data, (Device.ofWRAM w).writePhysAddr physAddr data
      = (w.writePhysAddr physAddr data).map Device.ofWRAM := by
    intro physAddr data
    unfold Device.writePhysAddr WRAM.writePhysAddr Device.ofWRAM DBuffer.Content.put?
    rw [Option.map_map, Option.map_map]
    rfl
  cases k with
  | setReg value => rfl
  | innerVaddr innerVaddr data => exact hphys _ data
  | physAddr physAddr data => exact hphys physAddr data

theorem step_ofVRAM (v : VRAM) (k : DeviceWrite) :
    (Device.ofVRAM v).step k = (v.step (vramOp k)).map Device.ofVRAM := by
  have hphys : ∀ physAddr data, (Device.ofVRAM v).writePhysAddr physAddr data
      = (v.writePhysAddr physAddr data).map Device.ofVRAM := by
    intro physAddr data
    unfold Device.writePhysAddr VRAM.writePhysAddr Device.ofVRAM DBuffer.Content.put?
    rw [Option.map_map, Option.map_map]
    rfl
  cases k with
  | setReg value => rfl
  | innerVaddr innerVaddr data => exact hphys _ data
  | physAddr physAddr data => exact hphys physAddr data

/-- An object RAM has physical writes alone. -/
def oramStep (o : ORAM) : DeviceWrite → Option ORAM
  | .physAddr physAddr data => o.writePhysAddr physAddr data
  | _ => none

theorem step_ofORAM (o : ORAM) (k : DeviceWrite) :
    (Device.ofORAM o).step k = (oramStep o k).map Device.ofORAM := by
  cases k with
  | setReg value => rfl
  | innerVaddr innerVaddr data => rfl
  | physAddr physAddr data =>
      show (Device.ofORAM o).writePhysAddr physAddr data = _
      unfold Device.writePhysAddr oramStep ORAM.writePhysAddr Device.ofORAM DBuffer.Content.put?
      rw [Option.map_map, Option.map_map]
      rfl

/-- A device whose steps are those of a class model goes through its runs. -/
theorem exists_class_run {δ κ : Type} {step : δ → κ → Option δ} {of : δ → Device}
    {op : DeviceWrite → κ} (hstep : ∀ s k, (of s).step k = (step s (op k)).map of) :
    ∀ {s : δ} {device' : Device} (ks : List DeviceWrite),
      Machine.run Device.step (of s) ks = some device' →
      ∃ s', Machine.run step s (ks.map op) = some s' ∧ device' = of s'
  | s, _, [], hrun => ⟨s, rfl, (Option.some.inj hrun).symm⟩
  | s, device', k :: ks, hrun => by
      rcases Option.bind_eq_some_iff.mp hrun with ⟨device₁, hdevice₁, hrest⟩
      rw [hstep s k] at hdevice₁
      rcases Option.map_eq_some_iff.mp hdevice₁ with ⟨s₁, hs₁, rfl⟩
      rcases exists_class_run hstep ks hrest with ⟨s', hs', he⟩
      exact ⟨s', by rw [List.map_cons, Machine.run_cons, hs₁]; exact hs', he⟩

/-! ### Constructed among others -/

/-- A construction that is granted its memory. -/
theorem construct_hasValue {A : Allocator α Byte} {d : Devices ν α} {v : DeviceValues ν} {x : ν}
    {cls : DeviceClass} (h : Shown d v) (hx : d.regs x = none)
    (hgrant : (A.pick d.memories.heap).isSome) :
    ∃ d', attempt z d (.construct x cls, A) = some d'
      ∧ HasValue d' x (Device.construct cls A.garbage) := by
  rcases Option.isSome_iff_exists.mp hgrant with ⟨p, hp⟩
  have hanswer : DBuffer.answerAt A d.memories.heap = some A.garbage := by
    rw [DBuffer.answerAt, hp]
    rfl
  have hvalue : v.exec z (answered d (.construct x cls, A))
      = some (.returned (Function.update v x (some (Device.construct cls A.garbage)))) := by
    unfold DeviceValues.exec answered requestHeap
    dsimp only
    rw [hanswer, if_neg (by simp [(h.dead hx).1])]
  rcases Machine.exists_of_rel (exec_shown (c := (.construct x cls, A)) h hx) hvalue
    with ⟨o, ho, hends⟩
  exact ⟨o.state, Machine.caught_eq_some.mpr ⟨o, ho, rfl⟩, _, hends.state, Function.update_self ..⟩

/-- The devices a program comes to have values. -/
theorem exists_shown {d : Devices ν α} {calls : List (DeviceOp ν × Allocator α Byte)}
    (hscoped : Machine.Throughout (attempt z) (noDevices : Devices ν α) calls
      (fun d c => Scoped d c.1))
    (hrun : Machine.run (attempt z) noDevices calls = some d) : ∃ v, Shown d v := by
  obtain ⟨_, hrel⟩ := run_shown hscoped
  rw [hrun] at hrel
  generalize Machine.run (DeviceValues.step z) (fun _ => none)
    (Machine.annotate (attempt z) answered noDevices calls) = r at hrel
  cases hrel with
  | some hshown => exact ⟨_, hshown⟩

/--
**A device lives by itself.**

A program constructs a device, with memory granted, and from then on changes it
only through its own member functions; to other devices, and with copies of this
one, it does whatever it likes, and their allocations may fail. Then every read of
the device answers what a device alone answers after the same writes in the same
order, and that is a run of its class.
-/
theorem device_isolated {pre post : List (DeviceOp ν × Allocator α Byte)} {x : ν}
    {cls : DeviceClass} {A : Allocator α Byte} {d d' : Devices ν α}
    (hscoped : Machine.Throughout (attempt z) (noDevices : Devices ν α)
      (pre ++ (.construct x cls, A) :: post) (fun d c => Scoped d c.1))
    (hpre : Machine.run (attempt z) noDevices pre = some d)
    (hgrant : (A.pick d.memories.heap).isSome)
    (hown : ∀ c ∈ post, Changes x c.1 → (ownWrite x c.1).isSome)
    (hrun : Machine.run (attempt z) noDevices (pre ++ (.construct x cls, A) :: post) = some d') :
    let writes := post.filterMap (fun c => ownWrite x c.1)
    ∃ device, Machine.run Device.step (Device.construct cls A.garbage) writes = some device
      ∧ Answers d' x device
      ∧ (cls = .oram → ∃ o, Machine.run oramStep { memory := A.garbage oramSize.toNat } writes
            = some o ∧ device = Device.ofORAM o)
      ∧ (cls = .wram → ∃ w, Machine.run WRAM.step
            { memory := A.garbage WRAM.maxSize.toNat, regs := { SVBK := svbkInitValue } }
            (writes.map wramOp) = some w ∧ device = Device.ofWRAM w)
      ∧ (cls = .vram → ∃ u, Machine.run VRAM.step
            { memory := A.garbage vramMaxSize.toNat, regs := { VBK := vbkInitValue } }
            (writes.map vramOp) = some u ∧ device = Device.ofVRAM u) := by
  intro writes
  rcases exists_shown hscoped.left hpre with ⟨v, hshown⟩
  have hrest := hscoped.right hpre
  rcases construct_hasValue hshown hrest.head hgrant with ⟨d₁, hd₁, hvalue⟩
  rw [Machine.run_append, hpre, Option.bind_some, Machine.run_cons, hd₁, Option.bind_some] at hrun
  rcases run_alone hvalue (hrest.tail hd₁) hown hrun with ⟨device, hdevice, hvalue'⟩
  refine ⟨device, hdevice, hvalue'.answers, ?_, ?_, ?_⟩
  · intro hcls
    subst hcls
    have hstep : ∀ o k, (Device.ofORAM o).step k = (oramStep o (id k)).map Device.ofORAM :=
      step_ofORAM
    have halone := exists_class_run hstep
      (s := { memory := A.garbage oramSize.toNat }) writes hdevice
    rwa [List.map_id] at halone
  · intro hcls
    subst hcls
    exact exists_class_run step_ofWRAM
      (s := { memory := A.garbage WRAM.maxSize.toNat, regs := { SVBK := svbkInitValue } }) writes
      hdevice
  · intro hcls
    subst hcls
    exact exists_class_run step_ofVRAM
      (s := { memory := A.garbage vramMaxSize.toNat, regs := { VBK := vbkInitValue } }) writes
      hdevice

/-- Two object RAMs are written in turns, and a copy of the second is refused. -/
def neighbours : List (DeviceOp Nat × Allocator Nat Byte) :=
  [(.writePhysAddr 1 5 7, Allocator.bump 0), (.writePhysAddr 0 5 9, Allocator.bump 0),
    (.copyConstruct 2 1, DBuffer.outOfMemory)]

set_option maxRecDepth 4000 in
theorem device_isolated_sample :
    ∃ d' : Devices Nat Nat, Machine.run (attempt .undefined) noDevices
        ([(.construct 0 .oram, Allocator.bump 0)]
          ++ (.construct 1 .oram, Allocator.bump 0) :: neighbours) = some d'
      ∧ ∃ device, Machine.run Device.step
          (Device.construct .oram (Allocator.bump (0 : Byte)).garbage) [.physAddr 5 7]
            = some device
        ∧ Answers d' 1 device := by
  refine ⟨_, rfl, ?_⟩
  have hscoped : Machine.Throughout (attempt .undefined) (noDevices : Devices Nat Nat)
      ([(.construct 0 .oram, Allocator.bump 0)]
        ++ (.construct 1 .oram, Allocator.bump 0) :: neighbours) (fun d c => Scoped d c.1) := by
    refine .cons rfl rfl ?_
    refine .cons rfl rfl ?_
    refine .cons rfl rfl ?_
    refine .cons rfl rfl ?_
    exact .last ⟨rfl, rfl⟩
  have hown : ∀ c ∈ neighbours, Changes 1 c.1 → (ownWrite 1 c.1).isSome := by
    simp [neighbours, Changes, ownWrite]
  rcases device_isolated hscoped rfl rfl hown rfl with ⟨device, hdevice, hanswers, _⟩
  exact ⟨device, hdevice, hanswers⟩

/-! ## Copied and assigned back -/

/-- Statements that do not change `x` leave its value, or its absence, alone. -/
theorem run_frame {d d' : Devices ν α} {v : DeviceValues ν} {x : ν}
    {calls : List (DeviceOp ν × Allocator α Byte)} (h : Shown d v)
    (hscoped : Machine.Throughout (attempt z) d calls (fun d c => Scoped d c.1))
    (hframe : ∀ c ∈ calls, ¬ Changes x c.1)
    (hrun : Machine.run (attempt z) d calls = some d') : ∃ v', Shown d' v' ∧ v' x = v x := by
  induction calls generalizing d v with
  | nil =>
      cases hrun
      exact ⟨v, h, rfl⟩
  | cons c calls ih =>
      rcases Option.bind_eq_some_iff.mp hrun with ⟨m, hm, hrest⟩
      rcases h.step hscoped.head hm with ⟨e, he, hshown₁⟩
      rcases ih hshown₁ (hscoped.tail hm)
        (fun e he => hframe e (List.mem_cons_of_mem _ he)) hrest with ⟨v', hshown', hsame⟩
      refine ⟨v', hshown', ?_⟩
      rw [hsame, exec_frame he (hframe c (List.mem_cons_self ..))]

/-- A copy that is alive afterwards is a copy of its source. -/
theorem copyConstruct_value {v : DeviceValues ν} {e : Outcome (DeviceValues ν)}
    {this source : ν} {src : Device} {answer : DBuffer.Answer} (hsource : v source = some src)
    (he : v.exec z (.copyConstruct this source, answer) = some e)
    (halive : (e.state this).isSome) :
    ∃ copied, src.copied z = some copied ∧ e.state this = some copied := by
  unfold DeviceValues.exec at he
  dsimp only at he
  rw [hsource, Option.bind_eq_bind, Option.bind_some, Option.ite_none_left_eq_some] at he
  rcases he with ⟨hdead, hcopy⟩
  unfold DeviceValues.copy at hcopy
  cases answer with
  | none =>
      cases hcopy
      exact absurd halive hdead
  | some garbage =>
      rcases Option.map_eq_some_iff.mp hcopy with ⟨copied, hcopied, rfl⟩
      exact ⟨copied, hcopied, Function.update_self ..⟩

/-- An assignment that is granted its memory makes the target a copy of the source. -/
theorem copyAssign_value {v : DeviceValues ν} {e : Outcome (DeviceValues ν)} {this source : ν}
    {src : Device} {garbage : Nat → Bytes} (hne : this ≠ source) (hsource : v source = some src)
    (he : v.exec z (.copyAssign this source, some garbage) = some e) :
    ∃ copied, src.copied z = some copied
      ∧ e.state = Function.update v this (some copied) := by
  rcases Option.bind_eq_some_iff.mp he with ⟨old, _, he⟩
  rcases Option.bind_eq_some_iff.mp he with ⟨src', hsrc', he⟩
  rw [hsource] at hsrc'
  cases hsrc'
  rw [Option.ite_none_left_eq_some] at he
  have hassign := he.2
  rw [if_neg hne] at hassign
  rcases Option.map_eq_some_iff.mp hassign with ⟨copied, hcopied, rfl⟩
  exact ⟨copied, hcopied, rfl⟩

/-- A copy answers the reads as its source does. -/
theorem readPhysAddr_copied {device copied : Device} (h : device.copied z = some copied)
    (physAddr : Word) : copied.readPhysAddr physAddr = device.readPhysAddr physAddr := by
  rcases Option.map_eq_some_iff.mp h with ⟨bytes, hbytes, rfl⟩
  exact (DBuffer.Content.get?_of_bytes? hbytes physAddr.toNat).symm

omit [DecidableEq ν] in
theorem Answers.of_copied {d : Devices ν α} {x : ν} {device copied : Device}
    (h : Answers d x copied) (hcopied : device.copied z = some copied) : Answers d x device := by
  have hregs : copied.regs = device.regs := by
    rcases Option.map_eq_some_iff.mp hcopied with ⟨bytes, _, rfl⟩
    rfl
  refine ⟨?_, ?_, ?_⟩
  · intro physAddr
    rw [h.readPhysAddr, readPhysAddr_copied hcopied]
  · intro innerVaddr
    have hreads := funext (readPhysAddr_copied hcopied)
    rw [h.readInnerVaddr, Device.readInnerVaddr, Device.readInnerVaddr, hregs, hreads]
  · rw [h.getReg, hregs]

/--
**A copy assigned back restores the device.**

A program copies a device, goes on as it likes without changing the copy, and
assigns the copy back, with memory granted. Then the device answers every read as
it did before it was copied, and so does the copy.
-/
theorem snapshot_restores {pre mid : List (DeviceOp ν × Allocator α Byte)} {x s : ν}
    {A B : Allocator α Byte} {d d₂ d' : Devices ν α}
    (hscoped : Machine.Throughout (attempt z) (noDevices : Devices ν α)
      (pre ++ (.copyConstruct s x, A) :: (mid ++ [(.copyAssign x s, B)]))
      (fun d c => Scoped d c.1))
    (hpre : Machine.run (attempt z) noDevices pre = some d)
    (hmid : ∀ c ∈ mid, ¬ Changes s c.1)
    (hbefore : Machine.run (attempt z) noDevices (pre ++ (.copyConstruct s x, A) :: mid) = some d₂)
    (hgrant : (B.pick (requestHeap d₂ (.copyAssign x s))).isSome)
    (hrun : Machine.run (attempt z) noDevices
      (pre ++ (.copyConstruct s x, A) :: (mid ++ [(.copyAssign x s, B)])) = some d') :
    ∃ device, Answers d x device ∧ Answers d' x device ∧ Answers d' s device := by
  rcases exists_shown hscoped.left hpre with ⟨v, hshown⟩
  have hrest := hscoped.right hpre
  rw [Machine.run_append, hpre, Option.bind_some, Machine.run_cons] at hbefore hrun
  rcases Option.bind_eq_some_iff.mp hbefore with ⟨d₁, hd₁, hd₂⟩
  rw [hd₁, Option.bind_some, Machine.run_append, hd₂, Option.bind_some] at hrun
  rcases Option.bind_eq_some_iff.mp hrun with ⟨d₃, hd₃, hlast⟩
  cases hlast
  -- the copy
  rcases hrest.head with ⟨hdead, halive⟩
  rcases hshown.alive halive with ⟨device, hdevice, _, _⟩
  have hne : x ≠ s := by
    intro he
    rw [he, hdead] at halive
    cases halive
  rcases hshown.step hrest.head hd₁ with ⟨e₁, he₁, hshown₁⟩
  -- the statements between
  have hmiddle := hrest.tail hd₁
  rcases run_frame hshown₁ hmiddle.left hmid hd₂ with ⟨v₂, hshown₂, hsame⟩
  -- the assignment, which names the copy
  have hassign := (hmiddle.right hd₂).head
  rcases hshown₂.alive hassign.2 with ⟨saved, hsaved, _, _⟩
  rcases copyConstruct_value hdevice he₁ (by rw [← hsame, hsaved]; rfl) with ⟨copied, hcopied, hs⟩
  rw [hs] at hsame
  rcases hshown₂.step hassign hd₃ with ⟨e₃, he₃, hshown₃⟩
  rcases Option.isSome_iff_exists.mp hgrant with ⟨p, hp⟩
  have hanswer : answered d₂ (.copyAssign x s, B) = (.copyAssign x s, some B.garbage) := by
    rw [answered, DBuffer.answerAt, hp]
    rfl
  rw [hanswer] at he₃
  rcases copyAssign_value hne hsame he₃ with ⟨restored, hrestored, hvalues⟩
  refine ⟨device, HasValue.answers ⟨v, hshown, hdevice⟩, ?_, ?_⟩
  · have hx : e₃.state x = some restored := by rw [hvalues, Function.update_self]
    exact ((HasValue.answers ⟨_, hshown₃, hx⟩).of_copied hrestored).of_copied hcopied
  · have hkept : e₃.state s = some copied := by
      rw [hvalues, Function.update_of_ne (Ne.symm hne), hsame]
    exact (HasValue.answers ⟨_, hshown₃, hkept⟩).of_copied hcopied

/-- An object RAM is copied, overwritten, moved away and constructed again. -/
def meanwhile : List (DeviceOp Nat × Allocator Nat Byte) :=
  [(.writePhysAddr 0 5 9, Allocator.bump 0), (.moveConstruct 2 0, Allocator.bump 0),
    (.destroy 0, Allocator.bump 0), (.construct 0 .oram, Allocator.bump 0)]

set_option maxRecDepth 4000 in
theorem snapshot_restores_sample :
    ∃ d d' : Devices Nat Nat, ∃ device, Answers d 0 device ∧ Answers d' 0 device
      ∧ Answers d' 1 device := by
  have hscoped : Machine.Throughout (attempt .undefined) (noDevices : Devices Nat Nat)
      ([(.construct 0 .oram, Allocator.bump 0), (.writePhysAddr 0 5 7, Allocator.bump 0)]
        ++ (.copyConstruct 1 0, Allocator.bump 0)
          :: (meanwhile ++ [(.copyAssign 0 1, Allocator.bump 0)]))
      (fun d c => Scoped d c.1) := by
    refine .cons rfl rfl ?_
    refine .cons rfl rfl ?_
    refine .cons ⟨rfl, rfl⟩ rfl ?_
    refine .cons rfl rfl ?_
    refine .cons ⟨rfl, rfl⟩ rfl ?_
    refine .cons rfl rfl ?_
    refine .cons rfl rfl ?_
    exact .last ⟨rfl, rfl⟩
  have hmid : ∀ c ∈ meanwhile, ¬ Changes 1 c.1 := by
    simp [meanwhile, Changes]
  exact ⟨_, _, snapshot_restores hscoped rfl hmid rfl rfl rfl⟩

end GBMU.Devices
