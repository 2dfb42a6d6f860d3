import GBMU.Proof.BufferContents

/-!
# When `operator new[]` throws

A program may catch `std::bad_alloc` and go on with the buffers it has, so each
member function that allocates should leave them sound however it ends. A
constructor that throws leaves no buffer behind. A copy assignment has freed the
old block and set `__data` to null by the time it allocates, and writes `__len`
only afterwards: if the allocation throws, the target has no block and keeps its
old length.

`Spoils` describes that one statement, on the state before it. A world that shows
contents is sound when no buffer without a block has a length (`represented_iff`);
`Sound.exec` says that every other legal statement leaves the contents so, and
`intact_iff` draws the line for whole programs. A copy of an empty buffer is taken to
copy nothing.
-/

namespace GBMU.DBuffer

variable {ν α : Type} [DecidableEq ν] [DecidableEq α]

/-- Every buffer alive owns a block of its length alone, or has no block and length 0. -/
def Represented (w : World ν α) : Prop :=
  ∀ x fields, w.objs x = some fields →
    (fields.data = none ∧ fields.len = 0)
      ∨ ∃ p bytes, fields.data = some p ∧ w.heap.lookup p = some bytes
          ∧ bytes.length = fields.len
          ∧ ∀ y fy, w.objs y = some fy → fy.data = some p → y = x

/-- A byte is written where the buffer has one. -/
def InBounds (w : World ν α) : Op ν → Prop
  | .indexAssign this offset _ => ∃ fields, w.objs this = some fields ∧ offset < fields.len
  | _ => True

/-- A statement constructs a buffer that is not alive, or works on ones that are, in bounds. -/
def Legal (w : World ν α) (op : Op ν) : Prop := Scoped w op ∧ InBounds w op

/--
A copy assignment to another buffer, whose target has a length other than 0 and
whose allocation is refused once the target's block is gone.
-/
def Spoils (w : World ν α) (c : Op ν × Allocator α Byte) : Prop :=
  ∃ this source fields, c.1 = .copyAssign this source ∧ this ≠ source
    ∧ w.objs this = some fields ∧ fields.len ≠ 0 ∧ c.2.pick (heapWithout w this) = none

omit [DecidableEq ν] in
/-- Only a copy assignment spoils. -/
theorem not_spoils {w : World ν α} {c : Op ν × Allocator α Byte}
    (hop : ∀ this source, c.1 ≠ .copyAssign this source) : ¬ Spoils w c := by
  intro hbad
  rcases hbad with ⟨x, y, fields, hc, -⟩
  exact hop x y hc

/-- The bytes behind the pointers. -/
def valuesOf (w : World ν α) : Values ν :=
  fun x => (w.objs x).map (fun fields => (fields.data.bind w.heap.lookup).getD [])

/-! ## Sound contents -/

/-- A buffer without a block has length 0. -/
def Sound (v : Contents ν) : Prop := ∀ x n, v x = some (.null n) → n = 0

omit [DecidableEq ν] in
/-- **What soundness of the contents means for the fields.** -/
theorem represented_iff {w : World ν α} {v : Contents ν} (h : Shows w v) :
    Represented w ↔ Sound v := by
  constructor
  · intro hrep x n hx
    obtain ⟨fields, hf, hlen, hown⟩ := h.fields hx
    have hnull : own w x = none := h.owns.own_eq_none (block_of_eq hx)
    rcases hrep x fields hf with ⟨_, hzero⟩ | ⟨p, _, hp, _⟩
    · exact hlen.symm.trans hzero
    · rw [← hown, hnull] at hp
      cases hp
  · intro hsound x fields hx
    have hseen := h.seenAs
    cases hp : fields.data with
    | some p =>
        obtain ⟨bytes, hlookup, hlen⟩ := hseen.block hx hp
        exact Or.inr ⟨p, bytes, rfl, hlookup, hlen, fun y fy hy hfy => hseen.excl hy hx hfy hp⟩
    | none =>
        obtain ⟨content, hv, hlen⟩ := h.alive hx
        have hblock := h.owns.null ((own_eq hx).trans hp)
        rw [block_of_eq hv] at hblock
        cases content with
        | held bytes => cases hblock
        | null n => exact Or.inl ⟨rfl, hlen.trans (hsound x n hv)⟩

omit [DecidableEq ν] in
/-- The bytes of a sound buffer can be copied. -/
theorem Sound.bytes? {v : Contents ν} {x : ν} {content : Content} (h : Sound v)
    (hx : v x = some content) : ∃ bytes, content.bytes? .nothing = some bytes := by
  cases content with
  | held bytes => exact ⟨bytes, rfl⟩
  | null n =>
      rw [h x n hx]
      exact ⟨[], rfl⟩

theorem Sound.update {v : Contents ν} (h : Sound v) (x : ν) {content : Option Content}
    (hcontent : ∀ n, content = some (.null n) → n = 0) :
    Sound (Function.update v x content) := by
  intro y n hy
  by_cases hyx : y = x
  · subst hyx
    rw [Function.update_self] at hy
    exact hcontent n hy
  · rw [Function.update_of_ne hyx] at hy
    exact h y n hy

theorem Sound.held {v : Contents ν} (h : Sound v) (x : ν) (bytes : Bytes) :
    Sound (Function.update v x (some (.held bytes))) :=
  h.update x (fun n hn => by cases hn)

theorem Sound.null {v : Contents ν} (h : Sound v) (x : ν) :
    Sound (Function.update v x (some (.null 0))) :=
  h.update x (fun n hn => by cases hn; rfl)

theorem Sound.move {v : Contents ν} (h : Sound v) (x y : ν) {content : Content}
    (hy : v y = some content) : Sound (moveContent v x y content) := by
  refine Sound.null (h.update x (fun n hn => ?_)) y
  rw [Option.some.inj hn] at hy
  exact h y n hy

/-- A copy, granted its memory or refused it. -/
theorem Sound.copy {v thrown : Contents ν} (h : Sound v) (x : ν) {bytes : Option Bytes}
    {answer : Answer} (hbytes : ∃ l, bytes = some l) (hthrown : answer = none → Sound thrown) :
    ∃ e, copyContent v x bytes thrown answer = some e ∧ Sound e.state := by
  obtain ⟨l, rfl⟩ := hbytes
  cases answer with
  | none => exact ⟨_, rfl, hthrown rfl⟩
  | some garbage => exact ⟨_, rfl, h.held x l⟩

/-! ## One statement -/

omit [DecidableEq ν] in
/-- The refused assignment that does not spoil finds its target empty. -/
theorem len_of_not_spoils {A : Allocator α Byte} {w : World ν α} {v : Contents ν} {x y : ν}
    {old : Content} (h : Shows w v) (hxy : x ≠ y) (hold : v x = some old)
    (hrefused : answerAt A (heapWithout w x) = none)
    (hgood : ¬ Spoils w (.copyAssign x y, A)) : old.len = 0 := by
  obtain ⟨fields, hf, hlen, _⟩ := h.fields hold
  by_contra hne
  refine hgood ⟨x, y, fields, rfl, hxy, hf, ?_, Option.map_eq_none_iff.mp hrefused⟩
  rw [hlen]
  exact hne

/-- **Every legal statement but those that spoil leaves the contents sound**, thrown or not. -/
theorem Sound.exec {w : World ν α} {v : Contents ν} {c : Op ν × Allocator α Byte}
    (h : Sound v) (hshows : Shows w v) (hlegal : Legal w c.1) (hgood : ¬ Spoils w c) :
    ∃ e, contentExec .nothing v (answered w c) = some e ∧ Sound e.state := by
  obtain ⟨op, A⟩ := c
  obtain ⟨hscoped, hbounds⟩ := hlegal
  rw [answered]
  cases op with
  | constructSize x n =>
      have hv := hshows.dead_iff.mp hscoped
      by_cases hn : n = 0
      · subst hn
        rw [contentExec_constructSize_zero hv]
        exact ⟨_, rfl, h.null x⟩
      · cases answerAt A (requestHeap w (.constructSize x n)) with
        | none =>
            rw [contentExec_constructSize_refused hv hn]
            exact ⟨_, rfl, h⟩
        | some garbage =>
            rw [contentExec_constructSize_granted hv hn]
            exact ⟨_, rfl, h.held x _⟩
  | constructBytes x extData =>
      rw [contentExec_constructBytes (hshows.dead_iff.mp hscoped)]
      exact h.copy x ⟨_, rfl⟩ (fun _ => h)
  | constructString x str =>
      rw [contentExec_constructString (hshows.dead_iff.mp hscoped)]
      exact h.copy x ⟨_, rfl⟩ (fun _ => h)
  | copyConstruct x y =>
      obtain ⟨_, content, _, hcontent, hv, _⟩ := hshows.source hscoped.1 hscoped.2
      rw [contentExec_copyConstruct hv hcontent]
      exact h.copy x (h.bytes? hcontent) (fun _ => h)
  | moveConstruct x y =>
      obtain ⟨_, content, _, hcontent, hv, _⟩ := hshows.source hscoped.1 hscoped.2
      rw [contentExec_moveConstruct hv hcontent]
      exact ⟨_, rfl, h.move x y hcontent⟩
  | copyAssign x y =>
      obtain ⟨_, old, _, hold⟩ := hshows.exists_of_isSome hscoped.1
      obtain ⟨_, content, _, hcontent⟩ := hshows.exists_of_isSome hscoped.2
      by_cases hxy : x = y
      · subst hxy
        rw [contentExec_copyAssign_self hold]
        exact ⟨_, rfl, h⟩
      · rw [contentExec_copyAssign hxy hold hcontent]
        refine h.copy x (h.bytes? hcontent) (fun hrefused => ?_)
        rw [len_of_not_spoils hshows hxy hold hrefused hgood]
        exact h.null x
  | moveAssign x y =>
      obtain ⟨_, old, _, hold⟩ := hshows.exists_of_isSome hscoped.1
      obtain ⟨_, content, _, hcontent⟩ := hshows.exists_of_isSome hscoped.2
      by_cases hxy : x = y
      · subst hxy
        rw [contentExec_moveAssign_self hold]
        exact ⟨_, rfl, h⟩
      · rw [contentExec_moveAssign hxy hold hcontent]
        exact ⟨_, rfl, h.move x y hcontent⟩
  | indexAssign x offset value =>
      obtain ⟨fields, hf, hlt⟩ := hbounds
      obtain ⟨content, hcontent, hlen⟩ := hshows.alive hf
      rw [contentExec_indexAssign hcontent]
      cases content with
      | null n =>
          -- an offset in bounds, and so a length
          rw [hlen, Content.len, h x n hcontent] at hlt
          exact absurd hlt (Nat.not_lt_zero _)
      | held bytes =>
          rw [hlen, Content.len] at hlt
          rw [Content.put?, Bytes.put?, if_pos hlt]
          exact ⟨_, rfl, h.held x _⟩
  | destroy x =>
      obtain ⟨_, content, _, hcontent⟩ := hshows.exists_of_isSome hscoped
      rw [contentExec_destroy hcontent]
      exact ⟨_, rfl, h.update x (fun n hn => by cases hn)⟩

/-- A copy assignment whose memory is refused, as it leaves the contents. -/
theorem copyAssign_refused {A : Allocator α Byte} {w : World ν α} {v : Contents ν} {x y : ν}
    (h : Shows w v) (hxy : x ≠ y) (hscoped : Scoped w (.copyAssign x y))
    (hrefused : answerAt A (heapWithout w x) = none) :
    ∃ old, v x = some old ∧ contentExec .nothing v (answered w (.copyAssign x y, A))
      = some (.threw (Function.update v x (some (.null old.len)))) := by
  obtain ⟨_, old, _, hold⟩ := h.exists_of_isSome hscoped.1
  obtain ⟨_, content, _, hcontent⟩ := h.exists_of_isSome hscoped.2
  refine ⟨old, hold, ?_⟩
  rw [answered, contentExec_copyAssign hxy hold hcontent, requestHeap, hrefused]
  rfl

/-- The world shows contents, and they are sound. -/
def Kept (w : World ν α) : Prop := ∃ v : Contents ν, Shows w v ∧ Sound v

omit [DecidableEq ν] in
theorem Kept.represented {w : World ν α} (h : Kept w) : Represented w := by
  obtain ⟨v, hshows, hsound⟩ := h
  exact (represented_iff hshows).mpr hsound

omit [DecidableEq ν] in
theorem kept_noBuffers : Kept (noBuffers : World ν α) :=
  ⟨fun _ => none, shows_noBuffers, fun _ _ hx => by cases hx⟩

/-- Every legal statement but those that spoil keeps the buffers sound. -/
theorem Kept.step {w : World ν α} {c : Op ν × Allocator α Byte} (h : Kept w)
    (hlegal : Legal w c.1) (hgood : ¬ Spoils w c) :
    ∃ w', attempt .nothing w c = some w' ∧ Kept w' := by
  obtain ⟨v, hshows, hsound⟩ := h
  obtain ⟨e, he, hsound'⟩ := hsound.exec hshows hlegal hgood
  obtain ⟨o, ho, hends⟩ := Machine.exists_of_rel (exec_rel hshows hlegal.1) he
  exact ⟨o.state, Machine.caught_eq_some.mpr ⟨o, ho, rfl⟩, e.state, hends.state, hsound'⟩

/-- **The target of one that spoils has no block, and a length other than 0.** -/
theorem not_represented_of_spoils {w w' : World ν α} {c : Op ν × Allocator α Byte} (h : Kept w)
    (hlegal : Legal w c.1) (hbad : Spoils w c) (hstep : attempt .nothing w c = some w') :
    ¬ Represented w' := by
  obtain ⟨v, hshows, _⟩ := h
  obtain ⟨op, A⟩ := c
  obtain ⟨x, y, fields, rfl, hxy, hx, hlen, hrefused⟩ := hbad
  obtain ⟨o, ho, rfl⟩ := Machine.caught_eq_some.mp hstep
  obtain ⟨old, hold, hexec⟩ :=
    copyAssign_refused hshows hxy hlegal.1 (Option.map_eq_none_iff.mpr hrefused)
  have hrel := exec_rel (z := .nothing) (c := (.copyAssign x y, A)) hshows hlegal.1
  rw [ho, hexec] at hrel
  cases hrel with
  | some hends =>
      intro hrep
      obtain ⟨_, hf, hl, _⟩ := hshows.fields hold
      rw [hx] at hf
      cases hf
      refine hlen (hl.trans ((represented_iff hends.state).mp hrep x old.len ?_))
      exact Function.update_self ..

omit [DecidableEq α] in
/-- A copy assignment that throws is one to another buffer whose memory is refused. -/
theorem refused_of_threw {v v' : Contents ν} {x y : ν} {answer : Answer}
    (h : contentExec .nothing v (.copyAssign x y, answer) = some (.threw v')) :
    x ≠ y ∧ answer = none := by
  obtain ⟨old, _, h⟩ := Option.bind_eq_some_iff.mp h
  obtain ⟨content, _, h⟩ := Option.bind_eq_some_iff.mp h
  split at h
  · cases h
  · rename_i hxy
    cases answer with
    | none => exact ⟨hxy, rfl⟩
    | some garbage =>
        obtain ⟨l, _, h⟩ := Option.map_eq_some_iff.mp h
        cases h

/-- Thrown by a copy assignment that does not spoil, the exception finds the target empty. -/
theorem copyAssign_threw {A : Allocator α Byte} {w w' : World ν α} {x y : ν} (h : Kept w)
    (hlegal : Legal w (.copyAssign x y)) (hgood : ¬ Spoils w (.copyAssign x y, A))
    (hthrew : copyAssign .nothing A w x y = some (.threw w')) :
    w'.objs x = some { data := none, len := 0 } := by
  obtain ⟨v, hshows, _⟩ := h
  have hexec : exec .nothing w (.copyAssign x y, A) = some (.threw w') := hthrew
  have hrel := exec_rel (z := .nothing) (c := (.copyAssign x y, A)) hshows hlegal.1
  rw [hexec] at hrel
  generalize he : contentExec .nothing v (answered w (.copyAssign x y, A)) = e at hrel
  cases hrel with
  | some hends =>
      cases hends with
      | threw hshows' =>
          obtain ⟨hxy, hanswer⟩ := refused_of_threw he
          obtain ⟨old, hold, hrefused⟩ := copyAssign_refused hshows hxy hlegal.1 hanswer
          rw [he, len_of_not_spoils hshows hxy hold hanswer hgood] at hrefused
          cases hrefused
          -- what the contents say of the target is what its fields say
          obtain ⟨fields, hf, hlen, hown⟩ := hshows'.fields (Function.update_self ..)
          have hnull := hshows'.owns.own_eq_none (block_of_eq (Function.update_self ..))
          obtain ⟨data, len⟩ := fields
          cases hown.symm.trans hnull
          cases hlen
          exact hf

/-! ## Whole programs -/

/-- Every statement of a program is legal where the run has come to. -/
def LegalRun (calls : List (Op ν × Allocator α Byte)) : Prop :=
  Machine.Throughout (attempt .nothing) (noBuffers : World ν α) calls (fun w c => Legal w c.1)

/-- What is asked of a program in which any allocation may throw. -/
structure Intact (calls : List (Op ν × Allocator α Byte)) : Prop where
  /-- After every statement, every buffer alive is sound. -/
  sound : ∀ pre post : List (Op ν × Allocator α Byte), calls = pre ++ post →
    ∃ w : World ν α, Machine.run (attempt .nothing) noBuffers pre = some w ∧ Represented w
  /-- A copy assignment that throws leaves its target as it was, or empty. -/
  target : ∀ (pre post : List (Op ν × Allocator α Byte)) (this source : ν)
    (A : Allocator α Byte) (w w' : World ν α),
    calls = pre ++ (.copyAssign this source, A) :: post →
    Machine.run (attempt .nothing) noBuffers pre = some w →
    copyAssign .nothing A w this source = some (.threw w') →
    (w'.objs this = w.objs this ∧ valuesOf w' this = valuesOf w this)
      ∨ w'.objs this = some { data := none, len := 0 }

/--
**A program in which allocations fail keeps its buffers sound exactly when no copy
assignment to another buffer fails to allocate while its target has a length
other than 0.**
-/
theorem intact_iff {calls : List (Op ν × Allocator α Byte)} (hlegal : LegalRun calls) :
    Intact calls
      ↔ Machine.Throughout (attempt .nothing) (noBuffers : World ν α) calls
          (fun w c => ¬ Spoils w c) := by
  have hgood : ∀ (w : World ν α) (c : Op ν × Allocator α Byte), Kept w →
      Legal w c.1 ∧ ¬ Spoils w c → ∃ w', attempt .nothing w c = some w' ∧ Kept w' :=
    fun _ _ h hc => h.step hc.1 hc.2
  have hsound := Machine.run_holds_iff (fun _ => Kept.represented) hgood
    (fun _ _ _ => not_represented_of_spoils) kept_noBuffers hlegal
  constructor
  · intro hintact
    exact hsound.mp hintact.sound
  · intro hnone
    refine ⟨hsound.mpr hnone, ?_⟩
    intro pre post x y A w w' hsplit hw hthrew
    -- the invariant holds where the assignment starts
    obtain ⟨w₁, hw₁, hkept⟩ :=
      Machine.run_invariant hgood kept_noBuffers (hlegal.and hnone) pre _ hsplit
    rw [hw] at hw₁
    cases hw₁
    exact Or.inr (copyAssign_threw hkept (hlegal pre _ post w hsplit hw)
      (hnone pre _ post w hsplit hw) hthrew)

/-- Memory runs out for a constructor, and for an assignment to an empty buffer. -/
def refusedHarmlessly : List (Op Nat × Allocator Nat Byte) :=
  [(.constructBytes 0 [1, 2], Allocator.bump 0), (.copyConstruct 1 0, outOfMemory),
    (.constructSize 1 0, outOfMemory), (.copyAssign 1 0, outOfMemory)]

theorem intact_iff_sample : Intact refusedHarmlessly := by
  refine (intact_iff ?_).mpr ?_
  · refine .cons ⟨rfl, trivial⟩ rfl ?_
    refine .cons ⟨⟨rfl, rfl⟩, trivial⟩ rfl ?_
    refine .cons ⟨rfl, trivial⟩ rfl ?_
    exact .last ⟨⟨rfl, rfl⟩, trivial⟩
  · refine .cons (not_spoils (fun _ _ => nofun)) rfl ?_
    refine .cons (not_spoils (fun _ _ => nofun)) rfl ?_
    refine .cons (not_spoils (fun _ _ => nofun)) rfl ?_
    refine .last ?_
    -- the target of the assignment is empty
    intro hbad
    rcases hbad with ⟨x, y, fields, hop, -, hx, hlen, -⟩
    cases hop
    cases hx
    exact hlen rfl

/-- Two buffers; memory runs out when the one is assigned to the other. -/
def refusedAssignment : List (Op Nat × Allocator Nat Byte) :=
  [(.constructBytes 0 [1, 2], Allocator.bump 0), (.constructBytes 1 [3], Allocator.bump 0),
    (.copyAssign 0 1, outOfMemory)]

/-- The target is left with no block, and says it has two bytes. -/
theorem refusedAssignment_spoils : LegalRun refusedAssignment ∧ ¬ Intact refusedAssignment := by
  constructor
  · refine .cons ⟨rfl, trivial⟩ rfl ?_
    refine .cons ⟨rfl, trivial⟩ rfl ?_
    exact .last ⟨⟨rfl, rfl⟩, trivial⟩
  · intro hintact
    obtain ⟨w, hrun, hrep⟩ := hintact.sound refusedAssignment [] rfl
    cases hrun
    rcases hrep 0 { data := none, len := 2 } rfl with ⟨_, hzero⟩ | ⟨p, _, hp, _⟩
    · cases hzero
    · cases hp

end GBMU.DBuffer
