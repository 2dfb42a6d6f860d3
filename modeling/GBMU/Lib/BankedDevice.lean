import GBMU.Lib.BankedMemory
import GBMU.Lib.Machine

/-!
# Devices over a flat memory

A device keeps the cells of a banked memory in one list. It is written and read
at a place: the one it computes from an inner address and its selection register,
or the one a physical address names. A place past the end of the list has no
defined outcome.

`Layout` says which reference memory such a device stands for: what of the register
selects, and which cell lies at each place. Then the device refines the reference
(`Layout.step`, `Layout.simulation`) and realises it on every argument
(`Layout.realises`).

`Ignores` is the other direction: states that differ in what no place and no reply
depends on. A device cannot tell them apart (`Ignores.bisimulation`).
-/

namespace Banked

variable {δ ρ γ π β ι : Type*}

/-- A memory in one list, and where the two kinds of address reach into it. -/
structure Device (δ ρ γ π β : Type*) where
  memory : δ → List β
  setMemory : δ → List β → δ
  select : δ → ρ → δ
  /-- The place of an inner address, under the register of the device. -/
  window : δ → γ → Nat
  /-- The place of a physical address. -/
  direct : π → Nat
  memory_setMemory : ∀ d m, memory (setMemory d m) = m
  memory_select : ∀ d r, memory (select d r) = memory d

namespace Device

variable (D : Device δ ρ γ π β)

def read (d : δ) (n : Nat) : Option β := (D.memory d)[n]?

def write (d : δ) (n : Nat) (b : β) : Option δ :=
  (if n < (D.memory d).length then some ((D.memory d).set n b) else none).map (D.setMemory d)

/-- What a program does to the device; a `direct` access names a physical address. -/
def step (d : δ) : Access ρ γ π β → Option δ
  | .select r => some (D.select d r)
  | .window a b => D.write d (D.window d a) b
  | .direct p b => D.write d (D.direct p) b

/-- Every call; a read changes nothing and answers an entry. -/
inductive Call (ρ γ π β : Type*) where
  | access (a : Access ρ γ π β)
  | register
  | readWindow (a : γ)
  | readDirect (p : π)

/-- `register` is what the selection register reads as. -/
def call (register : δ → β) (d : δ) : Call ρ γ π β → Option (δ × Option β)
  | .access a => (D.step d a).map (fun d' => (d', none))
  | .register => some (d, some (register d))
  | .readWindow a => (D.read d (D.window d a)).map (fun b => (d, some b))
  | .readDirect p => (D.read d (D.direct p)).map (fun b => (d, some b))

end Device

/-! ## The reference memory a device stands for -/

section Layout

variable {banks size : Nat} {D : Device δ ρ γ π β}

/-- `Selects d r` when the register of `d` selects what `r` does; `win` and `phys` are the cells. -/
structure Layout (D : Device δ ρ γ π β) (Selects : δ → ρ → Prop)
    (win : ρ → γ → Cell banks size) (phys : π → Cell banks size) : Prop where
  select : ∀ d r, Selects (D.select d r) r
  setMemory : ∀ {d r} m, Selects d r → Selects (D.setMemory d m) r
  /-- An inner address reaches its cell. -/
  window : ∀ {d r} a, Selects d r → D.window d a = (win r a).index
  /-- So does a physical one that is inside. -/
  direct : ∀ {p}, D.direct p < banks * size → (phys p).index = D.direct p

variable {Selects : δ → ρ → Prop} {win : ρ → γ → Cell banks size} {phys : π → Cell banks size}
variable {d : δ} {s : State ρ (Cell banks size) β}

/-- The list holds the cells of the reference memory, and the register selects alike. -/
structure Refines (D : Device δ ρ γ π β) (Selects : δ → ρ → Prop) (d : δ)
    (s : State ρ (Cell banks size) β) : Prop where
  /-- The selection register, as far as it selects. -/
  reg : Selects d s.reg
  /-- The memory. -/
  flat : Flat (D.memory d) s.cells

/-- At the place of a cell its content is read. -/
theorem Refines.read (h : Refines D Selects d s) {n : Nat} {c : Cell banks size}
    (hn : n = c.index) : D.read d n = some (s.cells c) := by
  rw [Device.read, hn]
  exact h.flat.cell c

theorem Refines.read_outside (h : Refines D Selects d s) {n : Nat} (hn : ¬ n < banks * size) :
    D.read d n = none :=
  List.getElem?_eq_none (h.flat.length_le hn)

theorem Refines.write_outside (h : Refines D Selects d s) {n : Nat} (hn : ¬ n < banks * size)
    (b : β) : D.write d n b = none := by
  rw [Device.write, if_neg (Nat.not_lt.mpr (h.flat.length_le hn)), Option.map_none]

namespace Layout

/-- At the place of a cell that cell is written, and no other. -/
theorem write (hl : Layout D Selects win phys) (h : Refines D Selects d s) {n : Nat}
    {c : Cell banks size} (hn : n = c.index) (b : β) :
    ∃ d', D.write d n b = some d'
      ∧ Refines D Selects d' { s with cells := Function.update s.cells c b } := by
  have hlt : c.index < (D.memory d).length := by
    rw [h.flat.length]
    exact c.index_lt
  refine ⟨D.setMemory d ((D.memory d).set c.index b), ?_, hl.setMemory _ h.reg, ?_⟩
  · rw [Device.write, hn, if_pos hlt, Option.map_some]
  · rw [D.memory_setMemory]
    exact h.flat.set c b

theorem readWindow (hl : Layout D Selects win phys) (h : Refines D Selects d s) (a : γ) :
    D.read d (D.window d a) = some (s.cells (win s.reg a)) :=
  h.read (hl.window a h.reg)

theorem readDirect (hl : Layout D Selects win phys) (h : Refines D Selects d s) {p : π}
    (hp : D.direct p < banks * size) : D.read d (D.direct p) = some (s.cells (phys p)) :=
  h.read (hl.direct hp).symm

/-- The cell of a physical address. -/
def cellOf? (D : Device δ ρ γ π β) (phys : π → Cell banks size) (p : π) :
    Option (Cell banks size) :=
  if D.direct p < banks * size then some (phys p) else none

/-- An access of the device as one of the reference memory. -/
def access? (D : Device δ ρ γ π β) (phys : π → Cell banks size) :
    Access ρ γ π β → Option (Access ρ γ (Cell banks size) β)
  | .select r => some (.select r)
  | .window a b => some (.window a b)
  | .direct p b => (cellOf? D phys p).map (fun c => .direct c b)

/-- **An access inside is the same access of the reference**, -/
theorem step (hl : Layout D Selects win phys) (h : Refines D Selects d s) {i : Access ρ γ π β}
    {a : Access ρ γ (Cell banks size) β} (hi : access? D phys i = some a) :
    ∃ d', D.step d i = some d' ∧ Refines D Selects d' (Banked.step win s a) := by
  cases i with
  | select r =>
      cases hi
      refine ⟨D.select d r, rfl, hl.select d r, ?_⟩
      rw [D.memory_select]
      exact h.flat
  | window addr b =>
      cases hi
      exact hl.write h (hl.window addr h.reg) b
  | direct p b =>
      rw [access?, cellOf?] at hi
      split at hi
      · rename_i hp
        cases hi
        exact hl.write h (hl.direct hp).symm b
      · cases hi

/-- **and one outside is not defined.** -/
theorem step_outside (h : Refines D Selects d s) {i : Access ρ γ π β}
    (hi : access? D phys i = none) : D.step d i = none := by
  cases i with
  | select r => cases hi
  | window addr b => cases hi
  | direct p b =>
      rw [access?, cellOf?] at hi
      split at hi
      · cases hi
      · rename_i hp
        exact h.write_outside hp b

/-- **A device realises the memory of its layout, whatever the arguments.** -/
theorem realises (hl : Layout D Selects win phys) {dstep : δ → ι → Option δ}
    {access : ι → Option (Access ρ γ (Cell banks size) β)} (place : ι → Access ρ γ π β)
    (hstep : ∀ d i, dstep d i = D.step d (place i))
    (haccess : ∀ i, access i = access? D phys (place i)) (h : Refines D Selects d s) :
    Realises dstep (fun d a => D.read d (D.window d a)) (fun d p => D.read d (D.direct p)) win
      access (cellOf? D phys) d s := by
  refine realises_of_relation (R := Refines D Selects) ?_ ?_ ?_ ?_ h
  · intro d s i a h hi
    rw [hstep]
    exact hl.step h ((haccess i).symm.trans hi)
  · intro d s i h hi
    rw [hstep]
    exact step_outside h ((haccess i).symm.trans hi)
  · intro d s h a
    exact hl.readWindow h a
  · intro d s h p
    rw [cellOf?]
    split
    · rename_i hp
      exact hl.readDirect h hp
    · rename_i hp
      exact h.read_outside hp

/-- **One operation is one access**, under any reading `win'` of the window where it agrees. -/
theorem simulation (hl : Layout D Selects win phys) {dstep : δ → ι → Option δ}
    {access : ι → Access ρ γ (Cell banks size) β} {ok : ι → Prop} {win' : ρ → γ → Cell banks size}
    (place : ι → Access ρ γ π β) (hstep : ∀ d i, dstep d i = D.step d (place i))
    (haccess : ∀ i, ok i → access? D phys (place i) = some (access i))
    (hwin : ∀ i, ok i → ∀ a b, access i = .window a b → ∀ r, win r a = win' r a) :
    Machine.Simulation dstep (Machine.total (fun s i => Banked.step win' s (access i))) ok
      (Refines D Selects) where
  step := by
    intro d s s' i h hok hs
    cases hs
    rw [hstep]
    obtain ⟨d', hd', hr⟩ := hl.step h (haccess i hok)
    have hsame : Banked.step win s (access i) = Banked.step win' s (access i) := by
      have hagree := hwin i hok
      cases ha : access i with
      | select r => rfl
      | window a b => rw [Banked.step, Banked.step, hagree a b ha]
      | direct c b => rfl
    rw [hsame] at hr
    exact ⟨d', hd', hr⟩

end Layout

end Layout

/-! ## What a device ignores -/

/-- `R` relates states that differ in nothing a place or a reply depends on. -/
structure Ignores (D : Device δ ρ γ π β) (register : δ → β) (R : δ → δ → Prop) : Prop where
  memory : ∀ {d e}, R d e → D.memory d = D.memory e
  window : ∀ {d e}, R d e → ∀ a, D.window d a = D.window e a
  register : ∀ {d e}, R d e → register d = register e
  select : ∀ {d e}, R d e → ∀ r, R (D.select d r) (D.select e r)
  setMemory : ∀ {d e}, R d e → ∀ m, R (D.setMemory d m) (D.setMemory e m)

namespace Ignores

variable {D : Device δ ρ γ π β} {register : δ → β} {R : δ → δ → Prop} {d e : δ}

theorem read_eq (h : Ignores D register R) (hr : R d e) (n : Nat) : D.read d n = D.read e n := by
  rw [Device.read, Device.read, h.memory hr]

theorem write_rel (h : Ignores D register R) (hr : R d e) (n : Nat) (b : β) :
    Option.Rel R (D.write d n b) (D.write e n b) := by
  rw [Device.write, Device.write, h.memory hr]
  exact Machine.rel_map (fun m => h.setMemory hr m) _

theorem step_rel (h : Ignores D register R) (hr : R d e) (a : Access ρ γ π β) :
    Option.Rel R (D.step d a) (D.step e a) := by
  cases a with
  | select r => exact .some (h.select hr r)
  | window a b =>
      rw [Device.step, Device.step, h.window hr]
      exact h.write_rel hr _ b
  | direct p b => exact h.write_rel hr _ b

/-- A read that finds the same, in related states. -/
theorem reply_rel (hr : R d e) (x : Option β) :
    Option.Rel (fun y z => R y.1 z.1 ∧ y.2 = z.2) (x.map (fun b => (d, some b)))
      (x.map (fun b => (e, some b))) :=
  Machine.rel_map (fun _ => ⟨hr, rfl⟩) x

/-- **No call tells apart what a device ignores.** -/
theorem bisimulation (h : Ignores D register R) {κ : Type*} {call : δ → κ → Option (δ × Option β)}
    (place : κ → Device.Call ρ γ π β) (hcall : ∀ d q, call d q = D.call register d (place q)) :
    Machine.Bisimulation call R where
  call := by
    intro d e q hr
    rw [hcall, hcall]
    cases place q with
    | access a => exact Machine.rel_map_imp (h.step_rel hr a) (fun _ _ hab => ⟨hab, rfl⟩)
    | register => exact .some ⟨hr, congrArg some (h.register hr)⟩
    | readWindow a =>
        rw [Device.call, Device.call, h.window hr, h.read_eq hr]
        exact reply_rel hr _
    | readDirect p =>
        rw [Device.call, Device.call, h.read_eq hr]
        exact reply_rel hr _

end Ignores

end Banked
