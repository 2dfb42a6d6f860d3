import Mathlib.Logic.Equiv.Fin.Basic
import GBMU.Lib.History

/-!
# Banked memories

A banked memory is a set of cells reached in two ways: *directly*, by naming the
cell, and through a *window*, where the cell also depends on a selection
register. `Banked.State` is the reference: a register and a content for every
cell, with no layout at all.

`cells_eq_latest` says what such a memory is for: a cell holds the byte of the
latest write that went to it, by whichever path, under whichever selection.
`Realises` says that a device is one, on every argument, those outside included.

The second half is the layout. Bank-and-offset cells are numbered by
`Cell.index`, a bijection onto `[0, banks * size)`, so that a flat list can stand
for the cells (`Flat`). Writing one entry of the list is writing one cell.
-/

namespace Banked

variable {ρ γ κ β : Type*}

/-! ## The reference memory -/

/-- A selection register and the content of every cell. -/
structure State (ρ κ β : Type*) where
  reg : ρ
  cells : κ → β

/-- What a program does to a banked memory. -/
inductive Access (ρ γ κ β : Type*) where
  | select (r : ρ)
  | window (a : γ) (b : β)
  | direct (c : κ) (b : β)

/-- The cell an access writes when it meets `s`, and the byte. -/
def target (win : ρ → γ → κ) (s : State ρ κ β) : Access ρ γ κ β → Option (κ × β)
  | .select _ => none
  | .window a b => some (win s.reg a, b)
  | .direct c b => some (c, b)

variable [DecidableEq κ]

def step (win : ρ → γ → κ) (s : State ρ κ β) : Access ρ γ κ β → State ρ κ β
  | .select r => { s with reg := r }
  | .window a b => { s with cells := Function.update s.cells (win s.reg a) b }
  | .direct c b => { s with cells := Function.update s.cells c b }

/-- What a write assigns to the cell `c`. -/
def writes (c : κ) (w : Option (κ × β)) : Option β :=
  w.bind (fun p => if p.1 = c then some p.2 else none)

theorem step_cells (win : ρ → γ → κ) (s : State ρ κ β) (a : Access ρ γ κ β) (c : κ) :
    (step win s a).cells c = (writes c (target win s a)).getD (s.cells c) := by
  -- either kind of write is an update of one cell
  have hupdate : ∀ (k : κ) (b : β),
      Function.update s.cells k b c = (writes c (some (k, b))).getD (s.cells c) := by
    intro k b
    by_cases hk : k = c
    · subst hk
      simp [writes]
    · rw [Function.update_of_ne (Ne.symm hk)]
      simp [writes, hk]
  cases a with
  | select r => rfl
  | window a b => exact hupdate _ b
  | direct k b => exact hupdate k b

/-- The writes of a run, each with the cell it went to at its moment. -/
def writeLog (win : ρ → γ → κ) (s : State ρ κ β) (as : List (Access ρ γ κ β)) :
    List (Option (κ × β)) :=
  Machine.log (step win) (target win) s as

/-- **A cell holds the byte of the latest write to it, or its initial one.** -/
theorem cells_eq_latest (win : ρ → γ → κ) (s : State ρ κ β) (as : List (Access ρ γ κ β))
    (c : κ) :
    (as.foldl (step win) s).cells c
      = (History.last (writes c) (writeLog win s as)).getD (s.cells c) :=
  History.tracks_log (fun s => s.cells c) (fun s a => step_cells win s a c) s as

/-- What an access selects. -/
def selects : Access ρ γ κ β → Option ρ
  | .select r => some r
  | _ => none

/-- The register holds the last value selected. -/
theorem reg_eq_last (win : ρ → γ → κ) (s : State ρ κ β) (as : List (Access ρ γ κ β)) :
    (as.foldl (step win) s).reg = (History.last selects as).getD s.reg :=
  History.tracks State.reg (fun _ a => by cases a <;> rfl) s as

/-! ## Devices that realise a banked memory -/

section Realises

variable {σ ι π : Type*}

/-- The reference memory after those operations of a run that name a cell. -/
def after (win : ρ → γ → κ) (access : ι → Option (Access ρ γ κ β)) (t : State ρ κ β)
    (is : List ι) : State ρ κ β :=
  (is.filterMap access).foldl (step win) t

/--
From `s₀`, a device whose operations are the accesses of a banked memory that
starts at `t₀`. An operation without an access, and a place without a cell, are
outside of the memory.
-/
structure Realises (dstep : σ → ι → Option σ) (readWindow : σ → γ → Option β)
    (readDirect : σ → π → Option β) (win : ρ → γ → κ) (access : ι → Option (Access ρ γ κ β))
    (cellOf : π → Option κ) (s₀ : σ) (t₀ : State ρ κ β) : Prop where
  /-- A run is defined exactly when none of its operations is outside. -/
  defined : ∀ is, (∃ s, Machine.run dstep s₀ is = some s) ↔ ∀ i ∈ is, (access i).isSome
  /-- Reads through the window. -/
  window : ∀ is s, Machine.run dstep s₀ is = some s → ∀ a,
    readWindow s a = some ((after win access t₀ is).cells (win (after win access t₀ is).reg a))
  /-- Direct reads, defined inside. -/
  direct : ∀ is s, Machine.run dstep s₀ is = some s → ∀ p,
    readDirect s p = (cellOf p).map (after win access t₀ is).cells

/-- **A relation kept by every operation makes a device realise its memory.** -/
theorem realises_of_relation {dstep : σ → ι → Option σ} {readWindow : σ → γ → Option β}
    {readDirect : σ → π → Option β} {win : ρ → γ → κ} {access : ι → Option (Access ρ γ κ β)}
    {cellOf : π → Option κ} {R : σ → State ρ κ β → Prop}
    (hstep : ∀ {s t i a}, R s t → access i = some a →
      ∃ s', dstep s i = some s' ∧ R s' (step win t a))
    (hout : ∀ {s t i}, R s t → access i = none → dstep s i = none)
    (hwindow : ∀ {s t}, R s t → ∀ a, readWindow s a = some (t.cells (win t.reg a)))
    (hdirect : ∀ {s t}, R s t → ∀ p, readDirect s p = (cellOf p).map t.cells)
    {s₀ : σ} {t₀ : State ρ κ β} (h : R s₀ t₀) :
    Realises dstep readWindow readDirect win access cellOf s₀ t₀ := by
  have hrun : ∀ (is : List ι) {s : σ} {t : State ρ κ β}, R s t →
      ((∃ s', Machine.run dstep s is = some s') ↔ ∀ i ∈ is, (access i).isSome)
        ∧ ∀ s', Machine.run dstep s is = some s' → R s' (after win access t is) := by
    intro is
    induction is with
    | nil =>
        intro s t hr
        refine ⟨⟨fun _ i hi => absurd hi (List.not_mem_nil), fun _ => ⟨s, rfl⟩⟩, ?_⟩
        intro s' hs'
        cases hs'
        exact hr
    | cons i is ih =>
        intro s t hr
        cases haccess : access i with
        | none =>
            rw [Machine.run_cons, hout hr haccess, Option.bind_none, List.forall_mem_cons, haccess]
            refine ⟨⟨fun h => ?_, fun h => absurd h.1 Bool.false_ne_true⟩, ?_⟩
            · rcases h with ⟨s', hs'⟩
              cases hs'
            · intro s' hs'
              cases hs'
        | some a =>
            rcases hstep hr haccess with ⟨next, hnext, hr'⟩
            rcases ih hr' with ⟨hdefined, hafter⟩
            rw [Machine.run_cons, hnext, Option.bind_some, List.forall_mem_cons, haccess]
            refine ⟨⟨fun h => ⟨rfl, hdefined.mp h⟩, fun h => hdefined.mpr h.2⟩, ?_⟩
            intro s' hs'
            rw [after, List.filterMap_cons_some haccess]
            exact hafter s' hs'
  exact
    { defined := fun is => (hrun is h).1
      window := fun is s hs => hwindow ((hrun is h).2 s hs)
      direct := fun is s hs => hdirect ((hrun is h).2 s hs) }

end Realises

/-! ## The layout of banks in a flat list -/

variable {banks size : Nat}

/-- A bank and an offset in it. -/
abbrev Cell (banks size : Nat) := Fin banks × Fin size

/-- The place of a cell when the banks lie one after another. -/
def Cell.index (c : Cell banks size) : Nat := finProdFinEquiv c

theorem Cell.index_eq (c : Cell banks size) : c.index = c.1.val * size + c.2.val := by
  rw [Cell.index, finProdFinEquiv_apply_val, Nat.mul_comm, Nat.add_comm]

theorem Cell.index_lt (c : Cell banks size) : c.index < banks * size :=
  (finProdFinEquiv c).isLt

theorem Cell.index_inj {c d : Cell banks size} : c.index = d.index ↔ c = d := by
  rw [Cell.index, Cell.index, Fin.val_inj, Equiv.apply_eq_iff_eq]

/-- `flat` lists the cells of `mem`, bank after bank. -/
structure Flat (flat : List β) (mem : Cell banks size → β) : Prop where
  /-- One entry for each cell. -/
  length : flat.length = banks * size
  /-- The entry at a cell's index is its content. -/
  cell : ∀ c : Cell banks size, flat[c.index]? = some (mem c)

/-- The cells a list of the right length stands for. -/
def ofFlat (flat : Vector β (banks * size)) (c : Cell banks size) : β :=
  flat.get (finProdFinEquiv c)

theorem flat_ofFlat (flat : Vector β (banks * size)) : Flat flat.toList (ofFlat flat) := by
  refine ⟨Vector.length_toList, fun c => ?_⟩
  have hlt : c.index < flat.toList.length := by
    rw [Vector.length_toList]; exact c.index_lt
  rw [List.getElem?_eq_getElem hlt]
  simp [ofFlat, Cell.index, Vector.get]

/-- Past the cells there is nothing. -/
theorem Flat.length_le {flat : List β} {mem : Cell banks size → β} (h : Flat flat mem) {p : Nat}
    (hp : ¬ p < banks * size) : flat.length ≤ p := by
  rw [h.length]
  exact Nat.not_lt.mp hp

/-- Writing the entry of a cell writes the cell, and no other. -/
theorem Flat.set {flat : List β} {mem : Cell banks size → β} (h : Flat flat mem)
    (c : Cell banks size) (b : β) : Flat (flat.set c.index b) (Function.update mem c b) := by
  refine ⟨by rw [List.length_set]; exact h.length, fun d => ?_⟩
  by_cases hdc : d = c
  · subst hdc
    rw [Function.update_self, List.getElem?_set_self]
    rw [h.length]
    exact d.index_lt
  · have hne : c.index ≠ d.index := fun he => hdc (Cell.index_inj.mp he).symm
    rw [Function.update_of_ne hdc, List.getElem?_set_ne hne]
    exact h.cell d

end Banked
