import GBMU.Lib.ClampedWalk
import GBMU.Proof.ClockRuns

/-!
# The clock of any run

`GBMU/Proof/ClockRuns.lean` takes times and prices that are not negative and a
clock that starts at or below zero. The types allow more: a payment of a negative
price, a time that is negative, a clock that starts above zero and stays there
until a `step` clamps it. In general the clock is a walk clamped at its steps, and
each call fails exactly when its sum leaves the range of `clk_cycle_t`.

Such walks forget where they started: a step that clamps the lower of two clocks
makes them equal.
-/

namespace GBMU.Devsync

open ClampedWalk (execIn)

/-- A call, as a move. -/
def Op.move : Op → ClampedWalk.Move Int
  | .step t => { delta := t.val, clamps := true }
  | .pay p => { delta := -p.val, clamps := false }

def InRange (n : Int) : Prop := int64Min ≤ n ∧ n ≤ int64Max

instance : DecidablePred InRange := fun n =>
  inferInstanceAs (Decidable (int64Min ≤ n ∧ n ≤ int64Max))

/-- Call `k` is a step. -/
def stepAt (ops : List Op) (k : Nat) : Bool :=
  match ops[k]? with
  | some (.step _) => true
  | _ => false

/-- What the clamps of the first `n` calls took: the highest balance after a step, if positive. -/
def lost (clock : ClkCycle) (ops : List Op) (n : Nat) : Int :=
  ((Finset.range n).filter (fun k => stepAt ops k = true)).fold max 0
    (fun k => balance clock ops (k + 1))

/-! ## The clock is a clamped walk -/

theorem ofInt?_eq_none {n : Int} (h : ¬ InRange n) : ClkCycle.ofInt? n = none := dif_neg h

theorem exec_val (clock : ClkCycle) (op : Op) :
    (exec clock op).map Subtype.val = execIn InRange clock.val op.move := by
  cases op with
  | step t =>
      have hmin : ∀ x : ClkCycle, (min x ClkCycle.zero).val = min x.val 0 := by
        intro x
        rcases le_total x ClkCycle.zero with hle | hle
        · rw [min_eq_left hle, min_eq_left (show x.val ≤ 0 from hle)]
        · rw [min_eq_right hle, min_eq_right (show 0 ≤ x.val from hle)]
          rfl
      show ((ClkCycle.ofInt? (clock.val + t.val)).map (fun sum => min sum ClkCycle.zero)).map
        Subtype.val = if InRange (clock.val + t.val) then some (min (clock.val + t.val) 0) else none
      by_cases hrange : InRange (clock.val + t.val)
      · rw [if_pos hrange, ofInt?_eq hrange]
        exact congrArg some (hmin _)
      · rw [if_neg hrange, ofInt?_eq_none hrange]
        rfl
  | pay p =>
      show (ClkCycle.ofInt? (clock.val - p.val)).map Subtype.val
        = if InRange (clock.val - p.val) then some (clock.val - p.val) else none
      by_cases hrange : InRange (clock.val - p.val)
      · rw [if_pos hrange, ofInt?_eq hrange]
        rfl
      · rw [if_neg hrange, ofInt?_eq_none hrange]
        rfl

theorem run_val (clock : ClkCycle) (ops : List Op) :
    (Machine.run exec clock ops).map Subtype.val
      = Machine.run (execIn InRange) clock.val (ops.map Op.move) := by
  induction ops generalizing clock with
  | nil => rfl
  | cons op ops ih =>
      rw [List.map_cons, Machine.run_cons, Machine.run_cons, ← exec_val]
      cases exec clock op with
      | none => rfl
      | some next => exact ih next

theorem run_eq_some {clock clock' : ClkCycle} {ops : List Op} :
    Machine.run exec clock ops = some clock'
      ↔ Machine.run (execIn InRange) clock.val (ops.map Op.move) = some clock'.val := by
  rw [← run_val]
  cases Machine.run exec clock ops with
  | none =>
      constructor
      · intro h
        cases h
      · intro h
        cases h
  | some c =>
      rw [Option.map_some, Option.some_inj, Option.some_inj]
      exact Subtype.ext_iff

theorem free_move (clock : ClkCycle) (ops : List Op) :
    ClampedWalk.free clock.val (ops.map Op.move) = balance clock ops := by
  have hdelta : (ops.map Op.move).map ClampedWalk.Move.delta = ops.map Op.delta := by
    rw [List.map_map]
    refine List.map_congr_left (fun op _ => ?_)
    cases op <;> rfl
  rw [balance_eq]
  funext k
  rw [ClampedWalk.free, hdelta]

theorem clampsAt_move (ops : List Op) (k : Nat) :
    ClampedWalk.clampsAt (ops.map Op.move) k = stepAt ops k := by
  rw [ClampedWalk.clampsAt, List.getElem?_map, stepAt]
  cases ops[k]? with
  | none => rfl
  | some op => cases op <;> rfl

theorem loss_move (clock : ClkCycle) (ops : List Op) (n : Nat) :
    ClampedWalk.loss clock.val (ops.map Op.move) n = lost clock ops n := by
  rw [ClampedWalk.loss, free_move]
  simp only [clampsAt_move]
  rfl

/--
**Any run of the clock, and exactly when it overflows.**

For any script of calls and nested actions and any clock, whatever the signs of
the times, the prices and the clock: the script is defined if and only if, at each
of its calls, the balance less what the steps before it clamped away is in the
range of `clk_cycle_t`; and it leaves the clock at the balance less what all its
steps clamped away, the highest balance after a step, if positive.
-/
theorem clock_exact (clock : ClkCycle) (script : Script) :
    let ops := script.flatten
    let S := balance clock ops
    let L := lost clock ops
    ((∃ clock', script.exec clock = some clock')
        ↔ ∀ k < ops.length, int64Min ≤ S (k + 1) - L k ∧ S (k + 1) - L k ≤ int64Max)
      ∧ ∀ clock', script.exec clock = some clock' →
          clock'.val = S ops.length - L ops.length := by
  intro ops S L
  have hrun : ∀ n, Machine.run (execIn InRange) clock.val (ops.map Op.move) = some n
      ↔ (∀ k < ops.length, InRange (S (k + 1) - L k)) ∧ n = S ops.length - L ops.length := by
    intro n
    rw [ClampedWalk.run_eq_some_iff, List.length_map, free_move]
    simp only [loss_move]
    rfl
  rw [Script.exec_eq_run]
  constructor
  · constructor
    · intro h
      rcases h with ⟨clock', h⟩
      exact ((hrun _).mp (run_eq_some.mp h)).1
    · intro h
      have hsome := (hrun _).mpr ⟨h, rfl⟩
      rw [← run_val] at hsome
      rcases Option.map_eq_some_iff.mp hsome with ⟨clock', hclock', _⟩
      exact ⟨clock', hclock'⟩
  · intro clock' h
    exact ((hrun _).mp (run_eq_some.mp h)).2

/-! ## Two clocks -/

/--
**Clocks that run the same script.**

From a lower and a higher clock, both of which the script leaves defined: it is
defined on every clock in between, and leaves it in between; the distance of the
two never grows; and they end equal exactly when they started equal or some step
on the way left the lower one at zero.
-/
theorem clocks_coupled {script : Script} {lower clock higher lower' higher' : ClkCycle}
    (hlower : lower ≤ clock) (hhigher : clock ≤ higher)
    (hl : script.exec lower = some lower') (hh : script.exec higher = some higher') :
    (∃ clock', script.exec clock = some clock' ∧ lower' ≤ clock' ∧ clock' ≤ higher')
      ∧ higher'.val - lower'.val ≤ higher.val - lower.val
      ∧ (lower' = higher' ↔ lower = higher ∨ ∃ pre t post, script.flatten = pre ++ .step t :: post
          ∧ Machine.run exec lower (pre ++ [.step t]) = some ClkCycle.zero) := by
  have hconvex : ∀ {x y z : Int}, x ≤ y → y ≤ z → InRange x → InRange z → InRange y :=
    fun hxy hyz hx hz => ⟨hx.1.trans hxy, hyz.trans hz.2⟩
  rw [Script.exec_eq_run] at hl hh
  have hl' := run_eq_some.mp hl
  have hh' := run_eq_some.mp hh
  have hle : lower.val ≤ higher.val := le_trans (α := Int) hlower hhigher
  rcases ClampedWalk.foldl_coupled hle (script.flatten.map Op.move) with ⟨_, hsub, hmeet⟩
  rw [ClampedWalk.foldl_of_run hl', ClampedWalk.foldl_of_run hh'] at hsub hmeet
  refine ⟨?_, hsub, ?_⟩
  · rcases ClampedWalk.run_between hconvex hlower hhigher hl' hh' with ⟨n, hn, hln, hnh⟩
    rw [← run_val] at hn
    rcases Option.map_eq_some_iff.mp hn with ⟨clock', hclock', rfl⟩
    exact ⟨clock', by rw [Script.exec_eq_run]; exact hclock', hln, hnh⟩
  · rw [Subtype.ext_iff, hmeet, Subtype.ext_iff]
    refine or_congr_right ?_
    constructor
    · intro h
      rcases h with ⟨mpre, m, mpost, hsplit, hclamps, hzero⟩
      rcases List.map_eq_append_iff.mp hsplit with ⟨pre, rest, hops, rfl, hrest⟩
      rcases List.map_eq_cons_iff.mp hrest with ⟨op, post, rfl, rfl, rfl⟩
      cases op with
      | pay p => cases hclamps
      | step t =>
          refine ⟨pre, t, post, hops, ?_⟩
          -- the run up to the step is a part of a defined run
          rw [hops, ← List.singleton_append, ← List.append_assoc, Machine.run_append] at hl
          rcases Option.bind_eq_some_iff.mp hl with ⟨mid, hmid, _⟩
          have hval := ClampedWalk.foldl_of_run (run_eq_some.mp hmid)
          rw [List.map_append, List.map_singleton, hzero] at hval
          rw [hmid]
          exact congrArg some (Subtype.ext hval.symm)
    · intro h
      rcases h with ⟨pre, t, post, hops, hrun⟩
      have hval := ClampedWalk.foldl_of_run (run_eq_some.mp hrun)
      rw [List.map_append] at hval
      refine ⟨pre.map Op.move, (Op.step t).move, post.map Op.move, ?_, rfl, hval⟩
      rw [hops, List.map_append, List.map_cons]

/-- One step of 4 cycles makes one clock of three. -/
theorem clocks_coupled_sample :
    ∃ clock', (Script.step .four .done).exec ⟨-3, by decide⟩ = some clock'
      ∧ ClkCycle.zero ≤ clock' ∧ clock' ≤ ClkCycle.zero :=
  (clocks_coupled (show (⟨-4, by decide⟩ : ClkCycle) ≤ ⟨-3, by decide⟩ by decide)
    (show (⟨-3, by decide⟩ : ClkCycle) ≤ ClkCycle.zero by decide) rfl rfl).1

end GBMU.Devsync
