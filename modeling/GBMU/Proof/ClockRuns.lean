import Mathlib.Algebra.Order.Ring.Int
import GBMU.Common.Clock
import GBMU.Lib.Machine
import GBMU.Lib.ReflectedWalk

/-!
# The clock of an ungated run

A step clamps the clock at zero and a payment lowers it, so on the integers the
clock is a walk reflected at zero, with the times as rises and the prices as
falls. An action pays first and then runs its callback, which makes a script the
sequence of its calls read from the outside in.

Only a payment can overflow, downwards, and it does not while the initial value
covers all the prices.
-/

namespace GBMU.Devsync

/-- The times and prices the library is used with. -/
def Op.NonNeg : Op → Prop
  | .step t => 0 ≤ t.val
  | .pay p => 0 ≤ p.val

/-- What a call adds to the clock, as far as the clamp lets it. -/
def Op.delta : Op → Int
  | .step t => t.val
  | .pay p => -p.val

def Op.price : Op → Int
  | .step _ => 0
  | .pay p => p.val

/-- All the prices of a run. -/
def prices (ops : List Op) : Int := (ops.map Op.price).sum

/-- The initial value with the first `k` times added and prices taken off, unclamped. -/
def balance (clock : ClkCycle) (ops : List Op) (k : Nat) : Int :=
  clock.val + ((ops.take k).map Op.delta).sum

/-- The calls of a script in the order they are made. -/
def Script.flatten : Script → List Op
  | .done => []
  | .step ccls rest => .step ccls :: rest.flatten
  | .pay ccls rest => .pay ccls :: rest.flatten
  | .action price cbFunc rest => .pay price :: (cbFunc.flatten ++ rest.flatten)

/-! ## Scripts are sequences of calls -/

theorem Script.exec_eq_run (script : Script) (clock : ClkCycle) :
    script.exec clock = Machine.run Devsync.exec clock script.flatten := by
  induction script generalizing clock with
  | done => rfl
  | step ccls rest ih =>
      rw [flatten, Machine.run_cons, Script.exec]
      exact congrArg _ (funext ih)
  | pay ccls rest ih =>
      rw [flatten, Machine.run_cons, Script.exec]
      exact congrArg _ (funext ih)
  | action price cbFunc rest ihCb ihRest =>
      rw [flatten, Machine.run_cons, Script.exec, Action, Option.bind_assoc]
      refine congrArg _ (funext fun paid => ?_)
      rw [ihCb, Machine.run_append]
      exact congrArg _ (funext ihRest)

/-! ## One call -/

theorem Op.NonNeg.price {op : Op} (h : op.NonNeg) : 0 ≤ op.price := by
  cases op with
  | step t => exact le_refl 0
  | pay p => exact h

/-- A call is defined while its price is covered, and moves the clock as a reflected walk. -/
theorem exec_spec {clock : ClkCycle} (hclock : clock.val ≤ 0) {op : Op} (hop : op.NonNeg)
    (hmin : int64Min ≤ clock.val - op.price) :
    ∃ clock', exec clock op = some clock'
      ∧ clock'.val = ReflectedWalk.reflect clock.val op.delta
      ∧ clock.val - op.price ≤ clock'.val := by
  cases op with
  | step t =>
      have ht : 0 ≤ t.val := hop
      obtain ⟨clock', hstep, hval⟩ := step_spec hclock ht
      refine ⟨clock', hstep, hval, ?_⟩
      rw [hval]
      exact le_min (by simp only [Op.price]; omega) (by simp only [Op.price]; omega)
  | pay p =>
      have hp : 0 ≤ p.val := hop
      obtain ⟨clock', hpay, hval⟩ := pay_spec hp hmin
      refine ⟨clock', hpay, ?_, le_of_eq hval.symm⟩
      have hneg : clock.val + -p.val ≤ 0 := by omega
      rw [hval, ReflectedWalk.reflect, Op.delta, min_eq_left hneg]
      rfl

/-! ## Whole runs -/

theorem prices_nonneg {ops : List Op} (hops : ∀ op ∈ ops, op.NonNeg) : 0 ≤ prices ops := by
  refine List.sum_nonneg (fun p hp => ?_)
  obtain ⟨op, hop, rfl⟩ := List.mem_map.mp hp
  exact (hops op hop).price

theorem prices_append (pre post : List Op) : prices (pre ++ post) = prices pre + prices post := by
  rw [prices, List.map_append, List.sum_append]
  rfl

theorem prices_take_le {ops : List Op} (hops : ∀ op ∈ ops, op.NonNeg) (n : Nat) :
    prices (ops.take n) ≤ prices ops := by
  have hsplit := prices_append (ops.take n) (ops.drop n)
  rw [List.take_append_drop] at hsplit
  have hrest := prices_nonneg (fun op hop => hops op (List.mem_of_mem_drop (i := n) hop))
  omega

/-- **A run whose prices are covered is defined, and is a reflected walk.** -/
theorem run_spec {ops : List Op} {clock : ClkCycle} (hclock : clock.val ≤ 0)
    (hops : ∀ op ∈ ops, op.NonNeg) (hmin : int64Min ≤ clock.val - prices ops) :
    ∃ clock', Machine.run exec clock ops = some clock'
      ∧ clock'.val = (ops.map Op.delta).foldl ReflectedWalk.reflect clock.val := by
  induction ops generalizing clock with
  | nil => exact ⟨clock, rfl, rfl⟩
  | cons op ops ih =>
      have hrest : ∀ o ∈ ops, o.NonNeg := fun o ho => hops o (List.mem_cons_of_mem _ ho)
      have hsum : prices (op :: ops) = op.price + prices ops := rfl
      have hpos := prices_nonneg hrest
      obtain ⟨mid, hexec, hval, hfall⟩ :=
        exec_spec hclock (hops op (List.mem_cons_self ..)) (by omega)
      have hmid : mid.val ≤ 0 := by
        rw [hval]
        exact ReflectedWalk.reflect_nonpos _ _
      -- the call takes at most its price off the clock, so the rest is still covered
      obtain ⟨clock', hrun, hval'⟩ := ih hmid hrest (by omega)
      refine ⟨clock', ?_, ?_⟩
      · rw [Machine.run_cons, hexec, Option.bind_some, hrun]
      · rw [hval', hval, List.map_cons, List.foldl_cons]

theorem balance_eq (clock : ClkCycle) (ops : List Op) :
    balance clock ops = ReflectedWalk.height clock.val (ops.map Op.delta) := by
  funext k
  rw [balance, ReflectedWalk.height, List.map_take]

/-- Steps are free. -/
theorem prices_steps (ts : List ClkCycle) : prices (ts.map .step) = 0 := by
  refine List.sum_eq_zero (fun p hp => ?_)
  rw [List.map_map] at hp
  obtain ⟨u, _, rfl⟩ := List.mem_map.mp hp
  rfl

/-- Cutting a step leaves what the run pays. -/
theorem prices_cut (pre post : List Op) (t : ClkCycle) (ts : List ClkCycle) :
    prices (pre ++ ts.map .step ++ post) = prices (pre ++ .step t :: post) := by
  have hstep : prices (.step t :: post) = prices post := zero_add _
  rw [prices_append, prices_append, prices_append, prices_steps, hstep, add_zero]

/-- A step may be cut into steps that take as long together. -/
theorem run_cut {clock : ClkCycle} (hclock : clock.val ≤ 0) {pre post : List Op} {t : ClkCycle}
    {ts : List ClkCycle} (hops : ∀ op ∈ pre ++ .step t :: post, op.NonNeg)
    (hts : ∀ u ∈ ts, 0 ≤ u.val) (hsum : (ts.map Subtype.val).sum = t.val)
    (hmin : int64Min ≤ clock.val - prices (pre ++ .step t :: post)) :
    Machine.run exec clock (pre ++ ts.map .step ++ post)
      = Machine.run exec clock (pre ++ .step t :: post) := by
  have hpre : ∀ op ∈ pre, op.NonNeg := fun op hop => hops op (by simp [hop])
  have hcut : ∀ op ∈ pre ++ ts.map Op.step ++ post, op.NonNeg := by
    intro op hop
    rcases List.mem_append.mp hop with hop | hop
    · rcases List.mem_append.mp hop with hop | hop
      · exact hpre op hop
      · obtain ⟨u, hu, rfl⟩ := List.mem_map.mp hop
        exact hts u hu
    · exact hops op (by simp [hop])
  obtain ⟨c₁, hrun₁, hval₁⟩ := run_spec hclock hcut (by rw [prices_cut]; exact hmin)
  obtain ⟨c₂, hrun₂, hval₂⟩ := run_spec hclock hops hmin
  have hrises : (ts.map Op.step).map Op.delta = ts.map Subtype.val := by
    rw [List.map_map]
    rfl
  have hnonneg : ∀ d ∈ ts.map Subtype.val, (0 : Int) ≤ d := by
    intro d hd
    obtain ⟨u, hu, rfl⟩ := List.mem_map.mp hd
    exact hts u hu
  have hsame : c₁.val = c₂.val := by
    rw [hval₁, hval₂, List.map_append, List.map_append, hrises,
      ReflectedWalk.foldl_cut hclock hnonneg, hsum, List.map_append, List.map_cons]
    rfl
  rw [hrun₁, hrun₂, Subtype.ext hsame]

/--
**The clock in closed form.**

For any script of calls and actions, with times and prices that are not negative,
on a clock at or below zero whose initial value covers all the prices: running
the script is running its calls in order, and none overflows; after `n` of them
the clock is the balance less the highest balance so far, where that is positive;
it is ready exactly when the balance is at its highest and not negative; and a
script in which a step is cut into several that take as long together has the
same outcome.
-/
theorem clock_closed_form (clock : ClkCycle) (script : Script) (hclock : clock.val ≤ 0)
    (hops : ∀ op ∈ script.flatten, op.NonNeg)
    (hmin : int64Min ≤ clock.val - prices script.flatten) :
    let ops := script.flatten
    let S := balance clock ops
    (∃ clock', script.exec clock = some clock' ∧ Machine.run exec clock ops = some clock')
    ∧ (∀ n ≤ ops.length, ∃ clock', Machine.run exec clock (ops.take n) = some clock'
        ∧ clock'.val
            = S n - max 0 ((Finset.range (n + 1)).sup' Finset.nonempty_range_add_one S)
        ∧ (isReady clock' = true ↔ 0 ≤ S n ∧ ∀ k ≤ n, S k ≤ S n))
    ∧ (∀ (pre post : List Op) (t : ClkCycle) (ts : List ClkCycle) (script' : Script),
        ops = pre ++ .step t :: post → script'.flatten = pre ++ ts.map .step ++ post →
        (∀ u ∈ ts, 0 ≤ u.val) → (ts.map Subtype.val).sum = t.val →
        script'.exec clock = script.exec clock) := by
  intro ops S
  have hS : S = ReflectedWalk.height clock.val (ops.map Op.delta) := balance_eq clock ops
  refine ⟨?_, fun n hn => ?_, fun pre post t ts script' hcut hcut' hts hsum => ?_⟩
  · obtain ⟨clock', hrun, _⟩ := run_spec hclock hops hmin
    exact ⟨clock', by rw [Script.exec_eq_run]; exact hrun, hrun⟩
  · have hfloor : int64Min ≤ clock.val - prices (ops.take n) :=
      hmin.trans (sub_le_sub_left (prices_take_le hops n) _)
    obtain ⟨clock', hrun, hval⟩ := run_spec hclock
      (fun op hop => hops op (List.mem_of_mem_take hop)) hfloor
    have hlen : n ≤ (ops.map Op.delta).length := by rw [List.length_map]; exact hn
    rw [List.map_take, ReflectedWalk.foldl_take hclock _ hlen, ← hS] at hval
    have hpeak : ReflectedWalk.peak clock.val (ops.map Op.delta) n
        = (Finset.range (n + 1)).sup' Finset.nonempty_range_add_one S := by
      rw [hS]
      exact partialSups_eq_sup'_range _ n
    refine ⟨clock', hrun, by rw [hval, hpeak], ?_⟩
    rw [isReady_iff, hval, hS]
    exact ReflectedWalk.zero_le_iff clock.val _ n
  · rw [Script.exec_eq_run, Script.exec_eq_run, hcut']
    show _ = Machine.run exec clock ops
    rw [hcut]
    exact run_cut hclock (by rw [← hcut]; exact hops) hts hsum (by rw [← hcut]; exact hmin)

/-- An action of 8 cycles whose callback steps and runs an action of 4 cycles in turn. -/
theorem clock_closed_form_sample :
    ∃ clock', (Script.action ⟨8, by decide⟩ (.step .four (.action .four .done .done))
        (.step .four .done)).exec .zero = some clock' := by
  obtain ⟨⟨clock', hexec, _⟩, _⟩ := clock_closed_form .zero
    (.action ⟨8, by decide⟩ (.step .four (.action .four .done .done)) (.step .four .done))
    (by decide)
    (by
      simp only [Script.flatten, List.cons_append, List.nil_append, List.forall_mem_cons,
        Op.NonNeg, List.not_mem_nil, false_imp_iff, implies_true]
      decide)
    (by decide)
  exact ⟨clock', hexec⟩

end GBMU.Devsync
