import Mathlib.Algebra.Order.Group.Int
import GBMU.Common.Clock
import GBMU.Lib.SaturatingClock

/-!
# The counter makes gated actions pay

`counter_t` is a saturating clock on the integers as long as it stays in range,
and it does: the clamp keeps it at or below zero, so a step adds a non-negative
number to one that is not positive, and the gate lets an action subtract only
from zero. `simulation` is that argument; the facts about prices are those of
`SaturatingClock`.
-/

namespace GBMU.Devsync.Counter

open SaturatingClock (time paid Moment)

/-- The times and prices the library is used with. -/
def Op.NonNeg : Op → Prop
  | .step t => 0 ≤ t.val
  | .gated p => 0 ≤ p.val

/-- An operation, on integers. -/
def Op.toInt : Op → SaturatingClock.Op Int
  | .step t => .step t.val
  | .gated p => .gated p.val

/-- What an operation does: the time stepped, the price paid, whether it was executed. -/
def observe (c : Counter) : Op → Moment Int
  | .step t => { time := t.val, paid := 0, executed := false }
  | .gated p =>
      if c.isReady then { time := 0, paid := p.val, executed := true }
      else { time := 0, paid := 0, executed := false }

/-- The counter holds `n`, and `n` is not positive. -/
def Holds (c : Counter) (n : Int) : Prop := c.counter.val = n ∧ n ≤ 0

theorem isReady_iff {c : Counter} : c.isReady = true ↔ 0 ≤ c.counter.val :=
  Devsync.isReady_iff

/-- A step never overflows, and clamps. -/
theorem Holds.step {c : Counter} {n : Int} (h : Holds c n) {t : ClkCycle} (ht : 0 ≤ t.val) :
    ∃ c', c.step t = some c' ∧ Holds c' (min (n + t.val) 0) := by
  obtain ⟨rfl, hn⟩ := h
  obtain ⟨clock', hclock', hval⟩ := Devsync.step_spec hn ht
  refine ⟨⟨clock'⟩, ?_, hval, min_le_right _ _⟩
  rw [Counter.step, hclock', Option.map_some]

/-- At zero a step changes nothing. -/
theorem step_of_zero {c : Counter} (hzero : c.counter.val = 0) {t : ClkCycle} (ht : 0 ≤ t.val) :
    c.step t = some c := by
  obtain ⟨c', hstep, hval, _⟩ := Holds.step (n := 0) ⟨hzero, le_refl 0⟩ ht
  have hcounter : c'.counter = c.counter := by
    refine Subtype.ext ?_
    rw [hval, hzero]
    exact SaturatingClock.exec_step_zero ht
  have hsame : c' = c := by
    cases c'
    cases c
    exact congrArg Counter.mk hcounter
  rw [hstep, hsame]

/-- Paying from zero never overflows. -/
theorem Holds.pay {c : Counter} {n : Int} (h : Holds c n) (hready : 0 ≤ n) {p : ClkCycle}
    (hp : 0 ≤ p.val) : ∃ c', c.pay p = some c' ∧ Holds c' (n - p.val) := by
  obtain ⟨rfl, hn⟩ := h
  -- the range reaches as far down from zero as a price does
  have hfloor : int64Min ≤ c.counter.val - p.val := by
    have hhi := p.property.2
    have hmin : int64Min = -int64Max - 1 := by decide
    omega
  obtain ⟨clock', hclock', hval⟩ := Devsync.pay_spec hp hfloor
  refine ⟨⟨clock'⟩, ?_, hval, by omega⟩
  rw [Counter.pay, hclock', Option.map_some]

/-- **The counter is a saturating clock.** -/
theorem simulation :
    Machine.Simulation exec (Machine.total (fun n op => SaturatingClock.exec n (Op.toInt op)))
      Op.NonNeg Holds where
  step := by
    intro c n n' op h hok hs
    cases hs
    cases op with
    | step t => exact h.step hok
    | gated p =>
        by_cases hready : 0 ≤ n
        · obtain ⟨c', hc', hh⟩ := h.pay hready hok
          refine ⟨c', ?_, ?_⟩
          · rw [exec, if_pos (isReady_iff.mpr (by rw [h.1]; exact hready)), hc']
          · simpa [SaturatingClock.exec, Op.toInt, hready] using hh
        · refine ⟨c, ?_, ?_⟩
          · rw [exec, if_neg (by rw [isReady_iff, h.1]; exact hready)]
          · simpa [SaturatingClock.exec, Op.toInt, hready] using h

theorem observe_eq (c : Counter) (n : Int) (op : Op) (h : Holds c n) :
    observe c op = SaturatingClock.moment n op.toInt := by
  cases op with
  | step t => rfl
  | gated p =>
      have hiff : c.isReady = true ↔ 0 ≤ n := by rw [isReady_iff, h.1]
      show (if c.isReady = true then _ else _) = if 0 ≤ n then _ else _
      by_cases hready : 0 ≤ n
      · rw [if_pos (hiff.mpr hready), if_pos hready]
      · rw [if_neg (mt hiff.mp hready), if_neg hready]

theorem log_map (n : Int) (ops : List Op) :
    Machine.log (fun n op => SaturatingClock.exec n (Op.toInt op))
        (fun n op => SaturatingClock.moment n (Op.toInt op)) n ops
      = SaturatingClock.log n (ops.map Op.toInt) := by
  induction ops generalizing n with
  | nil => rfl
  | cons op ops ih => exact congrArg _ (ih _)

/--
**Every gated action is paid for, and the counter never overflows.**

From any counter at or below zero and for any run of non-negative steps and
gated actions: the run is defined and ends at or below zero; between two executed
actions the prices paid, the first one's included, are at most the time stepped;
after an executed action with a price, and as long as no other is executed, the
counter is ready exactly when that price has been stepped since; and when the
counter is at zero a step changes nothing that comes after it.
-/
theorem gated_actions_are_paid (c : Counter) (ops : List Op) (hc : c.counter.val ≤ 0)
    (hops : ∀ op ∈ ops, op.NonNeg) :
    let log := Machine.annotate exec observe c ops
    ∃ c', Machine.run exec c ops = some c' ∧ c'.counter.val ≤ 0
      ∧ (∀ (l mid r : List (Moment Int)) (i j : Moment Int), log = l ++ i :: (mid ++ j :: r) →
          i.executed = true → j.executed = true → paid (i :: mid) ≤ time (i :: mid))
      ∧ (∀ (l mid : List (Moment Int)) (m : Moment Int), log = l ++ m :: mid →
          m.executed = true → 0 < m.paid → (∀ k ∈ mid, k.executed = false) →
          (c'.isReady = true ↔ m.paid ≤ time mid))
      ∧ (c'.counter.val = 0 → ∀ t : ClkCycle, 0 ≤ t.val → c'.step t = some c'
          ∧ ∀ rest, Machine.run exec c (ops ++ .step t :: rest)
              = Machine.run exec c (ops ++ rest)) := by
  intro log
  have h : Holds c c.counter.val := ⟨rfl, hc⟩
  obtain ⟨c', hrun, hval, hle⟩ := simulation.run_total h hops
  have hfold : ops.foldl (fun n op => SaturatingClock.exec n (Op.toInt op)) c.counter.val
      = (ops.map Op.toInt).foldl SaturatingClock.exec c.counter.val := List.foldl_map.symm
  have hlog : log = SaturatingClock.log c.counter.val (ops.map Op.toInt) :=
    (simulation.annotate_eq observe_eq ops h hops).trans (log_map _ ops)
  have hnonneg : ∀ op ∈ ops.map Op.toInt, op.NonNeg := by
    intro op hop
    obtain ⟨o, ho, rfl⟩ := List.mem_map.mp hop
    have := hops o ho
    cases o <;> exact this
  refine ⟨c', hrun, by rw [hval]; exact hle, ?_, ?_, ?_⟩
  · intro l mid r i j hsplit hi hj
    exact SaturatingClock.paid_le_time hc hnonneg (hlog.symm.trans hsplit) hi hj
  · intro l mid m hsplit hm _ hidle
    rw [isReady_iff, hval, hfold]
    exact SaturatingClock.ready_iff hc hnonneg (hlog.symm.trans hsplit) hm hidle
  · intro hzero t ht
    have hstep := step_of_zero hzero ht
    refine ⟨hstep, fun rest => ?_⟩
    rw [Machine.run_append, Machine.run_append, hrun, Option.bind_some, Option.bind_some,
      Machine.run_cons]
    show (c'.step t).bind _ = _
    rw [hstep, Option.bind_some]

/-- An action of 8 cycles, and two steps of 4 after which the counter is ready again. -/
theorem gated_actions_are_paid_sample :
    ∃ c', Machine.run exec {} [.gated ⟨8, by decide⟩, .step ClkCycle.four, .step ClkCycle.four]
        = some c' ∧ c'.isReady = true := by
  obtain ⟨c', hrun, _, _, hready, _⟩ := gated_actions_are_paid {}
    [.gated ⟨8, by decide⟩, .step ClkCycle.four, .step ClkCycle.four] (by decide) (by
      simp only [List.forall_mem_cons, Op.NonNeg, List.not_mem_nil, false_imp_iff, implies_true]
      decide)
  refine ⟨c', hrun, (hready [] _ { time := 0, paid := 8, executed := true } rfl rfl (by decide)
    ?_).mpr (by decide)⟩
  intro k hk
  rcases List.mem_cons.mp hk with rfl | hk
  · rfl
  · rcases List.mem_singleton.mp hk with rfl
    rfl

end GBMU.Devsync.Counter
