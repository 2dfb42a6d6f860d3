import Mathlib.Order.Lattice

/-!
# Clock cycles

`common/GB_clock.h`: a signed 64-bit counter of clock cycles that is ready at
zero. A value of `clk_cycle_t` carries the proof that it is in range; a sum or a
difference out of range has no defined outcome.
-/

namespace GBMU

def int64Min : Int := -0x8000000000000000
def int64Max : Int := 0x7FFFFFFFFFFFFFFF

/-- `clk_cycle_t`. -/
abbrev ClkCycle := { n : Int // int64Min ≤ n ∧ n ≤ int64Max }

/-- The result of a signed operation, if it is in range. -/
def ClkCycle.ofInt? (n : Int) : Option ClkCycle :=
  if h : int64Min ≤ n ∧ n ≤ int64Max then some ⟨n, h⟩ else none

def ClkCycle.zero : ClkCycle := ⟨0, by decide⟩

/-- The literal `4_CLKCycles`. -/
def ClkCycle.four : ClkCycle := ⟨4, by decide⟩

namespace Devsync

def isReady (clock : ClkCycle) : Bool := clock.val ≥ 0

def pay (clock ccls : ClkCycle) : Option ClkCycle := ClkCycle.ofInt? (clock.val - ccls.val)

def step (clock ccls : ClkCycle) : Option ClkCycle :=
  (ClkCycle.ofInt? (clock.val + ccls.val)).map (fun sum => min sum ClkCycle.zero)

/--
`Action<price>`: its two call operators pay, and then return what the callback
returns. A callback may hold the clock by reference, so what it leaves behind
includes the clock.
-/
def Action {ρ : Type} (price : ClkCycle) (cbFunc : ClkCycle → Option ρ) (clock : ClkCycle) :
    Option ρ :=
  (pay clock price).bind cbFunc

/-- A call of `step` or of `pay`. -/
inductive Op where
  | step (ccls : ClkCycle)
  | pay (ccls : ClkCycle)

def exec (clock : ClkCycle) : Op → Option ClkCycle
  | .step ccls => step clock ccls
  | .pay ccls => pay clock ccls

/--
Code that works on one clock: calls in sequence, some of them actions whose
callback is such code.
-/
inductive Script where
  | done
  | step (ccls : ClkCycle) (rest : Script)
  | pay (ccls : ClkCycle) (rest : Script)
  | action (price : ClkCycle) (cbFunc rest : Script)

def Script.exec : Script → ClkCycle → Option ClkCycle
  | .done, clock => some clock
  | .step ccls rest, clock => (Devsync.step clock ccls).bind rest.exec
  | .pay ccls rest, clock => (Devsync.pay clock ccls).bind rest.exec
  | .action price cbFunc rest, clock => (Action price cbFunc.exec clock).bind rest.exec

/-! ## What each call does to a clock -/

theorem ofInt?_eq {n : Int} (h : int64Min ≤ n ∧ n ≤ int64Max) :
    ClkCycle.ofInt? n = some ⟨n, h⟩ := dif_pos h

theorem isReady_iff {clock : ClkCycle} : isReady clock = true ↔ 0 ≤ clock.val := by
  show decide (clock.val ≥ 0) = true ↔ _
  rw [decide_eq_true_eq]

/-- A step from at or below zero never overflows, and clamps. -/
theorem step_spec {clock ccls : ClkCycle} (hclock : clock.val ≤ 0) (hccls : 0 ≤ ccls.val) :
    ∃ clock', step clock ccls = some clock' ∧ clock'.val = min (clock.val + ccls.val) 0 := by
  have hlo := clock.property.1
  have hhi := ccls.property.2
  -- the signs differ, so the sum lies between its operands
  have hrange : int64Min ≤ clock.val + ccls.val ∧ clock.val + ccls.val ≤ int64Max := by omega
  refine ⟨min ⟨_, hrange⟩ ClkCycle.zero, by rw [step, ofInt?_eq hrange]; rfl, ?_⟩
  rcases le_total (clock.val + ccls.val) 0 with hle | hle
  · rw [min_eq_left hle, min_eq_left (show (⟨_, hrange⟩ : ClkCycle) ≤ ClkCycle.zero from hle)]
  · rw [min_eq_right hle, min_eq_right (show ClkCycle.zero ≤ (⟨_, hrange⟩ : ClkCycle) from hle)]
    rfl

/-- A payment overflows downwards only. -/
theorem pay_spec {clock ccls : ClkCycle} (hccls : 0 ≤ ccls.val)
    (hmin : int64Min ≤ clock.val - ccls.val) :
    ∃ clock', pay clock ccls = some clock' ∧ clock'.val = clock.val - ccls.val := by
  have hhi := clock.property.2
  have hrange : int64Min ≤ clock.val - ccls.val ∧ clock.val - ccls.val ≤ int64Max := by omega
  exact ⟨⟨_, hrange⟩, ofInt?_eq hrange, rfl⟩

/-- `counter_t`. -/
structure Counter where
  counter : ClkCycle := ClkCycle.zero

namespace Counter

def step (c : Counter) (timeForStep : ClkCycle := ClkCycle.four) : Option Counter :=
  (Devsync.step c.counter timeForStep).map Counter.mk

def pay (c : Counter) (timeForAction : ClkCycle) : Option Counter :=
  (Devsync.pay c.counter timeForAction).map Counter.mk

def isReady (c : Counter) : Bool := Devsync.isReady c.counter

/-- Stepping, and an action that is executed when the counter is ready for it. -/
inductive Op where
  | step (timeForStep : ClkCycle)
  | gated (price : ClkCycle)

def exec (c : Counter) : Op → Option Counter
  | .step timeForStep => c.step timeForStep
  | .gated price => if c.isReady then c.pay price else some c

end Counter

end Devsync

end GBMU
