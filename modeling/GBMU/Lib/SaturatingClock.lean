import Mathlib.Tactic.Abel
import GBMU.Lib.Machine
import GBMU.Lib.ReflectedWalk

/-!
# Saturating clocks

A clock counts up to zero and no further; it is *ready* there. An action with a
price is executed when the clock is ready, which takes the clock below zero by
the price, and is skipped otherwise. Time that arrives while the clock is ready
is lost, so a clock pays for the past and never for the future.

The log of a run notes what each operation stepped and what it paid. Two facts
about segments of a log carry everything: the clock never gains more than what
was stepped less what was paid (`foldl_exec_le`), and while nothing is executed
it gains exactly what is stepped, up to zero (`foldl_exec_idle`).
-/

namespace SaturatingClock

variable {α : Type*} [AddCommGroup α] [LinearOrder α]

inductive Op (α : Type*) where
  | step (t : α)
  | gated (p : α)

def Op.NonNeg : Op α → Prop
  | .step t => 0 ≤ t
  | .gated p => 0 ≤ p

def exec (c : α) : Op α → α
  | .step t => min (c + t) 0
  | .gated p => if 0 ≤ c then c - p else c

/-- What one operation did. -/
structure Moment (α : Type*) where
  time : α
  paid : α
  executed : Bool

def moment (c : α) : Op α → Moment α
  | .step t => { time := t, paid := 0, executed := false }
  | .gated p =>
      if 0 ≤ c then { time := 0, paid := p, executed := true }
      else { time := 0, paid := 0, executed := false }

def log (c : α) (ops : List (Op α)) : List (Moment α) := Machine.log exec moment c ops

/-- The time stepped in a segment of a log. -/
def time (ms : List (Moment α)) : α := (ms.map Moment.time).sum

/-- The prices paid in a segment of a log. -/
def paid (ms : List (Moment α)) : α := (ms.map Moment.paid).sum

/-! ## One operation -/

theorem exec_idle {c : α} {op : Op α} (hc : c ≤ 0) (h : (moment c op).executed = false) :
    exec c op = min (c + (moment c op).time) 0 := by
  cases op with
  | step t => rfl
  | gated p =>
      by_cases hready : 0 ≤ c
      · simp [moment, hready] at h
      · simp [moment, exec, hready, hc]

theorem exec_executed {c : α} {op : Op α} (h : (moment c op).executed = true) :
    0 ≤ c ∧ exec c op = c - (moment c op).paid := by
  cases op with
  | step t => cases h
  | gated p =>
      by_cases hready : 0 ≤ c
      · exact ⟨hready, by simp [moment, exec, hready]⟩
      · simp [moment, hready] at h

theorem moment_time_nonneg (c : α) {op : Op α} (hop : op.NonNeg) : 0 ≤ (moment c op).time := by
  cases op with
  | step t => exact hop
  | gated p => by_cases hready : 0 ≤ c <;> simp [moment, hready]

/-- Time that arrives when the clock is at zero is lost. -/
theorem exec_step_zero {t : α} (ht : 0 ≤ t) : exec 0 (.step t) = 0 := by
  show min (0 + t) 0 = 0
  rw [zero_add]
  exact min_eq_right ht

theorem exec_le (c : α) (op : Op α) :
    exec c op ≤ c + (moment c op).time - (moment c op).paid := by
  cases op with
  | step t =>
      show min (c + t) 0 ≤ c + t - 0
      rw [sub_zero]
      exact min_le_left _ _
  | gated p => by_cases hready : 0 ≤ c <;> simp [moment, exec, hready]

variable [IsOrderedAddMonoid α]

theorem exec_nonpos {c : α} {op : Op α} (hc : c ≤ 0) (hop : op.NonNeg) : exec c op ≤ 0 := by
  cases op with
  | step t => exact min_le_right _ _
  | gated p =>
      have hp : 0 ≤ p := hop
      by_cases hready : 0 ≤ c
      · rw [exec, if_pos hready]
        exact sub_nonpos.mpr (hc.trans hp)
      · rw [exec, if_neg hready]
        exact hc

/-! ## Whole runs -/

theorem foldl_exec_nonpos {c : α} {ops : List (Op α)} (hc : c ≤ 0)
    (hops : ∀ op ∈ ops, op.NonNeg) : ops.foldl exec c ≤ 0 := by
  induction ops generalizing c with
  | nil => exact hc
  | cons op ops ih =>
      exact ih (exec_nonpos hc (hops op (List.mem_cons_self ..)))
        (fun o ho => hops o (List.mem_cons_of_mem _ ho))

/-- **A run gains at most what it stepped less what it paid.** -/
theorem foldl_exec_le (c : α) (ops : List (Op α)) :
    ops.foldl exec c ≤ c + time (log c ops) - paid (log c ops) := by
  induction ops generalizing c with
  | nil => simp [log, Machine.log, time, paid]
  | cons op ops ih =>
      have htime : time (log c (op :: ops)) = (moment c op).time + time (log (exec c op) ops) := rfl
      have hpaid : paid (log c (op :: ops)) = (moment c op).paid + paid (log (exec c op) ops) := rfl
      calc (op :: ops).foldl exec c
          ≤ exec c op + time (log (exec c op) ops) - paid (log (exec c op) ops) := ih (exec c op)
        _ ≤ c + (moment c op).time - (moment c op).paid + time (log (exec c op) ops)
              - paid (log (exec c op) ops) :=
            sub_le_sub_right (add_le_add_left (exec_le c op) _) _
        _ = c + time (log c (op :: ops)) - paid (log c (op :: ops)) := by
            rw [htime, hpaid]
            abel

theorem time_log_nonneg (c : α) {ops : List (Op α)} (hops : ∀ op ∈ ops, op.NonNeg) :
    0 ≤ time (log c ops) := by
  refine List.sum_nonneg (fun t ht => ?_)
  obtain ⟨m, hm, rfl⟩ := List.mem_map.mp ht
  obtain ⟨pre, op, post, hops', rfl⟩ := Machine.mem_log hm
  exact moment_time_nonneg _ (hops op (by rw [hops']; simp))

/-- **While nothing is executed, the clock gains what is stepped, up to zero.** -/
theorem foldl_exec_idle {c : α} {ops : List (Op α)} (hc : c ≤ 0) (hops : ∀ op ∈ ops, op.NonNeg)
    (hidle : ∀ m ∈ log c ops, m.executed = false) :
    ops.foldl exec c = min (c + time (log c ops)) 0 := by
  induction ops generalizing c with
  | nil => simpa [log, Machine.log, time] using hc
  | cons op ops ih =>
      have hop := hops op (List.mem_cons_self ..)
      have hops' : ∀ o ∈ ops, o.NonNeg := fun o ho => hops o (List.mem_cons_of_mem _ ho)
      have htail := ih (exec_nonpos hc hop) hops'
        (fun m hm => hidle m (List.mem_cons_of_mem _ hm))
      have hrest := time_log_nonneg (exec c op) hops'
      have htime : time (log c (op :: ops)) = (moment c op).time + time (log (exec c op) ops) := rfl
      rw [List.foldl_cons, htail, htime, ← add_assoc,
        ← ReflectedWalk.min_zero_add hrest (c + (moment c op).time),
        ← exec_idle hc (hidle _ (List.mem_cons_self ..))]

/-! ## Prices are paid for -/

/--
**Between two executed actions the time stepped covers the prices paid**, the
first action's included and the last one's not.
-/
theorem paid_le_time {c : α} {ops : List (Op α)} (hc : c ≤ 0) (hops : ∀ op ∈ ops, op.NonNeg)
    {l mid r : List (Moment α)} {i j : Moment α} (hlog : log c ops = l ++ i :: (mid ++ j :: r))
    (hi : i.executed = true) (hj : j.executed = true) :
    paid (i :: mid) ≤ time (i :: mid) := by
  obtain ⟨pre, op, post, hpre, _, rfl, hpost⟩ := Machine.log_eq_append hlog
  obtain ⟨pre', op', post', _, hmid, rfl, _⟩ := Machine.log_eq_append hpost.symm
  rw [List.foldl_append] at hmid hj
  have hops' : ∀ o ∈ pre, o.NonNeg := fun o ho => hops o (by rw [hpre]; simp [ho])
  have hzero : pre.foldl exec c = 0 :=
    le_antisymm (foldl_exec_nonpos hc hops') (exec_executed hi).1
  have hseg : moment (pre.foldl exec c) op :: mid = log (pre.foldl exec c) (op :: pre') := by
    rw [hmid]
    rfl
  -- the clock is at zero at both ends of the segment
  have hgain := foldl_exec_le (pre.foldl exec c) (op :: pre')
  have hend : 0 ≤ (op :: pre').foldl exec (pre.foldl exec c) := (exec_executed hj).1
  rw [hseg]
  rw [hzero, zero_add] at hgain
  rw [hzero] at hend ⊢
  exact sub_nonneg.mp (hend.trans hgain)

/--
**After an executed action, and while no other is, the clock is ready exactly
when its price has been stepped.**
-/
theorem ready_iff {c : α} {ops : List (Op α)} (hc : c ≤ 0) (hops : ∀ op ∈ ops, op.NonNeg)
    {l mid : List (Moment α)} {m : Moment α} (hlog : log c ops = l ++ m :: mid)
    (hm : m.executed = true) (hidle : ∀ k ∈ mid, k.executed = false) :
    0 ≤ ops.foldl exec c ↔ m.paid ≤ time mid := by
  obtain ⟨pre, op, post, hpre, _, rfl, hmid⟩ := Machine.log_eq_append hlog
  have hpre' : ∀ o ∈ pre, o.NonNeg := fun o ho => hops o (by rw [hpre]; simp [ho])
  have hpost' : ∀ o ∈ post, o.NonNeg := fun o ho => hops o (by rw [hpre]; simp [ho])
  have hop : op.NonNeg := hops op (by rw [hpre]; simp)
  have hc₁ := foldl_exec_nonpos hc hpre'
  obtain ⟨hge, hexec⟩ := exec_executed hm
  have hzero : pre.foldl exec c = 0 := le_antisymm hc₁ hge
  have hsplit : ops.foldl exec c = post.foldl exec (exec (pre.foldl exec c) op) := by
    rw [hpre, List.foldl_append, List.foldl_cons]
  rw [List.foldl_append, List.foldl_cons, List.foldl_nil] at hmid
  have hidle' : ∀ k ∈ log (exec (pre.foldl exec c) op) post, k.executed = false := by
    intro k hk
    rw [log, ← hmid] at hk
    exact hidle k hk
  -- the action took the clock from zero to minus its price
  rw [hsplit, foldl_exec_idle (exec_nonpos hc₁ hop) hpost' hidle', log, ← hmid, hexec, hzero,
    zero_sub, le_min_iff, neg_add_eq_sub, sub_nonneg]
  exact and_iff_left (le_refl 0)

end SaturatingClock
