import Mathlib.Algebra.BigOperators.Group.List.Basic
import Mathlib.Algebra.Order.BigOperators.Group.List
import Mathlib.Algebra.Order.Group.MinMax
import Mathlib.Algebra.Order.SuccPred.PartialSups
import Mathlib.Data.Nat.SuccPred

/-!
# Walks reflected at zero

A walk that starts at or below zero takes increments of either sign and is held
at zero whenever it would pass it. What it loses there it never gets back, so
where it is depends on the order of the increments; but only through one number,
the highest point the same walk reaches when nothing holds it. `foldl_take` says
so: the reflected walk is the free walk less that peak.

Two consequences are stated for use: the walk is at zero exactly when the free
walk is at its highest and not below zero (`zero_le_iff`), and a rise may be cut
into smaller rises (`foldl_cut`).
-/

namespace ReflectedWalk

variable {α : Type*} [AddCommGroup α]

/-- Where the free walk is after `k` increments. -/
def height (c : α) (ds : List α) (k : Nat) : α := c + (ds.take k).sum

theorem height_zero (c : α) (ds : List α) : height c ds 0 = c := by
  rw [height, List.take_zero, List.sum_nil, add_zero]

theorem height_succ (c : α) {ds : List α} {k : Nat} (hk : k < ds.length) :
    height c ds (k + 1) = height c ds k + ds[k] := by
  rw [height, height, List.take_add_one, List.getElem?_eq_getElem hk, Option.toList_some,
    List.sum_append, List.sum_singleton, add_assoc]

variable [LinearOrder α]

/-- One increment, held at zero. -/
def reflect (c d : α) : α := min (c + d) 0

/-- The highest the free walk is in its first `n` increments, its start included. -/
def peak (c : α) (ds : List α) (n : Nat) : α := partialSups (height c ds) n

theorem peak_zero (c : α) (ds : List α) : peak c ds 0 = c := by
  rw [peak, partialSups_zero, height_zero]

theorem peak_succ (c : α) (ds : List α) (n : Nat) :
    peak c ds (n + 1) = max (peak c ds n) (height c ds (n + 1)) :=
  partialSups_add_one (height c ds) n

theorem peak_le_iff {c : α} {ds : List α} {n : Nat} {b : α} :
    peak c ds n ≤ b ↔ ∀ k ≤ n, height c ds k ≤ b :=
  partialSups_le_iff

theorem reflect_nonpos (c d : α) : reflect c d ≤ 0 := min_le_right _ _

theorem foldl_nonpos {c : α} (hc : c ≤ 0) (ds : List α) : ds.foldl reflect c ≤ 0 := by
  induction ds generalizing c with
  | nil => exact hc
  | cons d ds ih => exact ih (reflect_nonpos c d)

variable [IsOrderedAddMonoid α]

/-! ## The closed form -/

/-- One increment of a walk held `m` below the free walk `s`. -/
theorem reflect_sub (s m d : α) : reflect (s - m) d = s + d - max m (s + d) := by
  rw [reflect, ← min_sub_sub_left, sub_self, sub_add_eq_add_sub]

/-- **The reflected walk is the free walk less its peak above zero.** -/
theorem foldl_take {c : α} (hc : c ≤ 0) (ds : List α) {n : Nat} (hn : n ≤ ds.length) :
    (ds.take n).foldl reflect c = height c ds n - max 0 (peak c ds n) := by
  induction n with
  | zero =>
      rw [List.take_zero, List.foldl_nil, height_zero, peak_zero, max_eq_left hc, sub_zero]
  | succ n ih =>
      have hlt : n < ds.length := hn
      rw [List.take_add_one, List.getElem?_eq_getElem hlt, Option.toList_some, List.foldl_append,
        List.foldl_cons, List.foldl_nil, ih (Nat.le_of_lt hlt), reflect_sub,
        ← height_succ c hlt, peak_succ, max_assoc]

/-- The walk is at zero when the free walk is at its peak, at or above zero. -/
theorem zero_le_iff (c : α) (ds : List α) (n : Nat) :
    0 ≤ height c ds n - max 0 (peak c ds n)
      ↔ 0 ≤ height c ds n ∧ ∀ k ≤ n, height c ds k ≤ height c ds n := by
  rw [sub_nonneg, max_le_iff, peak_le_iff]

/-! ## Rises -/

/-- Being held early loses nothing if what comes next is a rise. -/
theorem min_zero_add {b : α} (hb : 0 ≤ b) (a : α) : min (min a 0 + b) 0 = min (a + b) 0 := by
  rw [← min_add_add_right, min_assoc, zero_add, min_eq_right hb]

theorem foldl_rises {c : α} (hc : c ≤ 0) {ts : List α} (hts : ∀ t ∈ ts, 0 ≤ t) :
    ts.foldl reflect c = reflect c ts.sum := by
  induction ts generalizing c with
  | nil => rw [List.foldl_nil, List.sum_nil, reflect, add_zero, min_eq_left hc]
  | cons t ts ih =>
      have hrest : ∀ u ∈ ts, 0 ≤ u := fun u hu => hts u (List.mem_cons_of_mem _ hu)
      rw [List.foldl_cons, ih (reflect_nonpos c t) hrest, List.sum_cons, reflect, reflect,
        min_zero_add (List.sum_nonneg hrest), reflect, add_assoc]

/-- **A rise may be cut into smaller rises anywhere in a walk.** -/
theorem foldl_cut {c : α} (hc : c ≤ 0) {ts : List α} (hts : ∀ t ∈ ts, 0 ≤ t)
    (pre post : List α) :
    (pre ++ ts ++ post).foldl reflect c = (pre ++ ts.sum :: post).foldl reflect c := by
  rw [List.foldl_append, List.foldl_append, foldl_rises (foldl_nonpos hc pre) hts,
    List.foldl_append, List.foldl_cons]

end ReflectedWalk
