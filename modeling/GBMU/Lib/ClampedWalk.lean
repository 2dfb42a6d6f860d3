import Mathlib.Data.Finset.Fold
import Mathlib.Data.Finset.Range
import GBMU.Lib.Machine
import GBMU.Lib.ReflectedWalk

/-!
# Walks clamped at some of their moves

A walk takes increments of either sign; some moves clamp it, and these hold it at
zero if it would pass it, while the others let it pass. Of the walk without
clamps nothing remains but its highest clamp: the walk is the free one less the
`loss`, the greatest height of the free walk at a clamp, if above zero
(`foldl_take`). A walk that must stay in a range is defined exactly while the
free walk less the loss before each move is in range (`run_eq_some_iff`).

Walks that take the same moves come nearer and never cross, and two of them meet
exactly when the lower one is clamped (`foldl_coupled`).
-/

namespace ClampedWalk

open ReflectedWalk (height height_zero height_succ)

/-- One move. -/
structure Move (α : Type*) where
  delta : α
  clamps : Bool

variable {α : Type*} [AddCommGroup α] [LinearOrder α]

def exec (c : α) (m : Move α) : α := if m.clamps then min (c + m.delta) 0 else c + m.delta

/-- The walk that fails when a sum is not `ok`, before it is clamped. -/
def execIn (ok : α → Prop) [DecidablePred ok] (c : α) (m : Move α) : Option α :=
  if ok (c + m.delta) then some (exec c m) else none

/-- Where the free walk is after `k` moves. -/
def free (c : α) (ms : List (Move α)) (k : Nat) : α := height c (ms.map Move.delta) k

/-- Move `k` is one that clamps. -/
def clampsAt (ms : List (Move α)) (k : Nat) : Bool := (ms[k]?).any Move.clamps

/-- The greatest height of the free walk at the clamps among the first `n` moves, or zero. -/
def loss (c : α) (ms : List (Move α)) (n : Nat) : α :=
  ((Finset.range n).filter (fun k => clampsAt ms k = true)).fold max 0
    (fun k => free c ms (k + 1))

theorem loss_le_iff {c : α} {ms : List (Move α)} {n : Nat} {b : α} :
    loss c ms n ≤ b ↔ 0 ≤ b ∧ ∀ k < n, clampsAt ms k = true → free c ms (k + 1) ≤ b := by
  rw [loss, Finset.fold_max_le]
  simp only [Finset.mem_filter, Finset.mem_range, and_imp]

theorem loss_zero (c : α) (ms : List (Move α)) : loss c ms 0 = 0 := rfl

theorem loss_succ (c : α) (ms : List (Move α)) (n : Nat) :
    loss c ms (n + 1)
      = if clampsAt ms n = true then max (loss c ms n) (free c ms (n + 1)) else loss c ms n := by
  refine eq_of_forall_ge_iff (fun b => ?_)
  by_cases hn : clampsAt ms n = true
  · rw [if_pos hn, max_le_iff, loss_le_iff, loss_le_iff]
    constructor
    · intro h
      exact ⟨⟨h.1, fun k hk => h.2 k (by omega)⟩, h.2 n (by omega) hn⟩
    · intro h
      refine ⟨h.1.1, fun k hk hclamps => ?_⟩
      rcases Nat.lt_succ_iff_lt_or_eq.mp hk with hlt | rfl
      · exact h.1.2 k hlt hclamps
      · exact h.2
  · rw [if_neg hn, loss_le_iff, loss_le_iff]
    constructor
    · intro h
      exact ⟨h.1, fun k hk => h.2 k (by omega)⟩
    · intro h
      refine ⟨h.1, fun k hk hclamps => ?_⟩
      rcases Nat.lt_succ_iff_lt_or_eq.mp hk with hlt | rfl
      · exact h.2 k hlt hclamps
      · exact absurd hclamps hn

omit [LinearOrder α] in
theorem free_succ (c : α) {ms : List (Move α)} {k : Nat} (hk : k < ms.length) :
    free c ms (k + 1) = free c ms k + ms[k].delta := by
  have hlen : k < (ms.map Move.delta).length := by rw [List.length_map]; exact hk
  rw [free, height_succ c hlen, List.getElem_map]
  rfl

variable [IsOrderedAddMonoid α]

/-! ## The closed form -/

/-- **The clamped walk is the free walk less its loss.** -/
theorem foldl_take (c : α) (ms : List (Move α)) {n : Nat} (hn : n ≤ ms.length) :
    (ms.take n).foldl exec c = free c ms n - loss c ms n := by
  induction n with
  | zero => rw [List.take_zero, List.foldl_nil, free, height_zero, loss_zero, sub_zero]
  | succ n ih =>
      have hlt : n < ms.length := hn
      have hclamps : clampsAt ms n = ms[n].clamps := by
        rw [clampsAt, List.getElem?_eq_getElem hlt]
        rfl
      rw [List.take_add_one, List.getElem?_eq_getElem hlt, Option.toList_some, List.foldl_append,
        List.foldl_cons, List.foldl_nil, ih (Nat.le_of_lt hlt), loss_succ, hclamps, exec]
      cases ms[n].clamps with
      | false =>
          rw [if_neg Bool.false_ne_true, if_neg Bool.false_ne_true, free_succ c hlt,
            sub_add_eq_add_sub]
      | true =>
          rw [if_pos rfl, if_pos rfl, free_succ c hlt]
          exact ReflectedWalk.reflect_sub _ _ _

/-- **A walk in a range is defined exactly when every sum is in it.** -/
theorem run_eq_some_iff (ok : α → Prop) [DecidablePred ok] (c : α) (ms : List (Move α)) (c' : α) :
    Machine.run (execIn ok) c ms = some c'
      ↔ (∀ k < ms.length, ok (free c ms (k + 1) - loss c ms k))
        ∧ c' = free c ms ms.length - loss c ms ms.length := by
  have hrun : ∀ n ≤ ms.length, ∀ d, Machine.run (execIn ok) c (ms.take n) = some d
      ↔ (∀ k < n, ok (free c ms (k + 1) - loss c ms k)) ∧ d = free c ms n - loss c ms n := by
    intro n
    induction n with
    | zero =>
        intro _ d
        rw [List.take_zero, Machine.run_nil, Option.some_inj, free, height_zero, loss_zero,
          sub_zero]
        exact ⟨fun h => ⟨fun k hk => absurd hk (Nat.not_lt_zero k), h.symm⟩, fun h => h.2.symm⟩
    | succ n ih =>
        intro hn d
        have hlt : n < ms.length := hn
        have hwalk : ∀ e, e = free c ms n - loss c ms n →
            exec e ms[n] = free c ms (n + 1) - loss c ms (n + 1) := by
          intro e he
          rw [he, ← foldl_take c ms (Nat.le_of_lt hlt), ← foldl_take c ms hn, List.take_add_one,
            List.getElem?_eq_getElem hlt, Option.toList_some, List.foldl_append]
          rfl
        have hsum : free c ms n - loss c ms n + ms[n].delta = free c ms (n + 1) - loss c ms n := by
          rw [free_succ c hlt, sub_add_eq_add_sub]
        rw [List.take_add_one, List.getElem?_eq_getElem hlt, Option.toList_some,
          Machine.run_append, Option.bind_eq_some_iff]
        constructor
        · intro h
          rcases h with ⟨e, he, hd⟩
          rcases (ih (Nat.le_of_lt hlt) e).mp he with ⟨hok, hval⟩
          rw [Machine.run_cons, execIn, hval, hsum] at hd
          by_cases hlast : ok (free c ms (n + 1) - loss c ms n)
          · rw [if_pos hlast, Option.bind_some, Machine.run_nil, Option.some_inj] at hd
            refine ⟨?_, by rw [← hd]; exact hwalk _ rfl⟩
            intro k hk
            rcases Nat.lt_succ_iff_lt_or_eq.mp hk with hlt' | rfl
            · exact hok k hlt'
            · exact hlast
          · rw [if_neg hlast] at hd
            cases hd
        · intro h
          rcases h with ⟨hok, hd⟩
          refine ⟨_, (ih (Nat.le_of_lt hlt) _).mpr ⟨fun k hk => hok k (by omega), rfl⟩, ?_⟩
          rw [Machine.run_cons, execIn, hsum, if_pos (hok n (by omega)), Option.bind_some,
            Machine.run_nil, hd]
          exact congrArg some (hwalk _ rfl)
  have hall := hrun ms.length le_rfl c'
  rwa [List.take_length] at hall

/-! ## Two walks of the same moves -/

theorem exec_le_exec {c d : α} (h : c ≤ d) (m : Move α) : exec c m ≤ exec d m := by
  unfold exec
  split
  · exact min_le_min_right 0 (add_le_add_left h m.delta)
  · exact add_le_add_left h m.delta

theorem exec_sub_le {c d : α} (h : c ≤ d) (m : Move α) : exec d m - exec c m ≤ d - c := by
  have hsum : d + m.delta - (c + m.delta) = d - c := add_sub_add_right_eq_sub d c m.delta
  unfold exec
  split
  · rcases le_total (c + m.delta) 0 with hle | hle
    · rw [min_eq_left hle, ← hsum]
      exact sub_le_sub_right (min_le_left _ _) _
    · rw [min_eq_right hle, sub_zero]
      exact (min_le_right _ _).trans (sub_nonneg.mpr h)
  · rw [hsum]

/-- Two walks meet when the lower one is clamped. -/
theorem exec_eq_iff {c d : α} (h : c ≤ d) (m : Move α) :
    exec c m = exec d m ↔ c = d ∨ m.clamps = true ∧ exec c m = 0 := by
  constructor
  · intro heq
    by_cases hclamps : m.clamps = true
    · rw [exec, exec, if_pos hclamps, if_pos hclamps] at heq
      rw [exec, if_pos hclamps]
      rcases le_total 0 (c + m.delta) with hle | hle
      · exact Or.inr ⟨hclamps, min_eq_right hle⟩
      · rcases le_total 0 (d + m.delta) with hle' | hle'
        · rw [min_eq_right hle'] at heq
          exact Or.inr ⟨hclamps, heq⟩
        · rw [min_eq_left hle, min_eq_left hle'] at heq
          exact Or.inl (add_right_cancel heq)
    · rw [exec, exec, if_neg hclamps, if_neg hclamps] at heq
      exact Or.inl (add_right_cancel heq)
  · intro hcases
    rcases hcases with rfl | ⟨hclamps, hzero⟩
    · rfl
    · have hle : exec d m ≤ 0 := by
        rw [exec, if_pos hclamps]
        exact min_le_right _ _
      rw [hzero]
      exact le_antisymm (hzero ▸ exec_le_exec h m) hle

/-- **Walks of the same moves never cross, never part, and meet at a clamp of the lower one.** -/
theorem foldl_coupled {c d : α} (h : c ≤ d) (ms : List (Move α)) :
    ms.foldl exec c ≤ ms.foldl exec d
      ∧ ms.foldl exec d - ms.foldl exec c ≤ d - c
      ∧ (ms.foldl exec c = ms.foldl exec d
          ↔ c = d ∨ ∃ pre m post, ms = pre ++ m :: post ∧ m.clamps = true
              ∧ (pre ++ [m]).foldl exec c = 0) := by
  induction ms generalizing c d with
  | nil =>
      refine ⟨h, le_rfl, fun heq => Or.inl heq, ?_⟩
      intro hcases
      rcases hcases with heq | ⟨pre, m, post, hsplit, _⟩
      · exact heq
      · cases pre <;> cases hsplit
  | cons m ms ih =>
      rcases ih (exec_le_exec h m) with ⟨hle, hsub, hiff⟩
      refine ⟨hle, hsub.trans (exec_sub_le h m), ?_⟩
      rw [List.foldl_cons, List.foldl_cons, hiff, exec_eq_iff h m, or_assoc]
      refine or_congr_right ?_
      constructor
      · intro hcases
        rcases hcases with ⟨hclamps, hzero⟩ | ⟨pre, m', post, rfl, hclamps, hzero⟩
        · exact ⟨[], m, ms, rfl, hclamps, hzero⟩
        · exact ⟨m :: pre, m', post, rfl, hclamps, hzero⟩
      · intro hmet
        rcases hmet with ⟨pre, m', post, hsplit, hclamps, hzero⟩
        cases pre with
        | nil =>
            rw [List.nil_append, List.cons.injEq] at hsplit
            rcases hsplit with ⟨rfl, rfl⟩
            exact Or.inl ⟨hclamps, hzero⟩
        | cons m₁ pre =>
            rw [List.cons_append, List.cons.injEq] at hsplit
            rcases hsplit with ⟨rfl, rfl⟩
            exact Or.inr ⟨pre, m', post, rfl, hclamps, hzero⟩

/-- A run in a range is the run of the walk. -/
theorem foldl_of_run {ok : α → Prop} [DecidablePred ok] {c c' : α} {ms : List (Move α)}
    (h : Machine.run (execIn ok) c ms = some c') : ms.foldl exec c = c' := by
  rw [(run_eq_some_iff ok c ms c').mp h |>.2, ← foldl_take c ms le_rfl, List.take_length]

/-- **What is defined from below and from above is defined in between.** -/
theorem run_between {ok : α → Prop} [DecidablePred ok]
    (hok : ∀ {x y z : α}, x ≤ y → y ≤ z → ok x → ok z → ok y) {c d e c' d' : α}
    {ms : List (Move α)} (hce : c ≤ e) (hed : e ≤ d) (hc : Machine.run (execIn ok) c ms = some c')
    (hd : Machine.run (execIn ok) d ms = some d') :
    ∃ e', Machine.run (execIn ok) e ms = some e' ∧ c' ≤ e' ∧ e' ≤ d' := by
  induction ms generalizing c d e with
  | nil =>
      cases hc
      cases hd
      exact ⟨e, rfl, hce, hed⟩
  | cons m ms ih =>
      rcases Option.bind_eq_some_iff.mp hc with ⟨c₁, hc₁, hc⟩
      rcases Option.bind_eq_some_iff.mp hd with ⟨d₁, hd₁, hd⟩
      have hsome : ∀ {x x₁ : α}, execIn ok x m = some x₁ → ok (x + m.delta) ∧ exec x m = x₁ := by
        intro x x₁ hx
        rw [execIn] at hx
        split at hx
        · rename_i hokx
          exact ⟨hokx, Option.some_inj.mp hx⟩
        · cases hx
      rcases hsome hc₁ with ⟨hokc, rfl⟩
      rcases hsome hd₁ with ⟨hokd, rfl⟩
      have hoke : ok (e + m.delta) :=
        hok (add_le_add_left hce m.delta) (add_le_add_left hed m.delta) hokc hokd
      rcases ih (exec_le_exec hce m) (exec_le_exec hed m) hc hd with ⟨e', he', hle⟩
      refine ⟨e', ?_, hle⟩
      rw [Machine.run_cons, execIn, if_pos hoke, Option.bind_some, he']

end ClampedWalk
