import GBMU.Lib.PriorityServer

/-!
# What a priority server does with its requests, in numbers

A request of an index that is already pending changes nothing: it is merged with
the one before. A request that finds its index not pending is *fresh*. Counting
the fresh ones gives two exact laws of every run.

* `emissions_balance`: an index is emitted as often as it was freshly requested,
  up to what was pending at the start and what is at the end.
* `waiting_balance`: while an enabled index waits, each service takes one of
  those *ahead* of it, and only a fresh request adds one. So an index waits
  through exactly as many services as there were indexes ahead of it and fresh
  requests ahead of it since (`delay_eq`), and no longer (`emitted_of_services`).

Nothing bounds the fresh requests: one index more urgent, requested again before
every service, keeps all others waiting (`busy_emits`).
-/

namespace PriorityServer

variable {α : Type*} [LinearOrder α]

/-! ## Counting moments -/

def Moment.emits (i : α) (m : Moment α) : Bool := decide (m.emitted = some i)

/-- A request that finds its index not pending. -/
def Moment.fresh (i : α) (m : Moment α) : Bool :=
  match m.event with
  | .request j => decide (j = i) && decide (i ∉ m.pending)
  | .service => false

/-- A fresh request of an enabled index more urgent than `i`. -/
def Moment.freshAhead (enabled : Finset α) (i : α) (m : Moment α) : Bool :=
  match m.event with
  | .request j => decide (j < i) && decide (j ∈ enabled) && decide (j ∉ m.pending)
  | .service => false

def Moment.isService (m : Moment α) : Bool :=
  match m.event with
  | .request _ => false
  | .service => true

/-- The indexes to be served before `i`. -/
def ahead (enabled pending : Finset α) (i : α) : Finset α :=
  (pending ∩ enabled).filter (fun j => j < i)

theorem mem_ahead {enabled pending : Finset α} {i j : α} :
    j ∈ ahead enabled pending i ↔ j ∈ pending ∧ j ∈ enabled ∧ j < i := by
  rw [ahead, Finset.mem_filter, Finset.mem_inter, and_assoc]

/-- Nothing is ahead of what is emitted. -/
theorem ahead_of_next {enabled pending : Finset α} {i : α} (h : next enabled pending = some i) :
    ahead enabled pending i = ∅ := by
  refine Finset.eq_empty_of_forall_notMem (fun j hj => ?_)
  rcases mem_ahead.mp hj with ⟨hp, he, hlt⟩
  exact absurd ((next_eq_some.mp h).2.2 j hp he) (not_le_of_gt hlt)

/-! ## Conservation -/

/-- One step, at one index. -/
theorem emits_balance (enabled pending : Finset α) (e : Event α) (i : α) :
    ((moment enabled pending e).emits i).toNat + (decide (i ∈ step enabled pending e)).toNat
      = ((moment enabled pending e).fresh i).toNat + (decide (i ∈ pending)).toNat := by
  cases e with
  | request j =>
      have hemits : (moment enabled pending (.request j)).emits i = false := rfl
      have hfresh : (moment enabled pending (.request j)).fresh i
          = (decide (j = i) && decide (i ∉ pending)) := rfl
      rw [hemits, hfresh, step]
      by_cases hji : j = i
      · subst hji
        by_cases hp : j ∈ pending <;> simp [hp]
      · simp [hji, Ne.symm hji]
  | service =>
      have hemits : (moment enabled pending .service).emits i
          = decide (next enabled pending = some i) := rfl
      have hfresh : (moment enabled pending .service).fresh i = false := rfl
      rw [hemits, hfresh]
      cases hn : next enabled pending with
      | none =>
          rw [step_service_none hn]
          simp
      | some j =>
          have hp := (next_eq_some.mp hn).1
          rw [step_service_some hn]
          by_cases hji : j = i
          · subst hji
            simp [hp]
          · simp [hji, Ne.symm hji]

theorem log_cons (enabled pending : Finset α) (e : Event α) (es : List (Event α)) :
    log enabled pending (e :: es)
      = moment enabled pending e :: log enabled (step enabled pending e) es := rfl

/-- **What comes in goes out or is there**, index by index. -/
theorem emissions_balance (enabled : Finset α) (i : α) (es : List (Event α)) (pending : Finset α) :
    (log enabled pending es).countP (Moment.emits i)
        + (decide (i ∈ es.foldl (step enabled) pending)).toNat
      = (log enabled pending es).countP (Moment.fresh i) + (decide (i ∈ pending)).toNat := by
  induction es generalizing pending with
  | nil => rfl
  | cons e es ih =>
      have hstep := emits_balance enabled pending e i
      have hrest := ih (step enabled pending e)
      rw [log_cons, List.foldl_cons, List.countP_cons, List.countP_cons]
      simp only [Bool.toNat, Bool.cond_eq_ite] at hstep hrest ⊢
      omega

/-! ## Waiting -/

/-- A new request of a more urgent index is one more ahead. -/
theorem ahead_insert {enabled pending : Finset α} {i j : α} (hji : j < i) (hje : j ∈ enabled) :
    ahead enabled (insert j pending) i = insert j (ahead enabled pending i) := by
  ext k
  rw [Finset.mem_insert, mem_ahead, mem_ahead, Finset.mem_insert]
  constructor
  · intro hk
    rcases hk with ⟨hk | hk, hrest⟩
    · exact Or.inl hk
    · exact Or.inr ⟨hk, hrest⟩
  · intro hk
    rcases hk with rfl | ⟨hk, hrest⟩
    · exact ⟨Or.inl rfl, hje, hji⟩
    · exact ⟨Or.inr hk, hrest⟩

/-- A request that is merged, not enabled, or of an index behind adds none. -/
theorem ahead_insert_same {enabled pending : Finset α} {i j : α}
    (hold : ¬ ((j < i ∧ j ∈ enabled) ∧ j ∉ pending)) :
    ahead enabled (insert j pending) i = ahead enabled pending i := by
  ext k
  rw [mem_ahead, mem_ahead, Finset.mem_insert]
  constructor
  · intro hk
    rcases hk with ⟨rfl | hk, hrest⟩
    · by_contra hout
      exact hold ⟨⟨hrest.2, hrest.1⟩, fun hpk => hout ⟨hpk, hrest⟩⟩
    · exact ⟨hk, hrest⟩
  · intro hk
    exact ⟨Or.inr hk.1, hk.2⟩

theorem ahead_erase (enabled pending : Finset α) (i j : α) :
    ahead enabled (pending.erase j) i = (ahead enabled pending i).erase j := by
  ext k
  rw [Finset.mem_erase, mem_ahead, mem_ahead, Finset.mem_erase, and_assoc]

/-- A step that does not emit the waiting index. -/
theorem waiting_step {enabled pending : Finset α} {e : Event α} {i : α} (hp : i ∈ pending)
    (he : i ∈ enabled) (hemits : (moment enabled pending e).emits i = false) :
    i ∈ step enabled pending e
      ∧ (moment enabled pending e).isService.toNat
          + (ahead enabled (step enabled pending e) i).card
        = (ahead enabled pending i).card
          + ((moment enabled pending e).freshAhead enabled i).toNat := by
  cases e with
  | request j =>
      refine ⟨Finset.mem_insert_of_mem hp, ?_⟩
      have hservice : (moment enabled pending (.request j)).isService = false := rfl
      have hfresh : (moment enabled pending (.request j)).freshAhead enabled i
          = (decide (j < i) && decide (j ∈ enabled) && decide (j ∉ pending)) := rfl
      rw [hservice, hfresh, step]
      by_cases hnew : (j < i ∧ j ∈ enabled) ∧ j ∉ pending
      · have hnot : j ∉ ahead enabled pending i := fun h => hnew.2 (mem_ahead.mp h).1
        rw [ahead_insert hnew.1.1 hnew.1.2, Finset.card_insert_of_notMem hnot]
        simp [hnew.1.1, hnew.1.2, hnew.2]
      · have hfalse : (decide (j < i) && decide (j ∈ enabled) && decide (j ∉ pending)) = false := by
          rw [← Bool.decide_and, ← Bool.decide_and]
          exact decide_eq_false hnew
        rw [ahead_insert_same hnew, hfalse]
        simp
  | service =>
      have hservice : (moment enabled pending .service).isService = true := rfl
      have hfresh : (moment enabled pending .service).freshAhead enabled i = false := rfl
      have hne : next enabled pending ≠ some i := of_decide_eq_false hemits
      rw [hservice, hfresh]
      cases hn : next enabled pending with
      | none => exact absurd he (next_eq_none.mp hn i hp)
      | some j =>
          -- the one served is more urgent
          rcases next_eq_some.mp hn with ⟨hjp, hje, hleast⟩
          have hji : j ≠ i := fun h => hne (hn.trans (congrArg some h))
          have hlt : j < i := lt_of_le_of_ne (hleast i hp he) hji
          have hmem : j ∈ ahead enabled pending i := mem_ahead.mpr ⟨hjp, hje, hlt⟩
          rw [step_service_some hn]
          refine ⟨Finset.mem_erase.mpr ⟨hji.symm, hp⟩, ?_⟩
          have hcard := Finset.card_erase_add_one hmem
          rw [ahead_erase]
          simp only [Bool.toNat_true, Bool.toNat_false]
          omega

/-- **While an enabled index waits, every service brings it one nearer.** -/
theorem waiting_balance {enabled : Finset α} {i : α} (he : i ∈ enabled) (es : List (Event α))
    {pending : Finset α} (hp : i ∈ pending)
    (hwaits : ∀ m ∈ log enabled pending es, m.emitted ≠ some i) :
    (log enabled pending es).countP Moment.isService
        + (ahead enabled (es.foldl (step enabled) pending) i).card
      = (ahead enabled pending i).card
        + (log enabled pending es).countP (Moment.freshAhead enabled i) := by
  induction es generalizing pending with
  | nil => exact Nat.add_comm _ _
  | cons e es ih =>
      rw [log_cons] at hwaits
      have hemits : (moment enabled pending e).emits i = false :=
        decide_eq_false (hwaits _ (List.mem_cons_self ..))
      rcases waiting_step hp he hemits with ⟨hp', hstep⟩
      have hrest := ih hp' (fun m hm => hwaits m (List.mem_cons_of_mem _ hm))
      rw [log_cons, List.foldl_cons, List.countP_cons, List.countP_cons]
      simp only [Bool.toNat, Bool.cond_eq_ite] at hstep
      omega

/-- **The delay of an index is exact.** -/
theorem delay_eq {enabled pending : Finset α} {i : α} {es : List (Event α)} (he : i ∈ enabled)
    (hp : i ∈ pending) {l r : List (Moment α)} {m : Moment α}
    (hlog : log enabled pending es = l ++ m :: r) (hfirst : ∀ k ∈ l, k.emitted ≠ some i)
    (hm : m.emitted = some i) :
    l.countP Moment.isService
      = (ahead enabled pending i).card + l.countP (Moment.freshAhead enabled i) := by
  rcases log_eq_append hlog with ⟨pre, e, post, _, rfl, rfl, _⟩
  have hbalance := waiting_balance he pre hp hfirst
  cases e with
  | request j => cases hm
  | service =>
      rw [ahead_of_next hm, Finset.card_empty, Nat.add_zero] at hbalance
      exact hbalance

/-- **Enough services emit it.** -/
theorem emitted_of_services {enabled pending : Finset α} {i : α} {es : List (Event α)}
    (he : i ∈ enabled) (hp : i ∈ pending)
    (henough : (ahead enabled pending i).card
        + (log enabled pending es).countP (Moment.freshAhead enabled i)
      < (log enabled pending es).countP Moment.isService) :
    ∃ m ∈ log enabled pending es, m.emitted = some i := by
  by_contra hnone
  have hwaits : ∀ m ∈ log enabled pending es, m.emitted ≠ some i :=
    fun m hm hi => hnone ⟨m, hm, hi⟩
  have hbalance := waiting_balance he es hp hwaits
  omega

/-! ## Starvation -/

/-- A request of `j` before each of `n` services. -/
def busy (j : α) : Nat → List (Event α)
  | 0 => []
  | n + 1 => .request j :: .service :: busy j n

theorem busy_services (enabled : Finset α) (j : α) (n : Nat) (pending : Finset α) :
    (log enabled pending (busy j n)).countP Moment.isService = n := by
  induction n generalizing pending with
  | zero => rfl
  | succ n ih =>
      rw [busy, log_cons, log_cons, List.countP_cons_of_neg Bool.false_ne_true,
        List.countP_cons_of_pos rfl, ih]

/-- **Nothing behind a busy index is emitted.** -/
theorem busy_emits {enabled : Finset α} {i j : α} (hji : j < i) (hje : j ∈ enabled) (n : Nat)
    (pending : Finset α) : ∀ m ∈ log enabled pending (busy j n), m.emitted ≠ some i := by
  intro m hm hi
  rcases Machine.mem_log hm with ⟨pre, e, post, hsplit, rfl⟩
  clear hm
  -- `j` is pending at every service, so `i` is not the most urgent
  refine (moment_priority hi).2.2 j hji hje ?_
  induction n generalizing pending pre with
  | zero => cases pre <;> cases hsplit
  | succ n ih =>
      rw [busy] at hsplit
      cases pre with
      | nil =>
          cases hsplit
          cases hi
      | cons e₁ pre =>
          rw [List.cons_append, List.cons.injEq] at hsplit
          rcases hsplit with ⟨rfl, hsplit⟩
          cases pre with
          | nil => exact Finset.mem_insert_self ..
          | cons e₂ pre =>
              rw [List.cons_append, List.cons.injEq] at hsplit
              rcases hsplit with ⟨rfl, hsplit⟩
              rw [List.foldl_cons, List.foldl_cons] at hi ⊢
              exact ih _ pre hsplit hi

end PriorityServer
