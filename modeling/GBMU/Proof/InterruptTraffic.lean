import Mathlib.Order.Interval.Finset.Fin
import GBMU.Lib.PriorityTraffic
import GBMU.Proof.BitSets
import GBMU.Proof.InterruptSchedule

/-!
# How often and how soon interrupts are served

Bit `i` of `IF` is one bit: a request of a line that is already pending is merged
with the one before. So services are counted against the requests that found
their line not pending (`interrupts_conserved`), and a pending line waits for the
lines before it in the priority order and for the requests made before it since,
and for nothing else (`interrupt_delay`).

A program says what it wants served by a group of lines, a value of `IE`
(`interrupts<...>`). Whatever is pending of a group is served by the order of the
lines, not by the order of the requests or of the group (`group_served`).
-/

namespace GBMU

/-- `InterruptController::interrupts<...>`. -/
def InterruptController.interrupts (index : InterruptIdx) (indexes : List InterruptIdx) : U32 :=
  bitsSet (index.val.setWidth 32) (indexes.map (fun n => n.val.setWidth 32))

namespace InterruptController

open PriorityServer

/--
**Every line is served as often as it was asked for.**

In any interleaving of requests and services, from any controller: the services
that handled a line, and one if it is still pending, are the requests that found
it not pending, and one if it was pending to begin with.
-/
theorem interrupts_conserved (c : InterruptController) (es : List (Event Line)) (i : Line) :
    (Machine.log serve observe c es).countP (Moment.emits i)
        + (decide (i ∈ lines (es.foldl serve c).registers.IF)).toNat
      = (Machine.log serve observe c es).countP (Moment.fresh i)
        + (decide (i ∈ lines c.registers.IF)).toNat := by
  have h₀ : Serves (lines c.registers.IE) c (lines c.registers.IF) := ⟨rfl, rfl⟩
  rw [log_serve h₀ es, (serves_run h₀ es).2]
  exact emissions_balance _ i es _

/-! ## Delay -/

/-- At most the lower lines are ahead of a line. -/
theorem card_ahead_le (enabled pending : Finset Line) (i : Line) :
    (ahead enabled pending i).card ≤ i.val := by
  have hsub : ahead enabled pending i ⊆ Finset.Iio i := by
    intro j hj
    exact Finset.mem_Iio.mpr (mem_ahead.mp hj).2.2
  have hcard := Finset.card_le_card hsub
  rwa [Fin.card_Iio] at hcard

/--
**The delay of an interrupt is exact.**

For a line that is pending and enabled, in any interleaving: the services before
the one that handles it are as many as the enabled lines of higher priority that
were pending, at most `i`, and the requests since then of such lines not pending.
When more services than that are made, the line is handled. And there is no bound
apart from these requests: any enabled line of higher priority, requested before
every service, keeps it waiting through any number of them.
-/
theorem interrupt_delay (c : InterruptController) (i : Line) (hp : i ∈ lines c.registers.IF)
    (he : i ∈ lines c.registers.IE) :
    let before := (ahead (lines c.registers.IE) (lines c.registers.IF) i).card
    let since := List.countP (Moment.freshAhead (lines c.registers.IE) i)
    before ≤ i.val
      ∧ (∀ (es : List (Event Line)) (l r : List (Moment Line)) (m : Moment Line),
          Machine.log serve observe c es = l ++ m :: r → (∀ k ∈ l, k.emitted ≠ some i) →
            m.emitted = some i → l.countP Moment.isService = before + since l)
      ∧ (∀ es : List (Event Line),
          before + since (Machine.log serve observe c es)
              < (Machine.log serve observe c es).countP Moment.isService →
            ∃ m ∈ Machine.log serve observe c es, m.emitted = some i)
      ∧ ∀ j < i, j ∈ lines c.registers.IE → ∀ n : Nat,
          (Machine.log serve observe c (busy j n)).countP Moment.isService = n
            ∧ ∀ m ∈ Machine.log serve observe c (busy j n), m.emitted ≠ some i := by
  intro before since
  have h₀ : Serves (lines c.registers.IE) c (lines c.registers.IF) := ⟨rfl, rfl⟩
  refine ⟨card_ahead_le _ _ i, ?_, ?_, ?_⟩
  · intro es l r m hlog hfirst hm
    rw [log_serve h₀ es] at hlog
    exact delay_eq he hp hlog hfirst hm
  · intro es henough
    rw [log_serve h₀ es] at henough ⊢
    exact emitted_of_services he hp henough
  · intro j hji hje n
    rw [log_serve h₀]
    exact ⟨busy_services _ j n _, busy_emits hji hje n _⟩

/-- The joypad waits for a serial transfer. -/
theorem interrupt_delay_sample :
    let c : InterruptController := { registers := { IE := 0x18, IF := 0x18, IME := true } }
    ∃ m ∈ Machine.log serve observe c [.service, .service], m.emitted = some 4 :=
  (interrupt_delay { registers := { IE := 0x18, IF := 0x18, IME := true } } 4 (by decide)
    (by decide)).2.2.1 [.service, .service] (by decide)

/-! ## Groups -/

/-- The lines of a list of enumerators. -/
def linesOf (indexes : List InterruptIdx) : Finset Line :=
  (indexes.filterMap InterruptIdx.line).toFinset

theorem mem_linesOf {indexes : List InterruptIdx} {i : Line} :
    i ∈ linesOf indexes ↔ ∃ n ∈ indexes, n.line = some i := by
  rw [linesOf, List.mem_toFinset, List.mem_filterMap]

/-- A group is a byte with the bits of its lines. -/
theorem lines_interrupts (index : InterruptIdx) (indexes : List InterruptIdx) :
    lines ((interrupts index indexes).setWidth 8) = linesOf (index :: indexes) := by
  ext i
  have hlt : BitVec.ofNat 32 i.val < 32 := by
    revert i
    decide
  have hval : ∀ n : InterruptIdx, n.val.setWidth 32 = BitVec.ofNat 32 i.val ↔ n.line = some i := by
    intro n
    revert i
    cases n <;> decide
  have hmod : (BitVec.ofNat 32 i.val).toNat = i.val := by
    rw [BitVec.toNat_ofNat]
    omega
  have hbit := bitN_bitsSet hlt (index.val.setWidth 32)
    (indexes.map (fun n => n.val.setWidth 32))
  have hmap : index.val.setWidth 32 :: indexes.map (fun n => n.val.setWidth 32)
      = (index :: indexes).map (fun n => n.val.setWidth 32) := rfl
  rw [bitN_eq, hmod, hmap] at hbit
  have hi : i.val < 8 := by omega
  rw [mem_lines, BitVec.getLsbD_setWidth, interrupts, hbit, mem_linesOf]
  simp only [hi, decide_true, Bool.true_and, decide_eq_true_eq, List.mem_map, hval]

/-- Requests one after the other. -/
theorem lines_requests (c : InterruptController) (requests : List InterruptIdx) :
    lines (requests.foldl requestInterrupt c).registers.IF
        = lines c.registers.IF ∪ linesOf requests
      ∧ (requests.foldl requestInterrupt c).registers.IE = c.registers.IE := by
  induction requests generalizing c with
  | nil => exact ⟨(Finset.union_empty _).symm, rfl⟩
  | cons n requests ih =>
      rcases ih (c.requestInterrupt n) with ⟨hIF, hIE⟩
      refine ⟨?_, hIE⟩
      rw [List.foldl_cons, hIF, lines_requestInterrupt, Finset.union_assoc]
      congr 1
      ext i
      simp only [Finset.mem_union, Option.mem_toFinset, Option.mem_def, mem_linesOf,
        List.exists_mem_cons_iff]

/--
**A group is served by priority.**

Enable any group of interrupts, request any list of them, in any order and as
often as one likes: services then handle the lines of the group that were
requested, or pending before, in increasing order, each once, and nothing after
them.
-/
theorem group_served (c : InterruptController) (index : InterruptIdx)
    (indexes requests : List InterruptIdx) (n : Nat) :
    let c' := requests.foldl requestInterrupt
      (c.setIEReg ((interrupts index indexes).setWidth 8))
    let handled := (lines c.registers.IF ∪ linesOf requests) ∩ linesOf (index :: indexes)
    (Machine.log serve observe c' (List.replicate n .service)).map Moment.emitted
      = ((handled.sort (· ≤ ·)).map some ++ List.replicate n none).take n := by
  intro c' handled
  rcases lines_requests (c.setIEReg ((interrupts index indexes).setWidth 8)) requests
    with ⟨hIF, hIE⟩
  have henabled : lines c'.registers.IE = linesOf (index :: indexes) := by
    rw [hIE]
    exact (lines_or_reserved _).trans (lines_interrupts index indexes)
  rw [log_serve ⟨henabled, hIF⟩]
  exact services_emit_sorted _ _ n

end InterruptController

end GBMU
