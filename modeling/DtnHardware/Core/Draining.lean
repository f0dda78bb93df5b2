import DtnHardware.Core.Queue

/-!
# Draining the queue

`queue_peek_next` and `queue_pop_next` each scan the slots for the highest rank, and the pop
then moves the last slot into the hole. Called in turn at one time `t` until there is nothing
left, the two do a selection sort:

> **a drained queue comes out sorted by the scheduling key with the default weights**, every
> bundle once, and each pop yields what the peek before it pointed at (`queueDrain_sorts`).

The key, which `queue.c` calls the rank, depends on `t`, and nothing is assumed of it but that it
is a number. Bundles of one rank come out in whatever order the moves have left them in.
-/

set_option autoImplicit false

namespace DtnHardware

open ArrayLoops

/-- `queue_peek_next` and then `queue_pop_next`, up to `n` times or until the latter returns
    `-1`: what was pointed at with what was popped, and the queue that is left. -/
def queueDrain (t : ℚ) : Nat → NodeQueue → List (Option Bundle × Bundle) × NodeQueue
  | 0, q => ([], q)
  | n + 1, q =>
      let peeked := queuePeekNext q t
      match queuePopNext q t with
      | none => ([], q)
      | some (b, q) =>
          let (out, q) := queueDrain t n q
          ((peeked, b) :: out, q)

/-- The peek points at what the pop will yield. -/
theorem queuePeekNext_of_pop {q q' : NodeQueue} {t : ℚ} {b : Bundle}
    (h : queuePopNext q t = some (b, q')) : queuePeekNext q t = some b := by
  unfold queuePopNext at h
  unfold queuePeekNext
  cases hscan : scanMax (rank t) q.slots with
  | none =>
    rw [hscan] at h
    cases h
  | some best =>
    rw [hscan] at h
    cases h
    rfl

/-- Draining is a selection sort of the slots. -/
theorem queueDrain_eq (t : ℚ) (n : Nat) (q : NodeQueue) :
    queueDrain t n q = ((selectAll (rank t) n q.slots).1.map fun b => (some b, b),
      { q with slots := (selectAll (rank t) n q.slots).2 }) := by
  induction n generalizing q with
  | zero => rfl
  | succ n ih =>
    cases hscan : scanMax (rank t) q.slots with
    | none =>
      have hpop : queuePopNext q t = none := by
        rw [queuePopNext, hscan]
      rw [queueDrain, hpop, selectAll, hscan]
      rfl
    | some best =>
      obtain ⟨i, b⟩ := best
      have hpop : queuePopNext q t = some (b, { q with slots := swapRemove q.slots i }) := by
        rw [queuePopNext, hscan]
      rw [queueDrain, queuePeekNext_of_pop hpop, hpop]
      dsimp only
      rw [ih, selectAll, hscan]
      rfl

/-- **Draining the queue sorts it**: as many pops as bundles, and then `-1` for good; every
    bundle comes out once, in non-increasing order of the scheduling key at `t` with the weights
    of `queue.c`; and each is what `queue_peek_next` pointed at. -/
theorem queueDrain_sorts (q : NodeQueue) (t : ℚ) :
    let drained := queueDrain t q.slots.length q
    drained.1.length = q.slots.length ∧
      queuePopNext drained.2 t = none ∧
      (∀ n, queueDrain t (q.slots.length + n) q = drained) ∧
      (drained.1.map Prod.snd).Perm q.slots ∧
      (drained.1.map Prod.snd).Pairwise (fun a b =>
        bundleSchedulingKey b t 1 (1 / 2) (3 / 10) (1 / 10) (10 ^ 6) ≤
          bundleSchedulingKey a t 1 (1 / 2) (3 / 10) (1 / 10) (10 ^ 6)) ∧
      ∀ p ∈ drained.1, p.1 = some p.2 := by
  intro drained
  have hrest := selectAll_rest (rank t) (le_refl q.slots.length)
  have hperm := perm_selectAll (rank t) q.slots.length q.slots
  rw [hrest, List.append_nil] at hperm
  have hout : drained.1.map Prod.snd = (selectAll (rank t) q.slots.length q.slots).1 := by
    simp only [drained, queueDrain_eq, List.map_map]
    exact List.map_id _
  refine ⟨?_, ?_, fun n => ?_, ?_, ?_, fun p hp => ?_⟩
  · rw [← List.length_map Prod.snd, hout]
    exact hperm.length_eq.symm
  · have hempty : drained.2.slots = [] := by
      simp [drained, queueDrain_eq, hrest]
    rw [queuePopNext, hempty]
    rfl
  · simp only [drained, queueDrain_eq]
    rw [selectAll_of_length_le (rank t) (Nat.le_add_right _ n) (le_refl _)]
  · rw [hout]
    exact hperm.symm
  · rw [hout]
    exact pairwise_selectAll (rank t) _ _
  · simp only [drained, queueDrain_eq] at hp
    obtain ⟨b, _, rfl⟩ := List.mem_map.mp hp
    rfl

end DtnHardware
