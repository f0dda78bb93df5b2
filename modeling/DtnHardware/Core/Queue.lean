import DtnHardware.Core.Bundle
import DtnHardware.Lib.ArrayLoops
import DtnHardware.Lib.Calls

/-!
# `dtn_core/queue` — the node's bundle queue

Sixteen slots and a byte budget. `queue_enqueue` has six ways to end, and `Enqueued` lists
them: the callers in `node/` ignore the return value, so what matters is which bundles are
in the queue afterwards. Note the last but one: a victim is evicted first, and if the
incoming bundle still does not fit it is rejected all the same.

Removal is by moving the last slot into the hole, so everything here is up to permutation.
-/

set_option autoImplicit false

namespace DtnHardware

open ArrayLoops GuardedCalls

def nodeQueueMax : Nat := 16

/-- `0.10f`: less than a tenth free is pressure. -/
def preemptionThresholdFraction : ℚ := 1 / 10

/-- `node_queue_t`; `count` is the length of `slots`. -/
structure NodeQueue where
  slots : List Bundle
  bufCap : ℚ
  owner : NodeId
  policy : List Char
deriving DecidableEq

/-- `queue_init`; a null policy is `"accept"`, a long one is cut to seven characters. -/
def queueInit (owner : NodeId) (bufCap : ℚ) (policy : Option String) : NodeQueue :=
  { slots := [], bufCap, owner, policy := (policy.getD "accept").toList.take 7 }

def queueLoad (q : NodeQueue) : ℚ := (q.slots.map Bundle.bytes).sum

def queueFree (q : NodeQueue) : ℚ := q.bufCap - queueLoad q

def queueCanAccept (q : NodeQueue) (b : Bundle) : Bool := decide (queueFree q ≥ b.bytes)

/-! ## Preemption -/

/-- `(int8_t)b->bundle_class`. -/
def classRank (b : Bundle) : Int := b.bundleClass.toUInt8.toInt8.toInt

/-- The loop of `find_lowest_class_victim` from index `i` on, with `idx` and `lowest`. -/
def victimFrom (incoming : Bundle) : Nat → Option Nat × Int → List Bundle → Option Nat × Int
  | _, best, [] => best
  | i, best, s :: rest =>
      victimFrom incoming (i + 1)
        (if classRank s < classRank incoming ∧ classRank s < best.2 then (some i, classRank s)
          else best) rest

/-- `find_lowest_class_victim`: the slot index, `none` for `-1`. -/
def findLowestClassVictim (q : NodeQueue) (incoming : Bundle) : Option Nat :=
  (victimFrom incoming 0 (none, classRank incoming) q.slots).1

/-- `queue_enqueue`: the return value and the queue. -/
def queueEnqueue (q : NodeQueue) (b : Bundle) : Int × NodeQueue :=
  if q.slots.length ≥ nodeQueueMax then (-1, q)
  else if queueCanAccept q b then (0, { q with slots := q.slots ++ [b] })
  else if queueFree q > preemptionThresholdFraction * q.bufCap then (-1, q)
  else
    match findLowestClassVictim q b with
    | none => (-1, q)
    | some victim =>
        let q := { q with slots := swapRemove q.slots victim }
        if queueFree q < b.bytes then (-1, q)
        else (1, { q with slots := q.slots ++ [b] })

/-! ## Leaving the queue -/

/-- `queue_dequeue`; `none` is the return value `-1`. -/
def queueDequeue (q : NodeQueue) (bundleId : UInt64) : Option NodeQueue :=
  match q.slots.findIdx? fun s => decide (s.bundleId = bundleId) with
  | none => none
  | some i => some { q with slots := swapRemove q.slots i }

/-- `rank`: the scheduling key with the default weights. -/
def rank (t : ℚ) (b : Bundle) : ℚ :=
  bundleSchedulingKey b t 1 (1 / 2) (3 / 10) (1 / 10) (10 ^ 6)

def queuePeekNext (q : NodeQueue) (t : ℚ) : Option Bundle :=
  (scanMax (rank t) q.slots).map Prod.snd

/-- `queue_pop_next`; `none` is the return value `-1`. -/
def queuePopNext (q : NodeQueue) (t : ℚ) : Option (Bundle × NodeQueue) :=
  match scanMax (rank t) q.slots with
  | none => none
  | some (best, b) => some (b, { q with slots := swapRemove q.slots best })

def queueGet (q : NodeQueue) (bundleId : UInt64) : Option Bundle :=
  q.slots.find? fun s => decide (s.bundleId = bundleId)

/-! ## The victim -/

/-- What the loop maintains: no class below the incoming one so far, or the slot of the
    lowest. -/
def VictimSoFar (incoming : Bundle) (seen : List Bundle) (best : Option Nat × Int) : Prop :=
  (best = (none, classRank incoming) ∧ ∀ s ∈ seen, classRank incoming ≤ classRank s) ∨
  ∃ i v, best = (some i, classRank v) ∧ seen[i]? = some v ∧
    classRank v < classRank incoming ∧ ∀ s ∈ seen, classRank v ≤ classRank s

theorem victimFrom_spec (incoming : Bundle) : ∀ (rest seen : List Bundle)
    (best : Option Nat × Int), VictimSoFar incoming seen best →
    VictimSoFar incoming (seen ++ rest) (victimFrom incoming seen.length best rest) := by
  intro rest
  induction rest with
  | nil =>
    intro seen best h
    rw [List.append_nil]
    exact h
  | cons s rest ih =>
    intro seen best h
    have happ : seen ++ s :: rest = (seen ++ [s]) ++ rest := by simp
    have hlen : (seen ++ [s]).length = seen.length + 1 := by simp
    rw [victimFrom, happ, ← hlen]
    apply ih (seen ++ [s]) _
    have hold : ∀ (i : Nat) (v : Bundle), seen[i]? = some v → (seen ++ [s])[i]? = some v := by
      intro i v hi
      rw [List.getElem?_append_left (List.getElem?_eq_some_iff.mp hi).1]
      exact hi
    split
    · rename_i hlower
      refine Or.inr ⟨seen.length, s, rfl, by simp, hlower.1, fun x hx => ?_⟩
      rcases List.mem_append.mp hx with hx | hx
      · rcases h with ⟨rfl, hall⟩ | ⟨i, v, rfl, _, _, hall⟩
        · exact hlower.1.le.trans (hall x hx)
        · exact hlower.2.le.trans (hall x hx)
      · rw [List.mem_singleton.mp hx]
    · rename_i hnot
      rcases h with ⟨rfl, hall⟩ | ⟨i, v, rfl, hi, hlt, hall⟩
      · refine Or.inl ⟨rfl, fun x hx => ?_⟩
        rcases List.mem_append.mp hx with hx | hx
        · exact hall x hx
        · rw [List.mem_singleton.mp hx]
          by_contra hlt
          exact hnot ⟨not_le.mp hlt, not_le.mp hlt⟩
      · refine Or.inr ⟨i, v, rfl, hold i v hi, hlt, fun x hx => ?_⟩
        rcases List.mem_append.mp hx with hx | hx
        · exact hall x hx
        · rw [List.mem_singleton.mp hx]
          by_contra hlt'
          exact hnot ⟨(not_le.mp hlt').trans hlt, not_le.mp hlt'⟩

/-- The victim is a queued bundle of the lowest class, and that class is below the
    incoming one. -/
theorem findLowestClassVictim_some {q : NodeQueue} {b : Bundle} {i : Nat}
    (h : findLowestClassVictim q b = some i) : ∃ v, q.slots[i]? = some v ∧
      classRank v < classRank b ∧ ∀ s ∈ q.slots, classRank v ≤ classRank s := by
  have hspec := victimFrom_spec b q.slots [] (none, classRank b) (Or.inl ⟨rfl, nofun⟩)
  rw [List.nil_append, List.length_nil] at hspec
  unfold findLowestClassVictim at h
  rcases hspec with ⟨heq, _⟩ | ⟨j, v, heq, hget, hlt, hall⟩
  · rw [heq] at h
    cases h
  · rw [heq] at h
    cases h
    exact ⟨v, hget, hlt, hall⟩

/-! ## How an enqueue ends -/

/-- The outcomes of `queue_enqueue`: the return value and the queue afterwards. -/
inductive Enqueued (q : NodeQueue) (b : Bundle) : Int → NodeQueue → Prop
  | full (h : nodeQueueMax ≤ q.slots.length) : Enqueued q b (-1) q
  | fits (room : q.slots.length < nodeQueueMax) (h : b.bytes ≤ queueFree q) :
      Enqueued q b 0 { q with slots := q.slots ++ [b] }
  | noPressure (room : q.slots.length < nodeQueueMax) (tooBig : queueFree q < b.bytes)
      (h : preemptionThresholdFraction * q.bufCap < queueFree q) : Enqueued q b (-1) q
  | noVictim (room : q.slots.length < nodeQueueMax) (tooBig : queueFree q < b.bytes)
      (pressure : queueFree q ≤ preemptionThresholdFraction * q.bufCap)
      (h : findLowestClassVictim q b = none) : Enqueued q b (-1) q
  | evictedInVain (i : Nat) (v : Bundle) (room : q.slots.length < nodeQueueMax)
      (tooBig : queueFree q < b.bytes)
      (pressure : queueFree q ≤ preemptionThresholdFraction * q.bufCap)
      (victim : findLowestClassVictim q b = some i) (get : q.slots[i]? = some v)
      (still : queueFree { q with slots := swapRemove q.slots i } < b.bytes) :
      Enqueued q b (-1) { q with slots := swapRemove q.slots i }
  | preempted (i : Nat) (v : Bundle) (room : q.slots.length < nodeQueueMax)
      (tooBig : queueFree q < b.bytes)
      (pressure : queueFree q ≤ preemptionThresholdFraction * q.bufCap)
      (victim : findLowestClassVictim q b = some i) (get : q.slots[i]? = some v)
      (now : b.bytes ≤ queueFree { q with slots := swapRemove q.slots i }) :
      Enqueued q b 1 { q with slots := swapRemove q.slots i ++ [b] }

theorem queueEnqueue_cases (q : NodeQueue) (b : Bundle) :
    Enqueued q b (queueEnqueue q b).1 (queueEnqueue q b).2 := by
  unfold queueEnqueue queueCanAccept
  split
  · rename_i hfull
    exact .full hfull
  · rename_i hroom
    have hroom := not_le.mp hroom
    split
    · rename_i hfits
      exact .fits hroom (of_decide_eq_true hfits)
    · rename_i hover
      have hover : queueFree q < b.bytes := not_le.mp fun h => hover (decide_eq_true h)
      split
      · rename_i hfree
        exact .noPressure hroom hover hfree
      · rename_i hpress
        have hpress := not_lt.mp hpress
        cases hv : findLowestClassVictim q b with
        | none => exact .noVictim hroom hover hpress hv
        | some i =>
          obtain ⟨v, hget, _, _⟩ := findLowestClassVictim_some hv
          dsimp only
          split
          · rename_i hstill
            exact .evictedInVain i v hroom hover hpress hv hget hstill
          · rename_i hnow
            exact .preempted i v hroom hover hpress hv hget (not_lt.mp hnow)

/-- Nothing but the slots ever changes. -/
theorem Enqueued.frame {q q' : NodeQueue} {b : Bundle} {rc : Int} (h : Enqueued q b rc q') :
    q'.bufCap = q.bufCap ∧ q'.owner = q.owner ∧ q'.policy = q.policy := by
  cases h <;> exact ⟨rfl, rfl, rfl⟩

/-- A bundle that fits in bytes is queued as long as there is a slot. -/
theorem queueEnqueue_of_fits {q : NodeQueue} {b : Bundle}
    (hroom : q.slots.length < nodeQueueMax) (hfits : b.bytes ≤ queueFree q) :
    queueEnqueue q b = (0, { q with slots := q.slots ++ [b] }) := by
  unfold queueEnqueue queueCanAccept
  rw [if_neg (not_le.mpr hroom), if_pos (decide_eq_true hfits)]

theorem queueEnqueue_of_full {q : NodeQueue} (b : Bundle)
    (h : nodeQueueMax ≤ q.slots.length) : queueEnqueue q b = (-1, q) := by
  unfold queueEnqueue
  rw [if_pos h]

/-! ## The bounds -/

/-- Within the slots and within the bytes. -/
structure QueueOk (q : NodeQueue) : Prop where
  count : q.slots.length ≤ nodeQueueMax
  load : queueLoad q ≤ q.bufCap

theorem queueOk_init (owner : NodeId) {bufCap : ℚ} (h : 0 ≤ bufCap) (policy : Option String) :
    QueueOk (queueInit owner bufCap policy) := ⟨Nat.zero_le _, h⟩

theorem queueLoad_append (q : NodeQueue) (b : Bundle) :
    queueLoad { q with slots := q.slots ++ [b] } = queueLoad q + b.bytes := by
  simp [queueLoad]

/-- Taking a bundle out takes its bytes out. -/
theorem queueLoad_swapRemove {q : NodeQueue} {i : Nat} {v : Bundle}
    (h : q.slots[i]? = some v) :
    queueLoad q = v.bytes + queueLoad { q with slots := swapRemove q.slots i } := by
  have := ((perm_swapRemove h).map Bundle.bytes).sum_eq
  rw [List.map_cons, List.sum_cons] at this
  exact this

theorem QueueOk.remove {q : NodeQueue} {i : Nat} {v : Bundle} (h : QueueOk q)
    (hget : q.slots[i]? = some v) :
    QueueOk { q with slots := swapRemove q.slots i } := by
  refine ⟨?_, ?_⟩
  · have := length_swapRemove hget
    have := h.count
    dsimp only
    omega
  · have := queueLoad_swapRemove hget
    have := h.load
    have := v.bytes_nonneg
    dsimp only
    linarith

theorem QueueOk.append {q : NodeQueue} {b : Bundle} (hroom : q.slots.length < nodeQueueMax)
    (hfits : b.bytes ≤ queueFree q) : QueueOk { q with slots := q.slots ++ [b] } := by
  refine ⟨?_, ?_⟩
  · dsimp only
    rw [List.length_append, List.length_singleton]
    exact hroom
  · rw [queueLoad_append]
    unfold queueFree at hfits
    dsimp only
    linarith

theorem Enqueued.queueOk {q q' : NodeQueue} {b : Bundle} {rc : Int} (h : Enqueued q b rc q')
    (hok : QueueOk q) : QueueOk q' := by
  cases h with
  | full _ | noPressure _ _ _ | noVictim _ _ _ _ => exact hok
  | fits hroom hfits => exact QueueOk.append hroom hfits
  | evictedInVain i v _ _ _ _ hget _ => exact hok.remove hget
  | preempted i v hroom _ _ _ hget hnow =>
    refine QueueOk.append (q := { q with slots := swapRemove q.slots i }) ?_ hnow
    have := length_swapRemove hget
    dsimp only
    omega

theorem queuePopNext_eq_some {q q' : NodeQueue} {t : ℚ} {b : Bundle}
    (h : queuePopNext q t = some (b, q')) : ∃ i, q.slots[i]? = some b ∧
      (∀ s ∈ q.slots, rank t s ≤ rank t b) ∧ q' = { q with slots := swapRemove q.slots i } := by
  unfold queuePopNext at h
  cases hscan : scanMax (rank t) q.slots with
  | none => rw [hscan] at h; cases h
  | some w =>
    obtain ⟨i, x⟩ := w
    rw [hscan] at h
    cases h
    obtain ⟨hget, hmax⟩ := scanMax_spec hscan
    exact ⟨i, hget, hmax, rfl⟩

theorem queuePopNext_perm {q q' : NodeQueue} {t : ℚ} {b : Bundle}
    (h : queuePopNext q t = some (b, q')) : q.slots.Perm (b :: q'.slots) := by
  obtain ⟨i, hget, _, rfl⟩ := queuePopNext_eq_some h
  exact perm_swapRemove hget

/-- **A popped bundle can always be put back.** -/
theorem queueEnqueue_of_pop {q q' : NodeQueue} {t : ℚ} {b : Bundle} (hok : QueueOk q)
    (h : queuePopNext q t = some (b, q')) :
    queueEnqueue q' b = (0, { q' with slots := q'.slots ++ [b] }) := by
  obtain ⟨i, hget, _, rfl⟩ := queuePopNext_eq_some h
  have hlen := length_swapRemove hget
  have hload := queueLoad_swapRemove hget
  refine queueEnqueue_of_fits ?_ ?_
  · have := hok.count
    dsimp only
    omega
  · have := hok.load
    unfold queueFree
    dsimp only
    linarith

/-! ## Runs -/

/-- A call that changes a queue. -/
inductive QueueOp where
  | enqueue (b : Bundle)
  | dequeue (bundleId : UInt64)
  | pop (t : ℚ)

/-- The queue after the call, which always comes back; a failed removal changes nothing. -/
def queueStep (q : NodeQueue) : QueueOp → Option NodeQueue
  | .enqueue b => some (queueEnqueue q b).2
  | .dequeue bundleId => some ((queueDequeue q bundleId).getD q)
  | .pop t => some (((queuePopNext q t).map Prod.snd).getD q)

theorem queueDequeue_eq_some {q q' : NodeQueue} {bundleId : UInt64}
    (h : queueDequeue q bundleId = some q') :
    ∃ i v, q.slots[i]? = some v ∧ q' = { q with slots := swapRemove q.slots i } := by
  unfold queueDequeue at h
  cases hf : q.slots.findIdx? fun s => decide (s.bundleId = bundleId) with
  | none =>
    rw [hf] at h
    cases h
  | some i =>
    rw [hf] at h
    cases h
    have hlt := (List.findIdx?_eq_some_iff_getElem.mp hf).1
    exact ⟨i, _, List.getElem?_eq_getElem hlt, rfl⟩

/-- Every call keeps the bounds, and the capacity they refer to. -/
theorem queueStep_queueOk {q q' : NodeQueue} {op : QueueOp} (h : queueStep q op = some q')
    (hok : QueueOk q) : QueueOk q' ∧ q'.bufCap = q.bufCap := by
  cases op with
  | enqueue b =>
    cases h
    have hcases := queueEnqueue_cases q b
    exact ⟨hcases.queueOk hok, hcases.frame.1⟩
  | dequeue bundleId =>
    cases h
    cases hd : queueDequeue q bundleId with
    | none => exact ⟨hok, rfl⟩
    | some q₁ =>
      obtain ⟨i, v, hget, rfl⟩ := queueDequeue_eq_some hd
      exact ⟨hok.remove hget, rfl⟩
  | pop t =>
    cases h
    cases hp : queuePopNext q t with
    | none => exact ⟨hok, rfl⟩
    | some popped =>
      obtain ⟨b, q₁⟩ := popped
      obtain ⟨i, hget, _, rfl⟩ := queuePopNext_eq_some hp
      exact ⟨hok.remove hget, rfl⟩

/-- **A queue never holds more than its slots and its bytes**, whatever is put in and taken
    out, in whatever order. -/
theorem queueReaches_bounds (owner : NodeId) (bufCap : ℚ) (policy : Option String)
    (hcap : 0 ≤ bufCap) (q : NodeQueue)
    (h : Reaches queueStep (fun _ _ => True) (queueInit owner bufCap policy) q) :
    q.slots.length ≤ nodeQueueMax ∧ queueLoad q ≤ bufCap := by
  have hinv : QueueOk q ∧ q.bufCap = bufCap := by
    refine h.invariant (P := fun q => QueueOk q ∧ q.bufCap = bufCap) ?_ fun q op q' _ _ hs hP => ?_
    · exact ⟨queueOk_init owner hcap policy, rfl⟩
    · obtain ⟨hok', hcap'⟩ := queueStep_queueOk hs hP.1
      exact ⟨hok', hcap'.trans hP.2⟩
  obtain ⟨hok, hbuf⟩ := hinv
  have hload := hok.load
  rw [hbuf] at hload
  exact ⟨hok.count, hload⟩

/-- Sixty bytes of telemetry, preempted by sixty of command in a buffer of a hundred; what
    comes next is too big and is rejected. -/
def preemptingOps : List QueueOp :=
  [.enqueue { Bundle.zero with size := 60, bundleClass := BundleClass.telemetry.code },
    .enqueue { Bundle.zero with size := 60, bundleClass := BundleClass.command.code },
    .enqueue { Bundle.zero with size := 200, bundleClass := BundleClass.command.code }]

theorem queueReaches_bounds_preemptingOps : ∃ q,
    run queueStep (queueInit 0 100 none) preemptingOps = some q ∧ q.slots.length = 1 ∧
      q.slots.length ≤ nodeQueueMax ∧ queueLoad q ≤ 100 := by
  have hrun : (run queueStep (queueInit 0 100 none) preemptingOps).any
      (fun q => decide (q.slots.length = 1)) = true := by decide +kernel
  obtain ⟨q, hq, hone⟩ := (Option.any_eq_true _ _).mp hrun
  have hbounds := queueReaches_bounds 0 100 none (by norm_num) q
    (reaches_of_run (fun _ _ => trivial) .start hq)
  exact ⟨q, hq, of_decide_eq_true hone, hbounds⟩

end DtnHardware
