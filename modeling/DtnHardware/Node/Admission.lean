import DtnHardware.Node.Contents
import DtnHardware.Node.Custody

/-!
# What gets past the door

`queue_enqueue` looks at slots and bytes, and `custody_can_accept` at the lifetime, the bytes,
the policy and the custody table. Neither looks at the queue, and nobody looks at the ranges
of what came off the air. So two things that the rest of the code takes for granted hold as
long as the frames happen to respect them, and no longer:

* one bundle per id (`uniqueIds_step_iff`): the custody table stands in for the queue, but a
  bundle generated here has no record, a record times out while its bundle is still queued,
  and a full table records nothing;
* a priority in `0..3` and one of the four classes (`inRange_step_iff`).
-/

set_option autoImplicit false

namespace DtnHardware

open GuardedCalls

/-! ## One bundle per id -/

/-- No two queued bundles have one id. -/
def UniqueIds (q : NodeQueue) : Prop := (q.slots.map Bundle.bundleId).Nodup

/-- Wherever `b` would be put next to what stays of the queue, its id is new. -/
structure NewIn (q : NodeQueue) (b : Bundle) : Prop where
  fits : q.slots.length < nodeQueueMax → b.bytes ≤ queueFree q → ¬ Queued q b.bundleId
  evicting : ∀ i v, Evicts q b i v → b.bytes ≤ queueFree (q.without i) →
    ¬ Queued (q.without i) b.bundleId

/-- The call queues no bundle beside another with its id. -/
def KeepsUnique (ns : NodeState) : NodeOp → Prop
  | .generate dst cls msg t => NewIn ns.queue (generatedBundle ns dst cls msg t)
  | .receive t frame _ => IfAccepted ns t frame fun b =>
      ns.queue.slots.length < nodeQueueMax → ¬ Queued ns.queue b.bundleId
  | .tick _ _ _ => True
  | .sendTimeSync _ _ => True
  | .handleTimeSync _ _ => True

theorem queued_iff_mem_map {q : NodeQueue} {bundleId : UInt64} :
    Queued q bundleId ↔ bundleId ∈ q.slots.map Bundle.bundleId := by
  unfold Queued
  rw [List.mem_map]

theorem uniqueIds_of_perm {q q' : NodeQueue} {b : Bundle} (h : q.slots.Perm (b :: q'.slots)) :
    UniqueIds q ↔ ¬ Queued q' b.bundleId ∧ UniqueIds q' := by
  unfold UniqueIds
  rw [(h.map Bundle.bundleId).nodup_iff, List.map_cons, List.nodup_cons, queued_iff_mem_map]

theorem uniqueIds_append (q : NodeQueue) (b : Bundle) :
    UniqueIds { q with slots := q.slots ++ [b] } ↔ ¬ Queued q b.bundleId ∧ UniqueIds q :=
  uniqueIds_of_perm (List.perm_append_singleton b q.slots)

theorem UniqueIds.without {q : NodeQueue} {i : Nat} {v : Bundle} (h : UniqueIds q)
    (hget : q.slots[i]? = some v) : UniqueIds (q.without i) := by
  have hperm : q.slots.Perm (v :: (q.without i).slots) := ArrayLoops.perm_swapRemove hget
  exact ((uniqueIds_of_perm hperm).mp h).2

/-- **An enqueue keeps the ids unique exactly when the id is new** where the bundle goes. -/
theorem uniqueIds_enqueue_iff {q : NodeQueue} {b : Bundle} (h : UniqueIds q) :
    UniqueIds (queueEnqueue q b).2 ↔ NewIn q b := by
  have hcases := queueEnqueue_cases q b
  generalize queueEnqueue q b = res at hcases ⊢
  obtain ⟨rc, q'⟩ := res
  dsimp only at hcases ⊢
  -- where `b` does not get in, neither clause of `NewIn` asks for anything
  cases hcases with
  | full hfull =>
    apply iff_of_true h
    refine ⟨fun hroom => ?_, fun i v hev => ?_⟩
    · exact absurd hfull (not_le.mpr hroom)
    · exact absurd hfull (not_le.mpr hev.room)
  | fits hroom hfits =>
    rw [uniqueIds_append, and_iff_left h]
    constructor
    · intro hnew
      refine ⟨fun _ _ => hnew, fun i v hev => ?_⟩
      exact absurd hev.tooBig (not_lt.mpr hfits)
    · intro hnew
      exact hnew.fits hroom hfits
  | noPressure hroom hbig hfree =>
    apply iff_of_true h
    refine ⟨fun _ hfits => ?_, fun i v hev => ?_⟩
    · exact absurd hfits (not_le.mpr hbig)
    · exact absurd hev.pressure (not_le.mpr hfree)
  | noVictim hroom hbig hpress hnone =>
    apply iff_of_true h
    refine ⟨fun _ hfits => ?_, fun i v hev => ?_⟩
    · exact absurd hfits (not_le.mpr hbig)
    · have := hnone.symm.trans hev.victim
      cases this
  | evictedInVain i v hroom hbig hpress hvictim hget hstill =>
    apply iff_of_true (h.without hget)
    refine ⟨fun _ hfits => ?_, fun i' v' hev hfits => ?_⟩
    · exact absurd hfits (not_le.mpr hbig)
    · have hi := hvictim.symm.trans hev.victim
      cases hi
      exact absurd hfits (not_le.mpr hstill)
  | preempted i v hroom hbig hpress hvictim hget hnow =>
    have happend := uniqueIds_append (q.without i) b
    rw [and_iff_left (h.without hget)] at happend
    refine happend.trans ⟨fun hnew => ⟨fun _ hfits => ?_, fun i' v' hev _ => ?_⟩, fun hnew => ?_⟩
    · exact absurd hfits (not_le.mpr hbig)
    · have hi := hvictim.symm.trans hev.victim
      cases hi
      exact hnew
    · exact hnew.evicting i v ⟨hroom, hbig, hpress, hvictim, hget⟩ hnow

/-- A popped bundle is new to what stays, so it can be put back. -/
theorem uniqueIds_requeue {q q' : NodeQueue} {t : ℚ} {b : Bundle} (h : UniqueIds q)
    (hpop : queuePopNext q t = some (b, q')) : UniqueIds (queueEnqueue q' b).2 := by
  obtain ⟨hnew, hrest⟩ := (uniqueIds_of_perm (queuePopNext_perm hpop)).mp h
  apply (uniqueIds_enqueue_iff hrest).mpr
  refine ⟨fun _ _ => hnew, fun i v hev _ hqueued => ?_⟩
  exact hnew ((hev.queued_iff b.bundleId).mpr (Or.inr hqueued))

/-- An accepted bundle fits the bytes, so what counts is whether there is a slot. -/
theorem newIn_accepted_iff {ns : NodeState} {b : Bundle} {t : ℚ}
    (hacc : acceptsFrame ns b t = true) :
    NewIn ns.queue (frameTransfer ns b t).2.2 ↔
      (ns.queue.slots.length < nodeQueueMax → ¬ Queued ns.queue b.bundleId) := by
  have hfits : b.bytes ≤ queueFree ns.queue := acceptsFrame_fits hacc
  obtain ⟨cust, heq⟩ := frameTransfer_bundle ns b t
  rw [heq]
  constructor
  · intro hnew hroom
    exact hnew.fits hroom hfits
  · intro hnew
    refine ⟨fun hroom _ => hnew hroom, fun i v hev => ?_⟩
    exact absurd hev.tooBig (not_lt.mpr hfits)

/-- **The condition is exact**, call by call. -/
theorem StoreStep.uniqueIds_iff {logf : ℚ → ℚ} {ns : NodeState} {op : NodeOp}
    {q' : NodeQueue} {cm' : CustodyManager} (h : StoreStep logf ns op q' cm')
    (hunique : UniqueIds ns.queue) : UniqueIds q' ↔ KeepsUnique ns op := by
  cases h with
  | generated dst cls msg t => exact uniqueIds_enqueue_iff hunique
  | badFrame t frame rssi hdec =>
    exact iff_of_true hunique (ifAccepted_of_badFrame hdec ns t _)
  | delivered t frame rssi b hdec hhere =>
    exact iff_of_true hunique (ifAccepted_of_here hdec hhere t _)
  | accepted t frame rssi b hdec haway hacc =>
    rw [uniqueIds_enqueue_iff hunique, newIn_accepted_iff hacc, KeepsUnique, ifAccepted_iff hdec]
    exact ⟨fun hnew _ _ => hnew, fun hkeeps => hkeeps haway hacc⟩
  | rejected t frame rssi b hdec haway hrej =>
    exact iff_of_true hunique (ifAccepted_of_rejects hdec hrej _)
  | idle | sentTimeSync | handledTimeSync => exact iff_of_true hunique trivial
  | expired t fuel sent b q' hpop =>
    exact iff_of_true ((uniqueIds_of_perm (queuePopNext_perm hpop)).mp hunique).2 trivial
  | requeued t fuel sent b q' hpop => exact iff_of_true (uniqueIds_requeue hunique hpop) trivial
  | transmitted t fuel sent b q' hsends =>
    exact iff_of_true ((uniqueIds_of_perm (queuePopNext_perm hsends.pop)).mp hunique).2 trivial

section
variable {logf : ℚ → ℚ} {ok : NodeState → NodeOp → Prop} {self : NodeId} {bufCap : ℚ}
  {policy : Option String} {plan : ContactPlan} {ns : NodeState}

theorem uniqueIds_step_iff {op : NodeOp} {ns' : NodeState} (h : nodeStep logf ns op = some ns')
    (hunique : UniqueIds ns.queue) : UniqueIds ns'.queue ↔ KeepsUnique ns op :=
  (nodeStep_stores h).2.uniqueIds_iff hunique

/-- **No queue holds two bundles with one id**, in every run whose calls bring in new ids
    only. -/
theorem queue_uniqueIds
    (h : NodeReaches logf KeepsUnique (nodeStart self bufCap policy plan) ns) :
    UniqueIds ns.queue := by
  refine h.invariant (P := fun ns => UniqueIds ns.queue) ?_ fun ns op ns' _ hkeeps hs hunique => ?_
  · exact List.nodup_nil
  · exact (uniqueIds_step_iff hs hunique).mpr hkeeps

end

/-- The relay takes a bundle from a frame and generates another. -/
theorem queue_uniqueIds_testRelay : ∃ ns₁ ns₂,
    nodeStep testLog testRelay (.receive 0 testFrame 0) = some ns₁ ∧
      nodeStep testLog ns₁ (.generate nodeC .telemetry [] F32.zero) = some ns₂ ∧
      ns₂.queue.slots.length = 2 ∧ UniqueIds ns₂.queue := by
  have hrun : (nodeStep testLog testRelay (.receive 0 testFrame 0)).any (fun ns₁ =>
      (nodeStep testLog ns₁ (.generate nodeC .telemetry [] F32.zero)).any (fun ns₂ => decide (
        ns₂.queue.slots.length = 2 ∧
        (generatedBundle ns₁ nodeC .telemetry [] F32.zero).bytes ≤ queueFree ns₁.queue ∧
        ∀ b ∈ ns₁.queue.slots, b.bundleId
          ≠ (generatedBundle ns₁ nodeC .telemetry [] F32.zero).bundleId))) = true := by
    decide +kernel
  obtain ⟨ns₁, hs₁, hrun₂⟩ := (Option.any_eq_true _ _).mp hrun
  obtain ⟨ns₂, hs₂, hfacts⟩ := (Option.any_eq_true _ _).mp hrun₂
  obtain ⟨hlen, hfits, hnew⟩ := of_decide_eq_true hfacts
  have hempty : ∀ bundleId, ¬ Queued testRelay.queue bundleId := by
    intro bundleId hqueued
    obtain ⟨b, hb, _⟩ := hqueued
    exact absurd hb List.not_mem_nil
  have hkeeps₁ : KeepsUnique testRelay (.receive 0 testFrame 0) :=
    fun b _ _ _ _ => hempty b.bundleId
  have hkeeps₂ : KeepsUnique ns₁ (.generate nodeC .telemetry [] F32.zero) := by
    refine ⟨fun _ _ hqueued => ?_, fun i v hev => ?_⟩
    · obtain ⟨b, hb, hid⟩ := hqueued
      exact hnew b hb hid
    · exact absurd hev.tooBig (not_lt.mpr hfits)
  have hreach : NodeReaches testLog KeepsUnique testRelay ns₂ :=
    .call (.call .start _ hkeeps₁ hs₁) _ hkeeps₂ hs₂
  exact ⟨ns₁, ns₂, hs₁, hs₂, hlen, queue_uniqueIds hreach⟩

/-- The frame of a bundle that the relay has generated, as a neighbour echoes it. -/
def echoFrame : List UInt8 :=
  wireFrame (generatedBundle testRelay nodeC .telemetry [] F32.zero)

/-- The bundle is queued, and no record says so: its echo is accepted beside it. -/
theorem echo_duplicates : ¬ ∀ ns, NodeReachable testLog testRelay ns → UniqueIds ns.queue := by
  intro h
  have hrun : (run (nodeStep testLog) testRelay
      [.generate nodeC .telemetry [] F32.zero, .receive 0 echoFrame 0]).any (fun ns =>
        decide (¬ (ns.queue.slots.map Bundle.bundleId).Nodup)) = true := by decide +kernel
  obtain ⟨ns, hns, htwice⟩ := (Option.any_eq_true _ _).mp hrun
  exact of_decide_eq_true htwice (h ns (reaches_of_run (fun _ _ => trivial) .start hns))

/-! ### The node's own ids -/

/-- The ids that `node_generate_bundle` gives out: the node in the upper half, the counter in
    the lower. -/
def ownId (self : NodeId) (counter : UInt64) : UInt64 := (self.toUInt64 <<< 32) ||| counter

/-- Half a word each, as long as the counter keeps to its half. -/
theorem toNat_ownId (self : NodeId) {counter : UInt64} (h : counter.toNat < 2 ^ 32) :
    (ownId self counter).toNat = self.toNat * 2 ^ 32 + counter.toNat := by
  have hself := self.toNat_lt
  unfold ownId
  simp only [UInt64.toNat_or, UInt64.toNat_shiftLeft, UInt32.toNat_toUInt64, Nat.shiftLeft_eq,
    UInt64.reduceToNat, Nat.reduceMod]
  rw [Nat.mod_eq_of_lt (by omega), ByteLayout.or_eq_add (k := 32) (by omega) h]

/-- Only generating a bundle moves the counter. -/
theorem nodeStep_counter {logf : ℚ → ℚ} {ns ns' : NodeState} {op : NodeOp}
    (h : nodeStep logf ns op = some ns') :
    (∃ dst cls msg t, op = .generate dst cls msg t ∧ ns'.counter = ns.counter + 1) ∨
      (∀ dst cls msg t, op ≠ .generate dst cls msg t) ∧ ns'.counter = ns.counter := by
  cases op with
  | generate dst cls msg t =>
    left
    refine ⟨dst, cls, msg, t, rfl, ?_⟩
    obtain ⟨_, heq⟩ := nodeGenerateBundle_frame ns dst cls msg t
    cases h
    rw [heq]
  | receive t frame rssi =>
    obtain ⟨rc, hres⟩ := eq_ok_of_toOption_map h
    obtain ⟨_, _, _, _, _, _, heq⟩ := (receiveStep_of_ok hres).frame
    dsimp only at heq
    rw [heq]
    exact Or.inr ⟨by simp, rfl⟩
  | tick t fuel sent =>
    obtain ⟨res, hres, rfl⟩ := Option.map_eq_some_iff.mp h
    refine Or.inr ⟨by simp, ?_⟩
    cases nodeTick_cases hres <;> rfl
  | sendTimeSync t sent =>
    obtain ⟨_, heq⟩ := nodeSendTimeSync_frame ns t sent
    cases h
    rw [heq]
    exact Or.inr ⟨by simp, rfl⟩
  | handleTimeSync localT frame =>
    obtain ⟨rc, hres⟩ := eq_ok_of_toOption_map h
    obtain ⟨_, _, _, heq⟩ := nodeTryHandleTimeSync_frame hres
    dsimp only at heq
    rw [heq]
    exact Or.inr ⟨by simp, rfl⟩

/-- Fewer than 2^32 bundles are generated, and what is accepted from frames has neither a
    queued id nor one that this node has yet to give out. -/
def BringsForeign (ns : NodeState) : NodeOp → Prop
  | .generate _ _ _ _ => ns.counter.toNat < 2 ^ 32
  | .receive t frame _ => IfAccepted ns t frame fun b =>
      (ns.queue.slots.length < nodeQueueMax → ¬ Queued ns.queue b.bundleId) ∧
        ∀ k : UInt64, ns.counter.toNat ≤ k.toNat → k.toNat < 2 ^ 32 →
          b.bundleId ≠ ownId ns.selfId k
  | .tick _ _ _ => True
  | .sendTimeSync _ _ => True
  | .handleTimeSync _ _ => True

/-- The ids still to be given out are not in the queue. -/
def FutureIdsFree (ns : NodeState) : Prop :=
  ∀ b ∈ ns.queue.slots, ∀ k : UInt64, ns.counter.toNat ≤ k.toNat → k.toNat < 2 ^ 32 →
    b.bundleId ≠ ownId ns.selfId k

theorem FutureIdsFree.step {logf : ℚ → ℚ} {ns ns' : NodeState} {op : NodeOp}
    (h : FutureIdsFree ns) (hbrings : BringsForeign ns op)
    (hs : nodeStep logf ns op = some ns') : FutureIdsFree ns' := by
  obtain ⟨hself, hstores⟩ := nodeStep_stores hs
  intro b hb k hk hk32
  rw [hself]
  rcases nodeStep_counter hs with ⟨dst, cls, msg, t, rfl, hcount⟩ | ⟨hop, hcount⟩
  · have hbound : ns.counter.toNat < 2 ^ 32 := hbrings
    rw [hcount, UInt64.toNat_add, UInt64.toNat_one, Nat.mod_eq_of_lt (by omega)] at hk
    rcases hstores.mem_queue hb with hold | hnew
    · exact h b hold k (by omega) hk32
    · -- the id just given out is below the counter now
      cases hnew
      intro heq
      have hnat := congrArg UInt64.toNat heq
      change (ownId ns.selfId ns.counter).toNat = _ at hnat
      rw [toNat_ownId _ hbound, toNat_ownId _ hk32] at hnat
      omega
  · rw [hcount] at hk
    rcases hstores.mem_queue hb with hold | hnew
    · exact h b hold k hk hk32
    · cases hnew with
      | generated dst cls msg t => exact absurd rfl (hop dst cls msg t)
      | accepted t frame rssi b hdec haway hacc =>
        obtain ⟨cust, heq⟩ := frameTransfer_bundle ns b t
        rw [heq]
        exact (hbrings b hdec haway hacc).2 k hk hk32

/-- A node that has ids left gives out new ones. -/
theorem FutureIdsFree.keepsUnique {ns : NodeState} {op : NodeOp} (h : FutureIdsFree ns)
    (hbrings : BringsForeign ns op) : KeepsUnique ns op := by
  cases op with
  | generate dst cls msg t =>
    have hnew : ¬ Queued ns.queue (ownId ns.selfId ns.counter) := by
      intro hqueued
      obtain ⟨b, hb, hid⟩ := hqueued
      exact h b hb ns.counter le_rfl hbrings hid
    refine ⟨fun _ _ => hnew, fun i v hev _ hqueued => ?_⟩
    exact hnew ((hev.queued_iff _).mpr (Or.inr hqueued))
  | receive t frame rssi => exact fun b hdec haway hacc => (hbrings b hdec haway hacc).1
  | tick | sendTimeSync | handleTimeSync => trivial

/-- **It takes a frame to break it**: the ids a node gives out are distinct, so with fewer than
    2^32 of them only an accepted frame can bring in an id for the second time. -/
theorem queue_uniqueIds_of_foreign {logf : ℚ → ℚ} {self : NodeId} {bufCap : ℚ}
    {policy : Option String} {plan : ContactPlan} {ns : NodeState}
    (h : NodeReaches logf BringsForeign (nodeStart self bufCap policy plan) ns) :
    UniqueIds ns.queue := by
  have hinv : FutureIdsFree ns ∧ UniqueIds ns.queue := by
    refine h.invariant (P := fun ns => FutureIdsFree ns ∧ UniqueIds ns.queue) ?_ ?_
    · refine ⟨fun b hb => ?_, List.nodup_nil⟩
      exact absurd hb List.not_mem_nil
    · intro ns op ns' _ hbrings hs hP
      obtain ⟨hfree, hunique⟩ := hP
      -- the free ids are what makes the generated one new
      exact ⟨hfree.step hbrings hs,
        (uniqueIds_step_iff hs hunique).mpr (hfree.keepsUnique hbrings)⟩
  exact hinv.2

/-! ## Priorities and classes -/

/-- A priority that `bundle.h` allows, and one of its four classes. -/
structure InRange (b : Bundle) : Prop where
  prio_ge : bundlePrioMin ≤ (b.prio.toNat : Int)
  prio_le : (b.prio.toNat : Int) ≤ bundlePrioMax
  bundleClass : ∃ cls : BundleClass, b.bundleClass = cls.code

/-- The score is in `[0,1]`, as `bundle.h` says. -/
theorem InRange.score {b : Bundle} (h : InRange b) :
    0 ≤ bundlePriorityScore b ∧ bundlePriorityScore b ≤ 1 := by
  have hle : (b.prio.toNat : Int) ≤ 3 := h.prio_le
  have hprio : (b.prio.toNat : ℚ) ≤ 3 := by exact_mod_cast hle
  rw [bundlePriorityScore_eq]
  refine ⟨by positivity, ?_⟩
  linarith

/-- The cast to `int8_t` leaves a class what it is. -/
theorem classRank_of_class {b : Bundle} {cls : BundleClass} (h : b.bundleClass = cls.code) :
    classRank b = cls.code.toNat := by
  unfold classRank
  rw [h]
  cases cls <;> rfl

/-- What a frame brings into a free slot is in range. -/
def BringsInRange (ns : NodeState) : NodeOp → Prop
  | .generate _ _ _ _ => True
  | .receive t frame _ => IfAccepted ns t frame fun b =>
      ns.queue.slots.length < nodeQueueMax → InRange b
  | .tick _ _ _ => True
  | .sendTimeSync _ _ => True
  | .handleTimeSync _ _ => True

theorem inRange_generated (ns : NodeState) (dst : NodeId) (cls : BundleClass)
    (msg : List UInt8) (t : F32) : InRange (generatedBundle ns dst cls msg t) := by
  refine ⟨?_, ?_, cls, rfl⟩
  · show bundlePrioMin ≤ (cls.code.toUInt8.toNat : Int)
    cases cls <;> decide
  · show (cls.code.toUInt8.toNat : Int) ≤ bundlePrioMax
    cases cls <;> decide

theorem inRange_accepted_iff {ns : NodeState} {b : Bundle} {t : ℚ}
    (hacc : acceptsFrame ns b t = true) (h : ∀ x ∈ ns.queue.slots, InRange x) :
    (∀ x ∈ (queueEnqueue ns.queue (frameTransfer ns b t).2.2).2.slots, InRange x) ↔
      (ns.queue.slots.length < nodeQueueMax → InRange b) := by
  have hfits : b.bytes ≤ queueFree ns.queue := acceptsFrame_fits hacc
  obtain ⟨cust, heq⟩ := frameTransfer_bundle ns b t
  have hsame : Bundle.bytes { b with curr := ns.selfId, cust } = b.bytes := rfl
  rw [heq]
  by_cases hroom : ns.queue.slots.length < nodeQueueMax
  · rw [queueEnqueue_of_fits hroom (hsame.trans_le hfits)]
    constructor
    · intro hall _
      have hnew := hall _ (List.mem_append_right _ List.mem_cons_self)
      exact ⟨hnew.prio_ge, hnew.prio_le, hnew.bundleClass⟩
    · intro hnew x hx
      rcases List.mem_append.mp hx with hx | hx
      · exact h x hx
      · rw [List.mem_singleton.mp hx]
        exact ⟨(hnew hroom).prio_ge, (hnew hroom).prio_le, (hnew hroom).bundleClass⟩
  · rw [queueEnqueue_of_full _ (not_lt.mp hroom)]
    exact iff_of_true h fun hroom' => absurd hroom' hroom

/-- **The condition is exact**, call by call. -/
theorem StoreStep.inRange_iff {logf : ℚ → ℚ} {ns : NodeState} {op : NodeOp}
    {q' : NodeQueue} {cm' : CustodyManager} (h : StoreStep logf ns op q' cm')
    (hall : ∀ b ∈ ns.queue.slots, InRange b) :
    (∀ b ∈ q'.slots, InRange b) ↔ BringsInRange ns op := by
  cases h with
  | generated dst cls msg t =>
    refine iff_of_true (fun b hb => ?_) trivial
    rcases (queueEnqueue_cases _ _).mem hb with hold | rfl
    · exact hall b hold
    · exact inRange_generated ns dst cls msg t
  | badFrame t frame rssi hdec =>
    exact iff_of_true hall (ifAccepted_of_badFrame hdec ns t _)
  | delivered t frame rssi b hdec hhere =>
    exact iff_of_true hall (ifAccepted_of_here hdec hhere t _)
  | accepted t frame rssi b hdec haway hacc =>
    rw [inRange_accepted_iff hacc hall, BringsInRange, ifAccepted_iff hdec]
    exact ⟨fun hnew _ _ => hnew, fun hbrings => hbrings haway hacc⟩
  | rejected t frame rssi b hdec haway hrej =>
    exact iff_of_true hall (ifAccepted_of_rejects hdec hrej _)
  | idle | sentTimeSync | handledTimeSync => exact iff_of_true hall trivial
  | expired t fuel sent b q' hpop =>
    refine iff_of_true (fun x hx => ?_) trivial
    exact hall x (mem_of_pop hpop (Or.inr hx))
  | requeued t fuel sent b q' hpop =>
    refine iff_of_true (fun x hx => ?_) trivial
    exact hall x (mem_of_pop hpop ((queueEnqueue_cases _ _).mem hx).symm)
  | transmitted t fuel sent b q' hsends =>
    refine iff_of_true (fun x hx => ?_) trivial
    exact hall x (mem_of_pop hsends.pop (Or.inr hx))

section
variable {logf : ℚ → ℚ} {ok : NodeState → NodeOp → Prop} {self : NodeId} {bufCap : ℚ}
  {policy : Option String} {plan : ContactPlan} {ns : NodeState}

theorem inRange_step_iff {op : NodeOp} {ns' : NodeState} (h : nodeStep logf ns op = some ns')
    (hall : ∀ b ∈ ns.queue.slots, InRange b) :
    (∀ b ∈ ns'.queue.slots, InRange b) ↔ BringsInRange ns op :=
  (nodeStep_stores h).2.inRange_iff hall

/-- **Every queued bundle is in range**, its score is in `[0,1]` and its class compares as what
    it is, in every run whose frames bring in nothing else. -/
theorem queue_inRange
    (h : NodeReaches logf BringsInRange (nodeStart self bufCap policy plan) ns) (b : Bundle)
    (hb : b ∈ ns.queue.slots) :
    InRange b ∧ 0 ≤ bundlePriorityScore b ∧ bundlePriorityScore b ≤ 1 ∧
      ∃ cls : BundleClass, b.bundleClass = cls.code ∧ classRank b = cls.code.toNat := by
  have hall : ∀ b ∈ ns.queue.slots, InRange b := by
    refine h.invariant (P := fun ns => ∀ b ∈ ns.queue.slots, InRange b) ?_ ?_
    · intro b hb
      exact absurd hb List.not_mem_nil
    · intro ns op ns' _ hbrings hs hall
      exact (inRange_step_iff hs hall).mpr hbrings
  have hrange := hall b hb
  obtain ⟨cls, hcls⟩ := hrange.bundleClass
  exact ⟨hrange, hrange.score.1, hrange.score.2, cls, hcls, classRank_of_class hcls⟩

end

/-- The test frame is in range: the relay queues it, and it scores 0. -/
theorem queue_inRange_testRelay : ∃ ns,
    nodeStep testLog testRelay (.receive 0 testFrame 0) = some ns ∧ ∃ b ∈ ns.queue.slots,
      InRange b ∧ 0 ≤ bundlePriorityScore b ∧ bundlePriorityScore b ≤ 1 := by
  have hrun : (nodeStep testLog testRelay (.receive 0 testFrame 0)).any (fun ns =>
      decide (ns.queue.slots ≠ [])) = true := by decide +kernel
  obtain ⟨ns, hns, hne⟩ := (Option.any_eq_true _ _).mp hrun
  obtain ⟨b, hb⟩ := List.exists_mem_of_ne_nil _ (of_decide_eq_true hne)
  have hbrings : BringsInRange testRelay (.receive 0 testFrame 0) := by
    refine (ifAccepted_iff bundleDeserialize_testFrame).mpr fun _ _ _ => ?_
    exact ⟨by decide, by decide, .housekeeping, rfl⟩
  have hreach : NodeReaches testLog BringsInRange testRelay ns := .call .start _ hbrings hns
  obtain ⟨hrange, h0, h1, _⟩ := queue_inRange hreach b hb
  exact ⟨ns, hns, b, hb, hrange, h0, h1⟩

/-- A frame with priority 200 and class 200, and a valid checksum. -/
def wildFrame : List UInt8 :=
  wireFrame { testBundle nodeC with prio := 200, bundleClass := 200 }

/-- The relay queues it. -/
theorem wildFrame_outOfRange :
    ¬ ∀ ns, NodeReachable testLog testRelay ns → ∀ b ∈ ns.queue.slots, InRange b := by
  intro h
  have hrun : (nodeStep testLog testRelay (.receive 0 wildFrame 0)).any (fun ns =>
      decide (∃ b ∈ ns.queue.slots, b.prio = 200)) = true := by decide +kernel
  obtain ⟨ns, hns, hwild⟩ := (Option.any_eq_true _ _).mp hrun
  obtain ⟨b, hb, hprio⟩ := of_decide_eq_true hwild
  have hle := (h ns (.call .start _ trivial hns) b hb).prio_le
  rw [hprio] at hle
  exact absurd hle (by decide)

end DtnHardware
