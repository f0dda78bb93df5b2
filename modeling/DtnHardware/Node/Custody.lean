import DtnHardware.Node.Stores
import DtnHardware.Cgr.Soundness

/-!
# Custody and the queue

Two things the node is supposed to guarantee about its stores, and the exact conditions
under which it does.

* Acceptance is all or nothing: a frame is taken into both stores, or into neither and
  nothing is reported. It is so unless the frame is accepted while one of the two tables
  is full (`allOrNothing_iff`): acceptance looks at bytes only.
* A record that times out is of a bundle still in the queue, so that the bundle can be
  routed again. Three calls can break this, and `KeepsHeld` excludes exactly them
  (`heldQueued_step_iff`): a transmission under custody, an acceptance into a full queue,
  and an eviction.
-/

set_option autoImplicit false

namespace DtnHardware

open GuardedCalls

/-! ## Acceptance -/

/-- The bundle once this node carries it: `curr` and `cust` are the node. -/
def NodeState.adopt (ns : NodeState) (b : Bundle) : Bundle :=
  { b with curr := ns.selfId, cust := ns.selfId }

/-- Custody was taken: the record is there, and the bundle went to the end of the queue. -/
structure TookCustody (ns : NodeState) (t : ℚ) (b : Bundle) (ns' : NodeState) : Prop where
  record : CustodyRecord.mk b.bundleId ns.selfId t (t + ns.custody.defaultTimeout) ∈
    ns'.custody.records
  queued : ns'.queue = { ns.queue with slots := ns.queue.slots ++ [ns.adopt b] }

/-- Both stores or neither, and an event that reports acceptance only with both. -/
structure AllOrNothing (ns : NodeState) (t : ℚ) (b : Bundle) (ns' : NodeState) : Prop where
  stores : TookCustody ns t b ns' ∨ ns'.queue = ns.queue ∧ ns'.custody = ns.custody
  reported : ∀ e ∈ ns'.trace.drop ns.trace.length,
    e.event = .custodyAccepted ∨ e.event = .bundleQueued → TookCustody ns t b ns'

/-- What acceptance means: the bytes fit, and no record has the id. -/
theorem acceptsFrame_spec {ns : NodeState} {b : Bundle} {t : ℚ}
    (hok : CustodyOk ns.selfId ns.custody) (h : acceptsFrame ns b t = true) :
    b.bytes ≤ queueFree ns.queue ∧ ∀ r ∈ ns.custody.records, r.bundleId ≠ b.bundleId := by
  refine ⟨acceptsFrame_fits h, fun r hr heq => ?_⟩
  have hany : ns.custody.records.any
      (fun r => decide (r.bundleId = b.bundleId ∧ r.custodian = ns.selfId)) = true :=
    List.any_eq_true.mpr ⟨r, hr, decide_eq_true ⟨heq, hok.own r hr⟩⟩
  unfold acceptsFrame custodyCanAccept at h
  split at h
  · cases h
  split at h
  · cases h
  split at h
  · cases h
  rw [hany] at h
  cases h

/-- The transfer of an accepted bundle, which has no record yet. -/
theorem frameTransfer_of_accepts {ns : NodeState} {b : Bundle} {t : ℚ}
    (hok : CustodyOk ns.selfId ns.custody) (h : acceptsFrame ns b t = true) :
    frameTransfer ns b t =
      if ns.custody.records.length < custodyMaxRecords then
        (some (custodyRecordOf ns.custody { b with curr := ns.selfId } t),
          { ns.custody with records := ns.custody.records ++
              [custodyRecordOf ns.custody { b with curr := ns.selfId } t] },
          ns.adopt b)
      else (none, ns.custody, { b with curr := ns.selfId }) :=
  custodyTransfer_of_fresh (b := { b with curr := ns.selfId }) (acceptsFrame_spec hok h).2 _ t

/-- A refusal touches neither store and says so. -/
theorem allOrNothing_of_dropped (ns : NodeState) (t : ℚ) (b : Bundle) (rssi : Int32)
    (fmt : String) (args : List TraceArg) :
    AllOrNothing ns t b ((ns.heard rssi).emit (.fin t) .bundleDropped b.bundleId fmt args) := by
  refine ⟨Or.inr ⟨rfl, rfl⟩, fun e he hreport => ?_⟩
  have hdropped : e.event = .bundleDropped := by
    change e ∈ (ns.trace ++ [_]).drop ns.trace.length at he
    rw [List.drop_left, List.mem_singleton] at he
    rw [he]
  rw [hdropped] at hreport
  rcases hreport with h | h <;> cases h

/-- An acceptance is reported whatever the stores did, so it has to be one. -/
theorem allOrNothing_taking_iff (ns : NodeState) (t : ℚ) (b : Bundle) (rssi : Int32) :
    AllOrNothing ns t b ((ns.heard rssi).taking t b) ↔
      TookCustody ns t b ((ns.heard rssi).taking t b) := by
  obtain ⟨accepted, queued, htrace, haccepted, _⟩ := (ns.heard rssi).trace_taking t b
  refine ⟨fun h => h.reported accepted ?_ (Or.inl haccepted), fun h => ⟨Or.inl h, ?_⟩⟩
  · have hheard : (ns.heard rssi).trace = ns.trace := rfl
    rw [htrace, hheard, List.drop_left]
    exact List.mem_cons_self
  · exact fun _ _ _ => h

/-- The two stores take an accepted bundle exactly when each has a place for it. -/
theorem tookCustody_taking_iff {ns : NodeState} (hok : CustodyOk ns.selfId ns.custody) {t : ℚ}
    {b : Bundle} (hacc : acceptsFrame ns b t = true) (rssi : Int32) :
    TookCustody ns t b ((ns.heard rssi).taking t b) ↔
      ns.custody.records.length < custodyMaxRecords ∧ ns.queue.slots.length < nodeQueueMax := by
  obtain ⟨hbytes, hfresh⟩ := acceptsFrame_spec hok hacc
  have htransfer := frameTransfer_of_accepts hok hacc
  have hq : ((ns.heard rssi).taking t b).queue
      = (queueEnqueue ns.queue (frameTransfer ns b t).2.2).2 := rfl
  have hc : ((ns.heard rssi).taking t b).custody = (frameTransfer ns b t).2.1 := rfl
  constructor
  · intro h
    constructor
    · by_contra hfull
      have hrecord := h.record
      rw [hc, htransfer, if_neg hfull] at hrecord
      exact hfresh _ hrecord rfl
    · by_contra hfull
      have hlen := congrArg (fun q : NodeQueue => q.slots.length) h.queued
      rw [hq, queueEnqueue_of_full _ (not_lt.mp hfull)] at hlen
      simp at hlen
  · intro h
    obtain ⟨hrecs, hslots⟩ := h
    rw [htransfer, if_pos hrecs] at hq hc
    refine ⟨?_, ?_⟩
    · rw [hc]
      exact List.mem_append_right _ (List.mem_singleton.mpr rfl)
    · rw [hq, queueEnqueue_of_fits hslots (show (ns.adopt b).bytes ≤ _ from hbytes)]

/-- **All or nothing, exactly when** an accepted frame finds a free record and a free
    slot. -/
theorem allOrNothing_iff {ns : NodeState} (hok : CustodyOk ns.selfId ns.custody) {t : ℚ}
    {frame : List UInt8} (rssi : Int32) {b : Bundle}
    (hdec : bundleDeserialize frame = .ok (some b)) (haway : b.dst ≠ ns.selfId) :
    ∃ ns', nodeHandleReceivedFrame ns t frame rssi = .ok (0, ns') ∧
      (AllOrNothing ns t b ns' ↔ (acceptsFrame ns b t = true →
        ns.custody.records.length < custodyMaxRecords ∧
          ns.queue.slots.length < nodeQueueMax)) := by
  obtain ⟨res, heq, hstep⟩ := nodeHandleReceivedFrame_cases ns t frame rssi
  cases hstep with
  | badFrame hnone =>
    rw [hdec] at hnone
    cases hnone
  | delivered b' hdec' hhere =>
    rw [hdec] at hdec'
    cases hdec'
    exact absurd hhere haway
  | rejected b' hdec' _ hrej =>
    rw [hdec] at hdec'
    cases hdec'
    refine ⟨_, heq, iff_of_true (allOrNothing_of_dropped ns t b rssi _ _) fun hacc => ?_⟩
    rw [hrej] at hacc
    cases hacc
  | accepted b' hdec' _ hacc =>
    rw [hdec] at hdec'
    cases hdec'
    refine ⟨_, heq, ?_⟩
    -- `custody_can_accept` has looked at the bytes and the ids, at neither length
    rw [allOrNothing_taking_iff, tookCustody_taking_iff hok hacc]
    exact ⟨fun h _ => h, fun h => h hacc⟩

/-- **In every reachable state** a frame for another node is taken in whole or not at all,
    exactly when it is refused or both tables have a free place. -/
theorem nodeHandleReceivedFrame_allOrNothing_iff {logf : ℚ → ℚ} {self : NodeId} {bufCap : ℚ}
    {policy : Option String} {plan : ContactPlan} {ns : NodeState}
    (h : NodeReachable logf (nodeStart self bufCap policy plan) ns)
    (t : ℚ) (frame : List UInt8) (rssi : Int32) (b : Bundle)
    (hdec : bundleDeserialize frame = .ok (some b)) (haway : b.dst ≠ ns.selfId) :
    ∃ ns', nodeHandleReceivedFrame ns t frame rssi = .ok (0, ns') ∧
      (AllOrNothing ns t b ns' ↔ (acceptsFrame ns b t = true →
        ns.custody.records.length < custodyMaxRecords ∧
          ns.queue.slots.length < nodeQueueMax)) :=
  allOrNothing_iff h.custodyOk rssi hdec haway

/-- The frame of the test bundle for `CCCC`, as a relay receives it. -/
def testFrame : List UInt8 := (bundleSerialize (testBundle nodeC) txFrameCap).getD []

/-- The size on the wire replaces the sender's. -/
def testReceived : Bundle := { testBundle nodeC with size := 45, status := .queued }

theorem bundleDeserialize_testFrame : bundleDeserialize testFrame = .ok (some testReceived) := by
  decide +kernel

/-- The relay `BBBB` with 10000 bytes of buffer and a link to `CCCC`. -/
def testRelay : NodeState :=
  nodeStart nodeB 10000 (some "accept") (.ofList [testLink nodeB nodeC 0 60])

theorem nodeHandleReceivedFrame_allOrNothing_testRelay :
    ∃ ns', nodeHandleReceivedFrame testRelay 0 testFrame 0 = .ok (0, ns') ∧
      AllOrNothing testRelay 0 testReceived ns' := by
  have hreach : NodeReachable testLog testRelay testRelay := .start
  obtain ⟨ns', heq, hiff⟩ := nodeHandleReceivedFrame_allOrNothing_iff hreach 0 testFrame 0
    testReceived bundleDeserialize_testFrame (by decide)
  exact ⟨ns', heq, hiff.mpr fun _ => by decide⟩

/-- Sixteen generated bundles fill the slots but not the bytes: the next frame is accepted,
    gets its record and its two events, and is not in the queue. -/
theorem fullQueue_not_allOrNothing :
    ∃ ns ns', NodeReachable testLog testRelay ns ∧ testReceived.dst ≠ ns.selfId ∧
      bundleDeserialize testFrame = .ok (some testReceived) ∧
      nodeHandleReceivedFrame ns 0 testFrame 0 = .ok (0, ns') ∧
      ¬ AllOrNothing ns 0 testReceived ns' := by
  have hrun : (run (nodeStep testLog) testRelay
      (List.replicate 16 (.generate nodeC .telemetry [] F32.zero))).any (fun ns =>
        decide (acceptsFrame ns testReceived 0 = true ∧ ns.queue.slots.length = 16 ∧
          testReceived.dst ≠ ns.selfId)) = true := by decide +kernel
  obtain ⟨ns, hns, hfull⟩ := (Option.any_eq_true _ _).mp hrun
  obtain ⟨hacc, hlen, haway⟩ := of_decide_eq_true hfull
  have hreach : NodeReachable testLog testRelay ns := reaches_of_run (fun _ _ => trivial) .start hns
  obtain ⟨ns', heq, hiff⟩ :=
    allOrNothing_iff hreach.custodyOk 0 (t := 0) bundleDeserialize_testFrame haway
  refine ⟨ns, ns', hreach, haway, bundleDeserialize_testFrame, heq, fun hall => ?_⟩
  have hroom := (hiff.mp hall hacc).2
  rw [hlen] at hroom
  exact absurd hroom (by decide)

/-! ## Retention -/

/-- A queued bundle has the id. -/
def Queued (q : NodeQueue) (bundleId : UInt64) : Prop := ∃ b ∈ q.slots, b.bundleId = bundleId

/-- Every bundle under custody is in the queue. -/
def HeldQueued (ns : NodeState) : Prop :=
  ∀ r ∈ ns.custody.records, Queued ns.queue r.bundleId

/-- Putting `b` into `q` evicts `v` from slot `i`. -/
structure Evicts (q : NodeQueue) (b : Bundle) (i : Nat) (v : Bundle) : Prop where
  room : q.slots.length < nodeQueueMax
  tooBig : queueFree q < b.bytes
  pressure : queueFree q ≤ preemptionThresholdFraction * q.bufCap
  victim : findLowestClassVictim q b = some i
  get : q.slots[i]? = some v

/-- The queue without slot `i`. -/
def NodeQueue.without (q : NodeQueue) (i : Nat) : NodeQueue :=
  { q with slots := ArrayLoops.swapRemove q.slots i }

/-- The call takes no bundle under custody out of the queue, and puts none under custody
    that it does not queue; unless another bundle with the id stays. -/
def KeepsHeld (logf : ℚ → ℚ) (ns : NodeState) : NodeOp → Prop
  | .generate dst cls msg t =>
      let b := generatedBundle ns dst cls msg t
      ∀ i v, Evicts ns.queue b i v → (∃ r ∈ ns.custody.records, r.bundleId = v.bundleId) →
        Queued (ns.queue.without i) v.bundleId ∨
          b.bundleId = v.bundleId ∧ b.bytes ≤ queueFree (ns.queue.without i)
  | .receive t frame _ =>
      ∀ b, bundleDeserialize frame = .ok (some b) → b.dst ≠ ns.selfId →
        acceptsFrame ns b t = true → ns.custody.records.length < custodyMaxRecords →
        ns.queue.slots.length < nodeQueueMax ∨ Queued ns.queue b.bundleId
  | .tick t fuel sent =>
      ∀ b q', Transmits logf ns t fuel sent b q' →
        (∃ r ∈ ns.custody.records, r.bundleId = b.bundleId ∧ t < r.timeout) →
        Queued q' b.bundleId
  | .sendTimeSync _ _ => True
  | .handleTimeSync _ _ => True

/-! ### Following an id through the queue -/

/-- Taking a bundle out of the queue, or putting one in, by what is permuted. -/
theorem queued_of_perm {q q' : NodeQueue} {b : Bundle} {bundleId : UInt64}
    (h : q.slots.Perm (b :: q'.slots)) :
    Queued q bundleId ↔ b.bundleId = bundleId ∨ Queued q' bundleId := by
  unfold Queued
  simp only [h.mem_iff, List.mem_cons, exists_eq_or_imp]

theorem queued_append (q : NodeQueue) (b : Bundle) (bundleId : UInt64) :
    Queued { q with slots := q.slots ++ [b] } bundleId ↔
      b.bundleId = bundleId ∨ Queued q bundleId :=
  queued_of_perm (List.perm_append_singleton b q.slots)

theorem Evicts.queued_iff {q : NodeQueue} {b v : Bundle} {i : Nat} (h : Evicts q b i v)
    (bundleId : UInt64) :
    Queued q bundleId ↔ v.bundleId = bundleId ∨ Queued (q.without i) bundleId :=
  queued_of_perm (ArrayLoops.perm_swapRemove h.get)

/-- The queue after an eviction: without the victim, and with `b` if it fits now. -/
theorem Evicts.queued_enqueue {q : NodeQueue} {b v : Bundle} {i : Nat} (h : Evicts q b i v)
    (bundleId : UInt64) :
    Queued (queueEnqueue q b).2 bundleId ↔ Queued (q.without i) bundleId ∨
      b.bundleId = bundleId ∧ b.bytes ≤ queueFree (q.without i) := by
  have heq : (queueEnqueue q b).2 = if queueFree (q.without i) < b.bytes then q.without i
      else { q.without i with slots := (q.without i).slots ++ [b] } := by
    unfold queueEnqueue queueCanAccept NodeQueue.without
    rw [if_neg (not_le.mpr h.room), if_neg (by simpa using h.tooBig),
      if_neg (not_lt.mpr h.pressure), h.victim]
    dsimp only
    split <;> rfl
  rw [heq]
  split
  · rename_i hstill
    exact ⟨Or.inl, fun h => h.resolve_right fun hb => absurd hb.2 (not_le.mpr hstill)⟩
  · rename_i hnow
    rw [queued_append, or_comm, and_iff_left (not_lt.mp hnow)]

/-- Without an eviction an enqueue loses nothing. -/
theorem queued_enqueue_of_not_evicts {q : NodeQueue} {b : Bundle} {bundleId : UInt64}
    (hnot : ∀ i v, ¬ Evicts q b i v) (h : Queued q bundleId) :
    Queued (queueEnqueue q b).2 bundleId := by
  have hcases := queueEnqueue_cases q b
  generalize queueEnqueue q b = res at hcases ⊢
  obtain ⟨rc, q'⟩ := res
  dsimp only at hcases ⊢
  cases hcases with
  | full _ | noPressure _ _ _ | noVictim _ _ _ _ => exact h
  | fits _ _ => exact (queued_append q b bundleId).mpr (Or.inr h)
  | evictedInVain i v room tooBig pressure victim get _ =>
    exact absurd ⟨room, tooBig, pressure, victim, get⟩ (hnot i v)
  | preempted i v room tooBig pressure victim get _ =>
    exact absurd ⟨room, tooBig, pressure, victim, get⟩ (hnot i v)

/-! ### The three calls that can lose a bundle -/

section
variable {logf : ℚ → ℚ} {ns : NodeState} (hc : CustodyOk ns.selfId ns.custody)
  (hheld : HeldQueued ns)
include hheld

theorem heldQueued_generated_iff (dst : NodeId) (cls : BundleClass) (msg : List UInt8)
    (t : F32) :
    (∀ r ∈ ns.custody.records,
        Queued (queueEnqueue ns.queue (generatedBundle ns dst cls msg t)).2 r.bundleId) ↔
      KeepsHeld logf ns (.generate dst cls msg t) := by
  constructor
  · rintro hall i v hev ⟨r, hr, hid⟩
    rw [← hid]
    exact (hev.queued_enqueue r.bundleId).mp (hall r hr)
  · intro hkeeps r hr
    by_cases hev : ∃ i v, Evicts ns.queue (generatedBundle ns dst cls msg t) i v
    · obtain ⟨i, v, hev⟩ := hev
      rw [hev.queued_enqueue]
      rcases (hev.queued_iff r.bundleId).mp (hheld r hr) with hid | hstays
      · have := hkeeps i v hev ⟨r, hr, hid.symm⟩
        rwa [hid] at this
      · exact Or.inl hstays
    · exact queued_enqueue_of_not_evicts (fun i v h => hev ⟨i, v, h⟩) (hheld r hr)

include hc

theorem heldQueued_accepted_iff {t : ℚ} {frame : List UInt8} {rssi : Int32} {b : Bundle}
    (hdec : bundleDeserialize frame = .ok (some b)) (haway : b.dst ≠ ns.selfId)
    (hacc : acceptsFrame ns b t = true) :
    (∀ r ∈ (frameTransfer ns b t).2.1.records,
        Queued (queueEnqueue ns.queue (frameTransfer ns b t).2.2).2 r.bundleId) ↔
      KeepsHeld logf ns (.receive t frame rssi) := by
  have hkeeps : KeepsHeld logf ns (.receive t frame rssi) ↔
      (ns.custody.records.length < custodyMaxRecords →
        ns.queue.slots.length < nodeQueueMax ∨ Queued ns.queue b.bundleId) := by
    refine (ifAccepted_iff hdec).trans ?_
    exact ⟨fun h => h haway hacc, fun h _ _ => h⟩
  have hbytes := acceptsFrame_fits hacc
  rw [hkeeps, frameTransfer_of_accepts hc hacc]
  by_cases hrecs : ns.custody.records.length < custodyMaxRecords
  · rw [if_pos hrecs]
    dsimp only
    by_cases hslots : ns.queue.slots.length < nodeQueueMax
    · refine iff_of_true (fun r hr => ?_) fun _ => Or.inl hslots
      rw [queueEnqueue_of_fits hslots (show (ns.adopt b).bytes ≤ _ from hbytes), queued_append]
      rcases List.mem_append.mp hr with hr | hr
      · exact Or.inr (hheld r hr)
      · rw [List.mem_singleton.mp hr]
        exact Or.inl rfl
    · rw [queueEnqueue_of_full _ (not_lt.mp hslots)]
      constructor
      · exact fun h _ => Or.inr (h _ (List.mem_append_right _ (List.mem_singleton.mpr rfl)))
      · intro h r hr
        rcases List.mem_append.mp hr with hr | hr
        · exact hheld r hr
        · rw [List.mem_singleton.mp hr]
          exact (h hrecs).resolve_left hslots
  · rw [if_neg hrecs]
    refine iff_of_true (fun r hr => ?_) fun h => absurd h hrecs
    refine queued_enqueue_of_not_evicts (fun i v hev => ?_) (hheld r hr)
    exact absurd hev.tooBig (not_lt.mpr hbytes)

theorem heldQueued_transmitted_iff {t : ℚ} {fuel : Nat} {sent : Int} {b : Bundle}
    {q' : NodeQueue} (hsends : Transmits logf ns t fuel sent b q') :
    (∀ r ∈ (ns.sweep t).custody.records, Queued q' r.bundleId) ↔
      KeepsHeld logf ns (.tick t fuel sent) := by
  constructor
  · rintro hall b₂ q₂ hsends₂ ⟨r, hr, hid, htime⟩
    have heq := hsends.pop.symm.trans hsends₂.pop
    cases heq
    rw [← hid]
    exact hall r ((ns.mem_sweep hc).mpr ⟨hr, htime⟩)
  · intro hkeeps r hr
    obtain ⟨hr, htime⟩ := (ns.mem_sweep hc).mp hr
    rcases (queued_of_perm (queuePopNext_perm hsends.pop)).mp (hheld r hr) with hid | hstays
    · have := hkeeps b q' hsends ⟨r, hr, hid.symm, htime⟩
      rwa [hid] at this
    · exact hstays

end

/-! ### One call, and a run -/

/-- **What a call must not do**, in both directions. -/
theorem StoreStep.heldQueued_iff {logf : ℚ → ℚ} {ns : NodeState} {op : NodeOp}
    {q' : NodeQueue} {cm' : CustodyManager} (h : StoreStep logf ns op q' cm')
    (hc : CustodyOk ns.selfId ns.custody) (hq : QueueOk ns.queue) (hheld : HeldQueued ns) :
    (∀ r ∈ cm'.records, Queued q' r.bundleId) ↔ KeepsHeld logf ns op := by
  cases h with
  | generated dst cls msg t => exact heldQueued_generated_iff hheld dst cls msg t
  | badFrame t frame rssi hdec =>
    exact iff_of_true hheld (ifAccepted_of_badFrame hdec ns t _)
  | delivered t frame rssi b hdec hhere =>
    apply iff_of_true (fun r hr => hheld r ((mem_custodyRelease hc.nodup).mp hr).1)
    exact ifAccepted_of_here hdec hhere t _
  | accepted t frame rssi b hdec haway hacc =>
    exact heldQueued_accepted_iff hc hheld hdec haway hacc
  | rejected t frame rssi b hdec haway hrej =>
    exact iff_of_true hheld (ifAccepted_of_rejects hdec hrej _)
  | idle t fuel sent hpop =>
    apply iff_of_true (fun r hr => hheld r ((ns.mem_sweep hc).mp hr).1)
    intro b q' hsends
    have := hpop.symm.trans hsends.pop
    cases this
  | expired t fuel sent b q' hpop hdead =>
    refine iff_of_true (fun r hr => ?_) ?_
    · obtain ⟨hr, hne⟩ := (mem_custodyRelease (ns.sweep_perm hc t).1.nodup).mp hr
      have := hheld r ((ns.mem_sweep hc).mp hr).1
      exact ((queued_of_perm (queuePopNext_perm hpop)).mp this).resolve_left hne.symm
    · intro b₂ q₂ hsends
      have heq := hpop.symm.trans hsends.pop
      cases heq
      have := hdead.symm.trans hsends.alive
      cases this
  | requeued t fuel sent b q' hpop hstays =>
    refine iff_of_true (fun r hr => ?_) ?_
    · rw [queueEnqueue_of_pop hq hpop, queued_append,
        ← queued_of_perm (queuePopNext_perm hpop)]
      exact hheld r ((ns.mem_sweep hc).mp hr).1
    · intro b₂ q₂ hsends
      have heq := hpop.symm.trans hsends.pop
      cases heq
      exact absurd hsends hstays
  | transmitted t fuel sent b q' hsends => exact heldQueued_transmitted_iff hc hheld hsends
  | sentTimeSync | handledTimeSync => exact iff_of_true hheld trivial

/-- What timeouts can find is what the table holds: every record is due at some time. -/
theorem heldQueued_iff_timedOut {ns : NodeState} (hc : CustodyOk ns.selfId ns.custody) :
    HeldQueued ns ↔ ∀ t, ∀ r ∈ ns.timedOut t, Queued ns.queue r.bundleId := by
  constructor
  · exact fun h t r hr => h r ((ns.mem_timedOut hc).mp hr).1
  · exact fun h r hr => h r.timeout r ((ns.mem_timedOut hc).mpr ⟨hr, le_refl _⟩)

section
variable {logf : ℚ → ℚ} {ok : NodeState → NodeOp → Prop} {self : NodeId} {bufCap : ℚ}
  {policy : Option String} {plan : ContactPlan} {ns : NodeState}

/-- **The condition is exact**: a call that breaks it leaves a bundle under custody that is
    not in the queue, and the next timeout of its record finds it gone. -/
theorem heldQueued_step_iff (hcap : 0 ≤ bufCap)
    (h : NodeReaches logf ok (nodeStart self bufCap policy plan) ns) (hheld : HeldQueued ns)
    {op : NodeOp} {ns' : NodeState} (hs : nodeStep logf ns op = some ns') :
    HeldQueued ns' ↔ KeepsHeld logf ns op :=
  (nodeStep_stores hs).2.heldQueued_iff h.custodyOk (h.queueOk hcap) hheld

theorem NodeReaches.heldQueued (hcap : 0 ≤ bufCap)
    (h : NodeReaches logf (KeepsHeld logf) (nodeStart self bufCap policy plan) ns) :
    HeldQueued ns := by
  refine h.invariant (P := HeldQueued) ?_ fun ns op ns' hreach hkeeps hs hheld => ?_
  · exact fun r hr => absurd hr List.not_mem_nil
  · exact (heldQueued_step_iff hcap hreach hheld hs).mpr hkeeps

/-- **Every record that `node_tick` finds timed out is of a queued bundle**, in every state
    of a run whose calls keep the held bundles. -/
theorem nodeTick_timedOut_queued (hcap : 0 ≤ bufCap)
    (h : NodeReaches logf (KeepsHeld logf) (nodeStart self bufCap policy plan) ns) (t : ℚ)
    (r : CustodyRecord) (hr : r ∈ ns.timedOut t) : Queued ns.queue r.bundleId :=
  h.heldQueued hcap r ((ns.mem_timedOut h.custodyOk).mp hr).1

end

/-- The relay takes the test frame; half an hour later the record is due, and the bundle
    is there. -/
theorem nodeTick_timedOut_queued_testRelay :
    ∃ ns, nodeStep testLog testRelay (.receive 0 testFrame 0) = some ns ∧
      ∃ r ∈ ns.timedOut 1800, Queued ns.queue r.bundleId := by
  have hrun : (nodeStep testLog testRelay (.receive 0 testFrame 0)).any (fun ns =>
      decide (ns.timedOut 1800 ≠ [])) = true := by decide +kernel
  obtain ⟨ns, hns, hdue⟩ := (Option.any_eq_true _ _).mp hrun
  obtain ⟨r, hr⟩ := List.exists_mem_of_ne_nil _ (of_decide_eq_true hdue)
  have hkeeps : KeepsHeld testLog testRelay (.receive 0 testFrame 0) :=
    fun _ _ _ _ _ => Or.inl (by decide)
  have hreach : NodeReaches testLog (KeepsHeld testLog) testRelay ns := .call .start _ hkeeps hns
  have hcap : (0 : ℚ) ≤ 10000 := by norm_num
  exact ⟨ns, hns, r, hr, nodeTick_timedOut_queued hcap hreach 1800 r hr⟩

/-- The relay takes the test frame and sends it on: the tick that finds the record timed
    out has nothing in the queue to route again. -/
theorem sentOn_timedOut_not_queued :
    ∃ ns r, NodeReachable testLog testRelay ns ∧
      (nodeStep testLog ns (.tick 1800 1 0)).isSome ∧ r ∈ ns.timedOut 1800 ∧
      ¬ Queued ns.queue r.bundleId := by
  have hrun : (run (nodeStep testLog) testRelay [.receive 0 testFrame 0, .tick 1 10 1]).any
      (fun ns => decide ((nodeStep testLog ns (.tick 1800 1 0)).isSome ∧ ns.timedOut 1800 ≠ [] ∧
        ns.queue.slots = [])) = true := by decide +kernel
  obtain ⟨ns, hns, hend⟩ := (Option.any_eq_true _ _).mp hrun
  obtain ⟨htick, hdue, hempty⟩ := of_decide_eq_true hend
  obtain ⟨r, hr⟩ := List.exists_mem_of_ne_nil _ hdue
  refine ⟨ns, r, reaches_of_run (fun _ _ => trivial) .start hns, htick, hr, ?_⟩
  rintro ⟨b, hb, _⟩
  rw [hempty] at hb
  exact List.not_mem_nil hb

end DtnHardware
