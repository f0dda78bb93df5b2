import DtnHardware.Node.Receive
import DtnHardware.Node.Tick

/-!
# What one call does to the queue and the custody table

A node keeps two stores that are updated separately. `StoreStep` lists what each entry
point does to the pair, each case with the condition it happens under, and
`nodeStep_stores` says there is nothing else; the bounds of both stores follow over whole
runs.
-/

set_option autoImplicit false

namespace DtnHardware

/-! ## The effects -/

/-- The tick at `t` pops `b`, leaves the queue `q'`, and the radio sends `b`. -/
structure Transmits (logf : ℚ → ℚ) (ns : NodeState) (t : ℚ) (fuel : Nat) (sent : Int)
    (b : Bundle) (q' : NodeQueue) : Prop where
  pop : queuePopNext ns.queue t = some (b, q')
  alive : bundleIsAlive b t = true
  routed : ∃ r first, cgrSelectRoute (ns.cgrCall logf b t) fuel = .route r ∧
    r.hops[0]? = some first ∧ contactIsFeasibleFor first.contact b.bytes t = true
  framed : ∃ frame, bundleSerialize b txFrameCap = some frame
  sent_pos : sent > 0

/-- The queue and the custody table after a call. -/
inductive StoreStep (logf : ℚ → ℚ) (ns : NodeState) :
    NodeOp → NodeQueue → CustodyManager → Prop
  | generated (dst : NodeId) (cls : BundleClass) (msg : List UInt8) (t : F32) :
      StoreStep logf ns (.generate dst cls msg t)
        (queueEnqueue ns.queue (generatedBundle ns dst cls msg t)).2 ns.custody
  | badFrame (t : ℚ) (frame : List UInt8) (rssi : Int32)
      (decodes : bundleDeserialize frame = .ok none) :
      StoreStep logf ns (.receive t frame rssi) ns.queue ns.custody
  | delivered (t : ℚ) (frame : List UInt8) (rssi : Int32) (b : Bundle)
      (decodes : bundleDeserialize frame = .ok (some b)) (here : b.dst = ns.selfId) :
      StoreStep logf ns (.receive t frame rssi) ns.queue (custodyRelease ns.custody b.bundleId)
  | accepted (t : ℚ) (frame : List UInt8) (rssi : Int32) (b : Bundle)
      (decodes : bundleDeserialize frame = .ok (some b)) (away : b.dst ≠ ns.selfId)
      (accepts : acceptsFrame ns b t = true) :
      StoreStep logf ns (.receive t frame rssi)
        (queueEnqueue ns.queue (frameTransfer ns b t).2.2).2 (frameTransfer ns b t).2.1
  | rejected (t : ℚ) (frame : List UInt8) (rssi : Int32) (b : Bundle)
      (decodes : bundleDeserialize frame = .ok (some b)) (away : b.dst ≠ ns.selfId)
      (rejects : acceptsFrame ns b t = false) :
      StoreStep logf ns (.receive t frame rssi) ns.queue ns.custody
  | idle (t : ℚ) (fuel : Nat) (sent : Int) (pop : queuePopNext ns.queue t = none) :
      StoreStep logf ns (.tick t fuel sent) ns.queue (ns.sweep t).custody
  | expired (t : ℚ) (fuel : Nat) (sent : Int) (b : Bundle) (q' : NodeQueue)
      (pop : queuePopNext ns.queue t = some (b, q')) (dead : bundleIsAlive b t = false) :
      StoreStep logf ns (.tick t fuel sent) q'
        (custodyRelease (ns.sweep t).custody b.bundleId)
  | requeued (t : ℚ) (fuel : Nat) (sent : Int) (b : Bundle) (q' : NodeQueue)
      (pop : queuePopNext ns.queue t = some (b, q'))
      (stays : ¬ Transmits logf ns t fuel sent b q') :
      StoreStep logf ns (.tick t fuel sent) (queueEnqueue q' b).2 (ns.sweep t).custody
  | transmitted (t : ℚ) (fuel : Nat) (sent : Int) (b : Bundle) (q' : NodeQueue)
      (sends : Transmits logf ns t fuel sent b q') :
      StoreStep logf ns (.tick t fuel sent) q' (ns.sweep t).custody
  | sentTimeSync (t : F32) (sent : Int) :
      StoreStep logf ns (.sendTimeSync t sent) ns.queue ns.custody
  | handledTimeSync (localT : Flt) (frame : List UInt8) :
      StoreStep logf ns (.handleTimeSync localT frame) ns.queue ns.custody

/-! ## The entry points, one by one -/

/-- Generating moves the counter, offers the bundle to the queue, and reports it. -/
theorem nodeGenerateBundle_frame (ns : NodeState) (dst : NodeId) (cls : BundleClass)
    (msg : List UInt8) (t : F32) :
    ∃ trace, (nodeGenerateBundle ns dst cls msg t).2 = { ns with
      counter := ns.counter + 1
      queue := (queueEnqueue ns.queue (generatedBundle ns dst cls msg t)).2
      trace } := by
  unfold nodeGenerateBundle
  dsimp only
  split
  · exact ⟨_, rfl⟩
  · exact ⟨_, rfl⟩

theorem ReceiveStep.stores {logf : ℚ → ℚ} {ns : NodeState} {t : ℚ} {frame : List UInt8}
    {rssi : Int32} {res : Int × NodeState} (h : ReceiveStep ns t frame rssi res) :
    res.2.selfId = ns.selfId ∧
      StoreStep logf ns (.receive t frame rssi) res.2.queue res.2.custody := by
  cases h with
  | badFrame hdec => exact ⟨rfl, .badFrame t frame rssi hdec⟩
  | delivered b hdec hhere => exact ⟨rfl, .delivered t frame rssi b hdec hhere⟩
  | accepted b hdec haway hacc => exact ⟨rfl, .accepted t frame rssi b hdec haway hacc⟩
  | rejected b hdec haway hrej => exact ⟨rfl, .rejected t frame rssi b hdec haway hrej⟩

/-- The loop starts at the first record, so it splits the table by the time. -/
theorem NodeState.sweep_perm {ns : NodeState} (hok : CustodyOk ns.selfId ns.custody) (t : ℚ) :
    CustodyOk ns.selfId (ns.sweep t).custody ∧
      ns.custody.records.Perm (ns.timedOut t ++ (ns.sweep t).custody.records) ∧
      (∀ r ∈ ns.timedOut t, r.timeout ≤ t) ∧
      ∀ r ∈ (ns.sweep t).custody.records, t < r.timeout := by
  have hsplit := custodySweep_perm hok.nodup t
  exact ⟨hok.of_perm hsplit.1, hsplit⟩

theorem NodeState.mem_timedOut {ns : NodeState} (hok : CustodyOk ns.selfId ns.custody) {t : ℚ}
    {r : CustodyRecord} : r ∈ ns.timedOut t ↔ r ∈ ns.custody.records ∧ r.timeout ≤ t := by
  obtain ⟨_, hperm, hout, hleft⟩ := ns.sweep_perm hok t
  rw [hperm.mem_iff, List.mem_append]
  constructor
  · exact fun h => ⟨Or.inl h, hout r h⟩
  · rintro ⟨h | h, htime⟩
    · exact h
    · exact absurd htime (not_le.mpr (hleft r h))

theorem NodeState.mem_sweep {ns : NodeState} (hok : CustodyOk ns.selfId ns.custody) {t : ℚ}
    {r : CustodyRecord} :
    r ∈ (ns.sweep t).custody.records ↔ r ∈ ns.custody.records ∧ t < r.timeout := by
  obtain ⟨_, hperm, hout, hleft⟩ := ns.sweep_perm hok t
  rw [hperm.mem_iff, List.mem_append]
  constructor
  · exact fun h => ⟨Or.inr h, hleft r h⟩
  · rintro ⟨h | h, htime⟩
    · exact absurd htime (not_lt.mpr (hout r h))
    · exact h

/-- A tick transmits what it hands over, if the radio takes it. -/
theorem transmits_iff {logf : ℚ → ℚ} {ns : NodeState} {t : ℚ} {fuel : Nat} {sent : Int}
    {b : Bundle} {q' : NodeQueue} : Transmits logf ns t fuel sent b q' ↔
      (∃ first frame, HandsOver logf ns t fuel b q' first frame) ∧ sent > 0 := by
  constructor
  · intro h
    obtain ⟨r, first, hroute, hfirst, hfeas⟩ := h.routed
    obtain ⟨frame, hframe⟩ := h.framed
    exact ⟨⟨first, frame, h.pop, h.alive, ⟨r, hroute, hfirst⟩, hfeas, hframe⟩, h.sent_pos⟩
  · intro h
    obtain ⟨⟨first, frame, hands⟩, hsent⟩ := h
    obtain ⟨r, hroute, hfirst⟩ := hands.routed
    exact ⟨hands.pop, hands.alive, ⟨r, first, hroute, hfirst, hands.feasible⟩,
      ⟨frame, hands.framed⟩, hsent⟩

theorem TickStep.stores {logf : ℚ → ℚ} {ns : NodeState} {t : ℚ} {fuel : Nat} {sent : Int}
    {res : TickResult} (h : TickStep logf ns t fuel sent res) :
    res.state.selfId = ns.selfId ∧
      StoreStep logf ns (.tick t fuel sent) res.state.queue res.state.custody := by
  cases h with
  | idle hpop => exact ⟨rfl, .idle t fuel sent hpop⟩
  | expired b q' hpop hdead => exact ⟨rfl, .expired t fuel sent b q' hpop hdead⟩
  | putBack b q' hpop _ _ hkeeps =>
    refine ⟨rfl, .requeued t fuel sent b q' hpop fun hsends => ?_⟩
    obtain ⟨⟨first, frame, hands⟩, _⟩ := transmits_iff.mp hsends
    exact hkeeps first frame hands
  | txFailed b q' first frame hands hfails =>
    refine ⟨rfl, .requeued t fuel sent b q' hands.pop fun hsends => ?_⟩
    exact hfails hsends.sent_pos
  | transmitted b q' first frame hands hsent =>
    exact ⟨rfl, .transmitted t fuel sent b q' (transmits_iff.mpr ⟨⟨first, frame, hands⟩, hsent⟩)⟩

/-- Sending a time-sync frame leaves an event, if the radio takes it. -/
theorem nodeSendTimeSync_frame (ns : NodeState) (t : F32) (sent : Int) :
    ∃ trace, (nodeSendTimeSync ns t sent).2 = { ns with trace } := by
  unfold nodeSendTimeSync
  split
  · exact ⟨_, rfl⟩
  · exact ⟨_, rfl⟩

/-- A time-sync frame changes the clock and the trace. -/
theorem nodeTryHandleTimeSync_frame {ns : NodeState} {localT : Flt} {frame : List UInt8}
    {res : Int × NodeState} (h : nodeTryHandleTimeSync ns localT frame = .ok res) :
    ∃ timeOffset timeSynced trace, res.2 = { ns with timeOffset, timeSynced, trace } := by
  unfold nodeTryHandleTimeSync at h
  split at h
  · cases h
    exact ⟨_, _, _, rfl⟩
  · cases hmagic : getU16 frame 0 with
    | error e =>
      rw [hmagic] at h
      cases h
    | ok magic =>
      rw [hmagic] at h
      dsimp only [bind, Except.bind] at h
      split at h
      · cases h
        exact ⟨_, _, _, rfl⟩
      · cases hgs : getF32 frame 2 with
        | error e =>
          rw [hgs] at h
          cases h
        | ok gs =>
          rw [hgs] at h
          cases h
          exact ⟨_, _, _, rfl⟩

/-! ## One call, and a run -/

/-- A call that may fault, and came back. -/
theorem eq_ok_of_toOption_map {ε α β : Type} {x : Except ε (α × β)} {b : β}
    (h : x.toOption.map Prod.snd = some b) : ∃ a, x = .ok (a, b) := by
  cases x with
  | error e => cases h
  | ok res =>
    cases h
    exact ⟨res.1, rfl⟩

/-- **The effects of a call are the listed ones.** -/
theorem nodeStep_stores {logf : ℚ → ℚ} {ns ns' : NodeState} {op : NodeOp}
    (h : nodeStep logf ns op = some ns') :
    ns'.selfId = ns.selfId ∧ StoreStep logf ns op ns'.queue ns'.custody := by
  cases op with
  | generate dst cls msg t =>
    obtain ⟨_, heq⟩ := nodeGenerateBundle_frame ns dst cls msg t
    cases h
    rw [heq]
    exact ⟨rfl, .generated dst cls msg t⟩
  | receive t frame rssi =>
    obtain ⟨rc, hres⟩ := eq_ok_of_toOption_map h
    exact (receiveStep_of_ok hres).stores
  | tick t fuel sent =>
    obtain ⟨res, hres, rfl⟩ := Option.map_eq_some_iff.mp h
    exact (nodeTick_cases hres).stores
  | sendTimeSync t sent =>
    obtain ⟨_, heq⟩ := nodeSendTimeSync_frame ns t sent
    cases h
    rw [heq]
    exact ⟨rfl, .sentTimeSync t sent⟩
  | handleTimeSync localT frame =>
    obtain ⟨rc, hres⟩ := eq_ok_of_toOption_map h
    obtain ⟨_, _, _, heq⟩ := nodeTryHandleTimeSync_frame hres
    dsimp only at heq
    rw [heq]
    exact ⟨rfl, .handledTimeSync localT frame⟩

/-- The table keeps its shape, whatever the call does. -/
theorem StoreStep.custodyOk {logf : ℚ → ℚ} {ns : NodeState} {op : NodeOp} {q' : NodeQueue}
    {cm' : CustodyManager} (h : StoreStep logf ns op q' cm')
    (hok : CustodyOk ns.selfId ns.custody) : CustodyOk ns.selfId cm' := by
  have hsweep : ∀ t, CustodyOk ns.selfId (ns.sweep t).custody := fun t => (ns.sweep_perm hok t).1
  cases h with
  | generated | badFrame | rejected | sentTimeSync | handledTimeSync => exact hok
  | delivered t frame rssi b => exact hok.release b.bundleId
  | accepted t frame rssi b => exact hok.transfer rfl _ t
  | idle t | requeued t | transmitted t => exact hsweep t
  | expired t _ _ b => exact (hsweep t).release b.bundleId

/-- So does the queue. -/
theorem StoreStep.queueOk {logf : ℚ → ℚ} {ns : NodeState} {op : NodeOp} {q' : NodeQueue}
    {cm' : CustodyManager} (h : StoreStep logf ns op q' cm') (hok : QueueOk ns.queue) :
    QueueOk q' := by
  have hpopped : ∀ {t b q'}, queuePopNext ns.queue t = some (b, q') → QueueOk q' := by
    intro t b q' hpop
    obtain ⟨i, hget, _, rfl⟩ := queuePopNext_eq_some hpop
    exact hok.remove hget
  cases h with
  | badFrame | delivered | rejected | idle | sentTimeSync | handledTimeSync => exact hok
  | generated | accepted => exact (queueEnqueue_cases _ _).queueOk hok
  | expired _ _ _ _ _ hpop => exact hpopped hpop
  | requeued _ _ _ _ _ hpop => exact (queueEnqueue_cases _ _).queueOk (hpopped hpop)
  | transmitted _ _ _ _ _ htx => exact hpopped htx.pop

/-- **The custody table is a finite map of at most thirty-two of the node's own records.** -/
theorem NodeReaches.custodyOk {logf : ℚ → ℚ} {ok : NodeState → NodeOp → Prop}
    {self : NodeId} {bufCap : ℚ} {policy : Option String} {plan : ContactPlan}
    {ns : NodeState} (h : NodeReaches logf ok (nodeStart self bufCap policy plan) ns) :
    CustodyOk ns.selfId ns.custody := by
  refine h.invariant (P := fun ns => CustodyOk ns.selfId ns.custody) ?_
    fun ns op ns' _ _ hs hP => ?_
  · exact custodyOk_init self _
  · obtain ⟨hself, hst⟩ := nodeStep_stores hs
    rw [hself]
    exact hst.custodyOk hP

/-- **The queue stays within its slots and its bytes.** -/
theorem NodeReaches.queueOk {logf : ℚ → ℚ} {ok : NodeState → NodeOp → Prop}
    {self : NodeId} {bufCap : ℚ} {policy : Option String} {plan : ContactPlan}
    {ns : NodeState} (hcap : 0 ≤ bufCap)
    (h : NodeReaches logf ok (nodeStart self bufCap policy plan) ns) : QueueOk ns.queue := by
  refine h.invariant (P := fun ns => QueueOk ns.queue) ?_ fun ns op ns' _ _ hs hP => ?_
  · exact queueOk_init self hcap policy
  · exact (nodeStep_stores hs).2.queueOk hP

end DtnHardware
