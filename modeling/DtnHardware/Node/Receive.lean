import DtnHardware.Node.Forwarding

/-!
# What a received frame can come to

`node_handle_received_frame` drops a frame that does not decode, delivers a bundle that is
for this node, and takes or refuses any other. `ReceiveStep` lists the four endings with the
return value and the node each of them leaves; a frame is always dealt with
(`nodeHandleReceivedFrame_cases`), as the decoder does not fault.
-/

set_option autoImplicit false

namespace DtnHardware

/-! ## Taking a bundle -/

/-- The acceptance decision of `node_handle_received_frame`. -/
def acceptsFrame (ns : NodeState) (b : Bundle) (t : ℚ) : Bool :=
  custodyCanAccept ns.custody b ns.selfId t (queueFree ns.queue) (some ns.queue.policy)

theorem acceptsFrame_alive {ns : NodeState} {b : Bundle} {t : ℚ}
    (h : acceptsFrame ns b t = true) : bundleIsAlive b t = true := by
  cases halive : bundleIsAlive b t with
  | true => rfl
  | false =>
    rw [acceptsFrame, custodyCanAccept, halive] at h
    cases h

theorem acceptsFrame_fits {ns : NodeState} {b : Bundle} {t : ℚ}
    (h : acceptsFrame ns b t = true) : b.bytes ≤ queueFree ns.queue := by
  by_contra hbig
  rw [acceptsFrame, custodyCanAccept, acceptsFrame_alive h, if_neg (by decide),
    if_pos (not_le.mp hbig)] at h
  cases h

/-- What `custody_transfer` returns for an accepted bundle. -/
def frameTransfer (ns : NodeState) (b : Bundle) (t : ℚ) :
    Option CustodyRecord × CustodyManager × Bundle :=
  custodyTransfer ns.custody { b with curr := ns.selfId }
    (contactPlanGet ns.plan b.src ns.selfId) t

/-- An accepted bundle is the received one, at this node, perhaps with a new custodian. -/
theorem frameTransfer_bundle (ns : NodeState) (b : Bundle) (t : ℚ) :
    ∃ cust, (frameTransfer ns b t).2.2 = { b with curr := ns.selfId, cust } := by
  unfold frameTransfer custodyTransfer
  split
  · exact ⟨ns.selfId, rfl⟩
  · split
    · exact ⟨b.cust, rfl⟩
    · exact ⟨ns.selfId, rfl⟩

/-! ## The endings -/

/-- The node once it has counted the bundle of a good frame. -/
def NodeState.heard (ns : NodeState) (rssi : Int32) : NodeState :=
  { ns with bundlesRx := ns.bundlesRx + 1, lastRssi := rssi }

/-- The node once it has delivered `b`. -/
def NodeState.delivering (ns : NodeState) (t : ℚ) (b : Bundle) : NodeState :=
  { ({ ns with bundlesDelivered := ns.bundlesDelivered + 1 } : NodeState).emit (.fin t)
      .bundleDelivered b.bundleId "from=%u msg=%.*s" [.u b.src.toNat, .s b.payload] with
    custody := custodyRelease ns.custody b.bundleId }

/-- The node once it has taken `b`: into the custody table, and then into the queue. -/
def NodeState.taking (ns : NodeState) (t : ℚ) (b : Bundle) : NodeState :=
  let (_, custody, b) := frameTransfer ns b t
  let ns := ({ ns with custody } : NodeState).emit (.fin t) .custodyAccepted b.bundleId
    "from=%u" [.u b.src.toNat]
  let ns := { ns with queue := (queueEnqueue ns.queue b).2 }
  ns.emit (.fin t) .bundleQueued b.bundleId "queue_len=%u" [.u ns.queue.slots.length]

/-- Both are reported, whatever the two tables had to say. -/
theorem NodeState.trace_taking (ns : NodeState) (t : ℚ) (b : Bundle) :
    ∃ accepted queued, (ns.taking t b).trace = ns.trace ++ [accepted, queued] ∧
      accepted.event = .custodyAccepted ∧ queued.event = .bundleQueued :=
  ⟨_, _, List.append_assoc _ _ _, rfl, rfl⟩

/-- The endings of a reception. -/
inductive ReceiveStep (ns : NodeState) (t : ℚ) (frame : List UInt8) (rssi : Int32) :
    Int × NodeState → Prop
  | badFrame (decodes : bundleDeserialize frame = .ok none) :
      ReceiveStep ns t frame rssi
        (-1, ns.emit (.fin t) .bundleDropped 0 "bad_frame len=%u" [.u frame.length])
  | delivered (b : Bundle) (decodes : bundleDeserialize frame = .ok (some b))
      (here : b.dst = ns.selfId) :
      ReceiveStep ns t frame rssi (0, (ns.heard rssi).delivering t b)
  | accepted (b : Bundle) (decodes : bundleDeserialize frame = .ok (some b))
      (away : b.dst ≠ ns.selfId) (accepts : acceptsFrame ns b t = true) :
      ReceiveStep ns t frame rssi (0, (ns.heard rssi).taking t b)
  | rejected (b : Bundle) (decodes : bundleDeserialize frame = .ok (some b))
      (away : b.dst ≠ ns.selfId) (rejects : acceptsFrame ns b t = false) :
      ReceiveStep ns t frame rssi
        (0, (ns.heard rssi).emit (.fin t) .bundleDropped b.bundleId "custody_rejected" [])

/-- **A frame is dealt with in one of the listed ways.** -/
theorem nodeHandleReceivedFrame_cases (ns : NodeState) (t : ℚ) (frame : List UInt8)
    (rssi : Int32) : ∃ res, nodeHandleReceivedFrame ns t frame rssi = .ok res ∧
      ReceiveStep ns t frame rssi res := by
  obtain ⟨o, hdec⟩ := bundleDeserialize_ok frame
  unfold nodeHandleReceivedFrame
  rw [hdec]
  cases o with
  | none => exact ⟨_, rfl, .badFrame hdec⟩
  | some b =>
    dsimp only [bind, Except.bind]
    by_cases hdst : b.dst = ns.selfId
    · rw [if_pos hdst]
      exact ⟨_, rfl, .delivered b hdec hdst⟩
    · rw [if_neg hdst]
      cases hacc : acceptsFrame ns b t with
      | true =>
        unfold acceptsFrame at hacc
        rw [if_pos hacc]
        exact ⟨_, rfl, .accepted b hdec hdst hacc⟩
      | false =>
        unfold acceptsFrame at hacc
        rw [if_neg (by rw [hacc]; exact Bool.false_ne_true)]
        exact ⟨_, rfl, .rejected b hdec hdst hacc⟩

theorem receiveStep_of_ok {ns : NodeState} {t : ℚ} {frame : List UInt8} {rssi : Int32}
    {res : Int × NodeState} (h : nodeHandleReceivedFrame ns t frame rssi = .ok res) :
    ReceiveStep ns t frame rssi res := by
  obtain ⟨res', heq, hstep⟩ := nodeHandleReceivedFrame_cases ns t frame rssi
  rw [h] at heq
  cases heq
  exact hstep

/-- A received frame changes the two stores, the trace and the counters of receptions. -/
theorem ReceiveStep.frame {ns : NodeState} {t : ℚ} {frame : List UInt8} {rssi : Int32}
    {res : Int × NodeState} (h : ReceiveStep ns t frame rssi res) :
    ∃ queue custody trace bundlesRx bundlesDelivered lastRssi,
      res.2 = { ns with queue, custody, trace, bundlesRx, bundlesDelivered, lastRssi } := by
  cases h with
  | badFrame | delivered | accepted | rejected => exact ⟨_, _, _, _, _, _, rfl⟩

/-! ## Conditions on what is taken -/

/-- `C` holds of the bundle that the node takes from the frame, if it takes one. -/
def IfAccepted (ns : NodeState) (t : ℚ) (frame : List UInt8) (C : Bundle → Prop) : Prop :=
  ∀ b, bundleDeserialize frame = .ok (some b) → b.dst ≠ ns.selfId →
    acceptsFrame ns b t = true → C b

theorem ifAccepted_of_badFrame {frame : List UInt8} (hdec : bundleDeserialize frame = .ok none)
    (ns : NodeState) (t : ℚ) (C : Bundle → Prop) : IfAccepted ns t frame C := by
  intro b hdec'
  rw [hdec] at hdec'
  cases hdec'

/-- A frame decodes to one bundle. -/
theorem ifAccepted_iff {ns : NodeState} {t : ℚ} {frame : List UInt8} {C : Bundle → Prop}
    {b : Bundle} (hdec : bundleDeserialize frame = .ok (some b)) :
    IfAccepted ns t frame C ↔ (b.dst ≠ ns.selfId → acceptsFrame ns b t = true → C b) := by
  constructor
  · intro h
    exact h b hdec
  · intro h b' hdec'
    rw [hdec] at hdec'
    cases hdec'
    exact h

theorem ifAccepted_of_here {ns : NodeState} {frame : List UInt8} {b : Bundle}
    (hdec : bundleDeserialize frame = .ok (some b)) (here : b.dst = ns.selfId) (t : ℚ)
    (C : Bundle → Prop) : IfAccepted ns t frame C :=
  (ifAccepted_iff hdec).mpr fun haway => absurd here haway

theorem ifAccepted_of_rejects {ns : NodeState} {t : ℚ} {frame : List UInt8} {b : Bundle}
    (hdec : bundleDeserialize frame = .ok (some b)) (rejects : acceptsFrame ns b t = false)
    (C : Bundle → Prop) : IfAccepted ns t frame C := by
  refine (ifAccepted_iff hdec).mpr fun _ hacc => ?_
  rw [rejects] at hacc
  cases hacc

end DtnHardware
