import DtnHardware.Node.Contents
import DtnHardware.Lib.Broadcast
import DtnHardware.Cgr.Soundness

/-!
# A network of nodes

Nodes with distinct ids on one radio channel, which may lose, duplicate, delay and misdeliver
frames but not change them. Every frame ever handed to `lora_send` is on the air, whatever
`lora_send` returned, and a node may be handed any of them, as a bundle frame or as a
time-sync frame.

`network_integrity`: a bundle anywhere in such a network agrees with one that
`node_generate_bundle` built at the node it names as its source, and it is delivered nowhere
but at its destination. A relay changes who has the bundle and who answers for it
(`curr`, `cust`), nothing that a sender wrote.
-/

set_option autoImplicit false

namespace DtnHardware

open Broadcast GuardedCalls

/-! ## The nodes as parties -/

/-- The frames a call hands to `lora_send`. -/
def framesSent (logf : ℚ → ℚ) (ns : NodeState) : NodeOp → List (List UInt8)
  | .generate _ _ _ _ => []
  | .receive _ _ _ => []
  | .tick t fuel sent => ((nodeTick logf ns t fuel sent).bind TickResult.frame).toList
  | .sendTimeSync t _ => [timeSyncFrame t]
  | .handleTimeSync _ _ => []

/-- The frame a call is handed by the radio. -/
def frameHeard : NodeOp → Option (List UInt8)
  | .generate _ _ _ _ => none
  | .receive _ frame _ => some frame
  | .tick _ _ _ => none
  | .sendTimeSync _ _ => none
  | .handleTimeSync _ frame => some frame

def nodeProgram (logf : ℚ → ℚ) : Program NodeState NodeOp (List UInt8) where
  step := nodeStep logf
  sends := framesSent logf
  hears := frameHeard

section
variable {ι : Type}

abbrev NodeNet (ι : Type) := Net ι NodeState NodeOp (List UInt8)

/-- `node_generate_bundle` has built `b` at the node `i`. -/
def Built (log : List (Event ι NodeState NodeOp)) (i : ι) (b : Bundle) : Prop :=
  ∃ ns dst cls msg t, ⟨i, ns, .generate dst cls msg t⟩ ∈ log ∧
    b = generatedBundle ns dst cls msg t

/-- `node_handle_received_frame` has delivered `b` at the node `i`. -/
def Delivered (log : List (Event ι NodeState NodeOp)) (i : ι) (b : Bundle) : Prop :=
  ∃ ns t frame rssi, ⟨i, ns, .receive t frame rssi⟩ ∈ log ∧
    bundleDeserialize frame = .ok (some b) ∧ b.dst = ns.selfId

/-- The node counts as delivered what is delivered here. -/
theorem nodeHandleReceivedFrame_delivers_iff {ns ns' : NodeState} {t : ℚ} {frame : List UInt8}
    {rssi : Int32} {rc : Int} (h : nodeHandleReceivedFrame ns t frame rssi = .ok (rc, ns')) :
    ns'.bundlesDelivered = ns.bundlesDelivered + 1 ↔
      ∃ b, bundleDeserialize frame = .ok (some b) ∧ b.dst = ns.selfId := by
  have hne : ns.bundlesDelivered ≠ ns.bundlesDelivered + 1 := by simp
  cases receiveStep_of_ok h with
  | badFrame hdec =>
    refine iff_of_false hne fun hb => ?_
    obtain ⟨b, hdec', _⟩ := hb
    rw [hdec] at hdec'
    cases hdec'
  | delivered b hdec hhere => exact iff_of_true rfl ⟨b, hdec, hhere⟩
  | accepted b hdec haway _ | rejected b hdec haway _ =>
    refine iff_of_false hne fun hb => ?_
    obtain ⟨b', hdec', hhere⟩ := hb
    rw [hdec] at hdec'
    cases hdec'
    exact haway hhere

/-- What the sender of a bundle wrote. -/
structure SameContent (b b₀ : Bundle) : Prop where
  bundleId : b.bundleId = b₀.bundleId
  src : b.src = b₀.src
  dst : b.dst = b₀.dst
  prio : b.prio = b₀.prio
  bundleClass : b.bundleClass = b₀.bundleClass
  tGen : b.tGen = b₀.tGen
  ttl : b.ttl = b₀.ttl
  payload : b.payload = b₀.payload

/-- `b` agrees with a bundle built at the node that it names as its source. -/
def HasOrigin (ids : ι → NodeId) (log : List (Event ι NodeState NodeOp)) (b : Bundle) : Prop :=
  ∃ i b₀, Built log i b₀ ∧ ids i = b.src ∧ SameContent b b₀

/-! ## Contents that do not change -/

theorem SameContent.trans {b b₁ b₂ : Bundle} (h : SameContent b b₁) (h₁ : SameContent b₁ b₂) :
    SameContent b b₂ :=
  ⟨h.bundleId.trans h₁.bundleId, h.src.trans h₁.src, h.dst.trans h₁.dst, h.prio.trans h₁.prio,
    h.bundleClass.trans h₁.bundleClass, h.tGen.trans h₁.tGen, h.ttl.trans h₁.ttl,
    h.payload.trans h₁.payload⟩

theorem sameContent_refl (b : Bundle) : SameContent b b :=
  ⟨rfl, rfl, rfl, rfl, rfl, rfl, rfl, rfl⟩

theorem HasOrigin.of_sameContent {ids : ι → NodeId} {log : List (Event ι NodeState NodeOp)}
    {b b' : Bundle} (h : HasOrigin ids log b) (hsame : SameContent b' b) :
    HasOrigin ids log b' := by
  obtain ⟨i, b₀, hbuilt, hsrc, horigin⟩ := h
  exact ⟨i, b₀, hbuilt, hsrc.trans hsame.src.symm, hsame.trans horigin⟩

theorem HasOrigin.grows {ids : ι → NodeId} {log : List (Event ι NodeState NodeOp)} {b : Bundle}
    (h : HasOrigin ids log b) (e : Event ι NodeState NodeOp) :
    HasOrigin ids (log ++ [e]) b := by
  obtain ⟨i, b₀, ⟨ns, dst, cls, msg, t, hmem, hb₀⟩, hsrc, horigin⟩ := h
  exact ⟨i, b₀, ⟨ns, dst, cls, msg, t, List.mem_append_left _ hmem, hb₀⟩, hsrc, horigin⟩

/-- The class is one of the four enumerators, so it survives the byte on the wire. -/
theorem HasOrigin.class_fits {ids : ι → NodeId} {log : List (Event ι NodeState NodeOp)}
    {b : Bundle} (h : HasOrigin ids log b) :
    b.bundleClass.toUInt8.toUInt32 = b.bundleClass := by
  obtain ⟨i, b₀, ⟨ns, dst, cls, msg, t, _, rfl⟩, _, horigin⟩ := h
  rw [horigin.bundleClass]
  show cls.code.toUInt8.toUInt32 = cls.code
  cases cls <;> rfl

theorem HasOrigin.arrived {ids : ι → NodeId} {log : List (Event ι NodeState NodeOp)}
    {b : Bundle} (h : HasOrigin ids log b) : HasOrigin ids log b.arrived :=
  h.of_sameContent ⟨rfl, rfl, rfl, rfl, h.class_fits, rfl, rfl, rfl⟩

/-- A time-sync frame is too short for a bundle. -/
theorem bundleDeserialize_timeSyncFrame (t : F32) :
    bundleDeserialize (timeSyncFrame t) = .ok none := rfl

/-! ## The invariant -/

/-- The node has the id `i` stands for, and everything it queues was built somewhere. -/
def NodeVouches (ids : ι → NodeId) (log : List (Event ι NodeState NodeOp)) (i : ι)
    (ns : NodeState) : Prop :=
  ns.selfId = ids i ∧ ∀ b ∈ ns.queue.slots, HasOrigin ids log b

/-- What the frame decodes to was built somewhere. -/
def FrameVouches (ids : ι → NodeId) (log : List (Event ι NodeState NodeOp))
    (frame : List UInt8) : Prop :=
  ∀ b, bundleDeserialize frame = .ok (some b) → HasOrigin ids log b

/-- What enters a queue was built by this call, or came in a frame. -/
theorem Enters.hasOrigin {ids : ι → NodeId} {log : List (Event ι NodeState NodeOp)} {i : ι}
    {ns : NodeState} {op : NodeOp} {b : Bundle} (h : Enters ns op b) (hself : ns.selfId = ids i)
    (hheard : ∀ frame, frameHeard op = some frame → FrameVouches ids log frame) :
    HasOrigin ids (log ++ [⟨i, ns, op⟩]) b := by
  cases h with
  | generated dst cls msg t =>
    refine ⟨i, _, ⟨ns, dst, cls, msg, t, List.mem_append_right _ List.mem_cons_self, rfl⟩,
      hself.symm, sameContent_refl _⟩
  | accepted t frame rssi b hdec =>
    have horigin := (hheard frame rfl b hdec).grows ⟨i, ns, .receive t frame rssi⟩
    obtain ⟨cust, heq⟩ := frameTransfer_bundle ns b t
    rw [heq]
    exact horigin.of_sameContent ⟨rfl, rfl, rfl, rfl, rfl, rfl, rfl, rfl⟩

/-- What a call sends is a time-sync frame, or a queued bundle. -/
theorem framesSent_vouch {logf : ℚ → ℚ} {ids : ι → NodeId}
    {log : List (Event ι NodeState NodeOp)} {i : ι} {ns : NodeState} {op : NodeOp}
    (h : NodeVouches ids log i ns) {frame : List UInt8} (hframe : frame ∈ framesSent logf ns op) :
    FrameVouches ids log frame := by
  intro b hdec
  cases op with
  | generate | receive | handleTimeSync => exact absurd hframe List.not_mem_nil
  | sendTimeSync t sent =>
    rw [framesSent, List.mem_singleton] at hframe
    rw [hframe, bundleDeserialize_timeSyncFrame] at hdec
    cases hdec
  | tick t fuel sent =>
    obtain ⟨res, hres, hsent⟩ := Option.bind_eq_some_iff.mp (Option.mem_toList.mp hframe)
    cases nodeTick_cases hres with
    | idle | expired | putBack => cases hsent
    | txFailed b₀ q' first frame' hands _ | transmitted b₀ q' first frame' hands _ =>
      cases hsent
      -- the round trip: the frame decodes to the bundle it encodes
      rw [bundleDeserialize_of_serialize hands.framed] at hdec
      cases hdec
      exact (h.2 b₀ (mem_of_pop hands.pop (Or.inl rfl))).arrived

theorem nodeProgram_vouches (logf : ℚ → ℚ) (ids : ι → NodeId) :
    Vouches (nodeProgram logf) (NodeVouches ids) (FrameVouches ids) := by
  refine ⟨?_, ?_, ?_, ?_⟩
  · intro log e i ns h
    exact ⟨h.1, fun b hb => (h.2 b hb).grows e⟩
  · intro log e frame h b hdec
    exact (h b hdec).grows e
  · intro log i ns op ns' h hheard hs
    obtain ⟨hself, hstores⟩ := nodeStep_stores hs
    refine ⟨hself.trans h.1, fun b hb => ?_⟩
    rcases hstores.mem_queue hb with hold | hnew
    · exact (h.2 b hold).grows _
    · exact hnew.hasOrigin h.1 hheard
  · intro log i ns op ns' h _ _ frame hframe b hdec
    exact (framesSent_vouch h hframe b hdec).grows _

/-! ## Integrity -/

/-- **End-to-end integrity**, for any number of nodes and any order of calls. -/
theorem network_integrity [DecidableEq ι] (logf : ℚ → ℚ) (ids : ι → NodeId)
    (hids : Function.Injective ids) (bufCap : ι → ℚ) (policy : ι → Option String)
    (plan : ι → ContactPlan) (s : NodeNet ι)
    (h : NetReaches (nodeProgram logf)
      (.start fun i => nodeStart (ids i) (bufCap i) (policy i) (plan i)) s) :
    (∀ i, ∀ b ∈ (s.parties i).queue.slots, HasOrigin ids s.log b) ∧
      (∀ frame ∈ s.air, ∀ b, bundleDeserialize frame = .ok (some b) →
        HasOrigin ids s.log b) ∧
      ∀ i b, Delivered s.log i b →
        HasOrigin ids s.log b ∧ ids i = b.dst ∧ ∀ j, ids j = b.dst → j = i := by
  have hstart : ∀ i, NodeVouches ids [] i (nodeStart (ids i) (bufCap i) (policy i) (plan i)) :=
    fun i => ⟨rfl, fun b hb => absurd hb List.not_mem_nil⟩
  have hv := h.vouched (nodeProgram_vouches logf ids) hstart
  refine ⟨fun i => (hv.party i).2, hv.message, fun i b hdelivered => ?_⟩
  obtain ⟨ns, t, frame, rssi, hmem, hdec, hdst⟩ := hdelivered
  have hself : ns.selfId = ids i := (hv.before _ hmem).1
  have hhere : ids i = b.dst := hself.symm.trans hdst.symm
  exact ⟨hv.heard _ hmem frame rfl b hdec, hhere, fun j hj => hids (hj.trans hhere.symm)⟩

end

/-! ### Two nodes -/

/-- `AAAA` and `BBBB`, with a link from the one to the other. -/
def testIds : Bool → NodeId
  | false => nodeA
  | true => nodeB

def testNet : NodeNet Bool :=
  .start fun i => nodeStart (testIds i) 10000 none (.ofList [testLink nodeA nodeB 0 60])

/-- `AAAA` generates a bundle for `BBBB` and sends it at time 1; it is received and
    delivered. -/
theorem network_integrity_testNet : ∃ s b, NetReaches (nodeProgram testLog) testNet s ∧
    Delivered s.log true b ∧ HasOrigin testIds s.log b := by
  have hrun : (netStep (nodeProgram testLog) testNet
      (false, .generate nodeB .science [0x68, 0x69] F32.zero)).any (fun s₁ =>
        (netStep (nodeProgram testLog) s₁ (false, .tick 1 10 1)).any (fun s₂ =>
          decide ((s₂.parties true).selfId = nodeB ∧ ∃ frame ∈ s₂.air,
            (bundleDeserialize frame).toOption.join.map Bundle.dst = some nodeB))) = true := by
    decide +kernel
  obtain ⟨s₁, hs₁, hrun₂⟩ := (Option.any_eq_true _ _).mp hrun
  obtain ⟨s₂, hs₂, hair⟩ := (Option.any_eq_true _ _).mp hrun₂
  obtain ⟨hself, frame, hframe, hdst⟩ := of_decide_eq_true hair
  have hreach₁ : NetReaches (nodeProgram testLog) testNet s₁ :=
    .call .start _ (by intro m hm; cases hm) hs₁
  have hreach₂ : NetReaches (nodeProgram testLog) testNet s₂ :=
    .call hreach₁ _ (by intro m hm; cases hm) hs₂
  obtain ⟨o, hdec⟩ := bundleDeserialize_ok frame
  rw [hdec] at hdst
  obtain ⟨b, rfl, hb⟩ := Option.map_eq_some_iff.mp hdst
  obtain ⟨res, hres, _⟩ := nodeHandleReceivedFrame_cases (s₂.parties true) 2 frame 0
  have hstep : nodeStep testLog (s₂.parties true) (.receive 2 frame 0) = some res.2 := by
    rw [nodeStep, hres]
    rfl
  have hs₃ : (netStep (nodeProgram testLog) s₂ (true, .receive 2 frame 0)).isSome = true := by
    show (Option.map _ (nodeStep testLog (s₂.parties true) (.receive 2 frame 0))).isSome = true
    rw [hstep]
    rfl
  obtain ⟨s₃, hs₃⟩ := Option.isSome_iff_exists.mp hs₃
  have hreach₃ : NetReaches (nodeProgram testLog) testNet s₃ :=
    .call hreach₂ _ (by intro m hm; cases hm; exact hframe) hs₃
  have hdelivered : Delivered s₃.log true b := by
    obtain ⟨_, _, rfl⟩ := Option.map_eq_some_iff.mp hs₃
    exact ⟨_, 2, frame, 0, List.mem_append_right _ List.mem_cons_self, hdec, hb.trans hself.symm⟩
  obtain ⟨_, _, horigin⟩ := network_integrity testLog testIds (by decide) _ _ _ s₃ hreach₃
  exact ⟨s₃, b, hreach₃, hdelivered, (horigin true b hdelivered).1⟩

end DtnHardware
