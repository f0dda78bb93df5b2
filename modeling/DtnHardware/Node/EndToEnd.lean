import DtnHardware.Core.PlanLoader
import DtnHardware.Node.Hosts
import DtnHardware.Node.Ledger

/-!
# From the keyboard to the report

What a node reports when it delivers a bundle has come a long way: typed at another node, queued
there, packed into a frame, written byte by byte into a radio, heard by another, read out byte by
byte, and decoded, perhaps several times over.

> **Every delivery that is reported is of a message that was typed for this node** at the node
> that the report names (`hosts_endToEnd`).

The report is less than the delivery: the bundle's message is handed to `vsnprintf` as it is, and
the text that comes out ends at the message's first NUL and has 63 bytes (`deliveredText`).

The network knows nothing of reports, so they become part of what its nodes vouch for.
-/

set_option autoImplicit false

namespace DtnHardware

open Broadcast GuardedCalls Interference

/-! ## Reports of a delivery -/

/-- `r` is what the delivery of `b` hands to `tracer_emit`. -/
structure ReportsDelivery (r : TraceRecord) (b : Bundle) : Prop where
  bundleId : r.bundleId = b.bundleId
  fmt : r.fmt = "from=%u msg=%.*s"
  args : r.args = [.u b.src.toNat, .s b.payload]

/-- `"from=%u msg=%.*s"`, before it is cut to `detail`. -/
def deliveredText (src : NodeId) (msg : List UInt8) : List UInt8 :=
  ascii ['f', 'r', 'o', 'm', '='] ++ (Nat.toDigits 10 src.toNat).map Char.toUInt8 ++
    ascii [' ', 'm', 's', 'g', '='] ++ msg.takeWhile (· ≠ 0)

/-- What the sink gets of it. -/
theorem ReportsDelivery.detail {r : TraceRecord} {b : Bundle} (h : ReportsDelivery r b)
    (float : Flt → List UInt8) :
    r.detail float = (deliveredText b.src b.payload).take (traceDetailSize - 1) := by
  rw [TraceRecord.detail, h.fmt, h.args]
  simp [renderFmt, TraceArg.text, deliveredText, ascii]

/-- The call `op` delivers the bundle that `r` reports. -/
def DeliveredBy (ns : NodeState) (op : NodeOp) (r : TraceRecord) : Prop :=
  ∃ t frame rssi b, op = .receive t frame rssi ∧ bundleDeserialize frame = .ok (some b) ∧
    b.dst = ns.selfId ∧ ReportsDelivery r b

/-- What has been reported since, as far as deliveries go. -/
def NewsOf (ns : NodeState) (op : NodeOp) (ns' : NodeState) : Prop :=
  ∃ news, ns'.trace = ns.trace ++ news ∧
    ∀ r ∈ news, r.event = .bundleDelivered → DeliveredBy ns op r

section
variable {logf : ℚ → ℚ} {ns ns' : NodeState}

/-- No delivery among the news. -/
theorem NewsOf.other {op : NodeOp} (news : List TraceRecord)
    (htrace : ns'.trace = ns.trace ++ news) (h : ∀ r ∈ news, r.event ≠ .bundleDelivered) :
    NewsOf ns op ns' :=
  ⟨news, htrace, fun r hr hevent => absurd hevent (h r hr)⟩

theorem newsOf_generate (ns : NodeState) (dst : NodeId) (cls : BundleClass) (msg : List UInt8)
    (t : F32) : NewsOf ns (.generate dst cls msg t) (nodeGenerateBundle ns dst cls msg t).2 := by
  unfold nodeGenerateBundle
  dsimp only
  split
  · exact .other [] (List.append_nil _).symm (by simp)
  · exact .other [_] rfl (by simp)

theorem newsOf_receive {t : ℚ} {frame : List UInt8} {rssi : Int32} {res : Int × NodeState}
    (hs : ReceiveStep ns t frame rssi res) : NewsOf ns (.receive t frame rssi) res.2 := by
  cases hs with
  | badFrame hdec => exact .other [_] rfl (by simp)
  | delivered b hdec hhere =>
    refine ⟨[_], rfl, fun r hr _ => ?_⟩
    rw [List.mem_singleton.mp hr]
    exact ⟨t, frame, rssi, b, rfl, hdec, hhere, rfl, rfl, rfl⟩
  | accepted b hdec haway hacc =>
    obtain ⟨accepted, queued, htrace, haccepted, hqueued⟩ := (ns.heard rssi).trace_taking t b
    exact .other [accepted, queued] htrace (by simp [haccepted, hqueued])
  | rejected b hdec haway hrej => exact .other [_] rfl (by simp)

/-- The sweep reports timeouts, and a tick then at most one thing more. -/
theorem newsOf_tick {t : ℚ} {fuel : Nat} {sent : Int} {res : TickResult}
    (hs : TickStep logf ns t fuel sent res) : NewsOf ns (.tick t fuel sent) res.state := by
  have hswept : ∀ r ∈ (ns.timedOut t).map (timeoutTrace ns t), r.event ≠ .bundleDelivered := by
    simp [timeoutTrace]
  have hmore : ∀ r : TraceRecord, r.event ≠ .bundleDelivered →
      ∀ r' ∈ (ns.timedOut t).map (timeoutTrace ns t) ++ [r], r'.event ≠ .bundleDelivered := by
    intro r hr r' hmem
    rcases List.mem_append.mp hmem with hmem | hmem
    · exact hswept r' hmem
    · rwa [List.mem_singleton.mp hmem]
  cases hs with
  | idle => exact .other _ rfl hswept
  | putBack b q' _ _ _ _ => exact .other _ rfl hswept
  | expired b q' _ _ | txFailed b q' _ _ _ _ | transmitted b q' _ _ _ _ =>
    exact .other _ (List.append_assoc _ _ _) (hmore _ (by simp))

/-- **Only a frame that comes in makes a node report a delivery.** -/
theorem nodeStep_news {op : NodeOp} (hs : nodeStep logf ns op = some ns') : NewsOf ns op ns' := by
  cases op with
  | generate dst cls msg t =>
    cases hs
    exact newsOf_generate ns dst cls msg t
  | receive t frame rssi =>
    obtain ⟨rc, hres⟩ := eq_ok_of_toOption_map hs
    exact newsOf_receive (receiveStep_of_ok hres)
  | tick t fuel sent =>
    obtain ⟨res, hres, rfl⟩ := Option.map_eq_some_iff.mp hs
    exact newsOf_tick (nodeTick_cases hres)
  | sendTimeSync t sent =>
    cases hs
    unfold nodeSendTimeSync
    split
    · exact .other [_] rfl (by simp)
    · exact .other [] (List.append_nil _).symm (by simp)
  | handleTimeSync localT frame =>
    obtain ⟨rc, hres⟩ := eq_ok_of_toOption_map hs
    obtain ⟨timeOffset, timeSynced, news, heq, hnews⟩ := nodeTryHandleTimeSync_reports hres
    have htrace : ns'.trace = ns.trace ++ news := congrArg NodeState.trace heq
    exact .other news htrace fun r hr => by simp [hnews r hr]

end

/-! ## Reports that are vouched for -/

section
variable {ι : Type} {ids : ι → NodeId}

/-- What is reported as delivered was built somewhere, for this node. -/
def DeliveriesVouch (ids : ι → NodeId) (log : List (Event ι NodeState NodeOp)) (i : ι)
    (ns : NodeState) : Prop :=
  NodeVouches ids log i ns ∧ ∀ r ∈ ns.trace, r.event = .bundleDelivered →
    ∃ b, HasOrigin ids log b ∧ b.dst = ids i ∧ ReportsDelivery r b

theorem nodeProgram_deliveries (logf : ℚ → ℚ) (ids : ι → NodeId) :
    Vouches (nodeProgram logf) (DeliveriesVouch ids) (FrameVouches ids) := by
  have hv := nodeProgram_vouches logf ids
  refine ⟨fun log e i ns h => ⟨hv.grows_party log e i ns h.1, fun r hr hevent => ?_⟩,
    hv.grows_message, fun log i ns op ns' h hheard hs =>
      ⟨hv.step log i ns op ns' h.1 hheard hs, fun r hr hevent => ?_⟩,
    fun log i ns op ns' h => hv.sends log i ns op ns' h.1⟩
  · obtain ⟨b, horigin, hdst, hreports⟩ := h.2 r hr hevent
    exact ⟨b, horigin.grows e, hdst, hreports⟩
  · obtain ⟨news, htrace, hnews⟩ := nodeStep_news hs
    rw [htrace] at hr
    rcases List.mem_append.mp hr with hr | hr
    · obtain ⟨b, horigin, hdst, hreports⟩ := h.2 r hr hevent
      exact ⟨b, horigin.grows _, hdst, hreports⟩
    · obtain ⟨t, frame, rssi, b, rfl, hdec, hdst, hreports⟩ := hnews r hr hevent
      exact ⟨b, (hheard frame rfl b hdec).grows _, hdst.trans h.1.1, hreports⟩

/-! ## End to end -/

variable [DecidableEq ι] {τ : ι → Type}

/-- **End to end**: a delivery that a node reports is of a bundle with a message that was typed
    for it, cut to what a bundle holds, at the node that the report names as its source; and the
    text of the report is made of these two. -/
theorem hosts_endToEnd (logf : ℚ → ℚ) (link : ∀ i, LoraLink (τ i)) (ids : ι → NodeId)
    (bufCap : ι → ℚ) (policy : ι → Option String) (plan : ι → ContactPlan) (synced : ι → Bool)
    (hinit : ∀ i, (loraInit (link i).vtable (link i).start (link i).cfg).1 = 0) (s : Hosts ι τ)
    (h : HostsReach logf link
      (fun i => freshNode (ids i) (bufCap i) (policy i) (plan i) (synced i)) s)
    (i : ι) (r : TraceRecord) (hr : r ∈ (s.host i).node.trace)
    (hdelivered : r.event = .bundleDelivered) :
    ∃ j cls msg t, (j, .generate (ids i) cls msg t) ∈ s.calls ∧
      r.args = [.u (ids j).toNat, .s (msg.take bundleMaxPayload)] ∧
      ∀ float, r.detail float =
        (deliveredText (ids j) (msg.take bundleMaxPayload)).take (traceDetailSize - 1) := by
  obtain ⟨n, hreach, hrefines⟩ := h.refines hinit
  have hstart : ∀ i, DeliveriesVouch ids [] i
      (freshNode (ids i) (bufCap i) (policy i) (plan i) (synced i)) := fun i =>
    ⟨⟨rfl, fun b hb => absurd hb List.not_mem_nil⟩, fun r hr => absurd hr List.not_mem_nil⟩
  have hv := hreach.vouched (nodeProgram_deliveries logf ids) hstart
  have hparty := hv.party i
  rw [hrefines.node i] at hparty
  obtain ⟨b, ⟨j, b₀, ⟨ns, dst, cls, msg, t, hbuilt, rfl⟩, hsrc, hsame⟩, hdst, hreports⟩ :=
    hparty.2 r hr hdelivered
  have hfor : dst = ids i := hsame.dst.symm.trans hdst
  have hcall := hrefines.built _ hbuilt dst cls msg t rfl
  rw [hfor] at hcall
  have hpayload : b.payload = msg.take bundleMaxPayload := hsame.payload
  refine ⟨j, cls, msg, t, hcall, ?_, fun float => ?_⟩
  · rw [hreports.args, hsrc, hpayload]
  · rw [hreports.detail float, hsrc, hpayload]

end

theorem hosts_endToEnd_pair : ∃ s r, HostsReach testLog pairLink pairNode s ∧
    r ∈ (s.host true).node.trace ∧ r.event = .bundleDelivered ∧
      ∃ j cls msg t, (j, .generate nodeB cls msg t) ∈ s.calls ∧
        r.args = [.u (testIds j).toNat, .s (msg.take bundleMaxPayload)] ∧
        ∀ float, r.detail float =
          (deliveredText (testIds j) (msg.take bundleMaxPayload)).take (traceDetailSize - 1) := by
  obtain ⟨s, hs, hdelivers⟩ := (Option.any_eq_true _ _).mp pairCalls_deliver
  obtain ⟨r, hr, hevent⟩ := List.any_eq_true.mp hdelivers
  have hreach : HostsReach testLog pairLink pairNode s := reaches_of_runAllowed .start hs
  have hdelivered := of_decide_eq_true hevent
  exact ⟨s, r, hreach, hr, hdelivered,
    hosts_endToEnd testLog pairLink testIds _ _ _ (fun _ => false) pairLink_init s hreach true r hr
      hdelivered⟩

end DtnHardware
