import DtnHardware.Core.Queue
import DtnHardware.Core.Custody
import DtnHardware.Core.Trace
import DtnHardware.Lib.Calls
import DtnHardware.Cgr.Select

/-!
# `node/forwarding` — the node

One `NodeState`, and the five entry points the platform loops call. The outside world is
in their arguments: the clock, the frame that arrived, what `lora_send` and `lora_rssi`
answered, and how many steps the route search is given — a tick whose search does not
return in time has no result.

The queue's return value is ignored wherever the source ignores it.
-/

set_option autoImplicit false

namespace DtnHardware

/-- `node_state_t`, with the generator's static counter. -/
structure NodeState where
  selfId : NodeId
  plan : ContactPlan
  queue : NodeQueue
  custody : CustodyManager
  cgrCfg : CgrConfig
  trace : List TraceRecord
  timeOffset : Flt
  timeSynced : Bool
  bundlesTx : UInt64
  bundlesRx : UInt64
  bundlesDelivered : UInt64
  lastRssi : Int32
  counter : UInt64

/-- `node_state_init`, the contact plan still empty. -/
def nodeStateInit (selfId : NodeId) (bufCap : ℚ) (policy : Option String) : NodeState :=
  { selfId
    plan := .empty
    queue := queueInit selfId bufCap policy
    custody := custodyInit custodyTimeoutDefault
    cgrCfg := cgrConfigDefault (.ofNat cgrMaxRoutesEsp)
    trace := []
    timeOffset := .fin 0
    timeSynced := false
    bundlesTx := 0
    bundlesRx := 0
    bundlesDelivered := 0
    lastRssi := 0
    counter := 1 }

/-- `tracer_emit` on the node's own behalf. -/
def NodeState.emit (ns : NodeState) (t : Flt) (event : TraceEvent) (bundleId : UInt64)
    (fmt : String) (args : List TraceArg) : NodeState :=
  { ns with trace := ns.trace ++ [{ t, node := ns.selfId, event, bundleId, fmt, args }] }

/-! ## Generating -/

/-- `3600.0f`: one hour. -/
def generatedTtl : F32 := ⟨0x45610000⟩

/-- The bundle that `node_generate_bundle` builds; `msg` is the text without its NUL. -/
def generatedBundle (ns : NodeState) (dst : NodeId) (cls : BundleClass) (msg : List UInt8)
    (t : F32) : Bundle :=
  let payload := msg.take bundleMaxPayload
  { Bundle.zero with
    bundleId := (ns.selfId.toUInt64 <<< 32) ||| ns.counter
    src := ns.selfId
    dst
    curr := ns.selfId
    cust := ns.selfId
    prio := cls.code.toUInt8
    bundleClass := cls.code
    tGen := t
    ttl := generatedTtl
    payload
    size := (41 + payload.length + 4).toUInt16 }

/-- `node_generate_bundle`: the bundle id, or `0`. -/
def nodeGenerateBundle (ns : NodeState) (dst : NodeId) (cls : BundleClass)
    (msg : List UInt8) (t : F32) : UInt64 × NodeState :=
  let b := generatedBundle ns dst cls msg t
  let ns := { ns with counter := ns.counter + 1 }
  let (rc, queue) := queueEnqueue ns.queue b
  let ns := { ns with queue }
  if rc < 0 then (0, ns)
  else
    (b.bundleId, ns.emit b.tGen.value .bundleGenerated b.bundleId "dst=%s msg_len=%u"
      [.s (nodeIdToStr dst), .u b.payload.length])

/-! ## Receiving -/

/-- `node_handle_received_frame`; `rssi` is what `lora_rssi` returned. -/
def nodeHandleReceivedFrame (ns : NodeState) (t : ℚ) (frame : List UInt8) (rssi : Int32) :
    Except Fault (Int × NodeState) := do
  match ← bundleDeserialize frame with
  | none =>
      return (-1, ns.emit (.fin t) .bundleDropped 0 "bad_frame len=%u" [.u frame.length])
  | some b =>
      let ns := { ns with bundlesRx := ns.bundlesRx + 1, lastRssi := rssi }
      if b.dst = ns.selfId then
        let ns := { ns with bundlesDelivered := ns.bundlesDelivered + 1 }
        let ns := ns.emit (.fin t) .bundleDelivered b.bundleId "from=%u msg=%.*s"
          [.u b.src.toNat, .s b.payload]
        return (0, { ns with custody := custodyRelease ns.custody b.bundleId })
      else if custodyCanAccept ns.custody b ns.selfId t (queueFree ns.queue)
          (some ns.queue.policy) then
        let b := { b with curr := ns.selfId }
        let c := contactPlanGet ns.plan b.src ns.selfId
        let (_, custody, b) := custodyTransfer ns.custody b c t
        let ns := { ns with custody }
        let ns := ns.emit (.fin t) .custodyAccepted b.bundleId "from=%u" [.u b.src.toNat]
        let ns := { ns with queue := (queueEnqueue ns.queue b).2 }
        return (0, ns.emit (.fin t) .bundleQueued b.bundleId "queue_len=%u"
          [.u ns.queue.slots.length])
      else
        return (0, ns.emit (.fin t) .bundleDropped b.bundleId "custody_rejected" [])

/-! ## Ticking -/

/-- `contact_consume` through a pointer into the plan. -/
def contactPlanConsume (cp : ContactPlan) (p : ContactPtr) (size : ℚ) : ContactPlan :=
  { contacts := cp.contacts.set p.slot (contactConsume p.contact size)
    bounded := by rw [List.length_set]; exact cp.bounded }

/-- What a tick comes to: the return value, the node, and the frame handed to `lora_send`
    if there was one. -/
structure TickResult where
  ret : Int
  state : NodeState
  frame : Option (List UInt8)

/-- Put a popped bundle back. -/
def NodeState.requeue (ns : NodeState) (b : Bundle) : NodeState :=
  { ns with queue := (queueEnqueue ns.queue b).2 }

/-- The call of `cgr_select_route` for `b`. -/
def NodeState.cgrCall (logf : ℚ → ℚ) (ns : NodeState) (b : Bundle) (t : ℚ) : CgrCall :=
  { logf, cp := ns.plan, b, t, cfg := ns.cgrCfg }

def txFrameCap : Nat := 256

/-- `try_send_one`; `sent` is what `lora_send` returns if it is called. `none` when the
    route search has not returned within `fuel` steps. -/
def trySendOne (logf : ℚ → ℚ) (ns : NodeState) (t : ℚ) (fuel : Nat) (sent : Int) :
    Option TickResult :=
  match queuePopNext ns.queue t with
  | none => some ⟨0, ns, none⟩
  | some (b, queue) =>
      let ns := { ns with queue }
      if !bundleIsAlive b t then
        let ns := ns.emit (.fin t) .bundleExpired b.bundleId "ttl_exceeded" []
        some ⟨0, { ns with custody := custodyRelease ns.custody b.bundleId }, none⟩
      else
        match cgrSelectRoute (ns.cgrCall logf b t) fuel with
        | .running => none
        | .fault _ => none
        | .noRoute => some ⟨0, ns.requeue b, none⟩
        | .route r =>
            match r.hops[0]? with
            | none => none
            | some first =>
                if !contactIsFeasibleFor first.contact b.bytes t then
                  some ⟨0, ns.requeue b, none⟩
                else
                  match bundleSerialize b txFrameCap with
                  | none => some ⟨0, ns.requeue b, none⟩
                  | some frame =>
                      if sent > 0 then
                        let ns := { ns with
                          plan := contactPlanConsume ns.plan first b.bytes
                          bundlesTx := ns.bundlesTx + 1 }
                        some ⟨1, ns.emit (.fin t) .bundleTxStart b.bundleId
                          "next_hop=%u via_contact=%u->%u"
                          [.u first.contact.toNode.toNat, .u first.contact.frm.toNat,
                            .u first.contact.toNode.toNat], some frame⟩
                      else
                        some ⟨1, (ns.requeue b).emit (.fin t) .bundleDropped b.bundleId
                          "tx_failed" [], some frame⟩

/-- What the timeout loop reports of a record it releases. -/
def timeoutTrace (ns : NodeState) (t : ℚ) (r : CustodyRecord) : TraceRecord :=
  { t := .fin t, node := ns.selfId, event := .custodyTimeout, bundleId := r.bundleId,
    fmt := "custodian=%u", args := [.u r.custodian.toNat] }

/-- Step 1 of `node_tick`: the custody timeouts. -/
def NodeState.sweep (ns : NodeState) (t : ℚ) : NodeState :=
  let (out, custody) := custodySweep t ns.custody.records.length 0 ns.custody
  { ns with custody, trace := ns.trace ++ out.map (timeoutTrace ns t) }

/-- The records that `node_tick` at `t` finds timed out and releases. -/
def NodeState.timedOut (ns : NodeState) (t : ℚ) : List CustodyRecord :=
  (custodySweep t ns.custody.records.length 0 ns.custody).1

/-- `node_tick`. -/
def nodeTick (logf : ℚ → ℚ) (ns : NodeState) (t : ℚ) (fuel : Nat) (sent : Int) :
    Option TickResult :=
  (trySendOne logf (ns.sweep t) t fuel sent).map fun r => { r with ret := 0 }

/-! ## Time sync -/

def timeSyncMagic : UInt16 := 0x5453

/-- The six bytes of a time-sync frame. -/
def timeSyncFrame (t : F32) : List UInt8 := putU16 timeSyncMagic ++ putF32 t

/-- `node_send_time_sync`; `sent` is what `lora_send` returned for `timeSyncFrame t`. -/
def nodeSendTimeSync (ns : NodeState) (t : F32) (sent : Int) : Int × NodeState :=
  if sent > 0 then
    (0, ns.emit t.value .bundleGenerated 0 "time_sync t=%.1f" [.f t.value])
  else (-1, ns)

/-- `node_try_handle_time_sync`; `localT` is the clock as the platform passes it. -/
def nodeTryHandleTimeSync (ns : NodeState) (localT : Flt) (frame : List UInt8) :
    Except Fault (Int × NodeState) := do
  if frame.length < 6 then return (0, ns)
  if (← getU16 frame 0) ≠ timeSyncMagic then return (0, ns)
  let gs ← getF32 frame 2
  let gsTime := gs.value
  let ns := { ns with timeOffset := gsTime.sub localT, timeSynced := true }
  return (1, ns.emit localT .bundleArrived 0 "time_sync gs=%.1f offset=%.1f"
    [.f gsTime, .f ns.timeOffset])

/-- The node's DTN time at the raw clock `r`, as both platforms compute it. -/
def NodeState.dtnTime (ns : NodeState) (r : ℚ) : Flt := (Flt.fin r).add ns.timeOffset

/-! ## Runs -/

/-- One call by the platform. -/
inductive NodeOp where
  | generate (dst : NodeId) (cls : BundleClass) (msg : List UInt8) (t : F32)
  | receive (t : ℚ) (frame : List UInt8) (rssi : Int32)
  | tick (t : ℚ) (fuel : Nat) (sent : Int)
  | sendTimeSync (t : F32) (sent : Int)
  | handleTimeSync (localT : Flt) (frame : List UInt8)

/-- The node after the call; `none` when it does not come back. -/
def nodeStep (logf : ℚ → ℚ) (ns : NodeState) : NodeOp → Option NodeState
  | .generate dst cls msg t => some (nodeGenerateBundle ns dst cls msg t).2
  | .receive t frame rssi => (nodeHandleReceivedFrame ns t frame rssi).toOption.map Prod.snd
  | .tick t fuel sent => (nodeTick logf ns t fuel sent).map TickResult.state
  | .sendTimeSync t sent => some (nodeSendTimeSync ns t sent).2
  | .handleTimeSync localT frame =>
      (nodeTryHandleTimeSync ns localT frame).toOption.map Prod.snd

/-- A node after `node_state_init` and the assignment of its contact plan. -/
def nodeStart (selfId : NodeId) (bufCap : ℚ) (policy : Option String) (plan : ContactPlan) :
    NodeState := { nodeStateInit selfId bufCap policy with plan }

/-- The states that calls from `ns₀` on lead to when each call satisfies `ok`. -/
abbrev NodeReaches (logf : ℚ → ℚ) (ok : NodeState → NodeOp → Prop) (ns₀ : NodeState) :
    NodeState → Prop := GuardedCalls.Reaches (nodeStep logf) ok ns₀

/-- The states that calls of any kind lead to. -/
abbrev NodeReachable (logf : ℚ → ℚ) (ns₀ : NodeState) : NodeState → Prop :=
  NodeReaches logf (fun _ _ => True) ns₀

end DtnHardware
