import DtnHardware.Lib.Conservation
import DtnHardware.Node.Ledger
import DtnHardware.Node.Network

/-!
# How often a bundle is delivered

Nothing in the engine looks for a bundle that it has seen before, once the custody record is
gone. That a bundle is not delivered twice rests on each of its holders passing it on whole: a
tick takes it off the queue for good when the radio reports it sent, and a frame that is heard is
off the air. So there are two ways to get a second one, and the engine is in neither:

> **a bundle is delivered once, and once more for each copy the channel makes and each send that
> goes on the air but is not reported** (`network_deliversOnce`).

The channel of this file may deliver a frame to any node, delay, lose and copy it. The count is
over all deliveries at all nodes together with what is still queued and on the air, and it needs
that the ids that nodes give out are different, which is a budget of the same kind: a node starts
with the right to use each of its ids once.
-/

set_option autoImplicit false

namespace DtnHardware

open Conservation GuardedCalls

/-! ## What is counted -/

/-- The bundle in a frame. -/
def frameBundle (frame : List UInt8) : Option Bundle := (bundleDeserialize frame).toOption.join

theorem frameBundle_eq_some {frame : List UInt8} {b : Bundle} :
    frameBundle frame = some b ↔ bundleDeserialize frame = .ok (some b) := by
  obtain ⟨o, hdec⟩ := bundleDeserialize_ok frame
  rw [frameBundle, hdec]
  simp [Except.toOption]

/-- The frame carries the bundle `id`. -/
def carriesId (id : UInt64) (frame : List UInt8) : ℕ :=
  if (frameBundle frame).any fun b => b.bundleId = id then 1 else 0

/-- The call gives out `id`. -/
def generates (id : UInt64) (ns : NodeState) : NodeOp → ℕ
  | .generate _ _ _ _ => if ownId ns.selfId ns.counter = id then 1 else 0
  | _ => 0

/-- The call hands the bundle `id` to the radio, which does not report it as sent. -/
def unreported (logf : ℚ → ℚ) (id : UInt64) (ns : NodeState) : NodeOp → ℕ
  | .tick t fuel sent =>
    if sent > 0 then 0 else load (carriesId id) (framesSent logf ns (.tick t fuel sent))
  | _ => 0

/-- The call delivers the bundle `id`. -/
def delivers (id : UInt64) (ns : NodeState) : NodeOp → ℕ
  | .receive _ frame _ =>
    if (frameBundle frame).any fun b => b.dst = ns.selfId ∧ b.bundleId = id then 1 else 0
  | _ => 0

/-- Fewer than 2^32 bundles are generated at a node. -/
def CounterFits (ns : NodeState) : NodeOp → Prop
  | .generate _ _ _ _ => ns.counter.toNat < 2 ^ 32
  | _ => True

section
variable {logf : ℚ → ℚ} {ns ns' : NodeState} {id : UInt64}

theorem carriesId_of_decodes {frame : List UInt8} {b : Bundle}
    (h : bundleDeserialize frame = .ok (some b)) :
    carriesId id frame = if b.bundleId = id then 1 else 0 := by
  rw [carriesId, frameBundle_eq_some.mpr h]
  simp

theorem carriesId_timeSyncFrame (t : F32) : carriesId id (timeSyncFrame t) = 0 := rfl

/-! ## A bundle is passed on whole -/

theorem flow_receive (id : UInt64) {t : ℚ} {frame : List UInt8} {rssi : Int32} {res : Int × NodeState}
    (h : ReceiveStep ns t frame rssi res) :
    queuedWith res.2.queue id + delivers id ns (.receive t frame rssi) ≤
      queuedWith ns.queue id + carriesId id frame := by
  cases h with
  | badFrame hdec =>
    have hnone : frameBundle frame = none := by
      rw [frameBundle, hdec]
      rfl
    simp [delivers, hnone, NodeState.emit]
  | delivered b hdec hhere =>
    simp [delivers, frameBundle_eq_some.mpr hdec, carriesId_of_decodes hdec, hhere,
      NodeState.delivering, NodeState.emit, NodeState.heard]
  | accepted b hdec haway _ =>
    have henq := queuedWith_enqueue_le ns.queue (frameTransfer (ns.heard rssi) b t).2.2 id
    obtain ⟨cust, hb⟩ := frameTransfer_bundle (ns.heard rssi) b t
    have hid : (frameTransfer (ns.heard rssi) b t).2.2.bundleId = b.bundleId := by rw [hb]
    rw [hid] at henq
    have hnone : delivers id ns (.receive t frame rssi) = 0 := by
      simp [delivers, frameBundle_eq_some.mpr hdec, haway]
    rw [carriesId_of_decodes hdec, hnone]
    exact henq
  | rejected b hdec haway _ =>
    simp [delivers, frameBundle_eq_some.mpr hdec, haway, NodeState.emit, NodeState.heard]

theorem flow_tick (id : UInt64) {t : ℚ} {fuel : Nat} {sent : Int} {res : TickResult}
    (h : nodeTick logf ns t fuel sent = some res) :
    queuedWith res.state.queue id + load (carriesId id) res.frame.toList ≤
      queuedWith ns.queue id + if sent > 0 then 0 else load (carriesId id) res.frame.toList := by
  cases nodeTick_cases h with
  | idle _ => simp [load, NodeState.sweep]
  | expired b q' hpop _ =>
    rw [queuedWith_of_perm (queuePopNext_perm hpop)]
    simp [load, NodeState.popped, NodeState.emit]
  | putBack b q' hpop _ _ _ =>
    simpa [load, NodeState.requeue, NodeState.popped] using queuedWith_requeue_le hpop id
  | txFailed b q' first frame hands hfails =>
    rw [if_neg hfails]
    exact Nat.add_le_add_right (queuedWith_requeue_le hands.pop id) _
  | transmitted b q' first frame hands hsent =>
    -- the round trip: the frame carries the bundle that was popped
    have hframe : carriesId id frame = if b.arrived.bundleId = id then 1 else 0 :=
      carriesId_of_decodes (bundleDeserialize_of_serialize hands.framed)
    rw [if_pos hsent, queuedWith_of_perm (queuePopNext_perm hands.pop)]
    simp only [load, Option.toList_some, List.map_cons, List.map_nil, List.sum_cons, List.sum_nil,
      hframe, NodeState.sentOver, NodeState.emit, NodeState.popped]
    exact le_refl _

/-- The frames of a tick, as it came out. -/
theorem framesSent_tick {t : ℚ} {fuel : Nat} {sent : Int} {res : TickResult}
    (h : nodeTick logf ns t fuel sent = some res) :
    framesSent logf ns (.tick t fuel sent) = res.frame.toList := by
  rw [framesSent, h]
  rfl

/-- **No call multiplies a bundle**: what is queued, sent and delivered of it after the call was
    queued before, heard, given out by the call, or sent and not reported. -/
theorem flow_step {op : NodeOp} (hs : nodeStep logf ns op = some ns') :
    queuedWith ns'.queue id + load (carriesId id) (framesSent logf ns op) + delivers id ns op ≤
      queuedWith ns.queue id + ((frameHeard op).map (carriesId id)).getD 0 +
        (generates id ns op + unreported logf id ns op) := by
  cases op with
  | generate dst cls msg t =>
    cases hs
    obtain ⟨_, heq⟩ := nodeGenerateBundle_frame ns dst cls msg t
    have henq := queuedWith_enqueue_le ns.queue (generatedBundle ns dst cls msg t) id
    have hid : (generatedBundle ns dst cls msg t).bundleId = ownId ns.selfId ns.counter := rfl
    rw [hid] at henq
    rw [heq]
    simpa [framesSent, frameHeard, load, delivers, unreported, generates] using henq
  | receive t frame rssi =>
    obtain ⟨rc, hres⟩ := eq_ok_of_toOption_map hs
    have hflow := flow_receive id (receiveStep_of_ok hres)
    simpa [framesSent, frameHeard, load, generates, unreported] using hflow
  | tick t fuel sent =>
    obtain ⟨res, hres, rfl⟩ := Option.map_eq_some_iff.mp hs
    have hflow := flow_tick id hres
    simp only [unreported, framesSent_tick hres, generates, delivers, frameHeard]
    simpa using hflow
  | sendTimeSync t sent =>
    cases hs
    obtain ⟨_, heq⟩ := nodeSendTimeSync_frame ns t sent
    rw [heq]
    simp [framesSent, frameHeard, load, delivers, unreported, generates, carriesId_timeSyncFrame]
  | handleTimeSync localT frame =>
    obtain ⟨rc, hres⟩ := eq_ok_of_toOption_map hs
    obtain ⟨_, _, _, heq⟩ := nodeTryHandleTimeSync_frame hres
    dsimp only at heq
    rw [heq]
    simp [framesSent, frameHeard, load, delivers, unreported, generates]

end

/-- The bundle `id`: queued, on the air, and delivered. -/
def flowBudget (logf : ℚ → ℚ) (id : UInt64) : Budget (nodeProgram logf) CounterFits where
  held ns := queuedWith ns.queue id
  carried := carriesId id
  made ns op := generates id ns op + unreported logf id ns op
  used := delivers id
  step _ _ _ _ hs := flow_step hs

/-! ## An id is given out once -/

/-- The node has yet to give out `id`. -/
def StillOwns (id : UInt64) (ns : NodeState) : Prop :=
  ns.selfId.toNat = id.toNat / 2 ^ 32 ∧ ns.counter.toNat ≤ id.toNat % 2 ^ 32

instance (id : UInt64) (ns : NodeState) : Decidable (StillOwns id ns) :=
  inferInstanceAs (Decidable (_ ∧ _))

theorem ownId_stillOwns {ns : NodeState} {id : UInt64} (hfits : ns.counter.toNat < 2 ^ 32)
    (h : ownId ns.selfId ns.counter = id) :
    ns.selfId.toNat = id.toNat / 2 ^ 32 ∧ ns.counter.toNat = id.toNat % 2 ^ 32 := by
  have hnat := toNat_ownId ns.selfId hfits
  rw [h] at hnat
  omega

/-- **An id that is given out is used up**, as the counter moves past it. -/
theorem generates_step {logf : ℚ → ℚ} {ns ns' : NodeState} {op : NodeOp} (id : UInt64)
    (hfits : CounterFits ns op) (hs : nodeStep logf ns op = some ns') :
    (if StillOwns id ns' then 1 else 0) + generates id ns op ≤ if StillOwns id ns then 1 else 0 := by
  obtain ⟨hself, _⟩ := nodeStep_stores hs
  rcases nodeStep_counter hs with ⟨dst, cls, msg, t, rfl, hcount⟩ | ⟨hop, hcount⟩
  · have hbound : ns.counter.toNat < 2 ^ 32 := hfits
    have hnext : ns'.counter.toNat = ns.counter.toNat + 1 := by
      rw [hcount, UInt64.toNat_add, UInt64.toNat_one, Nat.mod_eq_of_lt (by omega)]
    by_cases hid : ownId ns.selfId ns.counter = id
    · obtain ⟨hnode, hnum⟩ := ownId_stillOwns hbound hid
      have hnow : StillOwns id ns := ⟨hnode, hnum.le⟩
      have hpast : ¬ StillOwns id ns' := fun h => by
        have := h.2
        omega
      simp [generates, hid, hnow, hpast]
    · have hkeeps : StillOwns id ns' → StillOwns id ns := by
        intro h
        rw [StillOwns, hself] at h
        exact ⟨h.1, by omega⟩
      by_cases h' : StillOwns id ns'
      · simp [generates, hid, h', hkeeps h']
      · simp [generates, hid, h']
  · have hnone : generates id ns op = 0 := by
      cases op with
      | generate dst cls msg t => exact absurd rfl (hop dst cls msg t)
      | receive | tick | sendTimeSync | handleTimeSync => rfl
    have hsame : StillOwns id ns' ↔ StillOwns id ns := by
      rw [StillOwns, StillOwns, hself, hcount]
    simp [hnone, hsame]

/-- The right to give out `id`. -/
def nameBudget (logf : ℚ → ℚ) (id : UInt64) : Budget (nodeProgram logf) CounterFits where
  held ns := if StillOwns id ns then 1 else 0
  carried _ := 0
  made _ _ := 0
  used := generates id
  step ns op ns' hfits hs := by
    have hstep := generates_step id hfits hs
    have hnothing : ((((nodeProgram logf).sends ns op).map fun _ => 0).sum : ℕ) = 0 := by simp
    have hsilent : (((nodeProgram logf).hears op).map fun _ => 0).getD 0 = 0 := by
      cases (nodeProgram logf).hears op <;> rfl
    omega

/-! ## Networks -/

section
variable {ι : Type} [Fintype ι]

/-- Nodes with distinct ids own an id between them at most once. -/
theorem sum_stillOwns_le (id : UInt64) {nodes : ι → NodeState}
    (hids : Function.Injective fun i => (nodes i).selfId) :
    ∑ i, (if StillOwns id (nodes i) then 1 else 0) ≤ 1 := by
  rw [← Finset.card_filter]
  refine Finset.card_le_one.mpr fun i hi j hj => hids ?_
  have hi := (Finset.mem_filter.mp hi).2.1
  have hj := (Finset.mem_filter.mp hj).2.1
  exact UInt32.toNat_inj.mp (hi.trans hj.symm)

variable [DecidableEq ι]

/-- **A bundle is delivered once**, and once more for each copy the channel makes and each send
    that is not reported. The count is over all the deliveries of the run, at any nodes, and what
    is queued or on the air at the end of it. -/
theorem network_deliversOnce (logf : ℚ → ℚ) (ids : ι → NodeId) (hids : Function.Injective ids)
    (bufCap : ι → ℚ) (policy : ι → Option String) (plan : ι → ContactPlan)
    (s : Net ι NodeState NodeOp (List UInt8))
    (h : NetReaches (nodeProgram logf) CounterFits
      (.start fun i => nodeStart (ids i) (bufCap i) (policy i) (plan i)) s) (id : UInt64) :
    total (delivers id) s.log + ∑ i, queuedWith (s.parties i).queue id +
        load (carriesId id) s.air ≤
      1 + total (unreported logf id) s.log + load (carriesId id) s.copies := by
  have hflow := h.budget (flowBudget logf id)
  have hgiven : total (generates id) s.log ≤ 1 :=
    (h.used_le (nameBudget logf id) (fun _ _ => rfl) (fun _ => rfl)).trans
      (sum_stillOwns_le id hids)
  have hempty : ∑ i, queuedWith (nodeStart (ids i) (bufCap i) (policy i) (plan i)).queue id = 0 :=
    Finset.sum_eq_zero fun _ _ => rfl
  have hmade : total (fun ns op => generates id ns op + unreported logf id ns op) s.log =
      total (generates id) s.log + total (unreported logf id) s.log := by
    simp [total, List.sum_map_add]
  unfold Conservation.Balanced flowBudget at hflow
  dsimp only at hflow
  omega

end

instance (ns : NodeState) (op : NodeOp) : Decidable (CounterFits ns op) :=
  match op with
  | .generate _ _ _ _ => inferInstanceAs (Decidable (ns.counter.toNat < 2 ^ 32))
  | .receive _ _ _ => .isTrue trivial
  | .tick _ _ _ => .isTrue trivial
  | .sendTimeSync _ _ => .isTrue trivial
  | .handleTimeSync _ _ => .isTrue trivial

/-- `AAAA` and `BBBB`, with a link from the one to the other. -/
def testPair (i : Bool) : NodeState :=
  nodeStart (testIds i) 10000 none (.ofList [testLink nodeA nodeB 0 60])

/-- `AAAA` generates a bundle for `BBBB` and sends it; the channel copies the frame, and both
    are delivered. -/
def testCopied : List (Act Bool NodeOp (List UInt8)) :=
  let frame := wireFrame (generatedBundle (testPair false) nodeB .science [] F32.zero)
  [.call false (.generate nodeB .science [] F32.zero), .call false (.tick 1 10 1), .copy frame,
    .call true (.receive 2 frame 0), .call true (.receive 3 frame 0)]

/-- One copy, two deliveries. -/
theorem network_deliversOnce_testCopied : ∃ s,
    NetReaches (nodeProgram testLog) CounterFits (.start testPair) s ∧
      total (delivers (ownId nodeA 1)) s.log = 2 ∧
      total (delivers (ownId nodeA 1)) s.log +
          ∑ i, queuedWith (s.parties i).queue (ownId nodeA 1) +
          load (carriesId (ownId nodeA 1)) s.air ≤
        1 + total (unreported testLog (ownId nodeA 1)) s.log +
          load (carriesId (ownId nodeA 1)) s.copies := by
  have hrun : (runAllowed (netStep (nodeProgram testLog))
      (Possible (nodeProgram testLog) CounterFits) (.start testPair) testCopied).any (fun s =>
        decide (total (delivers (ownId nodeA 1)) s.log = 2)) = true := by decide +kernel
  obtain ⟨s, hs, htwice⟩ := (Option.any_eq_true _ _).mp hrun
  have hreach : NetReaches (nodeProgram testLog) CounterFits (.start testPair) s :=
    reaches_of_runAllowed .start hs
  exact ⟨s, hreach, of_decide_eq_true htwice,
    network_deliversOnce testLog testIds (by decide) _ _ _ s hreach (ownId nodeA 1)⟩

end DtnHardware
