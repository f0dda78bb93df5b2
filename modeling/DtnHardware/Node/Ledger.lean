import DtnHardware.Node.Admission

/-!
# What the trace says about the queue

A node reports what comes in and what goes out, and counts some of it. Nothing in the engine
reads either, so they are only as good as the engine is disciplined about them: a bundle that is
put back must not be reported as gone, one that is refused must not be reported as taken. The
books do close, bundle by bundle:

> **sent, expired and still queued is never more than generated and taken over**
> (`nodeReachable_flows`), for every id and in every run, whatever frames arrive.

It is not an equation: a bundle that is evicted for another, or taken over into a full queue, is
not reported as lost. The three counters of the status line agree with the trace exactly
(`nodeReachable_counts`).
-/

set_option autoImplicit false

namespace DtnHardware

open GuardedCalls

/-! ## Counting -/

/-- The queued bundles with an id. -/
def queuedWith (q : NodeQueue) (id : UInt64) : ℕ := q.slots.countP fun b => b.bundleId = id

/-- The reports of an event about a bundle. -/
def reports (event : TraceEvent) (id : UInt64) (trace : List TraceRecord) : ℕ :=
  trace.countP fun r => r.event = event ∧ r.bundleId = id

/-- The reports of an event. -/
def reportsOf (event : TraceEvent) (trace : List TraceRecord) : ℕ :=
  trace.countP fun r => r.event = event

/-- The reports of a bundle that was refused. -/
def refusals (trace : List TraceRecord) : ℕ :=
  trace.countP fun r => r.event = .bundleDropped ∧ r.fmt = "custody_rejected"

/-- The bundles that were received, by what was reported of them. -/
def received (trace : List TraceRecord) : ℕ :=
  reportsOf .bundleDelivered trace + reportsOf .custodyAccepted trace + refusals trace

@[simp] theorem reports_append (event : TraceEvent) (id : UInt64) (as bs : List TraceRecord) :
    reports event id (as ++ bs) = reports event id as + reports event id bs :=
  List.countP_append

@[simp] theorem reportsOf_append (event : TraceEvent) (as bs : List TraceRecord) :
    reportsOf event (as ++ bs) = reportsOf event as + reportsOf event bs := List.countP_append

@[simp] theorem refusals_append (as bs : List TraceRecord) :
    refusals (as ++ bs) = refusals as + refusals bs := List.countP_append

@[simp] theorem reports_cons (event : TraceEvent) (id : UInt64) (r : TraceRecord)
    (rs : List TraceRecord) : reports event id (r :: rs) =
      reports event id rs + if r.event = event ∧ r.bundleId = id then 1 else 0 := by
  simp [reports, List.countP_cons]

@[simp] theorem reportsOf_cons (event : TraceEvent) (r : TraceRecord) (rs : List TraceRecord) :
    reportsOf event (r :: rs) = reportsOf event rs + if r.event = event then 1 else 0 := by
  simp [reportsOf, List.countP_cons]

@[simp] theorem refusals_cons (r : TraceRecord) (rs : List TraceRecord) :
    refusals (r :: rs) = refusals rs +
      if r.event = .bundleDropped ∧ r.fmt = "custody_rejected" then 1 else 0 := by
  simp [refusals, List.countP_cons]

@[simp] theorem reports_nil (event : TraceEvent) (id : UInt64) : reports event id [] = 0 := rfl

@[simp] theorem reportsOf_nil (event : TraceEvent) : reportsOf event [] = 0 := rfl

@[simp] theorem refusals_nil : refusals [] = 0 := rfl

/-! ## The queue -/

theorem queuedWith_of_perm {q q' : NodeQueue} {b : Bundle} (h : q.slots.Perm (b :: q'.slots))
    (id : UInt64) :
    queuedWith q id = queuedWith q' id + if b.bundleId = id then 1 else 0 := by
  have hcount := h.countP_eq fun x => decide (x.bundleId = id)
  simpa [queuedWith, List.countP_cons] using hcount

/-- **What is offered to a queue is counted once**, and not at all if the queue says so. -/
theorem Enqueued.queuedWith_le {q q' : NodeQueue} {b : Bundle} {rc : Int}
    (h : Enqueued q b rc q') (id : UInt64) :
    queuedWith q' id ≤ queuedWith q id + if rc < 0 then 0 else if b.bundleId = id then 1 else 0 := by
  have hmore : ∀ qs : NodeQueue, queuedWith { qs with slots := qs.slots ++ [b] } id =
      queuedWith qs id + if b.bundleId = id then 1 else 0 :=
    fun qs => queuedWith_of_perm (List.perm_append_singleton b qs.slots) id
  have hless : ∀ {i v}, q.slots[i]? = some v → queuedWith (q.without i) id ≤ queuedWith q id := by
    intro i v hget
    have hperm : q.slots.Perm (v :: (q.without i).slots) := ArrayLoops.perm_swapRemove hget
    have := queuedWith_of_perm hperm id
    omega
  cases h with
  | full _ | noPressure _ _ _ | noVictim _ _ _ _ => simp
  | fits _ _ => simpa using (hmore q).le
  | evictedInVain i v _ _ _ _ hget _ => exact (hless hget).trans (Nat.le_add_right _ _)
  | preempted i v _ _ _ _ hget _ =>
    exact (hmore (q.without i)).le.trans (Nat.add_le_add_right (hless hget) _)

theorem queuedWith_enqueue_le (q : NodeQueue) (b : Bundle) (id : UInt64) :
    queuedWith (queueEnqueue q b).2 id ≤ queuedWith q id + if b.bundleId = id then 1 else 0 := by
  have henq := (queueEnqueue_cases q b).queuedWith_le id
  split at henq <;> omega

/-- A popped bundle that is put back is counted as before. -/
theorem queuedWith_requeue_le {q q' : NodeQueue} {t : ℚ} {b : Bundle}
    (hpop : queuePopNext q t = some (b, q')) (id : UInt64) :
    queuedWith (queueEnqueue q' b).2 id ≤ queuedWith q id := by
  rw [queuedWith_of_perm (queuePopNext_perm hpop)]
  exact queuedWith_enqueue_le q' b id

/-! ## The books -/

/-- The books of a bundle: what is gone or still here was reported as it came in. -/
def Flows (ns : NodeState) (id : UInt64) : Prop :=
  queuedWith ns.queue id + reports .bundleTxStart id ns.trace + reports .bundleExpired id ns.trace ≤
    reports .bundleGenerated id ns.trace + reports .custodyAccepted id ns.trace

/-- The three counters of the status line, which wrap around. -/
structure CountsTrue (ns : NodeState) : Prop where
  tx : ns.bundlesTx = .ofNat (reportsOf .bundleTxStart ns.trace)
  delivered : ns.bundlesDelivered = .ofNat (reportsOf .bundleDelivered ns.trace)
  rx : ns.bundlesRx = .ofNat (received ns.trace)

/-- The sweep reports timeouts and nothing else. -/
theorem NodeState.reports_sweep (ns : NodeState) (t : ℚ) (event : TraceEvent)
    (h : event ≠ .custodyTimeout) (id : UInt64) :
    reports event id (ns.sweep t).trace = reports event id ns.trace := by
  have hnone : reports event id ((ns.timedOut t).map (timeoutTrace ns t)) = 0 := by
    simp [reports, List.countP_eq_zero, timeoutTrace, h.symm]
  have htrace : (ns.sweep t).trace = ns.trace ++ (ns.timedOut t).map (timeoutTrace ns t) := rfl
  rw [htrace, reports_append, hnone, Nat.add_zero]

/-- A bundle that is taken is reported as accepted, and then as queued. -/
theorem NodeState.taking_reports (ns : NodeState) (t : ℚ) (b : Bundle) :
    ∃ queued : TraceRecord, queued.event = .bundleQueued ∧
      (ns.taking t b).trace = ns.trace ++
        [{ t := .fin t, node := ns.selfId, event := .custodyAccepted,
           bundleId := (frameTransfer ns b t).2.2.bundleId, fmt := "from=%u",
           args := [.u (frameTransfer ns b t).2.2.src.toNat] }] ++ [queued] ∧
      (ns.taking t b).queue = (queueEnqueue ns.queue (frameTransfer ns b t).2.2).2 :=
  ⟨_, rfl, rfl, rfl⟩

/-- What a time-sync frame makes a node report. -/
theorem nodeTryHandleTimeSync_reports {ns : NodeState} {localT : Flt} {frame : List UInt8}
    {res : Int × NodeState} (h : nodeTryHandleTimeSync ns localT frame = .ok res) :
    ∃ timeOffset timeSynced news,
      res.2 = { ns with timeOffset, timeSynced, trace := ns.trace ++ news } ∧
        ∀ r ∈ news, r.event = .bundleArrived := by
  have hnothing : ∃ timeOffset timeSynced news,
      ns = { ns with timeOffset, timeSynced, trace := ns.trace ++ news } ∧
        ∀ r ∈ news, r.event = .bundleArrived :=
    ⟨ns.timeOffset, ns.timeSynced, [], by rw [List.append_nil], by simp⟩
  unfold nodeTryHandleTimeSync at h
  split at h
  · cases h
    exact hnothing
  · cases hmagic : getU16 frame 0 with
    | error e =>
      rw [hmagic] at h
      cases h
    | ok magic =>
      rw [hmagic] at h
      dsimp only [bind, Except.bind] at h
      split at h
      · cases h
        exact hnothing
      · cases hgs : getF32 frame 2 with
        | error e =>
          rw [hgs] at h
          cases h
        | ok gs =>
          rw [hgs] at h
          cases h
          exact ⟨_, _, _, rfl, by simp⟩

/-! ## One call -/

section
variable {logf : ℚ → ℚ} {ns : NodeState} {id : UInt64}

theorem Flows.generate (h : Flows ns id) (dst : NodeId) (cls : BundleClass) (msg : List UInt8)
    (t : F32) : Flows (nodeGenerateBundle ns dst cls msg t).2 id := by
  have henq := (queueEnqueue_cases ns.queue (generatedBundle ns dst cls msg t)).queuedWith_le id
  unfold Flows at h ⊢
  unfold nodeGenerateBundle
  dsimp only
  by_cases hrc : (queueEnqueue ns.queue (generatedBundle ns dst cls msg t)).1 < 0
  · rw [if_pos hrc] at henq ⊢
    dsimp only
    omega
  · rw [if_neg hrc] at henq ⊢
    simp only [NodeState.emit, reports_append, reports_cons, reports_nil]
    split at henq <;> simp_all <;> omega

theorem Flows.receive {t : ℚ} {frame : List UInt8} {rssi : Int32} {res : Int × NodeState}
    (h : Flows ns id) (hs : ReceiveStep ns t frame rssi res) : Flows res.2 id := by
  unfold Flows at h ⊢
  cases hs with
  | badFrame | delivered | rejected =>
    simpa [NodeState.emit, NodeState.heard, NodeState.delivering] using h
  | accepted b hdec haway hacc =>
    have henq := queuedWith_enqueue_le ns.queue (frameTransfer (ns.heard rssi) b t).2.2 id
    obtain ⟨queued, hqueued, htrace, hqueue⟩ := (ns.heard rssi).taking_reports t b
    have hold : (ns.heard rssi).trace = ns.trace := rfl
    have hbefore : (ns.heard rssi).queue = ns.queue := rfl
    rw [htrace, hqueue, hold, hbefore]
    simp only [reports_append, reports_cons, reports_nil, hqueued, reduceCtorEq, false_and, true_and, if_false,
      Nat.add_zero]
    omega

theorem Flows.tick {t : ℚ} {fuel : Nat} {sent : Int} {res : TickResult} (h : Flows ns id)
    (hs : TickStep logf ns t fuel sent res) : Flows res.state id := by
  unfold Flows at h ⊢
  -- the sweep reports nothing that is counted
  rw [← ns.reports_sweep t .bundleTxStart (by decide),
    ← ns.reports_sweep t .bundleExpired (by decide),
    ← ns.reports_sweep t .bundleGenerated (by decide),
    ← ns.reports_sweep t .custodyAccepted (by decide)] at h
  cases hs with
  | idle => exact h
  | expired b q' hpop _ =>
    rw [queuedWith_of_perm (queuePopNext_perm hpop)] at h
    simp only [NodeState.emit, NodeState.popped, reports_append, reports_cons, reports_nil, reduceCtorEq,
      false_and, true_and, if_false, Nat.add_zero]
    omega
  | putBack b q' hpop _ _ _ =>
    have := queuedWith_requeue_le hpop id
    exact le_trans (by simpa [NodeState.requeue, NodeState.popped] using this) h
  | txFailed b q' first frame hands _ =>
    have := queuedWith_requeue_le hands.pop id
    simp only [NodeState.emit, NodeState.requeue, NodeState.popped, reports_append, reports_cons, reports_nil,
      reduceCtorEq, false_and, if_false, Nat.add_zero]
    omega
  | transmitted b q' first frame hands _ =>
    rw [queuedWith_of_perm (queuePopNext_perm hands.pop)] at h
    simp only [NodeState.sentOver, NodeState.emit, NodeState.popped, reports_append, reports_cons, reports_nil,
      reduceCtorEq, false_and, true_and, if_false, Nat.add_zero]
    omega

/-- Time sync is reported under id 0, which no bundle has. -/
theorem Flows.sendTimeSync (h : Flows ns id) (hid : id ≠ 0) (t : F32) (sent : Int) :
    Flows (nodeSendTimeSync ns t sent).2 id := by
  unfold Flows nodeSendTimeSync at *
  split
  · simpa [NodeState.emit, hid.symm] using h
  · exact h

theorem Flows.handleTimeSync {localT : Flt} {frame : List UInt8} {res : Int × NodeState}
    (h : Flows ns id) (hs : nodeTryHandleTimeSync ns localT frame = .ok res) :
    Flows res.2 id := by
  obtain ⟨timeOffset, timeSynced, news, heq, hnews⟩ := nodeTryHandleTimeSync_reports hs
  have hnone : ∀ {event}, event ≠ .bundleArrived → reports event id news = 0 := by
    intro event hne
    simp only [reports, List.countP_eq_zero, decide_eq_true_eq, not_and]
    intro r hr hevent
    exact absurd (hevent.symm.trans (hnews r hr)) hne
  unfold Flows at *
  rw [heq]
  simpa [hnone] using h

/-- **A call keeps the books of every bundle.** -/
theorem Flows.step {ns' : NodeState} {op : NodeOp} (h : Flows ns id) (hid : id ≠ 0)
    (hs : nodeStep logf ns op = some ns') : Flows ns' id := by
  cases op with
  | generate dst cls msg t =>
    cases hs
    exact h.generate dst cls msg t
  | receive t frame rssi =>
    obtain ⟨rc, hres⟩ := eq_ok_of_toOption_map hs
    exact h.receive (receiveStep_of_ok hres)
  | tick t fuel sent =>
    obtain ⟨res, hres, rfl⟩ := Option.map_eq_some_iff.mp hs
    exact h.tick (nodeTick_cases hres)
  | sendTimeSync t sent =>
    cases hs
    exact h.sendTimeSync hid t sent
  | handleTimeSync localT frame =>
    obtain ⟨rc, hres⟩ := eq_ok_of_toOption_map hs
    exact h.handleTimeSync hres

/-! ## The counters -/

/-- A call that counts what it reports. -/
theorem CountsTrue.more {ns' : NodeState} (h : CountsTrue ns) (news : List TraceRecord)
    (htrace : ns'.trace = ns.trace ++ news)
    (htx : ns'.bundlesTx = ns.bundlesTx + .ofNat (reportsOf .bundleTxStart news))
    (hdelivered : ns'.bundlesDelivered =
      ns.bundlesDelivered + .ofNat (reportsOf .bundleDelivered news))
    (hrx : ns'.bundlesRx = ns.bundlesRx + .ofNat (received news)) : CountsTrue ns' := by
  refine ⟨?_, ?_, ?_⟩
  · rw [htx, h.tx, htrace, reportsOf_append, UInt64.ofNat_add]
  · rw [hdelivered, h.delivered, htrace, reportsOf_append, UInt64.ofNat_add]
  · have hsum : received (ns.trace ++ news) = received ns.trace + received news := by
      simp only [received, reportsOf_append, refusals_append]
      omega
    rw [hrx, h.rx, htrace, hsum, UInt64.ofNat_add]

/-- A call that counts nothing and reports nothing that is counted. -/
theorem CountsTrue.same {ns' : NodeState} (h : CountsTrue ns) (news : List TraceRecord)
    (htrace : ns'.trace = ns.trace ++ news) (htx : ns'.bundlesTx = ns.bundlesTx)
    (hdelivered : ns'.bundlesDelivered = ns.bundlesDelivered)
    (hrx : ns'.bundlesRx = ns.bundlesRx)
    (hnews : ∀ r ∈ news, r.event ≠ .bundleTxStart ∧ r.event ≠ .bundleDelivered ∧
      r.event ≠ .custodyAccepted ∧ (r.event = .bundleDropped → r.fmt ≠ "custody_rejected")) :
    CountsTrue ns' := by
  have hsent : reportsOf .bundleTxStart news = 0 := by
    simpa [reportsOf, List.countP_eq_zero] using fun r hr => (hnews r hr).1
  have hhere : reportsOf .bundleDelivered news = 0 := by
    simpa [reportsOf, List.countP_eq_zero] using fun r hr => (hnews r hr).2.1
  have htaken : reportsOf .custodyAccepted news = 0 := by
    simpa [reportsOf, List.countP_eq_zero] using fun r hr => (hnews r hr).2.2.1
  have hrefused : refusals news = 0 := by
    simpa [refusals, List.countP_eq_zero] using fun r hr => (hnews r hr).2.2.2
  refine h.more news htrace ?_ ?_ ?_
  · simp [htx, hsent]
  · simp [hdelivered, hhere]
  · simp [hrx, received, hhere, htaken, hrefused]

theorem CountsTrue.generate (h : CountsTrue ns) (dst : NodeId) (cls : BundleClass)
    (msg : List UInt8) (t : F32) : CountsTrue (nodeGenerateBundle ns dst cls msg t).2 := by
  unfold nodeGenerateBundle
  dsimp only
  split
  · exact h.same [] (List.append_nil _).symm rfl rfl rfl (by simp)
  · exact h.same _ rfl rfl rfl rfl (by simp)

theorem CountsTrue.receive {t : ℚ} {frame : List UInt8} {rssi : Int32} {res : Int × NodeState}
    (h : CountsTrue ns) (hs : ReceiveStep ns t frame rssi res) : CountsTrue res.2 := by
  cases hs with
  | badFrame => exact h.same _ rfl rfl rfl rfl (by simp)
  | delivered b _ _ =>
    exact h.more _ rfl (by simp [NodeState.delivering, NodeState.emit, NodeState.heard])
      (by simp [NodeState.delivering, NodeState.emit, NodeState.heard])
      (by simp [NodeState.delivering, NodeState.emit, NodeState.heard, received])
  | accepted b _ _ _ =>
    obtain ⟨queued, hqueued, htrace, _⟩ := (ns.heard rssi).taking_reports t b
    refine h.more _ (htrace.trans (List.append_assoc _ _ _)) ?_ ?_ ?_
    · simp [NodeState.taking, NodeState.emit, NodeState.heard, hqueued]
    · simp [NodeState.taking, NodeState.emit, NodeState.heard, hqueued]
    · simp [NodeState.taking, NodeState.emit, NodeState.heard, hqueued, received]
  | rejected b _ _ _ =>
    exact h.more _ rfl (by simp [NodeState.emit, NodeState.heard])
      (by simp [NodeState.emit, NodeState.heard])
      (by simp [NodeState.emit, NodeState.heard, received])

theorem CountsTrue.sweep (h : CountsTrue ns) (t : ℚ) : CountsTrue (ns.sweep t) := by
  refine h.same _ rfl rfl rfl rfl fun r hr => ?_
  obtain ⟨rec, _, rfl⟩ := List.mem_map.mp hr
  simp [timeoutTrace]

theorem CountsTrue.tick {t : ℚ} {fuel : Nat} {sent : Int} {res : TickResult}
    (h : CountsTrue ns) (hs : TickStep logf ns t fuel sent res) : CountsTrue res.state := by
  have hsweep := h.sweep t
  cases hs with
  | idle => exact hsweep
  | expired b q' _ _ => exact hsweep.same _ rfl rfl rfl rfl (by simp)
  | putBack b q' _ _ _ _ => exact hsweep.same [] (List.append_nil _).symm rfl rfl rfl (by simp)
  | txFailed b q' first frame _ _ => exact hsweep.same _ rfl rfl rfl rfl (by simp)
  | transmitted b q' first frame _ _ =>
    have hbefore : (ns.sweep t).bundlesTx = ns.bundlesTx := rfl
    exact hsweep.more _ rfl
      (by simp [NodeState.sentOver, NodeState.emit, NodeState.popped, hbefore])
      (by simp [NodeState.sentOver, NodeState.emit, NodeState.popped])
      (by simp [NodeState.sentOver, NodeState.emit, NodeState.popped, received])

/-- **A call counts what it reports.** -/
theorem CountsTrue.step {ns' : NodeState} {op : NodeOp} (h : CountsTrue ns)
    (hs : nodeStep logf ns op = some ns') : CountsTrue ns' := by
  cases op with
  | generate dst cls msg t =>
    cases hs
    exact h.generate dst cls msg t
  | receive t frame rssi =>
    obtain ⟨rc, hres⟩ := eq_ok_of_toOption_map hs
    exact h.receive (receiveStep_of_ok hres)
  | tick t fuel sent =>
    obtain ⟨res, hres, rfl⟩ := Option.map_eq_some_iff.mp hs
    exact h.tick (nodeTick_cases hres)
  | sendTimeSync t sent =>
    cases hs
    unfold nodeSendTimeSync
    split
    · exact h.same _ rfl rfl rfl rfl (by simp)
    · exact h
  | handleTimeSync localT frame =>
    obtain ⟨rc, hres⟩ := eq_ok_of_toOption_map hs
    obtain ⟨timeOffset, timeSynced, news, heq, hnews⟩ := nodeTryHandleTimeSync_reports hres
    dsimp only at heq
    rw [heq]
    exact h.same news rfl rfl rfl rfl fun r hr => by simp [hnews r hr]

end

/-! ## Runs -/

/-- **A bundle is gone no more often than it came.** In every run, for every id but the time
    sync's, what was sent, what expired and what is still queued was generated or taken over,
    each by a report of its own. So no node sends a bundle more often than it took it in. -/
theorem nodeReachable_flows {logf : ℚ → ℚ} {self : NodeId} {bufCap : ℚ}
    {policy : Option String} {plan : ContactPlan} {ns : NodeState}
    (h : NodeReachable logf (nodeStart self bufCap policy plan) ns) (id : UInt64)
    (hid : id ≠ 0) :
    queuedWith ns.queue id + reports .bundleTxStart id ns.trace +
        reports .bundleExpired id ns.trace ≤
      reports .bundleGenerated id ns.trace + reports .custodyAccepted id ns.trace :=
  h.invariant (P := fun ns => Flows ns id) (Nat.zero_le _)
    fun _ _ _ _ _ hs hflows => hflows.step hid hs

/-- `AAAA`, with a link to `BBBB`. -/
def testSender : NodeState := nodeStart nodeA 10000 none (.ofList [testLink nodeA nodeB 0 60])

/-- It generates a bundle for `BBBB`, and sends it at time 1. -/
def testSending : List NodeOp := [.generate nodeB .science [] F32.zero, .tick 1 10 1]

/-- One bundle in, one bundle out. -/
theorem nodeReachable_flows_testSending : ∃ ns, NodeReachable testLog testSender ns ∧
    reports .bundleTxStart (ownId nodeA 1) ns.trace = 1 ∧
      queuedWith ns.queue (ownId nodeA 1) + reports .bundleTxStart (ownId nodeA 1) ns.trace +
          reports .bundleExpired (ownId nodeA 1) ns.trace ≤
        reports .bundleGenerated (ownId nodeA 1) ns.trace +
          reports .custodyAccepted (ownId nodeA 1) ns.trace := by
  have hrun : (run (nodeStep testLog) testSender testSending).any (fun ns =>
      decide (reports .bundleTxStart (ownId nodeA 1) ns.trace = 1)) = true := by decide +kernel
  obtain ⟨ns, hns, hsent⟩ := (Option.any_eq_true _ _).mp hrun
  have hreach : NodeReachable testLog testSender ns :=
    reaches_of_run (fun _ _ => trivial) .start hns
  exact ⟨ns, hreach, of_decide_eq_true hsent,
    nodeReachable_flows hreach (ownId nodeA 1) (by decide)⟩

/-- **The status line says what the trace says**, in every run: the bundles sent and delivered,
    and the bundles received, which are those delivered, taken over and refused. -/
theorem nodeReachable_counts {logf : ℚ → ℚ} {self : NodeId} {bufCap : ℚ}
    {policy : Option String} {plan : ContactPlan} {ns : NodeState}
    (h : NodeReachable logf (nodeStart self bufCap policy plan) ns) : CountsTrue ns :=
  h.invariant (P := CountsTrue) ⟨rfl, rfl, rfl⟩ fun _ _ _ _ _ hs hcounts => hcounts.step hs

theorem nodeReachable_counts_testSending : ∃ ns, NodeReachable testLog testSender ns ∧
    ns.bundlesTx = 1 ∧ CountsTrue ns := by
  have hrun : (run (nodeStep testLog) testSender testSending).any (fun ns =>
      decide (ns.bundlesTx = 1)) = true := by decide +kernel
  obtain ⟨ns, hns, hsent⟩ := (Option.any_eq_true _ _).mp hrun
  have hreach : NodeReachable testLog testSender ns :=
    reaches_of_run (fun _ _ => trivial) .start hns
  exact ⟨ns, hreach, of_decide_eq_true hsent, nodeReachable_counts hreach⟩

end DtnHardware
