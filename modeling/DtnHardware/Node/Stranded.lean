import DtnHardware.Node.Accounting
import DtnHardware.Node.Ledger

/-!
# Bundles that go nowhere

Two kinds of bundle have no way out over the radio.

* A bundle that is addressed to its own node. `node_generate_bundle` takes it like any other;
  it is delivered only on arriving in a frame, and **no frame with it is ever sent**
  (`handsOver_away`), since the search does not come back to the node it starts from. Only a
  contact from the node to itself would carry it.
* A bundle that has expired. It is found out when it is popped, and a tick pops one bundle, so
  **a queue of expired bundles is gone after as many ticks**, whatever the plan, the radio and
  the search do (`run_ticks_flush`).

The first kind ends as the second.
-/

set_option autoImplicit false

namespace DtnHardware

open GuardedCalls

/-! ## Routes to where the bundle is -/

/-- A walk that ends where it began is one link from there to itself. -/
theorem SearchWalk.selfLink {q : CgrCall} {ps : List ContactPtr} (h : SearchWalk q ps)
    (hend : endNode q.b.curr (contactsOf ps) = q.b.curr) :
    ∃ c ∈ q.cp.contacts, c.frm = q.b.curr ∧ c.toNode = q.b.curr := by
  obtain ⟨init, p, rfl⟩ := (List.eq_nil_or_concat' ps).resolve_left h.nonempty
  rw [contactsOf_append] at hend
  have hlast : p.contact.toNode = q.b.curr := (endNode_concat _ _ _).symm.trans hend
  by_cases hinit : init = []
  · subst hinit
    obtain ⟨hmem, hfrm, _⟩ := h.feasible
    exact ⟨p.contact, hmem, hfrm, hlast⟩
  · -- the walk has been there, and the search does not go there twice
    have hfresh := h.fresh
    rw [receivers_tail_concat hinit, hlast] at hfresh
    have hnot := (List.nodup_cons.mp hfresh).1
    exact absurd (List.mem_append_right _ (List.mem_singleton_self _)) hnot

/-- **No route leads to where the bundle is**, unless the plan has a link from there to
    itself. -/
theorem cgrSelectRoute_selfLink {q : CgrCall} {fuel : Nat} {r : CgrRoute}
    (h : cgrSelectRoute q fuel = .route r) (hdst : q.b.dst = q.b.curr) :
    ∃ c ∈ q.cp.contacts, c.frm = q.b.curr ∧ c.toNode = q.b.curr := by
  obtain ⟨st, hreach, _, hmem, _⟩ := cgrSelectRoute_route h
  obtain ⟨ps, hps⟩ := (cgrOk_reaches hreach).beam r hmem
  exact hps.walk.selfLink (hps.atDst.trans hdst)

/-! ## The links of a plan -/

/-- The plan's links, without their books. -/
def planLinks (cp : ContactPlan) : List (NodeId × NodeId) :=
  cp.contacts.map fun c => (c.frm, c.toNode)

theorem planLinks_consume {cp : ContactPlan} {p : ContactPtr} (h : PointsInto cp p) (size : ℚ) :
    planLinks (contactPlanConsume cp p size) = planLinks cp := by
  unfold planLinks contactPlanConsume
  rw [List.map_set]
  refine List.ext_getElem? fun i => ?_
  by_cases hi : p.slot = i
  · subst hi
    have hlen := (List.getElem?_eq_some_iff.mp h).1
    rw [List.getElem?_set_self (by simpa using hlen), List.getElem?_map, h]
    rfl
  · rw [List.getElem?_set_ne hi]

section
variable {logf : ℚ → ℚ} {ok : NodeState → NodeOp → Prop} {self : NodeId} {bufCap : ℚ}
  {policy : Option String} {plan : ContactPlan} {ns : NodeState}

/-- **A run does not change the links**: the books are all that is charged. -/
theorem NodeReaches.planLinks (h : NodeReaches logf ok (nodeStart self bufCap policy plan) ns) :
    planLinks ns.plan = DtnHardware.planLinks plan := by
  refine h.invariant (P := fun ns => DtnHardware.planLinks ns.plan = DtnHardware.planLinks plan)
    rfl fun ns op ns' _ _ hs hlinks => ?_
  have hplan := nodeStep_plan hs
  generalize ns'.plan = plan' at hplan ⊢
  cases hplan with
  | same => exact hlinks
  | charged t fuel sent b q' first frame hands _ =>
    obtain ⟨r, hroute, hfirst⟩ := hands.routed
    have hpoints : PointsInto ns.plan first :=
      cgrSelectRoute_points hroute first (List.mem_of_getElem? hfirst)
    rw [planLinks_consume hpoints, hlinks]

/-- **A bundle is never sent by the node it is for**, in any run, unless its plan has a link
    from the node to itself. -/
theorem handsOver_away {t : ℚ} {fuel : Nat} {b : Bundle} {q' : NodeQueue} {first : ContactPtr}
    {frame : List UInt8} (h : NodeReachable logf (nodeStart self bufCap policy plan) ns)
    (hplan : (self, self) ∉ planLinks plan) (hands : HandsOver logf ns t fuel b q' first frame) :
    b.dst ≠ self := by
  intro hdst
  obtain ⟨r, hroute, _⟩ := hands.routed
  have hcurr : b.curr = self :=
    (h.queued_curr (mem_of_pop hands.pop (Or.inl rfl))).trans h.selfId
  obtain ⟨c, hmem, hfrm, hto⟩ := cgrSelectRoute_selfLink hroute (hdst.trans hcurr.symm)
  rw [← h.planLinks] at hplan
  refine hplan (List.mem_map.mpr ⟨c, hmem, ?_⟩)
  rw [hfrm, hto]
  exact Prod.ext hcurr hcurr

end

/-- The relay hands over a bundle for `CCCC`. -/
theorem handsOver_away_testRelay : ∃ ns first frame, NodeReachable testLog testRelay ns ∧
    HandsOver testLog ns 1 10 (testRelay.adopt testReceived) testRelay.queue first frame ∧
      (testRelay.adopt testReceived).dst ≠ nodeB := by
  obtain ⟨ns, frame, _, hreach, hands⟩ := testRelay_handsOver
  exact ⟨ns, _, frame, hreach, hands, handsOver_away hreach (by decide) hands⟩

/-! ## A queue of expired bundles -/

/-- What has expired stays so. -/
theorem bundleIsAlive_antitone {b : Bundle} {t t' : ℚ} (h : bundleIsAlive b t = false)
    (ht : t ≤ t') : bundleIsAlive b t' = false := by
  unfold bundleIsAlive bundleRttl bundleAge at h ⊢
  cases hgen : b.tGen.value <;> cases httl : b.ttl.value <;>
    simp_all [Flt.sub, Flt.neg, Flt.add, Flt.lt]
  linarith

theorem slots_of_pop_none {q : NodeQueue} {t : ℚ} (h : queuePopNext q t = none) :
    q.slots = [] := by
  unfold queuePopNext at h
  cases hscan : ArrayLoops.scanMax (rank t) q.slots with
  | none => exact ArrayLoops.scanMax_eq_none.mp hscan
  | some best =>
    rw [hscan] at h
    cases h

/-- A tick, as the platform calls it. -/
structure TickCall where
  t : ℚ
  fuel : Nat
  sent : Int

def TickCall.op (c : TickCall) : NodeOp := .tick c.t c.fuel c.sent

/-- What ticks make of a node that only holds expired bundles: `gone` in the order in which they
    were reported. -/
structure Flushed (ns ns' : NodeState) (gone : List Bundle) : Prop where
  queue : ns.queue.slots.Perm (gone ++ ns'.queue.slots)
  reported : (ns'.trace.filter fun r => r.event = .bundleExpired).map TraceRecord.bundleId =
    (ns.trace.filter fun r => r.event = .bundleExpired).map TraceRecord.bundleId ++
      gone.map Bundle.bundleId
  unsent : ns'.bundlesTx = ns.bundlesTx ∧ ns'.plan = ns.plan
  released : ∀ r ∈ ns'.custody.records,
    r ∈ ns.custody.records ∧ ∀ b ∈ gone, r.bundleId ≠ b.bundleId
  custody : CustodyOk ns'.selfId ns'.custody

theorem flushed_nil {ns : NodeState} (h : CustodyOk ns.selfId ns.custody) : Flushed ns ns [] :=
  ⟨.refl _, (List.append_nil _).symm, ⟨rfl, rfl⟩, fun _ hr => ⟨hr, by simp⟩, h⟩

theorem Flushed.trans {ns ns₁ ns₂ : NodeState} {bs cs : List Bundle} (h : Flushed ns ns₁ bs)
    (h' : Flushed ns₁ ns₂ cs) : Flushed ns ns₂ (bs ++ cs) := by
  refine ⟨?_, ?_, ⟨h'.unsent.1.trans h.unsent.1, h'.unsent.2.trans h.unsent.2⟩, ?_, h'.custody⟩
  · rw [List.append_assoc]
    exact h.queue.trans (h'.queue.append_left bs)
  · rw [h'.reported, h.reported, List.map_append, List.append_assoc]
  · intro r hr
    obtain ⟨hmid, hcs⟩ := h'.released r hr
    obtain ⟨hold, hbs⟩ := h.released r hmid
    refine ⟨hold, fun b hb => ?_⟩
    rcases List.mem_append.mp hb with hb | hb
    · exact hbs b hb
    · exact hcs b hb

section
variable {logf : ℚ → ℚ} {ns : NodeState}

/-- The sweep reports no expiry. -/
theorem NodeState.expired_sweep (ns : NodeState) (t : ℚ) :
    (ns.sweep t).trace.filter (fun r => r.event = .bundleExpired) =
      ns.trace.filter fun r => r.event = .bundleExpired := by
  have htrace : (ns.sweep t).trace = ns.trace ++ (ns.timedOut t).map (timeoutTrace ns t) := rfl
  have hnone : ((ns.timedOut t).map (timeoutTrace ns t)).filter
      (fun r => r.event = .bundleExpired) = [] := by
    simp [timeoutTrace]
  rw [htrace, List.filter_append, hnone, List.append_nil]

theorem flushed_sweep (hcustody : CustodyOk ns.selfId ns.custody) (t : ℚ) :
    Flushed ns (ns.sweep t) [] := by
  refine ⟨.refl _, ?_, ⟨rfl, rfl⟩, fun r hr => ?_, (ns.sweep_perm hcustody t).1⟩
  · rw [ns.expired_sweep t, List.map_nil, List.append_nil]
  · exact ⟨((ns.mem_sweep hcustody).mp hr).1, by simp⟩

/-- The bundle that was popped, once the custody table has been swept. -/
theorem flushed_expired {b : Bundle} {q' : NodeQueue} {t : ℚ}
    (hcustody : CustodyOk ns.selfId ns.custody) (hpop : queuePopNext ns.queue t = some (b, q')) :
    Flushed (ns.sweep t)
      { (ns.popped t q').emit (.fin t) .bundleExpired b.bundleId "ttl_exceeded" [] with
        custody := custodyRelease (ns.sweep t).custody b.bundleId } [b] := by
  have hswept := (ns.sweep_perm hcustody t).1
  refine ⟨queuePopNext_perm hpop, ?_, ⟨rfl, rfl⟩, fun r hr => ?_, hswept.release b.bundleId⟩
  · simp [NodeState.emit, NodeState.popped]
  · obtain ⟨hold, hne⟩ := (mem_custodyRelease hswept.nodup).mp hr
    exact ⟨hold, by simpa using hne⟩

/-- **One tick, one bundle less**, if there is one; it always returns, and sends nothing. -/
theorem nodeTick_flushes (logf : ℚ → ℚ) {t : ℚ} (fuel : Nat) (sent : Int)
    (hcustody : CustodyOk ns.selfId ns.custody)
    (hdead : ∀ b ∈ ns.queue.slots, bundleIsAlive b t = false) :
    ∃ res gone, nodeTick logf ns t fuel sent = some res ∧ res.frame = none ∧
      Flushed ns res.state gone ∧ (gone = [] → ns.queue.slots = []) ∧ gone.length ≤ 1 := by
  have hpopped : ∀ b q', queuePopNext ns.queue t = some (b, q') → bundleIsAlive b t = false :=
    fun b q' hpop => hdead b (mem_of_pop hpop (Or.inl rfl))
  obtain ⟨res, hres⟩ : ∃ res, nodeTick logf ns t fuel sent = some res :=
    nodeTick_returns sent fun b q' hpop halive =>
      absurd ((hpopped b q' hpop).symm.trans halive) (by decide)
  have halive : ∀ {b q'}, queuePopNext ns.queue t = some (b, q') → bundleIsAlive b t = true →
      False := fun hpop halive => by
    rw [hpopped _ _ hpop] at halive
    cases halive
  refine ⟨res, ?_⟩
  cases nodeTick_cases hres with
  | idle hpop =>
    exact ⟨[], hres, rfl, flushed_sweep hcustody t, fun _ => slots_of_pop_none hpop, by simp⟩
  | expired b q' hpop hd =>
    have hflushed := (flushed_sweep hcustody t).trans (flushed_expired hcustody hpop)
    exact ⟨[b], hres, rfl, hflushed, by simp, by simp⟩
  | putBack b q' hpop hlive _ _ => exact (halive hpop hlive).elim
  | txFailed b q' first frame hands _ => exact (halive hands.pop hands.alive).elim
  | transmitted b q' first frame hands _ => exact (halive hands.pop hands.alive).elim

/-- **A queue of expired bundles is flushed.** From any time on at which all that is queued has
    expired, the ticks return, send nothing, and report and release one bundle each until there
    is none; as many ticks as there are bundles empty the queue. -/
theorem run_ticks_flush {T : ℚ} (hcustody : CustodyOk ns.selfId ns.custody)
    (hdead : ∀ b ∈ ns.queue.slots, bundleIsAlive b T = false) (cs : List TickCall)
    (hlate : ∀ c ∈ cs, T ≤ c.t) : ∃ ns' gone,
      run (nodeStep logf) ns (cs.map TickCall.op) = some ns' ∧ Flushed ns ns' gone ∧
        gone.length = min cs.length ns.queue.slots.length := by
  induction cs generalizing ns with
  | nil => exact ⟨ns, [], rfl, flushed_nil hcustody, by simp⟩
  | cons c cs ih =>
    have hnow : ∀ b ∈ ns.queue.slots, bundleIsAlive b c.t = false :=
      fun b hb => bundleIsAlive_antitone (hdead b hb) (hlate c (by simp))
    obtain ⟨res, gone, hres, _, hone, hempty, hlen⟩ :=
      nodeTick_flushes logf c.fuel c.sent hcustody hnow
    have hrest : ∀ b ∈ res.state.queue.slots, bundleIsAlive b T = false :=
      fun b hb => hdead b (hone.queue.mem_iff.mpr (List.mem_append_right _ hb))
    obtain ⟨ns', more, hrun, hmore, hcount⟩ :=
      ih hone.custody hrest fun c' hc' => hlate c' (List.mem_cons_of_mem _ hc')
    refine ⟨ns', gone ++ more, ?_, hone.trans hmore, ?_⟩
    · have hstep : nodeStep logf ns c.op = some res.state := by
        rw [TickCall.op, nodeStep, hres]
        rfl
      rw [List.map_cons, run, hstep]
      exact hrun
    · have hperm := hone.queue.length_eq
      rw [List.length_append] at hperm ⊢
      rw [hcount, List.length_cons]
      cases gone with
      | nil =>
        have hnone := hempty rfl
        rw [hnone] at hperm ⊢
        simp only [List.length_nil] at hperm ⊢
        omega
      | cons b gone =>
        simp only [List.length_cons] at hlen hperm ⊢
        omega

end

/-- `AAAA` takes two bundles for an hour: one for `BBBB`, one for itself. -/
def testStranded : List NodeOp :=
  [.generate nodeB .science [] F32.zero, .generate nodeA .telemetry [] F32.zero]

/-- The hour is over at 3600; three ticks later both are gone. -/
theorem run_ticks_flush_testStranded : ∃ ns ns' gone,
    run (nodeStep testLog) testSender testStranded = some ns ∧ ns.queue.slots.length = 2 ∧
      run (nodeStep testLog) ns [.tick 3600 0 1, .tick 3700 0 1, .tick 3800 0 1] = some ns' ∧
      Flushed ns ns' gone ∧ gone.length = 2 := by
  have hrun : (run (nodeStep testLog) testSender testStranded).any (fun ns =>
      decide (ns.queue.slots.length = 2 ∧
        ∀ b ∈ ns.queue.slots, bundleIsAlive b 3600 = false)) = true := by decide +kernel
  obtain ⟨ns, hns, hfacts⟩ := (Option.any_eq_true _ _).mp hrun
  obtain ⟨htwo, hdead⟩ := of_decide_eq_true hfacts
  have hreach : NodeReachable testLog testSender ns :=
    reaches_of_run (fun _ _ => trivial) .start hns
  let ticks : List TickCall := [⟨3600, 0, 1⟩, ⟨3700, 0, 1⟩, ⟨3800, 0, 1⟩]
  obtain ⟨ns', gone, hticks, hflushed, hlen⟩ : ∃ ns' gone,
      run (nodeStep testLog) ns (ticks.map TickCall.op) = some ns' ∧ Flushed ns ns' gone ∧
        gone.length = min ticks.length ns.queue.slots.length :=
    run_ticks_flush hreach.custodyOk hdead ticks (by
      intro c hc
      simp only [ticks, List.mem_cons, List.not_mem_nil, or_false] at hc
      rcases hc with rfl | rfl | rfl <;> norm_num)
  exact ⟨ns, ns', gone, hns, htwo, hticks, hflushed, by rw [hlen, htwo]; rfl⟩

end DtnHardware
