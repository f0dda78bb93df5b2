import DtnHardware.Node.Sending
import DtnHardware.Cgr.Handover

/-!
# From one node to the next

What happens to a bundle that one node has handed over and the next has taken. The next node
does not know the route it came by: it queues the bundle and routes it again on every tick
that pops it. If the bundle is there by the time that the first node's route predicts, and
the plan of the next node offers the rest of that route, such a tick, if it returns, never finds
it expired and never without a route: it hands it over in turn, or the bundle waits for a contact
whose window has not opened (`nodeTick_relays`). Whether it returns is a matter of that plan
(`Returns`).

The predictions are about the bundle's size and its lifetime, so it matters that relaying
changes neither: what a node queues is the size of its frame (`NodeReaches.queued_size`).
-/

set_option autoImplicit false

namespace DtnHardware

open GuardedCalls

/-! ## What does not change in a run -/

/-- No call touches the configuration of the route search. -/
theorem nodeStep_cgrCfg {logf : ℚ → ℚ} {ns ns' : NodeState} {op : NodeOp}
    (h : nodeStep logf ns op = some ns') : ns'.cgrCfg = ns.cgrCfg := by
  cases op with
  | generate dst cls msg t =>
    obtain ⟨_, heq⟩ := nodeGenerateBundle_frame ns dst cls msg t
    cases h
    rw [heq]
  | receive t frame rssi =>
    obtain ⟨rc, hres⟩ := eq_ok_of_toOption_map h
    obtain ⟨_, _, _, _, _, _, heq⟩ := (receiveStep_of_ok hres).frame
    dsimp only at heq
    rw [heq]
  | tick t fuel sent =>
    obtain ⟨res, hres, rfl⟩ := Option.map_eq_some_iff.mp h
    cases nodeTick_cases hres with
    | idle | expired | putBack | txFailed | transmitted => rfl
  | sendTimeSync t sent =>
    obtain ⟨_, heq⟩ := nodeSendTimeSync_frame ns t sent
    cases h
    rw [heq]
  | handleTimeSync localT frame =>
    obtain ⟨rc, hres⟩ := eq_ok_of_toOption_map h
    obtain ⟨_, _, _, heq⟩ := nodeTryHandleTimeSync_frame hres
    dsimp only at heq
    rw [heq]

section
variable {logf : ℚ → ℚ} {ok : NodeState → NodeOp → Prop} {self : NodeId} {bufCap : ℚ}
  {policy : Option String} {plan : ContactPlan} {ns : NodeState}

/-- Every search of a node is one with the default configuration. -/
theorem NodeReaches.cgrCall (h : NodeReaches logf ok (nodeStart self bufCap policy plan) ns)
    (b : Bundle) (t : ℚ) :
    ns.cgrCall logf b t = .default logf ns.plan b t (.ofNat cgrMaxRoutesEsp) := by
  have hcfg : ns.cgrCfg = cgrConfigDefault (.ofNat cgrMaxRoutesEsp) := by
    refine h.invariant (P := fun ns => ns.cgrCfg = cgrConfigDefault (.ofNat cgrMaxRoutesEsp)) rfl
      fun ns op ns' _ _ hs hcfg => ?_
    rw [nodeStep_cgrCfg hs, hcfg]
  rw [NodeState.cgrCall, hcfg]
  rfl

/-- **A queued bundle has the size of its frame.** -/
theorem NodeReaches.queued_size
    (h : NodeReaches logf ok (nodeStart self bufCap policy plan) ns) {b : Bundle}
    (hb : b ∈ ns.queue.slots) : b.size = (wireHdrLen + b.payload.length + 4).toUInt16 := by
  refine h.forall_queued (P := fun b => b.size = (wireHdrLen + b.payload.length + 4).toUInt16)
    (fun ns op b _ _ hnew => ?_) b hb
  cases hnew with
  | generated dst cls msg t => rfl
  | accepted t frame rssi b hdec =>
    obtain ⟨cust, heq⟩ := frameTransfer_bundle ns b t
    rw [heq]
    -- what is decoded is as it arrived
    exact congrArg Bundle.size (bundleDeserialize_eq_some.mp hdec).2.1.symm

end

/-! ## A routed bundle waits only for a window to open -/

section
variable {logf : ℚ → ℚ} {ok : NodeState → NodeOp → Prop} {self : NodeId} {bufCap : ℚ}
  {policy : Option String} {plan : ContactPlan} {ns : NodeState} {t : ℚ} {fuel : Nat}
  {b : Bundle} {r : CgrRoute} {first : ContactPtr}

/-- The first contact of a route that cannot be used yet has not opened. -/
theorem waits_for_opening (hroute : cgrSelectRoute (ns.cgrCall logf b t) fuel = .route r)
    (hfirst : r.hops[0]? = some first)
    (hnot : contactIsFeasibleFor first.contact b.bytes t = false) : t < first.contact.tStart := by
  by_contra hopened
  have hopened : first.contact.tStart ≤ t := not_lt.mp hopened
  have hhop : HopSound (ns.cgrCall logf b t) t first.contact :=
    (cgrSelectRoute_sound _ _ _ hroute).hops 0 first hfirst
  have hcap : b.bytes ≤ contactCapUse first.contact (max t first.contact.tStart) := hhop.capacity
  rw [max_eq_left hopened] at hcap
  rw [Bool.eq_false_iff] at hnot
  apply hnot
  rcases hhop.activeOrFuture with hactive | hfuture
  · simp [contactIsFeasibleFor, hactive, hcap]
  · rw [contactIsFuture, Bool.and_eq_true, decide_eq_true_eq] at hfuture
    exact absurd hfuture.1 (not_lt.mpr hopened)

/-- What a tick that pops the live bundle `b`, for which there is a route, comes to. -/
inductive MovesOn (logf : ℚ → ℚ) (ns : NodeState) (t : ℚ) (fuel : Nat) (b : Bundle)
    (q' : NodeQueue) (res : TickResult) : Prop
  | hands (first : ContactPtr) (frame : List UInt8)
      (hands : HandsOver logf ns t fuel b q' first frame) (handed : res.frame = some frame)
  | waits (r : CgrRoute) (first : ContactPtr)
      (route : cgrSelectRoute (ns.cgrCall logf b t) fuel = .route r)
      (first_eq : r.hops[0]? = some first) (early : t < first.contact.tStart)
      (kept : res.state = (ns.popped t q').requeue b)

/-- **A popped bundle that lives and has a route moves on.** -/
theorem nodeTick_movesOn {q' : NodeQueue} {sent : Int} {res : TickResult}
    (h : NodeReaches logf ok (nodeStart self bufCap policy plan) ns)
    (hpop : queuePopNext ns.queue t = some (b, q')) (halive : bundleIsAlive b t = true)
    (hroute : cgrSelectRoute (ns.cgrCall logf b t) fuel ≠ .noRoute)
    (hres : nodeTick logf ns t fuel sent = some res) : MovesOn logf ns t fuel b q' res := by
  cases nodeTick_cases hres with
  | idle hnone =>
    rw [hpop] at hnone
    cases hnone
  | expired b₂ q₂ hpop₂ hdead =>
    rw [hpop] at hpop₂
    cases hpop₂
    rw [halive] at hdead
    cases hdead
  | putBack b₂ q₂ hpop₂ _ hreturns hkeeps =>
    rw [hpop] at hpop₂
    cases hpop₂
    obtain ⟨r, first, hr, hfirst⟩ := hreturns.resolve_left hroute
    refine .waits r first hr hfirst ?_ rfl
    apply waits_for_opening hr hfirst
    by_contra hfeas
    obtain ⟨first', frame, hands⟩ :=
      (handsOver_iff h hpop).mpr ⟨halive, r, first, hr, hfirst, by simpa using hfeas⟩
    exact hkeeps first' frame hands
  | txFailed b₂ q₂ first frame hands _ | transmitted b₂ q₂ first frame hands _ =>
    have hpop₂ := hands.pop
    rw [hpop] at hpop₂
    cases hpop₂
    exact .hands first frame hands rfl

end

/-! ## The next node -/

/-- `b'` is the bundle of `frame`, as the node `self` has taken it. -/
def TakenFrom (self : NodeId) (frame : List UInt8) (b' : Bundle) : Prop :=
  ∃ b₀ cust, bundleDeserialize frame = .ok (some b₀) ∧ b' = { b₀ with curr := self, cust }

/-- What enters the queue from a frame is the bundle of the frame, at this node. -/
theorem Enters.takenFrom {ns : NodeState} {t : ℚ} {frame : List UInt8} {rssi : Int32}
    {b' : Bundle} (h : Enters ns (.receive t frame rssi) b') : TakenFrom ns.selfId frame b' := by
  cases h with
  | accepted _ _ _ b hdec =>
    obtain ⟨cust, heq⟩ := frameTransfer_bundle ns b t
    exact ⟨b, cust, hdec, heq⟩

/-- An expiry that is not reached at the predicted arrival is not reached before it. -/
theorem bundleIsAlive_of_tExp {b : Bundle} {t t' a : ℚ} (halive : bundleIsAlive b t = true)
    (hexp : (bundleTExp b).le (.fin a) = false) (ht' : t' ≤ a) : bundleIsAlive b t' = true := by
  unfold bundleIsAlive bundleRttl bundleAge at halive ⊢
  unfold bundleTExp at hexp
  cases hgen : b.tGen.value <;> cases httl : b.ttl.value <;>
    simp_all [Flt.sub, Flt.neg, Flt.add, Flt.lt, Flt.le]
  linarith

/-- **A relayed bundle is never stuck.** The node `ns` hands `b` over on the route `r`; the
    next node has taken the frame. Whenever a tick of the next node, not later than the route
    predicts, pops the bundle and returns, the bundle moves on. -/
theorem nodeTick_relays {logf : ℚ → ℚ} {self self' : NodeId} {bufCap bufCap' : ℚ}
    {policy policy' : Option String} {plan plan' : ContactPlan} {ns ns' : NodeState}
    {t t' : ℚ} {fuel fuel' : Nat} {b b' : Bundle} {q' q'' : NodeQueue} {first : ContactPtr}
    {frame : List UInt8} {r : CgrRoute} {sent : Int} {res : TickResult}
    (h : NodeReachable logf (nodeStart self bufCap policy plan) ns)
    (h' : NodeReachable logf (nodeStart self' bufCap' policy' plan') ns')
    (hands : HandsOver logf ns t fuel b q' first frame)
    (hroute : cgrSelectRoute (ns.cgrCall logf b t) fuel = .route r)
    (hnext : first.contact.toNode = self') (haway : b.dst ≠ self')
    (htaken : TakenFrom self' frame b')
    (hontime : t' ≤ hopArrival (ns.cgrCall logf b t) first.contact t)
    (hplan : RealisticPlan ns'.plan) (hoffers : PlanOffers ns'.plan (contactsOf r.hops.tail))
    (hpop : queuePopNext ns'.queue t' = some (b', q''))
    (hres : nodeTick logf ns' t' fuel' sent = some res) :
    MovesOn logf ns' t' fuel' b' q'' res := by
  -- the bundle is the one that was sent, in size, lifetime and destination
  obtain ⟨b₀, cust, hdec, rfl⟩ := htaken
  rw [bundleDeserialize_of_serialize hands.framed] at hdec
  cases hdec
  have hsize := h.queued_size (mem_of_pop hands.pop (Or.inl rfl))
  have hload : SameLoad b { b.arrived with curr := self', cust } := by
    refine ⟨rfl, ?_, rfl⟩
    rw [Bundle.bytes, Bundle.bytes, hsize]
    rfl
  obtain ⟨r', hroute', hfirst⟩ := hands.routed
  rw [hroute] at hroute'
  cases hroute'
  have htake : r.hops.take 1 = [first] := by
    rw [List.take_one, List.head?_eq_getElem?, hfirst]
    rfl
  -- the first hop arrives before the expiry
  have hfeas : hopFeasible (ns.cgrCall logf b t) first.contact t = true := by
    refine ((feasibleFrom_of_route hroute).at_index (i := 0) ?_).2.2
    rw [contactsOf, List.getElem?_map, hfirst]
    rfl
  obtain ⟨_, _, hexp, _⟩ := hopFits_iff.mp (Bool.and_eq_true _ _ |>.mp hfeas).2
  have halive : bundleIsAlive { b.arrived with curr := self', cust } t' = true :=
    bundleIsAlive_of_tExp (b := b) hands.alive hexp hontime
  refine nodeTick_movesOn h' hpop halive ?_ hres
  rw [h.cgrCall] at hroute hontime
  rw [h'.cgrCall]
  rw [← List.drop_one] at hoffers
  refine cgrSelectRoute_handover _ _ _ _ _ _ _ _ _ _ r 1 hroute hplan hload ?_ haway.symm ?_
    hoffers fuel'
  · rw [htake]
    exact hnext.symm
  · rw [htake]
    exact hontime

/-! ### `AAAA` hands over to the relay -/

def testSource : NodeState :=
  nodeStart nodeA 10000 none (.ofList [testLink nodeA nodeB 0 60, testLink nodeB nodeC 0 60])

/-- The route of its bundle for `CCCC`, at time 1. -/
def testSourceRoute : CgrRoute :=
  { hops := [⟨0, testLink nodeA nodeB 0 60⟩, ⟨1, testLink nodeB nodeC 0 60⟩]
    cost := -(1767291 / 100)
    arrivalTime := 109 / 100 }

/-- The bundle is sent at time 1 and is at the relay by 1.045; it moves on. -/
theorem nodeTick_relays_testSource : ∃ ns ns' b' q'' res,
    NodeReachable testLog testSource ns ∧ NodeReachable testLog testRelay ns' ∧
      nodeTick testLog ns' (209 / 200) 10 1 = some res ∧
      MovesOn testLog ns' (209 / 200) 10 b' q'' res := by
  have hrun : (nodeStep testLog testSource (.generate nodeC .science [] F32.zero)).any (fun ns =>
      (queuePopNext ns.queue 1).any fun p =>
        decide (bundleIsAlive p.1 1 = true ∧ p.1.payload = [] ∧ p.1.dst = nodeC ∧
          cgrSelectRoute (ns.cgrCall testLog p.1 1) 10 = .route testSourceRoute ∧
          contactIsFeasibleFor (testLink nodeA nodeB 0 60) p.1.bytes 1 = true ∧
          (209 / 200 : ℚ) ≤
            hopArrival (ns.cgrCall testLog p.1 1) (testLink nodeA nodeB 0 60) 1) &&
        (nodeStep testLog testRelay (.receive (26 / 25) (wireFrame p.1) 0)).any fun ns' =>
          decide ((queuePopNext ns'.queue (209 / 200)).isSome = true ∧
            ns'.plan.contacts = [testLink nodeB nodeC 0 60] ∧
            (nodeTick testLog ns' (209 / 200) 10 1).isSome = true)) = true := by decide +kernel
  obtain ⟨ns, hns, hrun⟩ := (Option.any_eq_true _ _).mp hrun
  obtain ⟨⟨b, q'⟩, hpop, hrun⟩ := (Option.any_eq_true _ _).mp hrun
  obtain ⟨hsource, hrelay⟩ := Bool.and_eq_true _ _ |>.mp hrun
  obtain ⟨halive, hpay, hdst, hroute, hfeas, hontime⟩ := of_decide_eq_true hsource
  obtain ⟨ns', hns', hrelay⟩ := (Option.any_eq_true _ _).mp hrelay
  obtain ⟨hsome, hplan', hticks⟩ := of_decide_eq_true hrelay
  obtain ⟨⟨b', q''⟩, hpop'⟩ := Option.isSome_iff_exists.mp hsome
  obtain ⟨res, hres⟩ := Option.isSome_iff_exists.mp hticks
  have hframe : bundleSerialize b txFrameCap = some (wireFrame b) := by
    apply bundleSerialize_eq_some.mpr
    rw [hpay]
    exact ⟨by decide, by decide, rfl⟩
  have hands : HandsOver testLog ns 1 10 b q' ⟨0, testLink nodeA nodeB 0 60⟩ (wireFrame b) :=
    ⟨hpop, halive, ⟨_, hroute, rfl⟩, hfeas, hframe⟩
  have hreach : NodeReachable testLog testSource ns := .call .start _ trivial hns
  have hreach' : NodeReachable testLog testRelay ns' := .call .start _ trivial hns'
  have htaken : TakenFrom nodeB (wireFrame b) b' := by
    rcases (nodeStep_stores hns').2.mem_queue (mem_of_pop hpop' (Or.inl rfl)) with hold | hnew
    · exact absurd hold List.not_mem_nil
    · exact hnew.takenFrom
  have hreal : RealisticPlan ns'.plan := by
    refine ⟨?_, ?_, ?_⟩ <;> rw [hplan'] <;> decide +kernel
  have hoffers : PlanOffers ns'.plan (contactsOf testSourceRoute.hops.tail) := by
    intro c hc
    obtain rfl := List.mem_singleton.mp hc
    exact ⟨_, hplan' ▸ List.mem_singleton.mpr rfl, noWorse_refl rfl⟩
  exact ⟨ns, ns', b', q'', res, hreach, hreach', hres,
    nodeTick_relays hreach hreach' hands hroute rfl (by rw [hdst]; decide) htaken hontime hreal
      hoffers hpop' hres⟩

end DtnHardware
