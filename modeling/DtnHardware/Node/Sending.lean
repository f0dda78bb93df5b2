import DtnHardware.Node.Contents
import DtnHardware.Node.Custody

/-!
# What a tick sends, and what it keeps

Three results about `node_tick`, in every reachable state.

* It loses nothing: the queue afterwards is the queue before, or it is short of one bundle
  that was dead or has been transmitted (`nodeTick_loses_nothing`). The bundle is taken out
  first and put back on failure without a look at the return value, and that is sound only
  because a node never holds more than it has room for. Dead is what `bundle_is_alive` says,
  and that is more than expired: a bundle that was generated at a NaN clock has a remaining
  lifetime that is not a number (`nanBundle_dropped`).
* What it sends was queued, is alive, and goes over a contact of this node's plan that is
  open and has the capacity, and the bytes are booked on that contact
  (`nodeTick_sends_safely`).
* It sends when, and only when, the bundle of the highest rank can go now
  (`nodeTick_transmits_iff`): one such bundle holds back all the others.
-/

set_option autoImplicit false

namespace DtnHardware

open GuardedCalls

section
variable {logf : ℚ → ℚ} {ok : NodeState → NodeOp → Prop} {self : NodeId} {bufCap : ℚ}
  {policy : Option String} {plan : ContactPlan} {ns : NodeState} {t : ℚ} {fuel : Nat}
  {b : Bundle} {q' : NodeQueue}

/-! ## Nothing is lost -/

/-- The search has returned exactly when it has an answer: a route has a first hop. -/
theorem searchReturns_iff : SearchReturns logf ns t fuel b ↔
    cgrSelectRoute (ns.cgrCall logf b t) fuel = .noRoute ∨
      ∃ r, cgrSelectRoute (ns.cgrCall logf b t) fuel = .route r := by
  unfold SearchReturns
  constructor
  · intro h
    rcases h with h | ⟨r, _, h, _⟩
    · exact Or.inl h
    · exact Or.inr ⟨r, h⟩
  · intro h
    rcases h with h | ⟨r, h⟩
    · exact Or.inl h
    · have hne := (cgrSelectRoute_sound _ _ _ h).nonempty
      exact Or.inr ⟨r, _, h, List.getElem?_eq_getElem (List.length_pos_iff.mpr hne)⟩

/-- What is popped and put back leaves the queue as it was, up to the order. -/
theorem requeue_perm (hq : QueueOk ns.queue) (hpop : queuePopNext ns.queue t = some (b, q')) :
    ((ns.popped t q').requeue b).queue.slots.Perm ns.queue.slots := by
  have hback : ((ns.popped t q').requeue b).queue = { q' with slots := q'.slots ++ [b] } := by
    show (queueEnqueue q' b).2 = _
    -- what was just taken out still fits, so nothing is evicted for it
    rw [queueEnqueue_of_pop hq hpop]
  rw [hback]
  calc (q'.slots ++ [b]).Perm (b :: q'.slots) := List.perm_append_singleton b q'.slots
    _ |>.Perm ns.queue.slots := (queuePopNext_perm hpop).symm

/-- What a tick may do to the queue and the counter of transmissions. -/
inductive KeepsOrSends (ns : NodeState) (t : ℚ) (sent : Int) (res : TickResult) : Prop
  | keeps (queue : res.state.queue.slots.Perm ns.queue.slots)
      (untaken : res.frame = none ∨ ¬ sent > 0) (count : res.state.bundlesTx = ns.bundlesTx)
  | drops (b : Bundle) (queue : ns.queue.slots.Perm (b :: res.state.queue.slots))
      (dead : bundleIsAlive b t = false)
      (expired : (bundleRttl b t).le (.fin 0) = true ∨ b.tGen.value = .nan)
      (untried : res.frame = none) (count : res.state.bundlesTx = ns.bundlesTx)
  | sends (b : Bundle) (queue : ns.queue.slots.Perm (b :: res.state.queue.slots))
      (frame : List UInt8) (framed : bundleSerialize b txFrameCap = some frame)
      (handed : res.frame = some frame) (taken : sent > 0)
      (count : res.state.bundlesTx = ns.bundlesTx + 1)

/-- **No bundle is lost by a tick** that is alive and has not been sent. It does not return only
    when the search for the live bundle it has popped has no answer within `fuel`. -/
theorem nodeTick_loses_nothing (hcap : 0 ≤ bufCap)
    (h : NodeReachable logf (nodeStart self bufCap policy plan) ns) (t : ℚ) (fuel : Nat)
    (sent : Int) :
    (∃ b q', queuePopNext ns.queue t = some (b, q') ∧ bundleIsAlive b t = true ∧
        cgrSelectRoute (ns.cgrCall logf b t) fuel ≠ .noRoute ∧
        ∀ r, cgrSelectRoute (ns.cgrCall logf b t) fuel ≠ .route r) ∨
      ∃ res, nodeTick logf ns t fuel sent = some res ∧ KeepsOrSends ns t sent res := by
  have hq := h.queueOk hcap
  by_cases hsearch : ∀ b q', queuePopNext ns.queue t = some (b, q') →
      bundleIsAlive b t = true → SearchReturns logf ns t fuel b
  · right
    obtain ⟨res, hres⟩ := nodeTick_returns sent hsearch
    refine ⟨res, hres, ?_⟩
    cases nodeTick_cases hres with
    | idle hpop => exact .keeps (.refl _) (Or.inl rfl) rfl
    | expired b q' hpop hdead =>
      refine .drops b (queuePopNext_perm hpop) hdead ?_ rfl rfl
      rcases bundleRttl_of_dead hdead with hnan | hexpired
      · exact Or.inr (h.queued_lifetime (mem_of_pop hpop (Or.inl rfl)) t hnan)
      · exact Or.inl hexpired
    | putBack b q' hpop _ _ _ => exact .keeps (requeue_perm hq hpop) (Or.inl rfl) rfl
    | txFailed b q' first frame hands hfails =>
      exact .keeps (requeue_perm hq hands.pop) (Or.inr hfails) rfl
    | transmitted b q' first frame hands hsends =>
      exact .sends b (queuePopNext_perm hands.pop) frame hands.framed rfl hsends rfl
  · left
    push Not at hsearch
    obtain ⟨b, q', hpop, halive, hnot⟩ := hsearch
    rw [searchReturns_iff] at hnot
    push Not at hnot
    exact ⟨b, q', hpop, halive, hnot⟩

end

/-- The relay's one route for a bundle of 45 bytes to `CCCC`, at time 1. -/
def testRelayRoute : CgrRoute :=
  { hops := [⟨0, testLink nodeB nodeC 0 60⟩]
    cost := -(3537291 / 200)
    arrivalTime := 209 / 200 }

/-- The relay has taken the test frame; at time 1 it hands it over to the link to `CCCC`. -/
theorem testRelay_handsOver : ∃ ns frame,
    nodeStep testLog testRelay (.receive 0 testFrame 0) = some ns ∧
      NodeReachable testLog testRelay ns ∧
      HandsOver testLog ns 1 10 (testRelay.adopt testReceived) testRelay.queue
        ⟨0, testLink nodeB nodeC 0 60⟩ frame := by
  have hrun : (nodeStep testLog testRelay (.receive 0 testFrame 0)).any (fun ns =>
      decide (queuePopNext ns.queue 1 = some (testRelay.adopt testReceived, testRelay.queue) ∧
        cgrSelectRoute (ns.cgrCall testLog (testRelay.adopt testReceived) 1) 10
          = .route testRelayRoute)) = true := by decide +kernel
  obtain ⟨ns, hns, hpick⟩ := (Option.any_eq_true _ _).mp hrun
  obtain ⟨hpop, hroute⟩ := of_decide_eq_true hpick
  have hframed : (bundleSerialize (testRelay.adopt testReceived) txFrameCap).isSome = true := by
    decide +kernel
  obtain ⟨frame, hframe⟩ := Option.isSome_iff_exists.mp hframed
  exact ⟨ns, frame, hns, .call .start _ trivial hns, hpop, by decide +kernel,
    ⟨_, hroute, rfl⟩, by decide +kernel, hframe⟩

theorem nodeTick_loses_nothing_testRelay : ∃ ns res,
    nodeStep testLog testRelay (.receive 0 testFrame 0) = some ns ∧
      nodeTick testLog ns 1 10 1 = some res ∧ KeepsOrSends ns 1 1 res := by
  obtain ⟨ns, frame, hns, hreach, hands⟩ := testRelay_handsOver
  have hcap : (0 : ℚ) ≤ 10000 := by norm_num
  rcases nodeTick_loses_nothing hcap hreach 1 10 1 with hnone | ⟨res, hres, hkeeps⟩
  · obtain ⟨b, q', hpop, _, _, hnot⟩ := hnone
    obtain ⟨r, hroute, _⟩ := hands.routed
    rw [hands.pop] at hpop
    cases hpop
    exact absurd hroute (hnot r)
  · exact ⟨ns, res, hns, hres, hkeeps⟩

/-- A clock that is not a number. -/
def nanClock : F32 := ⟨0x7FC00000⟩

/-- At a NaN clock the relay generates a bundle; the tick at time 1 drops it unsent, and its
    remaining lifetime is not zero or less. -/
theorem nanBundle_dropped : ¬ ∀ ns t fuel sent res, NodeReachable testLog testRelay ns →
    nodeTick testLog ns t fuel sent = some res →
    res.state.queue.slots.Perm ns.queue.slots ∨
      ∃ b, ns.queue.slots.Perm (b :: res.state.queue.slots) ∧
        ((bundleRttl b t).le (.fin 0) = true ∨ (res.frame.isSome = true ∧ sent > 0)) := by
  intro h
  have hrun : (nodeStep testLog testRelay (.generate nodeC .science [] nanClock)).any (fun ns =>
      (nodeTick testLog ns 1 10 1).any fun res => decide (res.frame = none ∧
        res.state.queue.slots = [] ∧ ns.queue.slots.length = 1 ∧
        ∀ b ∈ ns.queue.slots, (bundleRttl b 1).le (.fin 0) = false)) = true := by decide +kernel
  obtain ⟨ns, hns, hdrop⟩ := (Option.any_eq_true _ _).mp hrun
  obtain ⟨res, hres, hdrop⟩ := (Option.any_eq_true _ _).mp hdrop
  obtain ⟨hunsent, hempty, hone, hlifetime⟩ := of_decide_eq_true hdrop
  rcases h ns 1 10 1 res (.call .start _ trivial hns) hres with hperm | ⟨b, hperm, hexpired | hsent⟩
  · have hlength := hperm.length_eq
    rw [hempty, hone] at hlength
    cases hlength
  · rw [hlifetime b (hperm.mem_iff.mpr List.mem_cons_self)] at hexpired
    cases hexpired
  · rw [hunsent] at hsent
    cases hsent.1

section
variable {logf : ℚ → ℚ} {ok : NodeState → NodeOp → Prop} {self : NodeId} {bufCap : ℚ}
  {policy : Option String} {plan : ContactPlan} {ns : NodeState} {t : ℚ} {fuel : Nat}
  {b : Bundle} {q' : NodeQueue}

/-! ## What is sent may be sent -/

/-- The contact in slot `i` of the plan takes `b` at time `t`: it leaves this node, it is up
    and open, the transmission ends before it closes, and the bytes fit. -/
structure Carries (ns : NodeState) (t : ℚ) (b : Bundle) (i : Nat) (c : Contact) : Prop where
  slot : ns.plan.contacts[i]? = some c
  leaves : c.frm = ns.selfId
  up : c.status = .up
  opened : c.tStart ≤ t
  notClosed : t < c.tEnd
  ends : t + contactTxDuration c b.bytes ≤ c.tEnd
  endsAtRate : t + b.bytes / c.rate ≤ c.tEnd
  capacity : b.bytes ≤ contactCapUse c t

theorem contactIsFeasibleFor_iff {c : Contact} {size t : ℚ} :
    contactIsFeasibleFor c size t = true ↔
      c.tStart ≤ t ∧ t < c.tEnd ∧ c.status = .up ∧ size ≤ contactCapUse c t := by
  simp [contactIsFeasibleFor, contactIsActive, and_assoc]

/-- **The first hop of whatever is handed over takes the bundle**, here and now. -/
theorem HandsOver.carries {first : ContactPtr} {frame : List UInt8}
    (h : NodeReaches logf ok (nodeStart self bufCap policy plan) ns)
    (hands : HandsOver logf ns t fuel b q' first frame) :
    Carries ns t b first.slot first.contact := by
  obtain ⟨r, hroute, hfirst⟩ := hands.routed
  have hsound := cgrSelectRoute_sound _ _ _ hroute
  have hqueued : b ∈ ns.queue.slots := mem_of_pop hands.pop (Or.inl rfl)
  obtain ⟨hopen, hclosed, hup, hcapacity⟩ := contactIsFeasibleFor_iff.mp hands.feasible
  -- the first hop starts at the time of the tick
  have hends : t + contactTxDuration first.contact b.bytes ≤ first.contact.tEnd := by
    have hhop : max t first.contact.tStart + contactTxDuration first.contact b.bytes
        ≤ first.contact.tEnd := (hsound.hops 0 first hfirst).endsInWindow
    rwa [max_eq_left hopen] at hhop
  refine ⟨cgrSelectRoute_points hroute first (List.mem_of_getElem? hfirst), ?_, hup, hopen,
    hclosed, hends, ?_, hcapacity⟩
  · rw [hsound.leaves first hfirst]
    exact h.queued_curr hqueued
  · -- without a positive rate the search reckons with 1e30, and the quotient is less
    unfold contactTxDuration at hends
    split at hends
    · exact hends
    · rename_i hrate
      have : b.bytes / first.contact.rate ≤ 0 :=
        div_nonpos_of_nonneg_of_nonpos b.bytes_nonneg (not_lt.mp hrate)
      linarith

/-- The reservation is used up first, and never goes below zero. -/
theorem contactConsume_eq (c : Contact) (size : ℚ) : contactConsume c size =
    { c with bytesUsed := c.bytesUsed + size, reserved := max (c.reserved - size) 0 } := by
  unfold contactConsume
  split
  · rename_i hmore
    rw [max_eq_left (sub_nonneg.mpr (le_of_lt hmore))]
  · rename_i hless
    rw [max_eq_right (sub_nonpos.mpr (not_lt.mp hless))]

/-- **Transmission safety.** A frame goes to the radio only for a live queued bundle, whose
    encoding it is, and a contact that takes the bundle. If the radio takes the frame, that
    contact has its bytes booked, out of what was reserved on it, and is otherwise the same;
    the other contacts are, and without a transmission the plan is. -/
theorem nodeTick_sends_safely (h : NodeReachable logf (nodeStart self bufCap policy plan) ns)
    (t : ℚ) (fuel : Nat) (sent : Int) (res : TickResult)
    (hres : nodeTick logf ns t fuel sent = some res) :
    (res.frame = none → res.state.plan = ns.plan) ∧
      ∀ frame, res.frame = some frame → ∃ b i c,
        b ∈ ns.queue.slots ∧ bundleIsAlive b t = true ∧
        bundleSerialize b txFrameCap = some frame ∧ Carries ns t b i c ∧
        (sent > 0 → res.state.plan.contacts = ns.plan.contacts.set i
          { c with bytesUsed := c.bytesUsed + b.bytes, reserved := max (c.reserved - b.bytes) 0 }) ∧
        (¬ sent > 0 → res.state.plan = ns.plan) := by
  cases nodeTick_cases hres with
  | idle | expired | putBack =>
    refine ⟨fun _ => rfl, fun frame hframe => ?_⟩
    cases hframe
  | txFailed b q' first frame hands hfails =>
    refine ⟨fun _ => rfl, fun frame' hframe => ?_⟩
    cases hframe
    exact ⟨b, first.slot, first.contact, mem_of_pop hands.pop (Or.inl rfl), hands.alive,
      hands.framed, hands.carries h, fun hsent => absurd hsent hfails, fun _ => rfl⟩
  | transmitted b q' first frame hands hsends =>
    refine ⟨fun hframe => ?_, fun frame' hframe => ?_⟩
    · cases hframe
    · cases hframe
      refine ⟨b, first.slot, first.contact, mem_of_pop hands.pop (Or.inl rfl), hands.alive,
        hands.framed, hands.carries h, fun _ => ?_, fun hnot => absurd hsends hnot⟩
      rw [← contactConsume_eq]
      rfl

/-- A tick with something to hand over, and a radio that takes it. -/
theorem HandsOver.sends {first : ContactPtr} {frame : List UInt8} {sent : Int}
    (hands : HandsOver logf ns t fuel b q' first frame) (hsent : sent > 0) :
    ∃ res, nodeTick logf ns t fuel sent = some res ∧ res.frame = some frame ∧
      ns.queue.slots.Perm (b :: res.state.queue.slots) ∧
      res.state.bundlesTx = ns.bundlesTx + 1 := by
  have hreturns : ∀ b' q'', queuePopNext ns.queue t = some (b', q'') →
      bundleIsAlive b' t = true → SearchReturns logf ns t fuel b' := by
    intro b' q'' hpop _
    rw [hands.pop] at hpop
    cases hpop
    obtain ⟨r, hroute, hfirst⟩ := hands.routed
    exact Or.inr ⟨r, first, hroute, hfirst⟩
  obtain ⟨res, hres⟩ := nodeTick_returns sent hreturns
  obtain rfl := (nodeTick_cases hres).eq_sentOver hands hsent
  exact ⟨_, hres, rfl, queuePopNext_perm hands.pop, rfl⟩

end

theorem nodeTick_sends_safely_testRelay : ∃ ns res frame,
    nodeStep testLog testRelay (.receive 0 testFrame 0) = some ns ∧
      nodeTick testLog ns 1 10 1 = some res ∧ res.frame = some frame ∧ ∃ b i c,
        b ∈ ns.queue.slots ∧ bundleSerialize b txFrameCap = some frame ∧ Carries ns 1 b i c ∧
        res.state.plan.contacts = ns.plan.contacts.set i
          { c with bytesUsed := c.bytesUsed + b.bytes, reserved := max (c.reserved - b.bytes) 0 } := by
  obtain ⟨ns, frame, hns, hreach, hands⟩ := testRelay_handsOver
  obtain ⟨res, hres, hframe, _, _⟩ := hands.sends (show (1 : Int) > 0 by decide)
  obtain ⟨_, hsafe⟩ := nodeTick_sends_safely hreach 1 10 1 res hres
  obtain ⟨b, i, c, hqueued, _, hser, hcarries, hcharged, _⟩ := hsafe frame hframe
  exact ⟨ns, res, frame, hns, hres, hframe, b, i, c, hqueued, hser, hcarries,
    hcharged (by decide)⟩

/-! ## The head of the line -/

/-- The bundle `b` has a route whose first contact is feasible at `t`. -/
def CanGo (logf : ℚ → ℚ) (ns : NodeState) (t : ℚ) (fuel : Nat) (b : Bundle) : Prop :=
  bundleIsAlive b t = true ∧ ∃ r first,
    cgrSelectRoute (ns.cgrCall logf b t) fuel = .route r ∧ r.hops[0]? = some first ∧
      contactIsFeasibleFor first.contact b.bytes t = true

section
variable {logf : ℚ → ℚ} {ok : NodeState → NodeOp → Prop} {self : NodeId} {bufCap : ℚ}
  {policy : Option String} {plan : ContactPlan} {ns : NodeState} {t : ℚ} {fuel : Nat}
  {b : Bundle} {q' : NodeQueue}

/-- Every queued bundle fits a frame, so a popped bundle that can go is handed over. -/
theorem handsOver_iff (h : NodeReaches logf ok (nodeStart self bufCap policy plan) ns)
    (hpop : queuePopNext ns.queue t = some (b, q')) :
    (∃ first frame, HandsOver logf ns t fuel b q' first frame) ↔ CanGo logf ns t fuel b := by
  constructor
  · intro hands
    obtain ⟨first, frame, hands⟩ := hands
    obtain ⟨r, hroute, hfirst⟩ := hands.routed
    exact ⟨hands.alive, r, first, hroute, hfirst, hands.feasible⟩
  · intro hgo
    obtain ⟨halive, r, first, hroute, hfirst, hfeas⟩ := hgo
    -- the buffer of 256 bytes is large enough for any payload
    have hpay := h.queued_payload (mem_of_pop hpop (Or.inl rfl))
    have hframed : (bundleSerialize b txFrameCap).isSome = true := by
      apply (bundleSerialize_isSome hpay).mpr
      unfold bundleMaxPayload at hpay
      unfold wireHdrLen txFrameCap
      omega
    obtain ⟨frame, hframe⟩ := Option.isSome_iff_exists.mp hframed
    exact ⟨first, frame, hpop, halive, ⟨r, hroute, hfirst⟩, hfeas, hframe⟩

/-- **A tick transmits exactly when the highest-ranked bundle can go**, and then it transmits
    that one. -/
theorem nodeTick_transmits_iff (h : NodeReachable logf (nodeStart self bufCap policy plan) ns)
    (t : ℚ) (fuel : Nat) (sent : Int) (hradio : sent > 0) :
    ((∃ res frame, nodeTick logf ns t fuel sent = some res ∧ res.frame = some frame) ↔
        ∃ b q', queuePopNext ns.queue t = some (b, q') ∧ CanGo logf ns t fuel b) ∧
      ∀ b q', queuePopNext ns.queue t = some (b, q') → CanGo logf ns t fuel b →
        (∀ s ∈ ns.queue.slots, rank t s ≤ rank t b) ∧
        ∃ res frame, nodeTick logf ns t fuel sent = some res ∧ res.frame = some frame ∧
          bundleSerialize b txFrameCap = some frame ∧
          ns.queue.slots.Perm (b :: res.state.queue.slots) ∧
          res.state.bundlesTx = ns.bundlesTx + 1 := by
  have hsends : ∀ b q', queuePopNext ns.queue t = some (b, q') → CanGo logf ns t fuel b →
      ∃ res frame, nodeTick logf ns t fuel sent = some res ∧ res.frame = some frame ∧
        bundleSerialize b txFrameCap = some frame ∧
        ns.queue.slots.Perm (b :: res.state.queue.slots) ∧
        res.state.bundlesTx = ns.bundlesTx + 1 := by
    intro b q' hpop hgo
    obtain ⟨first, frame, hands⟩ := (handsOver_iff h hpop).mpr hgo
    obtain ⟨res, hres, hframe, hperm, hcount⟩ := hands.sends hradio
    exact ⟨res, frame, hres, hframe, hands.framed, hperm, hcount⟩
  refine ⟨⟨fun htx => ?_, fun hgo => ?_⟩, fun b q' hpop hgo => ⟨?_, hsends b q' hpop hgo⟩⟩
  · obtain ⟨res, frame, hres, hframe⟩ := htx
    cases nodeTick_cases hres with
    | idle | expired | putBack => cases hframe
    | txFailed b q' first frame' hands _ | transmitted b q' first frame' hands _ =>
      exact ⟨b, q', hands.pop, (handsOver_iff h hands.pop).mp ⟨first, frame', hands⟩⟩
  · obtain ⟨b, q', hpop, hgo⟩ := hgo
    obtain ⟨res, frame, hres, hframe, _⟩ := hsends b q' hpop hgo
    exact ⟨res, frame, hres, hframe⟩
  · obtain ⟨i, _, hmax, _⟩ := queuePopNext_eq_some hpop
    exact hmax

end

theorem nodeTick_transmits_testRelay : ∃ ns res frame,
    nodeStep testLog testRelay (.receive 0 testFrame 0) = some ns ∧
      nodeTick testLog ns 1 10 1 = some res ∧ res.frame = some frame := by
  obtain ⟨ns, frame, hns, hreach, hands⟩ := testRelay_handsOver
  obtain ⟨hiff, _⟩ := nodeTick_transmits_iff hreach 1 10 1 (by decide)
  have hgo := (handsOver_iff hreach hands.pop).mp ⟨_, frame, hands⟩
  obtain ⟨res, frame', hres, hframe⟩ := hiff.mpr ⟨_, _, hands.pop, hgo⟩
  exact ⟨ns, res, frame', hns, hres, hframe⟩

/-- A command for `DDDD`, which no contact leads to, outranks a report for `CCCC`: the link
    to `CCCC` is open and stays unused. -/
theorem commandWithoutRoute_blocks : ¬ ∀ ns t fuel b, NodeReachable testLog testRelay ns →
    b ∈ ns.queue.slots → CanGo testLog ns t fuel b →
    ∃ res frame, nodeTick testLog ns t fuel 1 = some res ∧ res.frame = some frame := by
  intro h
  have hrun : (run (nodeStep testLog) testRelay
      [.generate nodeD .command [] F32.zero, .generate nodeC .housekeeping [] F32.zero]).any
      (fun ns => decide ((nodeTick testLog ns 1 10 1).map TickResult.frame = some none ∧
        ∃ b ∈ ns.queue.slots, bundleIsAlive b 1 = true ∧
          cgrSelectRoute (ns.cgrCall testLog b 1) 10 = .route testRelayRoute ∧
          contactIsFeasibleFor (testLink nodeB nodeC 0 60) b.bytes 1 = true)) = true := by
    decide +kernel
  obtain ⟨ns, hns, hblocked⟩ := (Option.any_eq_true _ _).mp hrun
  obtain ⟨hnothing, b, hb, halive, hroute, hfeas⟩ := of_decide_eq_true hblocked
  have hreach : NodeReachable testLog testRelay ns := reaches_of_run (fun _ _ => trivial) .start hns
  obtain ⟨res, frame, hres, hframe⟩ := h ns 1 10 b hreach hb
    ⟨halive, testRelayRoute, _, hroute, rfl, hfeas⟩
  rw [hres, Option.map_some, hframe] at hnothing
  cases hnothing

end DtnHardware
