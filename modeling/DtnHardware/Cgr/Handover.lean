import DtnHardware.Cgr.HopLimit
import DtnHardware.Cgr.Complete
import DtnHardware.Lib.TimedGraph

/-!
# A route can be taken over

The node that a bundle is handed to does not follow the route of the node it comes from: it
searches again, with its own plan and its own clock. What the first search promised still
counts. The contacts of a call are a graph in time (`callGraph`), first in first out if they
are realistic, and the feasible walks are its trips; what is left of a route is a trip of the
next node's graph as soon as that node's plan offers the remaining contacts, or better ones,
and the bundle is there no later than predicted. A trip without loops is what the search is
complete for, so the next node's call does not return `-1` (`cgrSelectRoute_handover`).

A route has to be there in full for that. With the default configuration it always is
(`candidatesWhole_default`): walks are too short for the hop limit in every call that returns.
-/

set_option autoImplicit false

namespace DtnHardware

open StepMachine TimedGraph

/-! ## The default configuration returns whole routes -/

section
variable {logf : ℚ → ℚ} {cp : ContactPlan} {b : Bundle} {t : ℚ} {maxRoutes : Int32}

theorem limitOk_default : LimitOk (CgrCall.default logf cp b t maxRoutes).cfg := by
  apply limitOk_of_range
  · show (1 : Int32) ≤ .ofNat bundleMaxHops
    decide
  · show Int32.ofNat bundleMaxHops ≤ .ofNat bundleMaxHops
    decide

/-- **A call that returns never comes to the limit**: every node of a walk but the first has
    a slot, so its path has nine hops at most. -/
theorem not_atLimit_default (hreturns : Returns (.default logf cp b t maxRoutes)) {st : CgrState}
    (hreach : (cgrMachine (.default logf cp b t maxRoutes)).Reaches
      (cgrStart (.default logf cp b t maxRoutes)) st) :
    ¬ AtLimit (.default logf cp b t maxRoutes) st.search := by
  have hcap := beamCap_default_pos logf cp b t maxRoutes
  have hwide := limitsWide_default logf cp b t maxRoutes
  have hten := maxHops_default logf cp b t maxRoutes
  generalize CgrCall.default logf cp b t maxRoutes = q at hreturns hreach hcap hwide hten ⊢
  have hok := cgrInBounds_reaches hcap hreach
  obtain ⟨acc, hhist⟩ := exists_history hreach
  have hexp := hhist.explored (D := NoLater q) (fun _ => le_refl _) (keeps_noLater q) hcap hwide
    fun s hs htf => not_returns_of_tableFull hwide.hi hs htf hreturns
  have hshort := stack_short hok.ok.search (tableOk_reaches hreach) hok.frontiers
    hexp.search.slots
  rintro ⟨f, below, nc, fs', hex, _, _, _, hpath⟩
  have hstack := hok.ok.search.stack
  rw [hex.stack_eq] at hstack hshort
  have hlen := hstack.2.1.pathLen_eq
  rw [stackPath_length] at hlen
  have hnine : frontierMax + 1 < bundleMaxHops := by decide
  omega

theorem returns_of_route {q : CgrCall} {fuel : Nat} {r : CgrRoute}
    (h : cgrSelectRoute q fuel = .route r) : Returns q := by
  obtain ⟨st, hreach, hdone, _, _⟩ := cgrSelectRoute_route h
  obtain ⟨n, hn⟩ := Machine.run_of_reaches hreach
  exact returns_iff_terminates.mpr ⟨n, st, hn, hdone⟩

theorem routeWhole_of_route {fuel : Nat} {r : CgrRoute}
    (h : cgrSelectRoute (.default logf cp b t maxRoutes) fuel = .route r) :
    RouteWhole (.default logf cp b t maxRoutes) r := by
  obtain ⟨st, hreach, _, hmem, _⟩ := cgrSelectRoute_route h
  obtain ⟨s, s', hs, hstep⟩ := mem_beam_offered hreach r hmem
  exact hstep.routeWhole (cgrOk_reaches hs).search limitOk_default
    (not_atLimit_default (returns_of_route h) hs)

end

/-- **With the default configuration nothing is cut off**: in a call that returns, every route
    offered to the beam and the one returned are within the hop limit, end at the destination,
    and arrive when their hops do. -/
theorem candidatesWhole_default (logf : ℚ → ℚ) (cp : ContactPlan) (b : Bundle) (t : ℚ)
    (maxRoutes : Int32) (hreturns : Returns (.default logf cp b t maxRoutes)) :
    CandidatesWhole (.default logf cp b t maxRoutes) := by
  refine ⟨fun st hreach hd s' r hs => ?_, fun fuel r hr => routeWhole_of_route hr⟩
  exact (searchStep_cases hd hs).routeWhole (cgrOk_reaches hreach).search limitOk_default
    (not_atLimit_default hreturns hreach)

theorem candidatesWhole_default_testCgr : CandidatesWhole testCgr := by
  have h : cgrSelectRoute testCgr 10 = .route
      { hops := [⟨0, testLink nodeA nodeB 0 60⟩, ⟨1, testLink nodeB nodeC 0 60⟩]
        cost := -(88199 / 5)
        arrivalTime := 6 / 5 } := by decide +kernel
  exact candidatesWhole_default _ _ _ _ _ (returns_of_route h)

/-! ## Walks as trips -/

/-- The contacts of a call: one can be ridden if the plan has it and its tests pass. -/
def callGraph (q : CgrCall) : Graph NodeId Contact ℚ where
  src := Contact.frm
  dst := Contact.toNode
  ride c a := if c ∈ q.cp.contacts ∧ hopFeasible q c a = true then some (hopArrival q c a) else none

theorem ride_callGraph {q : CgrCall} {c : Contact} {a b : ℚ} :
    (callGraph q).ride c a = some b ↔
      c ∈ q.cp.contacts ∧ hopFeasible q c a = true ∧ hopArrival q c a = b := by
  show (if c ∈ q.cp.contacts ∧ hopFeasible q c a = true then _ else none) = some b ↔ _
  split
  · rename_i h
    simp [h.1, h.2]
  · rename_i h
    simp only [reduceCtorEq, false_iff]
    exact fun hride => h ⟨hride.1, hride.2.1⟩

/-- **The feasible walks are the trips.** -/
theorem trip_callGraph_iff {q : CgrCall} {v w : NodeId} {a b : ℚ} {cs : List Contact} :
    (callGraph q).Trip v a cs w b ↔
      FeasibleFrom q v a cs ∧ endNode v cs = w ∧ arrivalAfter q a cs = b := by
  induction cs generalizing v a with
  | nil => simp [Graph.Trip]
  | cons c cs ih =>
    constructor
    · rintro ⟨hsrc, a', hride, hrest⟩
      obtain ⟨hmem, hfeas, rfl⟩ := ride_callGraph.mp hride
      obtain ⟨hwalk, hend, harr⟩ := ih.mp hrest
      exact ⟨⟨hmem, hsrc, hfeas, hwalk⟩, hend, harr⟩
    · rintro ⟨⟨hmem, hsrc, hfeas, hwalk⟩, hend, harr⟩
      exact ⟨hsrc, _, ride_callGraph.mpr ⟨hmem, hfeas, rfl⟩, ih.mpr ⟨hwalk, hend, harr⟩⟩

theorem fifo_callGraph {q : CgrCall} (hplan : RealisticPlan q.cp) : (callGraph q).Fifo := by
  constructor
  · intro c a a' b ha hride
    obtain ⟨hmem, hfeas, rfl⟩ := ride_callGraph.mp hride
    have hearlier := hopFeasible_antitone (hplan.usableRates c hmem a hfeas) ha hfeas
    exact ⟨_, hopArrival_mono q c ha, ride_callGraph.mpr ⟨hmem, hearlier, rfl⟩⟩
  · intro c a b hride
    obtain ⟨hmem, _, rfl⟩ := ride_callGraph.mp hride
    exact le_hopArrival (hplan.owlt c hmem) a

/-- **A call does not return `-1` when there is a trip**, with or without loops. -/
theorem not_noRoute_of_trip {logf : ℚ → ℚ} {cp : ContactPlan} {b : Bundle} {t : ℚ}
    {maxRoutes : Int32} (hplan : RealisticPlan cp) (hdst : b.dst ≠ b.curr)
    {cs : List Contact} {a : ℚ}
    (htrip : (callGraph (.default logf cp b t maxRoutes)).Trip b.curr t cs b.dst a) (fuel : Nat) :
    cgrSelectRoute (.default logf cp b t maxRoutes) fuel ≠ .noRoute := by
  intro h
  obtain ⟨ds, _, hsimple, _, _, htrip'⟩ := htrip.simple (fifo_callGraph hplan)
  obtain ⟨hfeas, hend, _⟩ := trip_callGraph_iff.mp htrip'
  obtain ⟨st, hreach, hd, hempty⟩ := cgrSelectRoute_noRoute h
  obtain ⟨acc, hacc⟩ := searchedAll_of_done (D := NoLater _) (fun _ => le_refl _)
    (keeps_noLater _) (beamCap_default_pos logf cp b t maxRoutes)
    (limitsWide_default logf cp b t maxRoutes) hreach hd
  obtain ⟨ps, hps, hpsEnd, _⟩ := hacc.follow_route (follows_noLater hplan.owlt)
    hplan.usableRates hdst ⟨hfeas, hend, hsimple⟩
  obtain ⟨r, hr, _⟩ := hacc.offered ps hps hpsEnd
  rw [hempty] at hr
  cases hr

/-! ## Links that are no worse -/

/-- `c'` is a link between the nodes of `c` that is no worse: open when `c` is, as fast, as
    near, as empty, with the same bit errors. -/
structure NoWorse (c c' : Contact) : Prop where
  frm : c'.frm = c.frm
  toNode : c'.toNode = c.toNode
  up : c'.status = .up
  tStart : c'.tStart ≤ c.tStart
  tEnd : c.tEnd ≤ c'.tEnd
  rate : c.rate ≤ c'.rate
  owlt : c'.owlt ≤ c.owlt
  ber : c'.ber = c.ber
  bytesUsed : c'.bytesUsed ≤ c.bytesUsed
  reserved : c'.reserved ≤ c.reserved

/-- `b'` asks of a link what `b` asks of it, and is for the same node. -/
structure SameLoad (b b' : Bundle) : Prop where
  dst : b'.dst = b.dst
  bytes : b'.bytes = b.bytes
  tExp : bundleTExp b' = bundleTExp b

theorem noWorse_refl {c : Contact} (h : c.status = .up) : NoWorse c c :=
  ⟨rfl, rfl, h, le_refl _, le_refl _, le_refl _, le_refl _, rfl, le_refl _, le_refl _⟩

section
variable {c c' : Contact}

theorem NoWorse.txDuration (h : NoWorse c c') (hrate : 0 < c.rate) {size : ℚ} (hs : 0 ≤ size) :
    contactTxDuration c' size ≤ contactTxDuration c size := by
  have hrate' : 0 < c'.rate := lt_of_lt_of_le hrate h.rate
  rw [contactTxDuration, contactTxDuration, if_pos hrate, if_pos hrate']
  exact div_le_div_of_nonneg_left hs hrate h.rate

theorem NoWorse.earliestStart (h : NoWorse c c') (a : ℚ) :
    contactEarliestStart c' a ≤ contactEarliestStart c a := by
  rw [contactEarliestStart_eq_max, contactEarliestStart_eq_max]
  exact max_le_max (le_refl a) h.tStart

theorem NoWorse.capUse (h : NoWorse c c') (hrate : 0 < c.rate) {t t' : ℚ} (ht : t' ≤ t) :
    contactCapUse c t ≤ contactCapUse c' t' := by
  have hleft : (if c.tEnd - t < 0 then 0 else c.tEnd - t)
      ≤ (if c'.tEnd - t' < 0 then 0 else c'.tEnd - t') := by
    have := h.tEnd
    split <;> split <;> linarith
  have hzero : 0 ≤ (if c.tEnd - t < 0 then 0 else c.tEnd - t) := by
    split <;> linarith
  have hmul := mul_le_mul h.rate hleft hzero (hrate.le.trans h.rate)
  have := h.bytesUsed
  have := h.reserved
  unfold contactCapUse contactCapRem
  dsimp only
  linarith

/-- Before the window of the other closes, it is open or will be. -/
theorem NoWorse.open (h : NoWorse c c') {a : ℚ} (hin : a < c.tEnd) :
    contactOpen c' a = true := by
  refine contactOpen_iff.mpr ⟨by rw [h.up]; decide, ?_⟩
  simp only [contactIsActive, contactIsFuture, h.up, Bool.or_eq_true, Bool.and_eq_true,
    decide_eq_true_eq]
  rcases le_or_gt c'.tStart a with hopened | hfuture
  · exact Or.inl ⟨⟨hopened, lt_of_lt_of_le hin h.tEnd⟩, trivial⟩
  · exact Or.inr ⟨hfuture, by decide⟩

/-- **A hop that can be taken can be taken over a link that is no worse**, and it arrives no
    later. -/
theorem NoWorse.hop {q q' : CgrCall} (hlogf : q'.logf = q.logf)
    (hber : q'.cfg.berAware = q.cfg.berAware) (hload : SameLoad q.b q'.b) (h : NoWorse c c')
    (hrate : 0 < c.rate) {a : ℚ} (hfeas : hopFeasible q c a = true) :
    hopFeasible q' c' a = true ∧ hopArrival q' c' a ≤ hopArrival q c a := by
  simp only [hopFeasible, Bool.and_eq_true] at hfeas ⊢
  obtain ⟨hend, hlast, hexp, hcap, hbits⟩ := hopFits_iff.mp hfeas.2
  have hstart : hopStart c' a ≤ hopStart c a := h.earliestStart a
  have htx := h.txDuration hrate q.b.bytes_nonneg
  have harr : hopArrival q' c' a ≤ hopArrival q c a := by
    have := h.owlt
    unfold hopArrival contactArrivalAtReceiver
    rw [hload.bytes]
    linarith
  have hopen : contactOpen c' a = true :=
    h.open (lt_of_le_of_lt (le_contactEarliestStart c a) hend)
  refine ⟨⟨hopen, hopFits_iff.mpr ⟨?_, ?_, ?_, ?_, ?_⟩⟩, harr⟩
  · exact lt_of_le_of_lt hstart (lt_of_lt_of_le hend h.tEnd)
  · rw [hload.bytes]
    have := h.tEnd
    linarith
  · rw [hload.tExp]
    exact Flt.le_fin_antitone hexp harr
  · rw [hload.bytes]
    exact hcap.trans (h.capUse hrate hstart)
  · intro haware
    have hbits' := hbits (hber ▸ haware)
    unfold cgrContactBerFeasible at hbits' ⊢
    rw [h.ber, hload.bytes, hlogf]
    exact hbits'

end

/-! ## Taking over -/

/-- The plan has for each of these contacts one that is no worse. -/
def PlanOffers (cp : ContactPlan) (cs : List Contact) : Prop :=
  ∀ c ∈ cs, ∃ c' ∈ cp.contacts, NoWorse c c'

theorem offers_callGraph {q q' : CgrCall} (hplan : RealisticPlan q'.cp)
    (hber : q'.cfg.berAware = q.cfg.berAware) (hlogf : q'.logf = q.logf)
    (hload : SameLoad q.b q'.b) {cs : List Contact} (h : PlanOffers q'.cp cs) :
    (callGraph q).Offers (callGraph q') cs := by
  intro c hc
  obtain ⟨c', hmem, hbetter⟩ := h c hc
  refine ⟨c', hbetter.frm, hbetter.toNode, fun a b hride => ?_⟩
  obtain ⟨_, hfeas, rfl⟩ := ride_callGraph.mp hride
  have hrate : 0 < c.rate := by
    have hs := (abs_lt.mp (hplan.tStart c' hmem)).1
    have he := (abs_lt.mp (hplan.tEnd c' hmem)).2
    exact rate_pos_of_feasible (lt_of_lt_of_le hs hbetter.tStart)
      (lt_of_le_of_lt hbetter.tEnd he) hfeas
  obtain ⟨hfeas', harr⟩ := hbetter.hop hlogf hber hload hrate hfeas
  exact ⟨_, harr, ride_callGraph.mpr ⟨hmem, hfeas', rfl⟩⟩

/-- A returned route is a feasible walk, also where it was cut off. -/
theorem feasibleFrom_of_route {q : CgrCall} {fuel : Nat} {r : CgrRoute}
    (h : cgrSelectRoute q fuel = .route r) :
    FeasibleFrom q q.b.curr q.t (contactsOf r.hops) := by
  obtain ⟨st, hreach, _, hmem, _⟩ := cgrSelectRoute_route h
  obtain ⟨ps, hps⟩ := (cgrOk_reaches hreach).beam r hmem
  have hhops : r.hops = ps.take cgrRouteMaxHops := by rw [hps.route_eq]; rfl
  rw [hhops, contactsOf_take]
  exact hps.walk.feasible.take _

theorem berAware_default (logf : ℚ → ℚ) (cp : ContactPlan) (b : Bundle) (t : ℚ)
    (maxRoutes : Int32) : (CgrCall.default logf cp b t maxRoutes).cfg.berAware = true := rfl

/-- A returned route of the default configuration is a trip, up to any of its hops and on from
    there. -/
theorem trip_of_route {logf : ℚ → ℚ} {cp : ContactPlan} {b : Bundle} {t : ℚ}
    {maxRoutes : Int32} {fuel : Nat} {r : CgrRoute}
    (h : cgrSelectRoute (.default logf cp b t maxRoutes) fuel = .route r) (i : Nat) :
    (callGraph (.default logf cp b t maxRoutes)).Trip
      (walkEnd (.default logf cp b t maxRoutes) (r.hops.take i))
      (walkArrival (.default logf cp b t maxRoutes) (r.hops.take i))
      (contactsOf (r.hops.drop i)) b.dst r.arrivalTime := by
  have hwhole := routeWhole_of_route h
  generalize hq : CgrCall.default logf cp b t maxRoutes = q at h hwhole ⊢
  have hb : q.b = b := by rw [← hq]; rfl
  rw [← hb]
  have hfeas := feasibleFrom_of_route h
  have hend : endNode q.b.curr (contactsOf r.hops) = q.b.dst := by
    obtain ⟨p, hlast, hdst⟩ := hwhole.atDst
    obtain ⟨us, hus⟩ := List.getLast?_eq_some_iff.mp hlast
    rw [hus, contactsOf_append]
    exact (endNode_concat _ _ _).trans hdst
  have hsplit : contactsOf r.hops = contactsOf (r.hops.take i) ++ contactsOf (r.hops.drop i) := by
    rw [← contactsOf_append, List.take_append_drop]
  refine trip_callGraph_iff.mpr ⟨?_, ?_, ?_⟩
  · rw [hsplit] at hfeas
    exact (feasibleFrom_append.mp hfeas).2
  · rw [← hend, hsplit, endNode_append]
    rfl
  · rw [hwhole.arrival, walkArrival, walkArrival, hsplit, arrivalAfter_append]

/-- **A handed-over bundle has a way on.** `r` is a route of the default configuration. A node
    on it, who has the bundle no later than the route predicts and whose plan offers the rest
    of the route, does not get `-1` — whatever else its plan contains, and however much of the
    rest it then prefers to do differently. -/
theorem cgrSelectRoute_handover (logf : ℚ → ℚ) (cp cp' : ContactPlan) (b b' : Bundle)
    (t t' : ℚ) (maxRoutes maxRoutes' : Int32) (fuel : Nat) (r : CgrRoute) (i : Nat)
    (h : cgrSelectRoute (.default logf cp b t maxRoutes) fuel = .route r)
    (hplan : RealisticPlan cp') (hload : SameLoad b b')
    (hat : b'.curr = walkEnd (.default logf cp b t maxRoutes) (r.hops.take i))
    (haway : b'.curr ≠ b.dst)
    (hontime : t' ≤ walkArrival (.default logf cp b t maxRoutes) (r.hops.take i))
    (hoffers : PlanOffers cp' (contactsOf (r.hops.drop i))) (fuel' : Nat) :
    cgrSelectRoute (.default logf cp' b' t' maxRoutes') fuel' ≠ .noRoute := by
  have htrip := trip_of_route h i
  rw [← hat] at htrip
  have hber : (CgrCall.default logf cp' b' t' maxRoutes').cfg.berAware =
      (CgrCall.default logf cp b t maxRoutes).cfg.berAware :=
    (berAware_default _ _ _ _ _).trans (berAware_default _ _ _ _ _).symm
  have hbetter := offers_callGraph hplan hber rfl hload hoffers
  obtain ⟨cs, a, _, htrip'⟩ := htrip.transfer (fifo_callGraph hplan) hontime hbetter
  rw [← hload.dst] at htrip' haway
  exact not_noRoute_of_trip hplan haway.symm htrip' fuel'

/-- `BBBB` after the first hop of the test route, which has reached it at time 11/10: its own
    plan has a longer window and a link that leads nowhere. -/
theorem cgrSelectRoute_handover_testCgr : ∀ fuel, cgrSelectRoute (.default (fun x => x - 1)
    (.ofList [testLink nodeB nodeD 0 60, testLink nodeB nodeC 0 90])
    { testBundle nodeC with curr := nodeB } 1 8) fuel ≠ .noRoute := by
  have h : cgrSelectRoute testCgr 10 = .route
      { hops := [⟨0, testLink nodeA nodeB 0 60⟩, ⟨1, testLink nodeB nodeC 0 60⟩]
        cost := -(88199 / 5)
        arrivalTime := 6 / 5 } := by decide +kernel
  refine cgrSelectRoute_handover _ _ _ _ _ 1 1 16 8 10 _ 1 h ?_ ⟨rfl, rfl, rfl⟩ rfl (by decide)
    (by decide +kernel) ?_
  · refine ⟨?_, ?_, ?_⟩ <;> decide +kernel
  · intro c hc
    obtain rfl := List.mem_singleton.mp hc
    refine ⟨testLink nodeB nodeC 0 90, by decide +kernel, ?_⟩
    constructor <;> decide +kernel

end DtnHardware
