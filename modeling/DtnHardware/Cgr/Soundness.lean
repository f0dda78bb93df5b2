import DtnHardware.Cgr.Invariant

/-!
# A returned route can be followed

`RouteSound` is what a caller of `cgr_select_route` relies on: the hops are contacts of
the plan chained from `b.curr`, and each of them passes the code's tests at the arrival
time that the hops before it produce. It holds for every configuration — the hop and
route limits play no part in it. Only the two facts about the far end need the route to
have kept all its hops, because `CGR_ROUTE_MAX_HOPS` cuts a longer one off.
-/

set_option autoImplicit false

namespace DtnHardware

open StepMachine

/-- One hop of a route, taken by a bundle that arrives at its sender at time `a`. -/
structure HopSound (q : CgrCall) (a : ℚ) (c : Contact) : Prop where
  inPlan : c ∈ q.cp.contacts
  notDown : c.status ≠ .down
  activeOrFuture : contactIsActive c a = true ∨ contactIsFuture c a = true
  startsInWindow : max a c.tStart < c.tEnd
  endsInWindow : max a c.tStart + contactTxDuration c q.b.bytes ≤ c.tEnd
  beforeExpiry : ∀ tGen ttl : ℚ, q.b.tGen.value = .fin tGen → q.b.ttl.value = .fin ttl →
    max a c.tStart + contactTxDuration c q.b.bytes + c.owlt < tGen + ttl
  capacity : q.b.bytes ≤ contactCapUse c (max a c.tStart)
  bitErrors : q.cfg.berAware = true → cgrContactBerFeasible q.logf c q.b.bytes = true

/-- A route that a bundle at `b.curr` can follow from time `t`. `walkArrival q` of the
    first `i` hops is the arrival time `A_{i-1}`. -/
structure RouteSound (q : CgrCall) (r : CgrRoute) : Prop where
  nonempty : r.hops ≠ []
  leaves : ∀ p, r.hops[0]? = some p → p.contact.frm = q.b.curr
  chained : ∀ i p p', r.hops[i]? = some p → r.hops[i + 1]? = some p' →
    p.contact.toNode = p'.contact.frm
  hops : ∀ i p, r.hops[i]? = some p → HopSound q (walkArrival q (r.hops.take i)) p.contact
  atDst : r.hops.length < cgrRouteMaxHops →
    endNode q.b.curr (contactsOf r.hops) = q.b.dst ∧ r.arrivalTime = walkArrival q r.hops

theorem hopSound_of_feasible {q : CgrCall} {c : Contact} {a : ℚ} (hmem : c ∈ q.cp.contacts)
    (hf : hopFeasible q c a = true) : HopSound q a c := by
  simp only [hopFeasible, Bool.and_eq_true] at hf
  obtain ⟨hdown, hact⟩ := contactOpen_iff.mp hf.1
  obtain ⟨hstart, hend, hexp, hcap, hber⟩ := hopFits_iff.mp hf.2
  have hT : hopStart c a = max a c.tStart := contactEarliestStart_eq_max c a
  rw [hT] at hstart hend hcap
  refine ⟨hmem, hdown, Bool.or_eq_true _ _ |>.mp hact, hstart, hend, ?_, hcap, hber⟩
  intro tGen ttl hg hl
  simp only [bundleTExp, hg, hl, Flt.add_fin, Flt.le_fin, decide_eq_false_iff_not,
    not_le] at hexp
  rw [hopArrival, contactArrivalAtReceiver, hT] at hexp
  exact hexp

theorem contactsOf_take (ps : List ContactPtr) (n : Nat) :
    contactsOf (ps.take n) = (contactsOf ps).take n := List.map_take

/-- A search walk, cut anywhere but at the start, is a route that can be followed. -/
theorem OfferedBy.sound {q : CgrCall} {ps : List ContactPtr} {r : CgrRoute}
    (h : OfferedBy q ps r) : RouteSound q r := by
  have hr := h.route_eq
  have hhops : r.hops = ps.take cgrRouteMaxHops := by rw [hr]; rfl
  have harr : r.arrivalTime = walkArrival q ps := by rw [hr]; rfl
  have hfeas : FeasibleFrom q q.b.curr q.t (contactsOf r.hops) := by
    rw [hhops, contactsOf_take]
    exact h.walk.feasible.take _
  have hat : ∀ (i : Nat) (p : ContactPtr), r.hops[i]? = some p →
      (contactsOf r.hops)[i]? = some p.contact := by
    intro i p hi
    rw [contactsOf, List.getElem?_map, hi]
    rfl
  refine ⟨?_, ?_, ?_, ?_, ?_⟩
  · rw [hhops]
    intro hnil
    rw [List.take_eq_nil_iff] at hnil
    rcases hnil with h0 | hps
    · exact absurd h0 (by decide)
    · exact h.walk.nonempty hps
  · intro p hp
    exact (hfeas.at_index (hat 0 p hp)).2.1
  · intro i p p' hp hp'
    have hfrm := (hfeas.at_index (hat (i + 1) p' hp')).2.1
    rw [endNode_take_succ (hat i p hp)] at hfrm
    exact hfrm.symm
  · intro i p hp
    obtain ⟨hmem, _, hhop⟩ := hfeas.at_index (hat i p hp)
    rw [← contactsOf_take] at hhop
    exact hopSound_of_feasible hmem hhop
  · intro hshort
    have hall : r.hops = ps := by
      rw [hhops, List.length_take] at hshort
      rw [hhops, List.take_of_length_le]
      omega
    exact ⟨hall ▸ h.atDst, hall ▸ harr⟩

/-- **Whatever `cgr_select_route` returns can be followed.** -/
theorem cgrSelectRoute_sound (q : CgrCall) (fuel : Nat) (r : CgrRoute)
    (h : cgrSelectRoute q fuel = .route r) : RouteSound q r := by
  obtain ⟨st, hreach, _, hmem, _⟩ := cgrSelectRoute_route h
  obtain ⟨ps, hps⟩ := (cgrOk_reaches hreach).beam r hmem
  exact hps.sound

/-- The hops are pointers into the plan that was searched. -/
theorem cgrSelectRoute_points {q : CgrCall} {fuel : Nat} {r : CgrRoute}
    (h : cgrSelectRoute q fuel = .route r) : ∀ p ∈ r.hops, PointsInto q.cp p := by
  obtain ⟨st, hreach, _, hmem, _⟩ := cgrSelectRoute_route h
  obtain ⟨ps, hps⟩ := (cgrOk_reaches hreach).beam r hmem
  intro p hp
  rw [hps.route_eq] at hp
  exact hps.walk.points p (List.mem_of_mem_take hp)

/-! ### The repository's own test plan, `A → B → C` -/

/-- Node ids `AAAA`, `BBBB`, `CCCC`, `DDDD`, `EEEE`. -/
def nodeA : NodeId := 0x41414141
def nodeB : NodeId := 0x42424242
def nodeC : NodeId := 0x43434343
def nodeD : NodeId := 0x44444444
def nodeE : NodeId := 0x45454545

/-- The bundle of `test_cgr`: 100 bytes at `AAAA`, for `dst`, alive for 1000 s. -/
def testBundle (dst : NodeId) : Bundle :=
  { Bundle.zero with
    bundleId := 1, src := nodeA, dst, curr := nodeA, size := 100, ttl := ⟨0x447A0000⟩ }

/-- A link of 1000 bytes/s without delay or errors. -/
def testLink (frm toNode : NodeId) (tStart tEnd : ℚ) : Contact :=
  .loaded frm toNode tStart tEnd 1000 0 1 0

/-- The logarithm of the runs on fixed inputs: it is increasing, and 0 at 1. -/
def testLog (x : ℚ) : ℚ := x - 1

/-- The call of `test_cgr`. -/
def testCgr : CgrCall :=
  { logf := fun x => x - 1
    cp := .ofList [testLink nodeA nodeB 0 60, testLink nodeB nodeC 0 60]
    b := testBundle nodeC
    t := 1
    cfg := cgrConfigDefault 16 }

theorem cgrSelectRoute_sound_testCgr :
    ∃ r, cgrSelectRoute testCgr 10 = .route r ∧ r.hops.length = 2 ∧ RouteSound testCgr r := by
  have h : cgrSelectRoute testCgr 10 = .route
      { hops := [⟨0, testLink nodeA nodeB 0 60⟩, ⟨1, testLink nodeB nodeC 0 60⟩]
        cost := -(88199 / 5)
        arrivalTime := 6 / 5 } := by decide +kernel
  exact ⟨_, h, rfl, cgrSelectRoute_sound _ _ _ h⟩

end DtnHardware
