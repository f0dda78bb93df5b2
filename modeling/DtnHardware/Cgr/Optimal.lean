import DtnHardware.Cgr.Complete

/-!
# The cheapest route, and what the dominance test forgets

The cost of a route falls with its *bottleneck* margin, the least over all its hops. The
signature that the dominance test compares holds the margin of the last hop only. So an
extension may be refused in favour of a walk that is no later and no less reliable but has
a tighter link behind it, and with it the cheapest route is gone.

`LosesMargin` is that step. In a call without one the search keeps, along every simple
route, a walk as good in all three respects, and the route it returns is the cheapest.
-/

set_option autoImplicit false

namespace DtnHardware

open StepMachine Dominance

/-- `ps` is as early, as reliable and as spare as `rs` — over all their hops. -/
structure AsGood (q : CgrCall) (ps rs : List ContactPtr) : Prop where
  arrival : walkArrival q ps ≤ walkArrival q rs
  conf : pathConf (contactsOf rs) ≤ pathConf (contactsOf ps)
  margin : pathMargin q (contactsOf rs) ≤ pathMargin q (contactsOf ps)

/-- The step that goes wrong: the dominance test refuses an extension although no accepted
    walk to the same node is as good. -/
def LosesMargin (q : CgrCall) (st : SearchState) (acc : Set (List ContactPtr)) : Prop :=
  ∃ f below nc, Examines q st f below nc ∧ Passes q f nc ∧ Dominated q st f nc ∧
    ∀ ps ∈ acc, walkEnd q ps = nc.contact.toNode → ¬ AsGood q ps (stackPath st.stack ++ [nc])

/-- The returned route costs no more than any simple route within the hop limit. -/
def Optimal (q : CgrCall) : Prop :=
  ∀ fuel r, cgrSelectRoute q fuel = .route r → ∀ cs, SimpleRoute q cs →
    cs.length ≤ sizeT q.cfg.maxHops → r.cost ≤ computeCost q cs (arrivalAfter q q.t cs)

/-- Delays of light and confidences as probabilities. -/
structure SoundPlan (cp : ContactPlan) : Prop where
  owlt : ∀ c ∈ cp.contacts, 0 ≤ c.owlt
  conf : ∀ c ∈ cp.contacts, 0 < c.conf ∧ c.conf ≤ 1

/-! ## An order to follow routes with -/

theorem pathConf_contactsOf_concat (ps : List ContactPtr) (nc : ContactPtr) :
    pathConf (contactsOf (ps ++ [nc])) = pathConf (contactsOf ps) * nc.contact.conf := by
  rw [contactsOf_append, contactsOf_singleton, pathConf_concat]

theorem pathMargin_contactsOf_concat (q : CgrCall) (ps : List ContactPtr) (nc : ContactPtr) :
    pathMargin q (contactsOf (ps ++ [nc]))
      = min (pathMargin q (contactsOf ps)) (hopMargin q nc.contact (walkArrival q ps)) := by
  rw [contactsOf_append, contactsOf_singleton, pathMargin_concat]
  rfl

theorem asGood_refl (q : CgrCall) (ps : List ContactPtr) : AsGood q ps ps :=
  ⟨le_refl _, le_refl _, le_refl _⟩

theorem follows_asGood {q : CgrCall} (hplan : SoundPlan q.cp) (hrate : UsableRates q) :
    Follows q (AsGood q) := by
  refine ⟨asGood_refl q, ?_, fun _ _ h => h.arrival, ?_, ?_⟩
  · intro ps rs us h h'
    exact ⟨h.arrival.trans h'.arrival, h'.conf.trans h.conf, h'.margin.trans h.margin⟩
  · intro ps rs nc hpt hhop h
    have hconf : 0 ≤ nc.contact.conf := (hplan.conf _ hpt.mem).1.le
    refine ⟨?_, ?_, ?_⟩
    · rw [walkArrival_concat, walkArrival_concat]
      exact hopArrival_mono q nc.contact h.arrival
    · rw [pathConf_contactsOf_concat, pathConf_contactsOf_concat]
      exact mul_le_mul_of_nonneg_right h.conf hconf
    · rw [pathMargin_contactsOf_concat, pathMargin_contactsOf_concat]
      exact min_le_min h.margin (hopMargin_antitone q (hrate _ hpt.mem _ hhop) h.arrival)
  · intro ps ds hpts
    refine ⟨walkArrival_append_le hplan.owlt hpts, ?_, ?_⟩
    · rw [contactsOf_append]
      refine (pathConf_append_le fun c hc => ?_).2
      rw [← contactsOf_append] at hc
      obtain ⟨p, hp, rfl⟩ := List.mem_map.mp hc
      exact hplan.conf _ (hpts p hp).mem
    · rw [contactsOf_append]
      exact pathMargin_append_le q _ _

/-- Never losing margin is keeping this order. -/
theorem keeps_asGood {q : CgrCall}
    (h : ∀ st acc, History q st acc → ¬ LosesMargin q st.search acc) : Keeps q (AsGood q) := by
  intro st acc hhist _ _ f below nc hex hp hdom
  by_contra hnone
  refine h st acc hhist ⟨f, below, nc, hex, hp, hdom, fun ps hps hend hgood => hnone ?_⟩
  exact ⟨ps, hps, hend, hgood⟩

/-! ## The cost -/

/-- **A walk that is as good costs no more.** -/
theorem computeCost_le_of_asGood {q : CgrCall} (hlog : Monotone q.logf) (hw1 : 0 ≤ q.cfg.w1)
    (hw2 : 0 ≤ q.cfg.w2) (hw3 : 0 ≤ q.cfg.w3) {ps rs : List ContactPtr} (h : AsGood q ps rs) :
    computeCost q (contactsOf ps) (walkArrival q ps)
      ≤ computeCost q (contactsOf rs) (walkArrival q rs) := by
  have hconf := h.conf
  have hclamp : (if pathConf (contactsOf rs) > 1 / 10 ^ 12 then pathConf (contactsOf rs)
        else 1 / 10 ^ 12)
      ≤ (if pathConf (contactsOf ps) > 1 / 10 ^ 12 then pathConf (contactsOf ps)
        else 1 / 10 ^ 12) := by
    split <;> split <;> linarith
  have hdelay : q.cfg.w1 * (walkArrival q ps - q.t) ≤ q.cfg.w1 * (walkArrival q rs - q.t) :=
    mul_le_mul_of_nonneg_left (sub_le_sub_right h.arrival _) hw1
  have hlogs := mul_le_mul_of_nonneg_left (hlog hclamp) hw2
  have hmargin := mul_le_mul_of_nonneg_left h.margin hw3
  unfold computeCost
  dsimp only
  linarith

theorem routeOf_cost {q : CgrCall} {ps : List ContactPtr} (h : ps.length ≤ cgrRouteMaxHops)
    (a : ℚ) : (routeOf q ps a).cost = computeCost q (contactsOf ps) a := by
  unfold routeOf
  dsimp only
  rw [List.take_of_length_le h]
  rfl

/-- **A call that never loses margin returns a cheapest route.** What is asked of the rates holds
    of any plan whose accounts are not negative (`usableRates_of_booked`). -/
theorem cgrSelectRoute_optimal (logf : ℚ → ℚ) (cp : ContactPlan) (b : Bundle) (t : ℚ)
    (maxRoutes : Int32) (hlog : Monotone logf) (hplan : SoundPlan cp) (hdst : b.dst ≠ b.curr)
    (hrate : UsableRates (.default logf cp b t maxRoutes))
    (hmargin : ∀ st acc, History (.default logf cp b t maxRoutes) st acc →
      ¬ LosesMargin (.default logf cp b t maxRoutes) st.search acc) :
    Optimal (.default logf cp b t maxRoutes) := by
  intro fuel r hr cs hcs _
  obtain ⟨st, hreach, hd, _, hmin⟩ := cgrSelectRoute_route hr
  obtain ⟨acc, hacc⟩ := searchedAll_of_done (D := AsGood _) (asGood_refl _)
    (keeps_asGood hmargin) (beamCap_default_pos logf cp b t maxRoutes)
    (limitsWide_default logf cp b t maxRoutes) hreach hd
  obtain ⟨ps, hps, hend, rs, rfl, hgood⟩ :=
    hacc.follow_route (follows_asGood hplan hrate) hrate hdst hcs
  obtain ⟨x, hx, hcost⟩ := hacc.offered ps hps hend
  rw [routeOf_cost (hacc.short ps hps)] at hcost
  calc r.cost ≤ x.cost := hmin x hx
    _ ≤ computeCost _ (contactsOf ps) (walkArrival _ ps) := hcost
    _ ≤ computeCost _ (contactsOf rs) (walkArrival _ rs) :=
        computeCost_le_of_asGood hlog (show (0 : ℚ) ≤ 1 by norm_num)
          (show (0 : ℚ) ≤ 1 / 2 by norm_num) (show (0 : ℚ) ≤ 3 / 10 by norm_num) hgood

/-! ## Plans without such a step -/

/-- No hop after the first has more room than the hops before it. -/
def Narrowing (q : CgrCall) : Prop :=
  ∀ ps nc, ps ≠ [] → SearchWalk q (ps ++ [nc]) →
    hopMargin q nc.contact (walkArrival q ps) ≤ pathMargin q (contactsOf ps)

/-- Where the last hop is always the bottleneck, comparing last hops is enough. -/
theorem keeps_of_narrowing {q : CgrCall} (h : Narrowing q) : Keeps q (AsGood q) := by
  intro st acc _ hok hghost f below nc hex _ hdom
  obtain ⟨sigs, hsigs, x, hx, hle⟩ := hdom
  rw [examinedSig_eq hok hex] at hle
  rcases frontierSigs_cases hsigs with ⟨fr, hfr, hnode, rfl⟩ | ⟨rfl, _⟩
  · obtain ⟨ps, nc', hne, hmem, hto, rfl⟩ := hghost.sigs fr hfr x hx
    refine ⟨ps ++ [nc'], hmem, (walkEnd_concat _ _ _).trans (hto.trans hnode), ?_, ?_, ?_⟩
    · rw [walkArrival_concat, walkArrival_concat]
      exact hle.1
    · rw [pathConf_contactsOf_concat, pathConf_contactsOf_concat]
      exact hle.2.1
    · rw [pathMargin_contactsOf_concat, pathMargin_contactsOf_concat,
        min_eq_right (h ps nc' hne (hghost.walk _ hmem))]
      exact (min_le_right _ _).trans hle.2.2
  · cases hx

theorem not_losesMargin_of_narrowing {q : CgrCall} (hcap : 0 < beamCap q)
    (hlim : LimitsWide q.cfg) (hret : Returns q) (h : Narrowing q) {st : CgrState}
    {acc : Set (List ContactPtr)} (hhist : History q st acc) :
    ¬ LosesMargin q st.search acc := by
  rintro ⟨f, below, nc, hex, hp, hdom, hnone⟩
  have hexp := hhist.explored (asGood_refl q) (keeps_of_narrowing h) hcap hlim
    fun s hs htf => not_returns_of_tableFull hlim.hi hs htf hret
  obtain ⟨ps, hps, hend, hgood⟩ := keeps_of_narrowing h st acc hhist
    (cgrOk_reaches hhist.reaches).search hexp.search.ghost f below nc hex hp hdom
  exact hnone ps hps hend hgood

/-- Two direct links, one opening later. -/
def directLinks : CgrCall :=
  .default (fun x => x - 1)
    (.ofList [testLink nodeA nodeC 10 60, testLink nodeA nodeC 0 60]) (testBundle nodeC) 1 16

theorem narrowing_directLinks : Narrowing directLinks := by
  intro ps nc hne hwalk
  -- no contact of the plan leaves a receiver of the plan
  have hplan : ∀ c ∈ directLinks.cp.contacts, ∀ c' ∈ directLinks.cp.contacts,
      c'.frm ≠ c.toNode := by decide +kernel
  obtain ⟨us, p, rfl⟩ := List.eq_nil_or_concat' ps |>.resolve_left hne
  have hfeas := hwalk.feasible
  rw [contactsOf_append, contactsOf_singleton, feasibleFrom_concat] at hfeas
  obtain ⟨_, hmem, hfrm, _⟩ := hfeas
  have hp : p.contact ∈ directLinks.cp.contacts := (hwalk.points p (by simp)).mem
  exact absurd (hfrm.trans (walkEnd_concat _ us p)) (hplan _ hp _ hmem)

theorem cgrSelectRoute_optimal_directLinks : Optimal directLinks := by
  have hrun : cgrSelectRoute directLinks 10 = .route
      { hops := [⟨1, testLink nodeA nodeC 0 60⟩]
        cost := -(176699 / 10)
        arrivalTime := 11 / 10 } := by decide +kernel
  have hret : Returns directLinks := ⟨10, Or.inr ⟨_, hrun⟩⟩
  refine cgrSelectRoute_optimal _ _ _ _ _ (fun x y h => sub_le_sub_right h 1)
    ⟨by decide +kernel, by decide +kernel⟩ (by decide) (usableRates_of_booked (by decide +kernel))
    fun st acc hhist => not_losesMargin_of_narrowing (beamCap_default_pos _ _ _ _ _)
      (limitsWide_default _ _ _ _ _) hret narrowing_directLinks hhist

/-! ### A tight link behind a wide one -/

/-- Two ways to `D`, over the nearly full link `A → B` and over the slow link `C → D`, and
    one link from there. -/
def tightLink : CgrCall :=
  .default (fun x => x - 1)
    (.ofList [{ testLink nodeA nodeB 0 100 with bytesUsed := 99800 },
      testLink nodeB nodeD 0 100, testLink nodeA nodeC 0 100,
      { testLink nodeC nodeD 0 100 with rate := 500 }, testLink nodeD nodeE 0 1000])
    (testBundle nodeE) 0 16

theorem tightLink_not_optimal : ¬ Optimal tightLink := by
  intro h
  have hrun : cgrSelectRoute tightLink 40 = .route
      { hops := [⟨0, { testLink nodeA nodeB 0 100 with bytesUsed := 99800 }⟩,
          ⟨1, testLink nodeB nodeD 0 100⟩, ⟨4, testLink nodeD nodeE 0 1000⟩]
        cost := -(297 / 10), arrivalTime := 3 / 10 } := by decide +kernel
  have hroute : SimpleRoute tightLink [testLink nodeA nodeC 0 100,
      { testLink nodeC nodeD 0 100 with rate := 500 }, testLink nodeD nodeE 0 1000] :=
    ⟨by decide +kernel, by decide, by decide⟩
  exact absurd (h 40 _ hrun _ hroute (by decide)) (by decide +kernel)

end DtnHardware
