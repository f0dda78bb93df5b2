import DtnHardware.Cgr.Explored

/-!
# `-1` means there is no way

The search prunes in three ways — the visited list, the frontiers, the limits — and none
of them loses the destination. The argument (`SearchedAll.follow`) goes along a feasible
route hop by hop and keeps an accepted walk to the same node that is at least as good: the
next contact of the route is open to that walk too, by the first-in first-out law, and if
it was not taken then because the walk had been there before, earlier still, or because an
accepted walk was at least as good.

"At least as good" is any relation with the laws of `Follows`. For completeness it is the
arrival time alone.

The bound on the times is what makes a link without a rate infeasible: its transmission
time is the code's `1e30f`.
-/

set_option autoImplicit false

namespace DtnHardware

open StepMachine

/-- A feasible contact sequence from `b.curr` to `b.dst` that visits no node twice. -/
structure SimpleRoute (q : CgrCall) (cs : List Contact) : Prop where
  feasible : FeasibleFrom q q.b.curr q.t cs
  atDst : endNode q.b.curr cs = q.b.dst
  simple : (q.b.curr :: cs.map Contact.toNode).Nodup

/-- No link with a negative rate is ever usable. -/
def UsableRates (q : CgrCall) : Prop :=
  ∀ c ∈ q.cp.contacts, ∀ a, hopFeasible q c a = true → 0 ≤ c.rate

/-- An order on walks that the search can follow a route with. -/
structure Follows (q : CgrCall) (D : List ContactPtr → List ContactPtr → Prop) : Prop where
  refl : ∀ ps, D ps ps
  trans : ∀ ps rs us, D ps rs → D rs us → D ps us
  noLater : ∀ ps rs, D ps rs → walkArrival q ps ≤ walkArrival q rs
  extend : ∀ ps rs nc, PointsInto q.cp nc →
    hopFeasible q nc.contact (walkArrival q rs) = true → D ps rs → D (ps ++ [nc]) (rs ++ [nc])
  shorten : ∀ ps ds, (∀ p ∈ ps ++ ds, PointsInto q.cp p) → D ps (ps ++ ds)

/-! ## Walks as routes -/

/-- Every route through the plan is a walk of pointers into it. -/
theorem exists_ptrs {cp : ContactPlan} : ∀ (cs : List Contact), (∀ c ∈ cs, c ∈ cp.contacts) →
    ∃ rs, contactsOf rs = cs ∧ ∀ p ∈ rs, PointsInto cp p := by
  intro cs
  induction cs with
  | nil => exact fun _ => ⟨[], rfl, fun _ hp => absurd hp List.not_mem_nil⟩
  | cons c cs ih =>
    intro hmem
    obtain ⟨rs, hrs, hpts⟩ := ih fun d hd => hmem d (List.mem_cons_of_mem _ hd)
    obtain ⟨p, hp, hpc⟩ := exists_ptr_of_mem (hmem c List.mem_cons_self)
    refine ⟨p :: rs, by rw [contactsOf, List.map_cons, hpc, ← hrs]; rfl, fun x hx => ?_⟩
    rcases List.mem_cons.mp hx with rfl | hx
    · exact (mem_contactPlanFromNode.mp hp).1
    · exact hpts x hx

theorem FeasibleFrom.mem_plan {q : CgrCall} : ∀ {cs : List Contact} {v : NodeId} {a : ℚ},
    FeasibleFrom q v a cs → ∀ c ∈ cs, c ∈ q.cp.contacts := by
  intro cs
  induction cs with
  | nil => intro _ _ _ c hc; cases hc
  | cons d cs ih =>
    intro v a h c hc
    rcases List.mem_cons.mp hc with rfl | hc
    · exact h.1
    · exact ih h.2.2.2 c hc

/-- A walk that has been somewhere has an accepted prefix that ends there. -/
theorem SearchedAll.prefix_at {q : CgrCall} {D : List ContactPtr → List ContactPtr → Prop}
    {routes : List CgrRoute} {acc : Set (List ContactPtr)} (h : SearchedAll q D routes acc) :
    ∀ (ps : List ContactPtr), ps ∈ acc → ∀ v ∈ receivers ps,
      ∃ us ds, us ++ ds = ps ∧ us ∈ acc ∧ walkEnd q us = v := by
  intro ps
  induction ps using List.reverseRecOn with
  | nil => intro _ v hv; cases hv
  | append_singleton ps p ih =>
    intro hmem v hv
    by_cases hlast : p.contact.toNode = v
    · exact ⟨ps ++ [p], [], List.append_nil _, hmem, (walkEnd_concat q ps p).trans hlast⟩
    · rw [receivers, List.map_append, List.mem_append] at hv
      rcases hv with hv | hv
      · have hne : ps ≠ [] := by rintro rfl; cases hv
        obtain ⟨us, ds, heq, hus, hend⟩ := ih (h.prefixes ps p hne hmem) v hv
        exact ⟨us, ds ++ [p], by rw [← List.append_assoc, heq], hus, hend⟩
      · exact absurd (List.mem_singleton.mp hv).symm hlast

/-! ## Following a route -/

/-- **Along a feasible route that meets the destination only at its end, some accepted walk
    is at least as good.** -/
theorem SearchedAll.follow {q : CgrCall} {D : List ContactPtr → List ContactPtr → Prop}
    {routes : List CgrRoute} {acc : Set (List ContactPtr)} (h : SearchedAll q D routes acc)
    (hD : Follows q D) (hrate : UsableRates q) :
    ∀ (rs : List ContactPtr), rs ≠ [] → (∀ p ∈ rs, PointsInto q.cp p) →
      FeasibleFrom q q.b.curr q.t (contactsOf rs) → (q.b.curr :: receivers rs).Nodup →
      q.b.dst ∉ receivers rs.dropLast →
      ∃ ps ∈ acc, walkEnd q ps = walkEnd q rs ∧ D ps rs := by
  intro rs
  induction rs using List.reverseRecOn with
  | nil => intro hne; exact absurd rfl hne
  | append_singleton rs nc ih =>
    intro _ hpts hfeas hsimple hdst
    rw [List.dropLast_concat] at hdst
    have hpt : PointsInto q.cp nc := hpts nc (by simp)
    rw [contactsOf_append, contactsOf_singleton, feasibleFrom_concat] at hfeas
    obtain ⟨hbefore, hmem, hfrm, hhop⟩ := hfeas
    have hcurr : nc.contact.toNode ≠ q.b.curr := by
      intro heq
      apply (List.nodup_cons.mp hsimple).1
      rw [receivers, List.map_append, ← heq]
      exact List.mem_append_right _ (List.mem_singleton.mpr rfl)
    rw [walkEnd_concat]
    by_cases hnil : rs = []
    · -- the first hop is a seed
      subst hnil
      have hseed : nc ∈ seedsOf q := mem_contactPlanFromNode.mpr ⟨hpt, hfrm⟩
      exact ⟨[nc], h.seeds nc hseed hhop, rfl, hD.refl _⟩
    · have hsimple' : (q.b.curr :: receivers rs).Nodup := by
        rw [receivers, List.map_append, ← List.cons_append] at hsimple
        exact hsimple.of_append_left
      have hdst' : q.b.dst ∉ receivers rs.dropLast := fun hm => hdst
        (List.map_subset _ (List.dropLast_subset rs) hm)
      obtain ⟨ps, hps, hend, hgood⟩ := ih hnil (fun p hp => hpts p (List.mem_append_left _ hp))
        hbefore hsimple' hdst'
      have hnotDst : walkEnd q ps ≠ q.b.dst := by
        intro heq
        apply hdst
        obtain ⟨us, p, rfl⟩ := List.eq_nil_or_concat' rs |>.resolve_left hnil
        rw [← heq, hend, walkEnd_concat]
        exact List.mem_map_of_mem (by simp)
      have hnext : nc ∈ contactPlanFromNode q.cp (walkEnd q ps) := by
        rw [hend]
        exact mem_contactPlanFromNode.mpr ⟨hpt, hfrm⟩
      have hlater : D (ps ++ [nc]) (rs ++ [nc]) := hD.extend ps rs nc hpt hhop hgood
      cases h.handled ps hps hnotDst nc hnext with
      | infeasible hfails =>
        rw [hopFeasible_antitone (hrate _ hmem _ hhop) (hD.noLater ps rs hgood) hhop] at hfails
        cases hfails
      | visited hvis =>
        -- the walk has been there: on the way it was better still
        rcases List.mem_cons.mp hvis with heq | hvis
        · exact absurd heq hcurr
        · obtain ⟨us, ds, heq, hus, husend⟩ := h.prefix_at ps hps _ (List.mem_of_mem_tail hvis)
          refine ⟨us, hus, husend, hD.trans us ps _ ?_ (hD.trans ps rs _ hgood ?_)⟩
          · rw [← heq]
            exact hD.shorten us ds (heq ▸ (h.walk ps hps).points)
          · exact hD.shorten rs [nc] hpts
      | asGood ps' hmem' hsame hgood' =>
        exact ⟨ps', hmem', hsame, hD.trans _ _ _ hgood' hlater⟩

/-- **Some accepted walk to the destination is at least as good as a given simple route.** -/
theorem SearchedAll.follow_route {q : CgrCall}
    {D : List ContactPtr → List ContactPtr → Prop} {routes : List CgrRoute}
    {acc : Set (List ContactPtr)} (h : SearchedAll q D routes acc) (hD : Follows q D)
    (hrate : UsableRates q) (hdst : q.b.dst ≠ q.b.curr) {cs : List Contact}
    (hcs : SimpleRoute q cs) : ∃ ps ∈ acc, walkEnd q ps = q.b.dst ∧
      ∃ rs, contactsOf rs = cs ∧ D ps rs := by
  obtain ⟨rs, rfl, hpts⟩ := exists_ptrs cs hcs.feasible.mem_plan
  have hrecv : (contactsOf rs).map Contact.toNode = receivers rs := by
    rw [contactsOf, List.map_map]
    rfl
  have hsimple := hcs.simple
  rw [hrecv] at hsimple
  have hne : rs ≠ [] := by
    rintro rfl
    exact hdst hcs.atDst.symm
  have hlast : q.b.dst ∉ receivers rs.dropLast := by
    obtain ⟨us, p, rfl⟩ := List.eq_nil_or_concat' rs |>.resolve_left hne
    have hend : walkEnd q (us ++ [p]) = q.b.dst := hcs.atDst
    rw [walkEnd_concat] at hend
    rw [List.dropLast_concat, ← hend]
    rw [receivers, List.map_append] at hsimple
    obtain ⟨_, _, hdisj⟩ := List.nodup_append.mp (List.nodup_cons.mp hsimple).2
    exact fun hm => hdisj _ hm _ (List.mem_singleton.mpr rfl) rfl
  obtain ⟨ps, hps, hend, hgood⟩ := h.follow hD hrate rs hne hpts hcs.feasible hsimple hlast
  exact ⟨ps, hps, hend.trans hcs.atDst, rs, rfl, hgood⟩

/-! ## Completeness -/

/-- Contacts as real plans have them. -/
structure RealisticPlan (cp : ContactPlan) : Prop where
  owlt : ∀ c ∈ cp.contacts, 0 ≤ c.owlt
  tStart : ∀ c ∈ cp.contacts, |c.tStart| < 10 ^ 29
  tEnd : ∀ c ∈ cp.contacts, |c.tEnd| < 10 ^ 29

theorem RealisticPlan.usableRates {q : CgrCall} (h : RealisticPlan q.cp) : UsableRates q :=
  fun c hc _ hf =>
    (rate_pos_of_feasible (abs_lt.mp (h.tStart c hc)).1 (abs_lt.mp (h.tEnd c hc)).2 hf).le

/-- A link with a negative rate has no capacity left, unless its accounts are negative too. -/
theorem usableRates_of_booked {q : CgrCall}
    (h : ∀ c ∈ q.cp.contacts, 0 ≤ c.bytesUsed + c.reserved) : UsableRates q := by
  intro c hc a hf
  simp only [hopFeasible, Bool.and_eq_true] at hf
  obtain ⟨hstart, _, _, hcap, _⟩ := hopFits_iff.mp hf.2
  have hbooked := h c hc
  by_contra hneg
  have hleft : c.rate * (c.tEnd - hopStart c a) < 0 :=
    mul_neg_of_neg_of_pos (not_le.mp hneg) (sub_pos.mpr hstart)
  have hcapacity : contactCapUse c (hopStart c a)
      = c.rate * (c.tEnd - hopStart c a) - c.bytesUsed - c.reserved := by
    have hopen : ¬ c.tEnd - hopStart c a < 0 := not_lt.mpr (sub_nonneg.mpr hstart.le)
    rw [contactCapUse, contactCapRem, if_neg hopen]
  rw [hcapacity] at hcap
  linarith [q.b.bytes_nonneg]

theorem walkArrival_append_le {q : CgrCall} (ho : ∀ c ∈ q.cp.contacts, 0 ≤ c.owlt)
    {ps ds : List ContactPtr} (hpts : ∀ p ∈ ps ++ ds, PointsInto q.cp p) :
    walkArrival q ps ≤ walkArrival q (ps ++ ds) := by
  unfold walkArrival
  rw [contactsOf_append, arrivalAfter_append]
  apply le_arrivalAfter _
  intro c hc
  obtain ⟨p, hp, rfl⟩ := List.mem_map.mp hc
  exact ho _ (hpts p (List.mem_append_right _ hp)).mem

theorem follows_noLater {q : CgrCall} (ho : ∀ c ∈ q.cp.contacts, 0 ≤ c.owlt) :
    Follows q (NoLater q) := by
  refine ⟨fun _ => le_refl _, fun _ _ _ => le_trans, fun _ _ => id, ?_, ?_⟩
  · intro ps rs nc _ _ hle
    unfold NoLater
    rw [walkArrival_concat, walkArrival_concat]
    exact hopArrival_mono q nc.contact hle
  · exact fun ps ds hpts => walkArrival_append_le ho hpts

/-- **When `cgr_select_route` returns `-1`, no feasible simple route exists.** -/
theorem cgrSelectRoute_complete (logf : ℚ → ℚ) (cp : ContactPlan) (b : Bundle) (t : ℚ)
    (maxRoutes : Int32) (hplan : RealisticPlan cp) (hdst : b.dst ≠ b.curr) (fuel : Nat)
    (h : cgrSelectRoute (.default logf cp b t maxRoutes) fuel = .noRoute) :
    ¬ ∃ cs, SimpleRoute (.default logf cp b t maxRoutes) cs := by
  obtain ⟨st, hreach, hd, hempty⟩ := cgrSelectRoute_noRoute h
  obtain ⟨acc, hacc⟩ := searchedAll_of_done (D := NoLater _) (fun _ => le_refl _)
    (keeps_noLater _) (beamCap_default_pos logf cp b t maxRoutes)
    (limitsWide_default logf cp b t maxRoutes) hreach hd
  rintro ⟨cs, hroute⟩
  obtain ⟨ps, hps, hend, _⟩ :=
    hacc.follow_route (follows_noLater hplan.owlt) hplan.usableRates hdst hroute
  obtain ⟨r, hr, _⟩ := hacc.offered ps hps hend
  rw [hempty] at hr
  cases hr

/-- The plan of `test_cgr`, for a destination that no contact leads to. -/
def unreachable : CgrCall :=
  .default (fun x => x - 1)
    (.ofList [testLink nodeA nodeB 0 60, testLink nodeB nodeC 0 60]) (testBundle nodeD) 1 16

theorem cgrSelectRoute_complete_unreachable : ¬ ∃ cs, SimpleRoute unreachable cs := by
  have hplan : RealisticPlan unreachable.cp := by
    refine ⟨?_, ?_, ?_⟩ <;> decide +kernel
  have hrun : cgrSelectRoute unreachable 20 = .noRoute := by decide +kernel
  exact cgrSelectRoute_complete _ _ _ _ _ hplan (by decide) 20 hrun

end DtnHardware
