import DtnHardware.Cgr.Soundness

/-!
# Loops

The visited list of a search walk starts with `b.curr`, and every node pushed later joins
it — but not the receiver of the seed, which no one ever adds. So a walk keeps clear of
every node but one (`SearchWalk.fresh`): it may come back to the first node it went to,
and a link from `b.curr` to itself may start it.

`RevisitsSeed` is the step that does either. A call without one returns a route without
a loop, and a plan in which the neighbours of `b.curr` are reached from `b.curr` alone
has no such step.
-/

set_option autoImplicit false

namespace DtnHardware

open StepMachine

/-- `b.curr` and the receivers of the hops are pairwise distinct. -/
def LoopFree (q : CgrCall) (ps : List ContactPtr) : Prop :=
  (q.b.curr :: receivers ps).Nodup

instance (q : CgrCall) (ps : List ContactPtr) : Decidable (LoopFree q ps) :=
  inferInstanceAs (Decidable (List.Nodup _))

/-- The step that goes wrong: a contact to the seed's own receiver is taken, or a seed that
    leads to `b.curr`. -/
def RevisitsSeed (q : CgrCall) (st : SearchState) : Prop :=
  (∃ f below nc fs', Examines q st f below nc ∧ Passes q f nc ∧
    FrontierStep st.frontiers nc.contact.toNode (examinedSig q st f nc) fs' ∧
    (receivers (stackPath st.stack)).head? = some nc.contact.toNode) ∨
  ∃ seed, st.stack = [] ∧ (seedsOf q)[st.nextSeed]? = some seed ∧
    hopFeasible q seed.contact q.t = true ∧ seed.contact.toNode = q.b.curr

theorem receivers_append (ps rs : List ContactPtr) :
    receivers (ps ++ rs) = receivers ps ++ receivers rs := List.map_append

theorem LoopFree.of_append {q : CgrCall} {ps rs : List ContactPtr}
    (h : LoopFree q (ps ++ rs)) : LoopFree q ps := by
  unfold LoopFree at h ⊢
  rw [receivers_append, ← List.cons_append] at h
  exact h.of_append_left

theorem LoopFree.take {q : CgrCall} {ps : List ContactPtr} (h : LoopFree q ps) (n : Nat) :
    LoopFree q (ps.take n) := by
  rw [← List.take_append_drop n ps] at h
  exact h.of_append

/-- A search walk is free of loops as soon as it is clear of its seed's receiver. -/
theorem SearchWalk.loopFree_concat {q : CgrCall} {ps : List ContactPtr} {p : ContactPtr}
    (hwalk : SearchWalk q (ps ++ [p])) (hne : ps ≠ []) (h : LoopFree q ps)
    (hhead : (receivers ps).head? ≠ some p.contact.toNode) : LoopFree q (ps ++ [p]) := by
  have hfresh := hwalk.fresh
  rw [receivers_tail_concat hne, ← List.cons_append] at hfresh
  obtain ⟨_, _, hdisj⟩ := List.nodup_append.mp hfresh
  unfold LoopFree at h ⊢
  rw [receivers_append, ← List.cons_append]
  refine List.Nodup.append h (List.nodup_singleton _) (List.disjoint_singleton.mpr ?_)
  intro hmem
  have hout : p.contact.toNode ∉ q.b.curr :: (receivers ps).tail :=
    fun hm => hdisj _ hm _ (List.mem_singleton.mpr rfl) rfl
  rcases List.mem_cons.mp hmem with hcurr | hmem
  · exact hout (hcurr ▸ List.mem_cons_self)
  · cases hrs : receivers ps with
    | nil => rw [hrs] at hmem; cases hmem
    | cons v vs =>
      rw [hrs] at hmem hhead hout
      rcases List.mem_cons.mp hmem with heq | hmem
      · exact hhead (congrArg some heq.symm)
      · exact hout (List.mem_cons_of_mem _ hmem)

/-- The walks on the stack and in the beam are free of loops. -/
structure LoopFreeState (q : CgrCall) (st : CgrState) : Prop where
  stack : st.search.stack ≠ [] → LoopFree q (stackPath st.search.stack)
  beam : ∀ r ∈ st.beam.routes, LoopFree q r.hops

/-- **What one step keeps**: the walk on the stack, and the walk of the route offered. -/
theorem SearchStep.loopFree {q : CgrCall} {st st' : SearchState} {o : Option CgrRoute}
    (hs : SearchStep q st o st') (hok : SearchOk q st) (hclear : ¬ RevisitsSeed q st)
    (h : st.stack ≠ [] → LoopFree q (stackPath st.stack)) :
    (st'.stack ≠ [] → LoopFree q (stackPath st'.stack)) ∧
      ∀ r, o = some r → LoopFree q r.hops := by
  have hseed : ∀ seed, st.stack = [] → (seedsOf q)[st.nextSeed]? = some seed →
      hopFeasible q seed.contact q.t = true → LoopFree q [seed] := by
    intro seed hempty hget hfeas
    have hne : q.b.curr ≠ seed.contact.toNode :=
      fun heq => hclear (Or.inr ⟨seed, hempty, hget, hfeas, heq.symm⟩)
    simp [LoopFree, receivers, hne]
  have hnone : ∀ r, (none : Option CgrRoute) = some r → LoopFree q r.hops := by
    intro r hr
    cases hr
  -- the walk of a contact the table takes
  have hextend : ∀ f below nc fs', Examines q st f below nc → Passes q f nc →
      FrontierStep st.frontiers nc.contact.toNode (examinedSig q st f nc) fs' →
      LoopFree q (stackPath st.stack ++ [nc]) := by
    intro f below nc fs' hex hp hfs
    have hne : st.stack ≠ [] := by rw [hex.stack_eq]; exact List.cons_ne_nil _ _
    refine (hok.extend hex hp).1.loopFree_concat ?_ (h hne)
      fun hhead => hclear (Or.inl ⟨f, below, nc, fs', hex, hp, hfs, hhead⟩)
    intro hnil
    have := congrArg List.length hnil
    rw [stackPath_length, hex.stack_eq] at this
    cases this
  cases hs with
  | seedSkip seed hempty _ _ => exact ⟨h, hnone⟩
  | seedDirect seed hempty hget hfeas _ =>
    refine ⟨h, fun r hr => ?_⟩
    cases hr
    exact (hseed seed hempty hget hfeas).take _
  | seedPush seed hempty hget hfeas _ => exact ⟨fun _ => hseed seed hempty hget hfeas, hnone⟩
  | popLimit f below hst _ | popEnd f below hst _ _ =>
    refine ⟨fun _ => ?_, hnone⟩
    have := h (by rw [hst]; exact List.cons_ne_nil _ _)
    rw [hst, stackPath_cons] at this
    exact this.of_append
  | skip f below nc hex _ =>
    refine ⟨fun _ => ?_, hnone⟩
    have := h (by rw [hex.stack_eq]; exact List.cons_ne_nil _ _)
    rw [hex.stack_eq] at this
    exact this
  | offer f below nc hex hp fs' hfs _ =>
    refine ⟨fun _ => ?_, fun r hr => ?_⟩
    · have := h (by rw [hex.stack_eq]; exact List.cons_ne_nil _ _)
      rw [hex.stack_eq] at this
      exact this
    · cases hr
      exact (hextend f below nc fs' hex hp hfs).take _
  | full f below nc hex hp fs' hfs _ _ =>
    refine ⟨fun _ => ?_, hnone⟩
    have := h (by rw [hex.stack_eq]; exact List.cons_ne_nil _ _)
    rw [hex.stack_eq] at this
    exact this
  | push f below nc hex hp fs' hfs _ _ =>
    refine ⟨fun _ => ?_, hnone⟩
    have := hextend f below nc fs' hex hp hfs
    rw [hex.stack_eq] at this
    rw [stackPath_cons]
    exact this

theorem loopFree_reaches {q : CgrCall}
    (hclear : ∀ st, (cgrMachine q).Reaches (cgrStart q) st → ¬ RevisitsSeed q st.search)
    {st : CgrState} (h : (cgrMachine q).Reaches (cgrStart q) st) : LoopFreeState q st := by
  refine h.induct ⟨fun hne => absurd rfl hne, fun r hr => nomatch hr⟩ ?_
  intro st st' hreach hfree hs
  obtain ⟨o, hstep, hbeam⟩ := cgrStep_cases hs
  obtain ⟨hstack, hoffer⟩ :=
    hstep.loopFree (cgrOk_reaches hreach).search (hclear st hreach) hfree.stack
  refine ⟨hstack, fun x hx => ?_⟩
  rcases hbeam with ⟨_, heq⟩ | ⟨r, rfl, hpush⟩
  · exact hfree.beam x (heq ▸ hx)
  · rcases beamPush_mem hpush hx with hold | rfl
    · exact hfree.beam x hold
    · exact hoffer x rfl

/-- **A call in which no walk comes back to its seed's receiver returns a route without a
    loop.** -/
theorem cgrSelectRoute_loopFree (q : CgrCall)
    (hclear : ∀ st, (cgrMachine q).Reaches (cgrStart q) st → ¬ RevisitsSeed q st.search)
    (fuel : Nat) (r : CgrRoute) (h : cgrSelectRoute q fuel = .route r) : LoopFree q r.hops := by
  obtain ⟨st, hreach, _, hmem, _⟩ := cgrSelectRoute_route h
  exact (loopFree_reaches hclear hreach).beam r hmem

/-- `A → B → C → B → D`: the direct link `B → D` opens late, and the detour over `C` is a
    second way to it. -/
def loopBack : CgrCall :=
  .default (fun x => x - 1)
    (.ofList [testLink nodeA nodeB 0 100, testLink nodeB nodeC 0 100,
      testLink nodeC nodeB 0 100, testLink nodeB nodeD 500 600])
    (testBundle nodeD) 0 16

theorem loopBack_not_loopFree :
    ¬ ∀ fuel r, cgrSelectRoute loopBack fuel = .route r → LoopFree loopBack r.hops := by
  intro h
  have hrun : cgrSelectRoute loopBack 30 = .route
      { hops := [⟨0, testLink nodeA nodeB 0 100⟩, ⟨1, testLink nodeB nodeC 0 100⟩,
          ⟨2, testLink nodeC nodeB 0 100⟩, ⟨3, testLink nodeB nodeD 500 600⟩]
        cost := -(294099 / 10)
        arrivalTime := 5001 / 10 } := by decide +kernel
  exact absurd (h 30 _ hrun) (by decide)

/-- Such a step makes a loop: the walk it takes visits a node twice. -/
theorem RevisitsSeed.not_loopFree {q : CgrCall} {st : SearchState} (h : RevisitsSeed q st) :
    ∃ p, ¬ LoopFree q (stackPath st.stack ++ [p]) := by
  rcases h with ⟨f, below, nc, _, _, _, _, hhead⟩ | ⟨seed, hempty, _, _, hcurr⟩
  · refine ⟨nc, fun hfree => ?_⟩
    unfold LoopFree at hfree
    rw [receivers_append] at hfree
    have hmem : nc.contact.toNode ∈ receivers (stackPath st.stack) := List.mem_of_head? hhead
    obtain ⟨_, _, hdisj⟩ := List.nodup_append.mp (List.nodup_cons.mp hfree).2
    exact hdisj _ hmem _ (List.mem_singleton.mpr rfl) rfl
  · refine ⟨seed, fun hfree => ?_⟩
    rw [hempty] at hfree
    exact (List.nodup_cons.mp hfree).1 (hcurr ▸ List.mem_singleton.mpr rfl)

/-! ## Plans without such a step -/

/-- The neighbours of `b.curr` are reached from `b.curr` alone, and it is none itself. -/
def SeedsPrivate (q : CgrCall) : Prop :=
  ∀ c ∈ q.cp.contacts, c.frm = q.b.curr → c.toNode ≠ q.b.curr ∧
    ∀ c' ∈ q.cp.contacts, c'.toNode = c.toNode → c'.frm = q.b.curr

theorem not_revisitsSeed_of_private {q : CgrCall} (hplan : SeedsPrivate q) {st : CgrState}
    (h : (cgrMachine q).Reaches (cgrStart q) st) : ¬ RevisitsSeed q st.search := by
  rintro (⟨f, below, nc, _, hex, hp, _, hhead⟩ | ⟨seed, _, hget, _, hcurr⟩)
  · have hok := (cgrOk_reaches h).search
    have hwalk := (hok.extend hex hp).1
    have hne : stackPath st.search.stack ≠ [] := by
      intro hnil
      have := congrArg List.length hnil
      rw [stackPath_length, hex.stack_eq] at this
      cases this
    obtain ⟨seed, hseed, hto⟩ : ∃ p, (stackPath st.search.stack).head? = some p ∧
        p.contact.toNode = nc.contact.toNode := by
      rw [receivers, List.head?_map, Option.map_eq_some_iff] at hhead
      exact hhead
    have hstack := hok.stack
    rw [hex.stack_eq] at hstack
    have hfeas := hstack.1.feasible
    rw [hex.stack_eq] at hseed hne
    obtain ⟨rest, hrest⟩ : ∃ rest, stackPath (f :: below) = seed :: rest := by
      cases hps : stackPath (f :: below) with
      | nil => exact absurd hps hne
      | cons p rest => rw [hps] at hseed; cases hseed; exact ⟨rest, rfl⟩
    rw [hrest] at hfeas
    obtain ⟨hmem, hfrm, _, _⟩ := hfeas
    obtain ⟨hseedcurr, hpriv⟩ := hplan seed.contact hmem hfrm
    obtain ⟨hpt, hfrom⟩ := mem_nextContacts hex.next_eq
    have hback : f.contact.contact.toNode = q.b.curr :=
      hfrom.symm.trans (hpriv nc.contact hpt.mem hto.symm)
    -- but no frame stands at `b.curr`: not the seed's, and not a later one
    have hfresh := hstack.1.fresh
    rw [stackPath_cons] at hrest hfresh
    cases hbelow : stackPath below with
    | nil =>
      rw [hbelow, List.nil_append] at hrest
      cases hrest
      exact hseedcurr hback
    | cons p ps =>
      rw [hbelow, receivers_tail_concat (List.cons_ne_nil _ _), hback] at hfresh
      exact (List.nodup_cons.mp hfresh).1 (List.mem_append_right _ (List.mem_singleton.mpr rfl))
  · obtain ⟨hpt, hfrm⟩ := mem_seedsOf hget
    exact (hplan seed.contact hpt.mem hfrm).1 hcurr

instance (q : CgrCall) : Decidable (SeedsPrivate q) :=
  inferInstanceAs (Decidable (∀ c ∈ q.cp.contacts, _))

theorem cgrSelectRoute_loopFree_testCgr :
    ∃ r, cgrSelectRoute testCgr 10 = .route r ∧ LoopFree testCgr r.hops := by
  have hrun : cgrSelectRoute testCgr 10 = .route
      { hops := [⟨0, testLink nodeA nodeB 0 60⟩, ⟨1, testLink nodeB nodeC 0 60⟩]
        cost := -(88199 / 5)
        arrivalTime := 6 / 5 } := by decide +kernel
  have hplan : SeedsPrivate testCgr := by decide +kernel
  exact ⟨_, hrun, cgrSelectRoute_loopFree testCgr
    (fun st h => not_revisitsSeed_of_private hplan h) 10 _ hrun⟩

end DtnHardware
