import DtnHardware.Cgr.Soundness
import DtnHardware.Cgr.Frontier

/-!
# Array bounds of the route search

Six fixed-size arrays, and one of them is too short. `sigs` has eight entries, and
`frontierInsert` stores the ninth of nine mutually incomparable signatures before it
trims. Everything else is in bounds for every plan: the stack and the visited lists by
the depth test, the frontier table and the hop array by their own guards, the beam by
its cap.

`searchStep_progress` is the whole story of one step — it succeeds, or it is about to
write `sigs[8]` — and `cgrSelectRoute_inBounds_iff` the story of a call.
-/

set_option autoImplicit false

namespace DtnHardware

open StepMachine Dominance ArrayLoops

/-! ## The tables that stay inside -/

/-- The frontier table and every list in it fit their arrays. -/
structure FrontiersOk (fs : List Frontier) : Prop where
  table : fs.length ≤ frontierMax
  sigs : ∀ fr ∈ fs, fr.sigs.length ≤ maxParetoPerNode

/-- The beam fits its array and can take at least one route. -/
structure BeamOk (bm : Beam) : Prop where
  pos : 0 < bm.cap
  cap : bm.cap ≤ cgrMaxRoutesPi
  routes : bm.routes.length ≤ bm.cap

theorem FrontiersOk.lookup {fs : List Frontier} {v : NodeId} {sigs : List ParetoSig}
    (h : FrontiersOk fs) (hs : frontierSigs fs v = some sigs) :
    sigs.length ≤ maxParetoPerNode := by
  rcases frontierSigs_cases hs with ⟨fr, hmem, _, rfl⟩ | ⟨rfl, _⟩
  · exact h.sigs fr hmem
  · exact Nat.zero_le _

theorem FrontiersOk.step {fs fs' : List Frontier} {v : NodeId} {s : ParetoSig}
    (h : FrontiersOk fs) (hs : FrontierStep fs v s fs') : FrontiersOk fs' := by
  cases hs with
  | noSlot _ => exact h
  | store sigs hsigs _ hroom =>
    refine ⟨?_, fun fr hfr => ?_⟩
    · rw [length_frontierStore]
      cases hf : fs.find? fun fr => decide (fr.node = v) with
      | some fr => simpa using h.table
      | none =>
        unfold frontierSigs at hsigs
        rw [hf] at hsigs
        dsimp only at hsigs
        split at hsigs
        · rename_i hlt
          simpa using hlt
        · cases hsigs
    · rcases mem_frontierStore hfr with hold | rfl
      · exact h.sigs fr hold
      · exact hroom

theorem SearchStep.frontiersOk {q : CgrCall} {st st' : SearchState} {o : Option CgrRoute}
    (hs : SearchStep q st o st') (h : FrontiersOk st.frontiers) : FrontiersOk st'.frontiers := by
  cases hs with
  | seedSkip _ _ _ _ | seedDirect _ _ _ _ _ | seedPush _ _ _ _ _ | popLimit _ _ _ _
  | popEnd _ _ _ _ _ | skip _ _ _ _ _ => exact h
  | offer _ _ _ _ _ _ hfs _ | full _ _ _ _ _ _ hfs _ _ | push _ _ _ _ _ _ hfs _ _ =>
    exact h.step hfs

theorem BeamOk.push {bm bm' : Beam} {r : CgrRoute} (h : BeamOk bm)
    (hp : beamPush bm r = .ok bm') : BeamOk bm' := by
  unfold beamPush at hp
  split at hp
  · rename_i hlt
    obtain ⟨_, _, hp⟩ := bind_eq_ok.mp hp
    cases hp
    exact ⟨h.pos, h.cap, by rw [List.length_append]; exact hlt⟩
  · obtain ⟨_, _, hp⟩ := bind_eq_ok.mp hp
    cases hscan : scanMax CgrRoute.cost bm.routes with
    | none => rw [hscan] at hp; cases hp
    | some w =>
      rw [hscan] at hp
      dsimp only at hp
      split at hp <;> cases hp
      · exact ⟨h.pos, h.cap, by rw [List.length_set]; exact h.routes⟩
      · exact h

/-- A push into such a beam never leaves the array. -/
theorem BeamOk.push_ok {bm : Beam} (h : BeamOk bm) (r : CgrRoute) :
    ∃ bm', beamPush bm r = .ok bm' := by
  unfold beamPush
  split
  · rename_i hlt
    rw [access_of_lt (lt_of_lt_of_le hlt h.cap)]
    exact ⟨_, rfl⟩
  · rename_i hge
    rw [accessBelow_of_le (h.routes.trans h.cap)]
    cases hscan : scanMax CgrRoute.cost bm.routes with
    | none =>
      rw [scanMax_eq_none.mp hscan] at hge
      exact absurd h.pos hge
    | some w =>
      dsimp only [bind, Except.bind]
      split <;> exact ⟨_, rfl⟩

/-! ## One step: progress, or the write to `sigs[8]` -/

/-- **The branch that goes wrong**: the examined contact passes every test, no stored
    signature dominates its own, and eight of those stored survive it. -/
def FrontierFull (q : CgrCall) (st : SearchState) : Prop :=
  ∃ f below nc sigs, Examines q st f below nc ∧ Passes q f nc ∧
    frontierSigs st.frontiers nc.contact.toNode = some sigs ∧
    ¬ Covers sigs (examinedSig q st f nc) ∧
    maxParetoPerNode ≤ (sigs.filter fun x => !decide (examinedSig q st f nc ≤ x)).length

theorem Examines.unique {q : CgrCall} {st : SearchState} {f f' : DfsFrame}
    {below below' : List DfsFrame} {nc nc' : ContactPtr} (h : Examines q st f below nc)
    (h' : Examines q st f' below' nc') : f = f' ∧ below = below' ∧ nc = nc' := by
  obtain ⟨rfl, rfl⟩ := List.cons.inj (h.stack_eq.symm.trans h'.stack_eq)
  exact ⟨rfl, rfl, Option.some.inj (h.next_eq.symm.trans h'.next_eq)⟩

theorem frontierLookup_ok {fs : List Frontier} (h : fs.length ≤ frontierMax) (v : NodeId) :
    frontierLookup fs v = .ok (frontierSigs fs v) := by
  unfold frontierLookup frontierSigs
  rw [accessBelow_of_le h]
  cases fs.find? fun fr => decide (fr.node = v) with
  | some fr => rfl
  | none =>
    dsimp only [bind, Except.bind]
    split
    · rename_i hlt
      rw [access_of_lt hlt]
      rfl
    · rfl

theorem frontierUpdate_progress {fs : List Frontier} (h : FrontiersOk fs) (v : NodeId)
    (s : ParetoSig) : (∃ o, frontierUpdate fs v s = .ok o) ∨
      ∃ sigs, frontierSigs fs v = some sigs ∧ ¬ Covers sigs s ∧
        maxParetoPerNode ≤ (sigs.filter fun x => !decide (s ≤ x)).length ∧
        frontierUpdate fs v s = .error (.oob .sigs maxParetoPerNode) := by
  unfold frontierUpdate
  rw [frontierLookup_ok h.table]
  cases hsigs : frontierSigs fs v with
  | none => exact Or.inl ⟨_, rfl⟩
  | some sigs =>
    have hlen := h.lookup hsigs
    dsimp only [bind, Except.bind]
    rw [accessBelow_of_le hlen]
    dsimp only
    split
    · exact Or.inl ⟨_, rfl⟩
    · rename_i hdom
      have hkept : (sigs.filter fun x => !decide (s ≤ x)).length ≤ maxParetoPerNode :=
        (List.length_filter_le _ _).trans hlen
      rcases hkept.lt_or_eq with hlt | heq
      · have hins : ∃ sigs', frontierInsert sigs s = .ok sigs' := by
          dsimp only [frontierInsert, bind, Except.bind]
          rw [access_of_lt hlt]
          dsimp only
          split <;> exact ⟨_, rfl⟩
        obtain ⟨sigs', hins⟩ := hins
        rw [hins]
        exact Or.inl ⟨_, rfl⟩
      · refine Or.inr ⟨sigs, rfl, fun hc => hdom (any_le_iff_covers.mpr hc), heq.ge, ?_⟩
        dsimp only [frontierInsert, bind, Except.bind]
        simp only [access, heq, lt_irrefl, if_false]

theorem expandContact_progress {q : CgrCall} {st : SearchState} {f : DfsFrame}
    {below : List DfsFrame} {nc : ContactPtr} (h : SearchOk q st)
    (hfs : FrontiersOk st.frontiers) (hex : Examines q st f below nc) :
    (∃ x, expandContact q st f below nc = .ok x) ∨
      FrontierFull q st ∧
        expandContact q st f below nc = .error (.oob .sigs maxParetoPerNode) := by
  have hvislen : f.visited.length = st.stack.length := by
    have hstack := h.stack
    rw [hex.stack_eq] at hstack ⊢
    rw [hstack.2.1.visited_length hstack.1.nonempty, stackPath_length]
  unfold expandContact
  split
  · exact Or.inl ⟨_, rfl⟩
  · rename_i hopen
    rw [accessBelow_of_le (show f.visited.length ≤ visitedMax from hvislen ▸ h.depth)]
    dsimp only [bind, Except.bind]
    split
    · exact Or.inl ⟨_, rfl⟩
    · rename_i hvis
      split
      · exact Or.inl ⟨_, rfl⟩
      · rename_i hfit
        have hpass : Passes q f nc := by
          refine ⟨?_, by simpa using hvis⟩
          simp only [hopFeasible, Bool.and_eq_true]
          exact ⟨by simpa using hopen, by simpa using hfit⟩
        rw [accessBelow_of_le h.depth]
        dsimp only
        rcases frontierUpdate_progress hfs nc.contact.toNode
            (extensionSig q st.stack f.tArrive nc.contact) with
          ⟨o, ho⟩ | ⟨sigs, hsigs, hcov, hkept, herr⟩
        · apply Or.inl
          rw [ho]
          cases o with
          | none => exact ⟨_, rfl⟩
          | some fs' =>
            dsimp only
            split
            · rw [rebuildRoute_eq]
              exact ⟨_, rfl⟩
            · split
              · exact ⟨_, rfl⟩
              · rename_i hroom
                have hroom := not_le.mp hroom
                rw [access_of_lt hroom]
                have hvis10 : f.visited.length ≤ bundleMaxHops :=
                  hvislen ▸ Nat.le_of_lt_succ hroom
                have hchild : (childVisited f.visited nc.contact.toNode).length ≤ visitedMax := by
                  rw [childVisited_eq hvis10, List.length_append]
                  exact Nat.succ_le_succ hvis10
                dsimp only
                rw [accessBelow_of_le hchild]
                exact ⟨_, rfl⟩
        · rw [herr]
          exact Or.inr ⟨⟨f, below, nc, sigs, hex, hpass, hsigs, hcov, hkept⟩, rfl⟩

/-- **A step succeeds, or it is about to write `sigs[8]`.** -/
theorem searchStep_progress {q : CgrCall} {st : SearchState} (h : SearchOk q st)
    (hfs : FrontiersOk st.frontiers) (hd : searchDone q st = false) :
    (∃ x, searchStep q st = .ok x) ∨
      FrontierFull q st ∧ searchStep q st = .error (.oob .sigs maxParetoPerNode) := by
  unfold searchStep
  cases hst : st.stack with
  | nil =>
    have hmore : st.nextSeed < (seedsOf q).length := by
      simpa [searchDone, hst] using hd
    have hcap : st.nextSeed < contactPlanMax :=
      lt_of_lt_of_le hmore (contactPlanFromNode_length_le _ _)
    apply Or.inl
    dsimp only [seedStep, bind, Except.bind]
    rw [access_of_lt hcap, List.getElem?_eq_getElem hmore]
    dsimp only
    split
    · exact ⟨_, rfl⟩
    · rw [access_of_lt (show 0 < dfsStackMax by decide),
        access_of_lt (show 0 < visitedMax by decide)]
      dsimp only
      split
      · exact ⟨_, rfl⟩
      · split
        · rw [access_of_lt (show 0 < cgrRouteMaxHops by decide)]
          exact ⟨_, rfl⟩
        · exact ⟨_, rfl⟩
  | cons f below =>
    dsimp only [expandStep, bind, Except.bind]
    split
    · exact Or.inl ⟨_, rfl⟩
    · rename_i hlim
      rw [accessBelow_of_le (contactPlanFromNode_length_le _ _)]
      dsimp only
      cases hnc : (contactPlanFromNode q.cp f.contact.contact.toNode)[f.nextIdx]? with
      | none => exact Or.inl ⟨_, rfl⟩
      | some nc => exact expandContact_progress h hfs ⟨hst, not_lt.mp hlim, hnc⟩

/-- … and when it is, it does not succeed. -/
theorem FrontierFull.not_step {q : CgrCall} {st st' : SearchState} {o : Option CgrRoute}
    (h : FrontierFull q st) (hs : SearchStep q st o st') : False := by
  obtain ⟨f, below, nc, sigs, hex, hp, hsigs, hcov, hkept⟩ := h
  have htoolong : ∀ fs', ¬ FrontierStep st.frontiers nc.contact.toNode (examinedSig q st f nc)
      fs' := by
    intro fs' hfs
    have hroom := (hfs.of_slot hsigs).2.1
    rw [insertMin, List.length_append, List.length_singleton] at hroom
    omega
  cases hs with
  | seedSkip _ hempty _ _ | seedDirect _ hempty _ _ _ | seedPush _ hempty _ _ _ =>
    rw [hex.stack_eq] at hempty; cases hempty
  | popLimit f' below' hst hlim =>
    obtain ⟨rfl, rfl⟩ := List.cons.inj (hex.stack_eq.symm.trans hst)
    exact absurd hex.within (not_le.mpr hlim)
  | popEnd f' below' hst _ hend =>
    obtain ⟨rfl, rfl⟩ := List.cons.inj (hex.stack_eq.symm.trans hst)
    rw [hex.next_eq] at hend; cases hend
  | skip f' below' nc' hex' why =>
    obtain ⟨rfl, rfl, rfl⟩ := hex.unique hex'
    obtain ⟨sigs', hsigs', hcov'⟩ := why hp
    rw [hsigs] at hsigs'
    cases hsigs'
    exact hcov hcov'
  | offer f' below' nc' hex' _ fs' hfs _ | full f' below' nc' hex' _ fs' hfs _ _
  | push f' below' nc' hex' _ fs' hfs _ _ =>
    obtain ⟨rfl, rfl, rfl⟩ := hex.unique hex'
    exact htoolong fs' hfs

/-! ## A whole call -/

/-- Everything in bounds so far. -/
structure CgrInBounds (q : CgrCall) (st : CgrState) : Prop where
  ok : CgrOk q st
  frontiers : FrontiersOk st.search.frontiers
  beam : BeamOk st.beam

theorem cgrInBounds_reaches {q : CgrCall} (hcap : 0 < beamCap q) {st : CgrState}
    (h : (cgrMachine q).Reaches (cgrStart q) st) : CgrInBounds q st := by
  refine h.induct ⟨cgrOk_start q, ⟨Nat.zero_le _, fun _ hfr => absurd hfr List.not_mem_nil⟩,
    ⟨hcap, Nat.min_le_right _ _, Nat.zero_le _⟩⟩ ?_
  intro st st' _ hok hs
  obtain ⟨o, hstep, hbeam⟩ := cgrStep_cases hs
  refine ⟨cgrOk_step hok.ok hs, hstep.frontiersOk hok.frontiers, ?_⟩
  rcases hbeam with ⟨_, heq⟩ | ⟨r, _, hpush⟩
  · exact heq ▸ hok.beam
  · exact hok.beam.push hpush

/-- One step of a call: progress, or the write to `sigs[8]`. -/
theorem CgrInBounds.progress {q : CgrCall} {st : CgrState} (h : CgrInBounds q st)
    (hd : searchDone q st.search = false) :
    (∃ st', cgrStep q st = .ok st') ∨
      FrontierFull q st.search ∧ cgrStep q st = .error (.oob .sigs maxParetoPerNode) := by
  unfold cgrStep
  rcases searchStep_progress h.ok.search h.frontiers hd with ⟨⟨s', o⟩, hs⟩ | ⟨hfull, herr⟩
  · apply Or.inl
    rw [hs]
    cases o with
    | none => exact ⟨_, rfl⟩
    | some r =>
      obtain ⟨bm', hbm⟩ := h.beam.push_ok r
      dsimp only [bind, Except.bind]
      rw [hbm]
      exact ⟨_, rfl⟩
  · rw [herr]
    exact Or.inr ⟨hfull, rfl⟩

theorem beamCap_pos {q : CgrCall} (h : 0 < q.cfg.maxRoutes) : 0 < beamCap q := by
  have hpos : 0 < q.cfg.maxRoutes.toInt := Int32.lt_iff_toInt_lt.mp h
  have := sizeT_of_nonneg hpos.le
  exact lt_min (by omega) (by decide)

theorem beamCap_default_pos (logf : ℚ → ℚ) (cp : ContactPlan) (b : Bundle) (t : ℚ)
    (maxRoutes : Int32) : 0 < beamCap (.default logf cp b t maxRoutes) := by
  apply beamCap_pos
  change 0 < if maxRoutes > 0 then maxRoutes else Int32.ofNat cgrMaxRoutesPi
  split
  · assumption
  · decide

/-- A call that stops at an undefined access is about to write `sigs[8]`: all the other
    arrays are always used inside their bounds. -/
theorem cgrSelectRoute_fault {q : CgrCall} (hcap : 0 < beamCap q) {fuel : Nat} {e : Fault}
    (h : cgrSelectRoute q fuel = .fault e) : e = .oob .sigs maxParetoPerNode ∧
      ∃ st, (cgrMachine q).Reaches (cgrStart q) st ∧ FrontierFull q st.search := by
  unfold cgrSelectRoute at h
  cases hrun : (cgrMachine q).run fuel (cgrStart q) with
  | error e' =>
    rw [hrun] at h
    cases h
    obtain ⟨st, hreach, hd, herr⟩ := Machine.faults_iff.mp ⟨fuel, hrun⟩
    rcases (cgrInBounds_reaches hcap hreach).progress hd with ⟨st', hok⟩ | ⟨hfull, herr'⟩
    · exact absurd (hok.symm.trans herr) nofun
    · exact ⟨Except.error.inj (herr.symm.trans herr'), st, hreach, hfull⟩
  | ok st =>
    rw [hrun] at h
    dsimp only at h
    split at h
    · unfold cgrPick at h
      split at h <;> cases h
    · cases h

/-- Every array access of the call is inside its array. -/
def InBounds (q : CgrCall) : Prop :=
  ∀ (fuel : Nat) (e : Fault), cgrSelectRoute q fuel ≠ .fault e

/-- **A call stays in bounds exactly when no step of it meets eight surviving
    signatures.** -/
theorem cgrSelectRoute_inBounds_iff (logf : ℚ → ℚ) (cp : ContactPlan) (b : Bundle) (t : ℚ)
    (maxRoutes : Int32) :
    InBounds (.default logf cp b t maxRoutes) ↔
      ∀ st, (cgrMachine (.default logf cp b t maxRoutes)).Reaches
          (cgrStart (.default logf cp b t maxRoutes)) st →
        ¬ FrontierFull (.default logf cp b t maxRoutes) st.search := by
  have hcap := beamCap_default_pos logf cp b t maxRoutes
  generalize CgrCall.default logf cp b t maxRoutes = q at hcap ⊢
  constructor
  · intro hin st hreach hfull
    have hd : searchDone q st.search = false := by
      obtain ⟨f, below, nc, _, hex, _⟩ := hfull
      simp [searchDone, hex.stack_eq]
    rcases (cgrInBounds_reaches hcap hreach).progress hd with ⟨st', hok⟩ | ⟨_, herr⟩
    · obtain ⟨o, hstep, _⟩ := cgrStep_cases (q := q) ⟨hd, hok⟩
      exact hfull.not_step hstep
    · obtain ⟨n, hn⟩ := Machine.faults_iff.mpr ⟨st, hreach, hd, herr⟩
      exact hin n _ (by rw [cgrSelectRoute, hn])
  · intro hnever fuel e hfault
    obtain ⟨_, st, hreach, hfull⟩ := cgrSelectRoute_fault hcap hfault
    exact hnever st hreach hfull

/-! ### Nine links that do not dominate each other -/

/-- `A → B`, and nine links `B → C`: each opens later than the one before and is more
    reliable. -/
def nineLinks : CgrCall :=
  .default (fun x => x - 1)
    (.ofList (testLink nodeA nodeB 0 100 :: (List.range 9).map fun i =>
      { testLink nodeB nodeC (10 * i) 200 with conf := 1 / 2 + i / 100 }))
    (testBundle nodeC) 0 16

theorem nineLinks_fault : ¬ InBounds nineLinks := by
  intro h
  have hfault : cgrSelectRoute nineLinks 20 = .fault (.oob .sigs 8) := by decide +kernel
  exact h 20 _ hfault

end DtnHardware
