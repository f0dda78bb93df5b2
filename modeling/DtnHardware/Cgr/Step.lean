import DtnHardware.Cgr.Select

/-!
# What one step of the route search can do

`searchStep` is a long conditional; `SearchStep` lists its outcomes once, each with
everything the code has established by then, and `searchStep_cases` says there are no
others. Every invariant below is proved over these nine cases and never unfolds the
search again.

The predicates `Examines` and `Passes` name the moments the cases speak of: the top
frame has a next contact to look at, and that contact gets as far as the dominance test.
-/

set_option autoImplicit false

namespace DtnHardware

open StepMachine Dominance ArrayLoops

/-! ## The vocabulary -/

/-- Everything a contact is asked at the arrival time `a`. -/
def hopFeasible (q : CgrCall) (c : Contact) (a : ℚ) : Bool :=
  contactOpen c a && hopFits q c a

/-- `contact_plan_from_node` for the receiver of the frame's contact. -/
def nextContacts (q : CgrCall) (f : DfsFrame) : List ContactPtr :=
  contactPlanFromNode q.cp f.contact.contact.toNode

/-- The inner loop is about to look at `nc` for the top frame `f`. -/
structure Examines (q : CgrCall) (st : SearchState) (f : DfsFrame) (below : List DfsFrame)
    (nc : ContactPtr) : Prop where
  stack_eq : st.stack = f :: below
  within : f.pathLen ≤ sizeT q.cfg.maxHops
  next_eq : (nextContacts q f)[f.nextIdx]? = some nc

/-- `nc` passes every test before the dominance test. -/
structure Passes (q : CgrCall) (f : DfsFrame) (nc : ContactPtr) : Prop where
  feasible : hopFeasible q nc.contact f.tArrive = true
  fresh : nc.contact.toNode ∉ f.visited

/-- The stored signatures of `v`: none for a fresh slot, `none` when there is no slot for
    `v` and none is left. -/
def frontierSigs (fs : List Frontier) (v : NodeId) : Option (List ParetoSig) :=
  match fs.find? fun fr => decide (fr.node = v) with
  | some fr => some fr.sigs
  | none => if fs.length < frontierMax then some [] else none

/-- How the table takes a signature that is not dominated. -/
inductive FrontierStep (fs : List Frontier) (v : NodeId) (s : ParetoSig) :
    List Frontier → Prop
  /-- no slot for `v` and none left -/
  | noSlot (h : frontierSigs fs v = none) : FrontierStep fs v s fs
  /-- stored, with room for it -/
  | store (sigs : List ParetoSig) (h : frontierSigs fs v = some sigs)
      (fresh : ¬ Covers sigs s) (room : (insertMin s sigs).length ≤ maxParetoPerNode) :
      FrontierStep fs v s (frontierStore fs v (insertMin s sigs))

/-- The signature of the examined extension. -/
def examinedSig (q : CgrCall) (st : SearchState) (f : DfsFrame) (nc : ContactPtr) :
    ParetoSig := extensionSig q st.stack f.tArrive nc.contact

/-- The signature of the examined extension is dominated by a stored one. -/
def Dominated (q : CgrCall) (st : SearchState) (f : DfsFrame) (nc : ContactPtr) : Prop :=
  ∃ sigs, frontierSigs st.frontiers nc.contact.toNode = some sigs ∧
    Covers sigs (examinedSig q st f nc)

/-- `f` with its iterator past the examined contact. -/
def DfsFrame.advance (f : DfsFrame) : DfsFrame := { f with nextIdx := f.nextIdx + 1 }

/-- The frame pushed for `nc` on top of `f`. -/
def childFrame (q : CgrCall) (f : DfsFrame) (nc : ContactPtr) : DfsFrame :=
  { contact := nc
    pathLen := f.pathLen + 1
    tArrive := hopArrival q nc.contact f.tArrive
    visited := childVisited f.visited nc.contact.toNode
    nextIdx := 0 }

/-- The frame a seed starts with. -/
def seedFrame (q : CgrCall) (seed : ContactPtr) : DfsFrame :=
  { contact := seed
    pathLen := 1
    tArrive := hopArrival q seed.contact q.t
    visited := [q.b.curr]
    nextIdx := 0 }

/-- The route over `hops`, cut to `CGR_ROUTE_MAX_HOPS`, with arrival time `a`. -/
def routeOf (q : CgrCall) (hops : List ContactPtr) (a : ℚ) : CgrRoute :=
  let hops := hops.take cgrRouteMaxHops
  { hops, arrivalTime := a, cost := computeCost q (hops.map ContactPtr.contact) a }

/-- The outcomes of one step: the state before, the route offered, the state after. -/
inductive SearchStep (q : CgrCall) (st : SearchState) : Option CgrRoute → SearchState → Prop
  | seedSkip (seed : ContactPtr) (empty : st.stack = [])
      (seed_eq : (seedsOf q)[st.nextSeed]? = some seed)
      (fails : hopFeasible q seed.contact q.t = false) :
      SearchStep q st none { st with nextSeed := st.nextSeed + 1 }
  | seedDirect (seed : ContactPtr) (empty : st.stack = [])
      (seed_eq : (seedsOf q)[st.nextSeed]? = some seed)
      (feasible : hopFeasible q seed.contact q.t = true) (atDst : seed.contact.toNode = q.b.dst) :
      SearchStep q st (some (routeOf q [seed] (hopArrival q seed.contact q.t)))
        { st with nextSeed := st.nextSeed + 1 }
  | seedPush (seed : ContactPtr) (empty : st.stack = [])
      (seed_eq : (seedsOf q)[st.nextSeed]? = some seed)
      (feasible : hopFeasible q seed.contact q.t = true) (notDst : seed.contact.toNode ≠ q.b.dst) :
      SearchStep q st none
        { st with nextSeed := st.nextSeed + 1, stack := [seedFrame q seed] }
  | popLimit (f : DfsFrame) (below : List DfsFrame) (stack_eq : st.stack = f :: below)
      (beyond : sizeT q.cfg.maxHops < f.pathLen) :
      SearchStep q st none { st with stack := below }
  | popEnd (f : DfsFrame) (below : List DfsFrame) (stack_eq : st.stack = f :: below)
      (within : f.pathLen ≤ sizeT q.cfg.maxHops)
      (exhausted : (nextContacts q f)[f.nextIdx]? = none) :
      SearchStep q st none { st with stack := below }
  | skip (f : DfsFrame) (below : List DfsFrame) (nc : ContactPtr)
      (examines : Examines q st f below nc)
      (why : Passes q f nc → Dominated q st f nc) :
      SearchStep q st none { st with stack := f.advance :: below }
  | offer (f : DfsFrame) (below : List DfsFrame) (nc : ContactPtr)
      (examines : Examines q st f below nc) (passes : Passes q f nc) (fs' : List Frontier)
      (frontier : FrontierStep st.frontiers nc.contact.toNode (examinedSig q st f nc) fs')
      (atDst : nc.contact.toNode = q.b.dst) :
      SearchStep q st
        (some (routeOf q (stackPath st.stack ++ [nc]) (hopArrival q nc.contact f.tArrive)))
        { st with stack := f.advance :: below, frontiers := fs' }
  | full (f : DfsFrame) (below : List DfsFrame) (nc : ContactPtr)
      (examines : Examines q st f below nc) (passes : Passes q f nc) (fs' : List Frontier)
      (frontier : FrontierStep st.frontiers nc.contact.toNode (examinedSig q st f nc) fs')
      (notDst : nc.contact.toNode ≠ q.b.dst) (noRoom : dfsStackMax ≤ st.stack.length) :
      SearchStep q st none { st with stack := f.advance :: below, frontiers := fs' }
  | push (f : DfsFrame) (below : List DfsFrame) (nc : ContactPtr)
      (examines : Examines q st f below nc) (passes : Passes q f nc) (fs' : List Frontier)
      (frontier : FrontierStep st.frontiers nc.contact.toNode (examinedSig q st f nc) fs')
      (notDst : nc.contact.toNode ≠ q.b.dst) (room : st.stack.length < dfsStackMax) :
      SearchStep q st none
        { st with stack := childFrame q f nc :: f :: below, frontiers := fs' }

/-! ## The frontier table -/

theorem frontierLookup_eq_ok {fs : List Frontier} {v : NodeId} {o : Option (List ParetoSig)}
    (h : frontierLookup fs v = .ok o) : o = frontierSigs fs v := by
  unfold frontierLookup at h
  obtain ⟨_, _, h⟩ := bind_eq_ok.mp h
  unfold frontierSigs
  cases hf : fs.find? fun fr => decide (fr.node = v) with
  | some fr => rw [hf] at h; cases h; rfl
  | none =>
    rw [hf] at h
    dsimp only at h ⊢
    split at h
    · rename_i hlt
      obtain ⟨_, _, h⟩ := bind_eq_ok.mp h
      cases h
      rw [if_pos hlt]
    · rename_i hlt
      cases h
      rw [if_neg hlt]

theorem frontierInsert_eq_ok {sigs sigs' : List ParetoSig} {s : ParetoSig}
    (h : frontierInsert sigs s = .ok sigs') :
    sigs' = insertMin s sigs ∧ (insertMin s sigs).length ≤ maxParetoPerNode := by
  unfold frontierInsert at h
  obtain ⟨_, hacc, h⟩ := bind_eq_ok.mp h
  rw [access_ok_iff] at hacc
  have hlen : (insertMin s sigs).length ≤ maxParetoPerNode := by
    simp only [insertMin, List.length_append, List.length_singleton]
    exact hacc
  -- the trim is behind the store, so it never runs after a store inside the array
  rw [if_neg (by exact Nat.not_lt.mpr hlen)] at h
  cases h
  exact ⟨rfl, hlen⟩

theorem any_le_iff_covers {sigs : List ParetoSig} {s : ParetoSig} :
    (sigs.any fun x => decide (x ≤ s)) = true ↔ Covers sigs s := by
  simp [Covers, List.any_eq_true]

theorem frontierUpdate_eq_ok {fs : List Frontier} {v : NodeId} {s : ParetoSig}
    {o : Option (List Frontier)} (h : frontierUpdate fs v s = .ok o) :
    (o = none ∧ ∃ sigs, frontierSigs fs v = some sigs ∧ Covers sigs s) ∨
      ∃ fs', o = some fs' ∧ FrontierStep fs v s fs' := by
  unfold frontierUpdate at h
  obtain ⟨look, hlook, h⟩ := bind_eq_ok.mp h
  have hlook := frontierLookup_eq_ok hlook
  cases look with
  | none => cases h; exact Or.inr ⟨fs, rfl, .noSlot hlook.symm⟩
  | some sigs =>
    dsimp only at h
    obtain ⟨_, _, h⟩ := bind_eq_ok.mp h
    split at h
    · rename_i hdom
      cases h
      exact Or.inl ⟨rfl, sigs, hlook.symm, any_le_iff_covers.mp hdom⟩
    · rename_i hdom
      obtain ⟨sigs', hins, h⟩ := bind_eq_ok.mp h
      cases h
      obtain ⟨rfl, hroom⟩ := frontierInsert_eq_ok hins
      exact Or.inr ⟨_, rfl, .store sigs hlook.symm (fun hc => hdom (any_le_iff_covers.mpr hc))
        hroom⟩

/-! ## Rebuilding a route -/

/-- The hop loop never leaves its array: it stops appending at `CGR_ROUTE_MAX_HOPS`. -/
theorem foldlM_pushHop : ∀ (ps hops : List ContactPtr), hops.length ≤ cgrRouteMaxHops →
    ps.foldlM pushHop hops = .ok ((hops ++ ps).take cgrRouteMaxHops) := by
  intro ps
  induction ps with
  | nil =>
    intro hops hle
    rw [List.append_nil, List.take_of_length_le hle]
    rfl
  | cons p ps ih =>
    intro hops hle
    rw [List.foldlM_cons]
    by_cases hlt : hops.length < cgrRouteMaxHops
    · have hp : pushHop hops p = .ok (hops ++ [p]) := by
        simp only [pushHop, if_pos hlt, access_of_lt hlt]
        rfl
      rw [hp]
      have := ih (hops ++ [p]) (by rw [List.length_append]; exact hlt)
      rw [List.append_assoc, List.singleton_append] at this
      exact this
    · have hp : pushHop hops p = .ok hops := by
        simp only [pushHop, if_neg hlt]
        rfl
      have heq : hops.length = cgrRouteMaxHops := le_antisymm hle (not_lt.mp hlt)
      rw [hp]
      have := ih hops hle
      rw [List.take_append_of_le_length heq.ge] at this ⊢
      exact this

theorem rebuildRoute_eq (q : CgrCall) (stack : List DfsFrame) (nc : ContactPtr) (aN : ℚ) :
    rebuildRoute q stack nc aN = .ok (routeOf q (stackPath stack ++ [nc]) aN) := by
  unfold rebuildRoute
  rw [foldlM_pushHop _ [] (Nat.zero_le _)]
  rfl

/-! ## The inversion -/

theorem expandContact_cases {q : CgrCall} {st st' : SearchState} {f : DfsFrame}
    {below : List DfsFrame} {nc : ContactPtr} {o : Option CgrRoute}
    (hex : Examines q st f below nc)
    (h : expandContact q st f below nc = .ok (st', o)) : SearchStep q st o st' := by
  unfold expandContact at h
  split at h
  · rename_i hopen
    cases h
    apply SearchStep.skip f below nc hex
    intro hp
    have := hp.feasible
    simp only [hopFeasible, Bool.and_eq_true] at this
    rw [this.1] at hopen
    cases hopen
  · rename_i hopen
    obtain ⟨_, _, h⟩ := bind_eq_ok.mp h
    split at h
    · rename_i hvis
      cases h
      exact .skip f below nc hex fun hp => absurd (by simpa using hvis) hp.fresh
    · rename_i hvis
      split at h
      · rename_i hfit
        cases h
        apply SearchStep.skip f below nc hex
        intro hp
        have := hp.feasible
        simp only [hopFeasible, Bool.and_eq_true] at this
        rw [this.2] at hfit
        cases hfit
      · rename_i hfit
        have hpass : Passes q f nc := by
          refine ⟨?_, by simpa using hvis⟩
          simp only [hopFeasible, Bool.and_eq_true]
          exact ⟨by simpa using hopen, by simpa using hfit⟩
        obtain ⟨_, _, h⟩ := bind_eq_ok.mp h
        obtain ⟨o', hup, h⟩ := bind_eq_ok.mp h
        rcases frontierUpdate_eq_ok hup with ⟨rfl, sigs, hsigs, hcov⟩ | ⟨fs', rfl, hfs⟩
        · cases h
          exact .skip f below nc hex fun _ => ⟨sigs, hsigs, hcov⟩
        · dsimp only at h
          split at h
          · rename_i hdst
            rw [rebuildRoute_eq] at h
            obtain ⟨r, hr, h⟩ := bind_eq_ok.mp h
            cases hr
            cases h
            exact .offer f below nc hex hpass fs' hfs hdst
          · rename_i hdst
            split at h
            · rename_i hfull
              cases h
              exact .full f below nc hex hpass fs' hfs hdst hfull
            · rename_i hfull
              obtain ⟨_, _, h⟩ := bind_eq_ok.mp h
              obtain ⟨_, _, h⟩ := bind_eq_ok.mp h
              cases h
              rw [hex.stack_eq]
              exact .push f below nc hex hpass fs' hfs hdst (not_le.mp hfull)

theorem seedStep_cases {q : CgrCall} {st st' : SearchState} {o : Option CgrRoute}
    (hempty : st.stack = []) (hmore : st.nextSeed < (seedsOf q).length)
    (h : seedStep q st = .ok (st', o)) : SearchStep q st o st' := by
  have hseed : (seedsOf q)[st.nextSeed]? = some (seedsOf q)[st.nextSeed] :=
    List.getElem?_eq_getElem hmore
  generalize (seedsOf q)[st.nextSeed] = seed at hseed
  unfold seedStep at h
  obtain ⟨_, _, h⟩ := bind_eq_ok.mp h
  rw [hseed] at h
  dsimp only at h
  split at h
  · rename_i hopen
    cases h
    apply SearchStep.seedSkip seed hempty hseed
    simp only [hopFeasible, Bool.and_eq_false_iff]
    exact Or.inl (by simpa using hopen)
  · rename_i hopen
    obtain ⟨_, _, h⟩ := bind_eq_ok.mp h
    obtain ⟨_, _, h⟩ := bind_eq_ok.mp h
    split at h
    · rename_i hfit
      cases h
      apply SearchStep.seedSkip seed hempty hseed
      simp only [hopFeasible, Bool.and_eq_false_iff]
      exact Or.inr (by simpa using hfit)
    · rename_i hfit
      have hfeas : hopFeasible q seed.contact q.t = true := by
        simp only [hopFeasible, Bool.and_eq_true]
        exact ⟨by simpa using hopen, by simpa using hfit⟩
      split at h
      · rename_i hdst
        obtain ⟨_, _, h⟩ := bind_eq_ok.mp h
        cases h
        exact .seedDirect seed hempty hseed hfeas hdst
      · rename_i hdst
        cases h
        exact .seedPush seed hempty hseed hfeas hdst

/-- **Every step of the search is one of the nine.** -/
theorem searchStep_cases {q : CgrCall} {st st' : SearchState} {o : Option CgrRoute}
    (hd : searchDone q st = false) (h : searchStep q st = .ok (st', o)) :
    SearchStep q st o st' := by
  unfold searchStep at h
  cases hst : st.stack with
  | nil =>
    rw [hst] at h
    have hmore : st.nextSeed < (seedsOf q).length := by
      simpa [searchDone, hst] using hd
    exact seedStep_cases hst hmore h
  | cons f below =>
    rw [hst] at h
    unfold expandStep at h
    dsimp only at h
    split at h
    · rename_i hlim
      cases h
      exact .popLimit f below hst hlim
    · rename_i hlim
      obtain ⟨_, _, h⟩ := bind_eq_ok.mp h
      cases hnc : (nextContacts q f)[f.nextIdx]? with
      | none =>
        unfold nextContacts at hnc
        rw [hnc] at h
        cases h
        exact .popEnd f below hst (not_lt.mp hlim) hnc
      | some nc =>
        unfold nextContacts at hnc
        rw [hnc] at h
        exact expandContact_cases ⟨hst, not_lt.mp hlim, hnc⟩ h

/-- A step of the call is a step of the search, and the beam takes what it offers. -/
theorem cgrStep_cases {q : CgrCall} {st st' : CgrState} (h : (cgrMachine q).Steps st st') :
    ∃ o, SearchStep q st.search o st'.search ∧
      ((o = none ∧ st'.beam = st.beam) ∨
        ∃ r, o = some r ∧ beamPush st.beam r = .ok st'.beam) := by
  obtain ⟨hd, hs⟩ := h
  change cgrStep q st = .ok st' at hs
  unfold cgrStep at hs
  obtain ⟨⟨search, o⟩, hsearch, hs⟩ := bind_eq_ok.mp hs
  have hstep := searchStep_cases hd hsearch
  cases o with
  | none =>
    cases hs
    exact ⟨none, hstep, Or.inl ⟨rfl, rfl⟩⟩
  | some r =>
    dsimp only at hs
    obtain ⟨beam, hbeam, hs⟩ := bind_eq_ok.mp hs
    cases hs
    exact ⟨some r, hstep, Or.inr ⟨r, rfl, hbeam⟩⟩

end DtnHardware
