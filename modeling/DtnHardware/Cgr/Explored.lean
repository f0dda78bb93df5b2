import DtnHardware.Cgr.History

/-!
# Every step keeps the history

`SearchStep.explored` is the step lemma of the ghost invariant and `History.explored` the
run lemma. `SearchedAll` is what remains when the search is over: no walk is left on the
stack, so each accepted walk is at the destination or has had all its contacts handled.
-/

set_option autoImplicit false

namespace DtnHardware

open StepMachine Dominance ArrayLoops

/-! ## One step -/

theorem Ghost.seed {q : CgrCall} {fs : List Frontier} {acc : Set (List ContactPtr)}
    {seed : ContactPtr} (h : Ghost q fs acc) (hwalk : SearchWalk q [seed]) :
    Ghost q fs (insert [seed] acc) := by
  refine ⟨?_, ?_, ?_, ?_⟩
  · rintro ps (rfl | hps)
    · exact hwalk
    · exact h.walk ps hps
  · rintro ps p hne (heq | hps)
    · exact absurd (List.append_eq_singleton_iff.mp heq) (by simp [hne])
    · exact Or.inr (h.prefixes ps p hne hps)
  · rintro ps (rfl | hps)
    · exact Nat.succ_le_succ (Nat.zero_le _)
    · exact h.short ps hps
  · intro fr hfr s hs
    obtain ⟨ps, nc, hne, hmem, hsig⟩ := h.sigs fr hfr s hs
    exact ⟨ps, nc, hne, Or.inr hmem, hsig⟩

theorem Ghost.extend {q : CgrCall} {fs fs' : List Frontier} {acc : Set (List ContactPtr)}
    {ps : List ContactPtr} {nc : ContactPtr} (h : Ghost q fs acc) (hmem : ps ∈ acc)
    (hwalk : SearchWalk q (ps ++ [nc])) (hlen : ps.length ≤ frontierMax + 1)
    (hfs : FrontierStep fs nc.contact.toNode (extendSig q ps nc) fs') :
    Ghost q fs' (insert (ps ++ [nc]) acc) := by
  have hne : ps ≠ [] := (h.walk ps hmem).nonempty
  refine ⟨?_, ?_, ?_, ?_⟩
  · rintro rs (rfl | hrs)
    · exact hwalk
    · exact h.walk rs hrs
  · rintro rs p hrsne (heq | hrs)
    · obtain ⟨rfl, _⟩ := List.append_inj' heq rfl
      exact Or.inr hmem
    · exact Or.inr (h.prefixes rs p hrsne hrs)
  · rintro rs (rfl | hrs)
    · rw [List.length_append, List.length_singleton]
      exact Nat.succ_le_succ hlen
    · exact h.short rs hrs
  · intro fr hfr s hs
    rcases hfs.mem_sigs hfr hs with ⟨fr', hfr', hnode, hs⟩ | ⟨hnode, rfl⟩
    · obtain ⟨rs, p, hrsne, hrs, hto, hsig⟩ := h.sigs fr' hfr' s hs
      exact ⟨rs, p, hrsne, Or.inr hrs, hto.trans hnode, hsig⟩
    · exact ⟨ps, nc, hne, Or.inl rfl, hnode.symm, rfl⟩

/-- Limits that no walk of a returning call comes up against. -/
structure LimitsWide (cfg : CgrConfig) : Prop where
  lo : frontierMax + 1 ≤ sizeT cfg.maxHops
  hi : sizeT cfg.maxHops < dfsStackMax

/-- Whatever the dominance test refuses at `st` is no improvement on some accepted walk. -/
def KeepsAt (q : CgrCall) (D : List ContactPtr → List ContactPtr → Prop) (st : SearchState)
    (acc : Set (List ContactPtr)) : Prop :=
  ∀ f below nc, Examines q st f below nc → Passes q f nc → Dominated q st f nc →
    ∃ ps ∈ acc, walkEnd q ps = nc.contact.toNode ∧ D ps (stackPath st.stack ++ [nc])

/-- What a skipped contact is: handled. -/
theorem KeepsAt.handled_of_skip {q : CgrCall}
    {D : List ContactPtr → List ContactPtr → Prop} {st : SearchState}
    {acc : Set (List ContactPtr)} {f : DfsFrame} {below : List DfsFrame} {nc : ContactPtr}
    (h : KeepsAt q D st acc) (hok : SearchOk q st) (hex : Examines q st f below nc)
    (why : Passes q f nc → Dominated q st f nc) :
    Handled q D acc (stackPath st.stack) nc := by
  have hstack := hok.stack
  rw [hex.stack_eq] at hstack
  have hframe := hstack.2.1
  rw [← hex.stack_eq] at hframe
  by_cases hfeas : hopFeasible q nc.contact f.tArrive = true
  · by_cases hvis : nc.contact.toNode ∈ f.visited
    · exact .visited (hframe.visited_eq ▸ hvis)
    · obtain ⟨ps, hps, hend, hgood⟩ := h f below nc hex ⟨hfeas, hvis⟩ (why ⟨hfeas, hvis⟩)
      exact .asGood ps hps hend hgood
  · apply Handled.infeasible
    rw [← hframe.tArrive_eq]
    exact Bool.eq_false_iff.mpr hfeas

/-- The walk that was just accepted handles its own last contact. -/
theorem handled_self {q : CgrCall} {D : List ContactPtr → List ContactPtr → Prop}
    (hrefl : ∀ ps, D ps ps) (acc : Set (List ContactPtr)) (ps : List ContactPtr)
    (nc : ContactPtr) : Handled q D (insert (ps ++ [nc]) acc) ps nc :=
  .asGood (ps ++ [nc]) (Set.mem_insert _ _) (walkEnd_concat q ps nc) (hrefl _)

/-! ### The cases -/

section
variable {q : CgrCall} {D : List ContactPtr → List ContactPtr → Prop} {st : SearchState}
  {acc acc' : Set (List ContactPtr)}

/-- One seed more has been looked at. -/
theorem Explored.seeds_succ (h : Explored q D st acc) (hsub : acc ⊆ acc') {seed : ContactPtr}
    (hget : (seedsOf q)[st.nextSeed]? = some seed)
    (hseed : hopFeasible q seed.contact q.t = false ∨ [seed] ∈ acc') :
    ∀ i seed', i < st.nextSeed + 1 → (seedsOf q)[i]? = some seed' →
      hopFeasible q seed'.contact q.t = false ∨ [seed'] ∈ acc' := by
  intro i seed' hi hget'
  rcases Nat.lt_succ_iff_lt_or_eq.mp hi with hi | rfl
  · exact (h.seeds i seed' hi hget').imp_right fun hm => hsub hm
  · obtain rfl := Option.some.inj (hget.symm.trans hget')
    exact hseed

theorem Explored.seedSkip (h : Explored q D st acc) {seed : ContactPtr}
    (hget : (seedsOf q)[st.nextSeed]? = some seed)
    (hfails : hopFeasible q seed.contact q.t = false) :
    Explored q D { st with nextSeed := st.nextSeed + 1 } acc :=
  ⟨h.ghost, h.top, h.slots, h.looked, h.closed,
    h.seeds_succ subset_rfl hget (Or.inl hfails)⟩

theorem Explored.seedDirect (h : Explored q D st acc) {seed : ContactPtr}
    (hempty : st.stack = []) (hget : (seedsOf q)[st.nextSeed]? = some seed)
    (hfeas : hopFeasible q seed.contact q.t = true) (hdst : seed.contact.toNode = q.b.dst) :
    Explored q D { st with nextSeed := st.nextSeed + 1 } (insert [seed] acc) := by
  have hsub := Set.subset_insert [seed] acc
  exact ⟨h.ghost.seed (searchWalk_seed hget hfeas), fun hne => absurd hempty hne, h.slots,
    h.looked.mono hsub, h.closed.insert (Or.inr hdst),
    h.seeds_succ hsub hget (Or.inr (Set.mem_insert _ _))⟩

theorem Explored.seedPush (h : Explored q D st acc) {seed : ContactPtr}
    (hempty : st.stack = []) (hget : (seedsOf q)[st.nextSeed]? = some seed)
    (hfeas : hopFeasible q seed.contact q.t = true) :
    Explored q D { st with nextSeed := st.nextSeed + 1, stack := [seedFrame q seed] }
      (insert [seed] acc) := by
  have hsub := Set.subset_insert [seed] acc
  have hpath : stackPath [seedFrame q seed] = [seed] := rfl
  have hlooked := h.looked
  have hclosed := h.closed
  rw [hempty] at hlooked hclosed
  refine ⟨h.ghost.seed (searchWalk_seed hget hfeas), fun _ => Or.inl hpath, ?_,
    (hlooked.mono hsub).push rfl, hclosed.push.insert (Or.inl ⟨_, _, List.suffix_rfl, hpath⟩),
    h.seeds_succ hsub hget (Or.inr (Set.mem_insert _ _))⟩
  intro v hv
  rw [hpath] at hv
  cases hv

theorem Explored.popEnd (h : Explored q D st acc) {f : DfsFrame} {below : List DfsFrame}
    (hst : st.stack = f :: below) (hend : (nextContacts q f)[f.nextIdx]? = none) :
    Explored q D { st with stack := below } acc := by
  have hlooked := h.looked
  have hclosed := h.closed
  have htop := h.top (by rw [hst]; exact List.cons_ne_nil _ _)
  have hslots := h.slots
  rw [hst] at hlooked hclosed htop hslots
  rw [stackPath_cons] at htop hslots
  refine ⟨h.ghost, fun hne => ?_, fun v hv => hslots v ?_, hlooked.pop,
    hclosed.pop (hlooked.fullyHandled hend), h.seeds⟩
  · refine h.ghost.prefixes _ _ (fun hnil => hne ?_) htop
    rw [← List.length_eq_zero_iff, ← stackPath_length, hnil]
    rfl
  · cases hbelow : stackPath below with
    | nil =>
      rw [hbelow] at hv
      cases hv
    | cons p ps =>
      rw [hbelow] at hv
      rw [receivers_tail_concat (List.cons_ne_nil _ _)]
      exact List.mem_append_left _ hv

theorem Explored.skip (h : Explored q D st acc) {f : DfsFrame} {below : List DfsFrame}
    {nc : ContactPtr} (hex : Examines q st f below nc)
    (hhandled : Handled q D acc (stackPath st.stack) nc) :
    Explored q D { st with stack := f.advance :: below } acc := by
  have hlooked := h.looked
  have hclosed := h.closed
  have htop := h.top (by rw [hex.stack_eq]; exact List.cons_ne_nil _ _)
  have hslots := h.slots
  rw [hex.stack_eq] at hlooked hclosed htop hslots hhandled
  exact ⟨h.ghost, fun _ => htop, hslots, hlooked.advance hex.next_eq hhandled,
    hclosed.advance, h.seeds⟩

/-- The ghost set with the extension the frontier took. -/
theorem Explored.ghost_extend (h : Explored q D st acc) (hok : SearchOk q st)
    (hshort : st.stack.length ≤ frontierMax + 1) {f : DfsFrame} {below : List DfsFrame}
    {nc : ContactPtr} (hex : Examines q st f below nc) (hp : Passes q f nc)
    {fs' : List Frontier}
    (hfs' : FrontierStep st.frontiers nc.contact.toNode (examinedSig q st f nc) fs') :
    Ghost q fs' (insert (stackPath st.stack ++ [nc]) acc) := by
  have htop := h.top (by rw [hex.stack_eq]; exact List.cons_ne_nil _ _)
  rw [examinedSig_eq hok hex] at hfs'
  exact h.ghost.extend htop (hok.extend hex hp).1 (by rw [stackPath_length]; exact hshort) hfs'

theorem Explored.offer (h : Explored q D st acc) (hrefl : ∀ ps, D ps ps) (hok : SearchOk q st)
    (hshort : st.stack.length ≤ frontierMax + 1) {f : DfsFrame} {below : List DfsFrame}
    {nc : ContactPtr} (hex : Examines q st f below nc) (hp : Passes q f nc)
    {fs' : List Frontier}
    (hfs' : FrontierStep st.frontiers nc.contact.toNode (examinedSig q st f nc) fs')
    (hdst : nc.contact.toNode = q.b.dst) :
    Explored q D { st with stack := f.advance :: below, frontiers := fs' }
      (insert (stackPath st.stack ++ [nc]) acc) := by
  have hghost := h.ghost_extend hok hshort hex hp hfs'
  have hsub := Set.subset_insert (stackPath st.stack ++ [nc]) acc
  have hend : walkEnd q (stackPath st.stack ++ [nc]) = q.b.dst :=
    (walkEnd_concat _ _ _).trans hdst
  have htop := h.top (by rw [hex.stack_eq]; exact List.cons_ne_nil _ _)
  have hslots := h.slots
  have hlooked := h.looked.mono hsub
  have hclosed := h.closed.insert (Or.inr hend)
  have hhandled := handled_self (q := q) hrefl acc (stackPath st.stack) nc
  rw [hex.stack_eq] at hghost hsub htop hslots hlooked hclosed hhandled ⊢
  exact ⟨hghost, fun _ => hsub htop, fun v hv => hfs'.slot_mono (hslots v hv),
    hlooked.advance hex.next_eq hhandled, hclosed.advance,
    fun i seed hi hget => (h.seeds i seed hi hget).imp_right fun hm => hsub hm⟩

theorem Explored.push (h : Explored q D st acc) (hok : SearchOk q st)
    (hshort : st.stack.length ≤ frontierMax + 1) {f : DfsFrame} {below : List DfsFrame}
    {nc : ContactPtr} (hex : Examines q st f below nc) (hp : Passes q f nc)
    {fs' : List Frontier}
    (hfs' : FrontierStep st.frontiers nc.contact.toNode (examinedSig q st f nc) fs')
    (hslot : frontierSigs st.frontiers nc.contact.toNode ≠ none) :
    Explored q D { st with stack := childFrame q f nc :: f :: below, frontiers := fs' }
      (insert (stackPath st.stack ++ [nc]) acc) := by
  have hghost := h.ghost_extend hok hshort hex hp hfs'
  have hsub := Set.subset_insert (stackPath st.stack ++ [nc]) acc
  have hself := hfs'.slot_self hslot
  have htop := h.top (by rw [hex.stack_eq]; exact List.cons_ne_nil _ _)
  have hne := (h.ghost.walk _ htop).nonempty
  have hpath : stackPath (childFrame q f nc :: st.stack) = stackPath st.stack ++ [nc] :=
    stackPath_cons _ _
  have hlooked := (h.looked.mono hsub).push (f := childFrame q f nc) rfl
  have hclosed := (h.closed.push (f := childFrame q f nc)).insert
    (Or.inl ⟨childFrame q f nc, st.stack, List.suffix_rfl, hpath⟩)
  rw [← hex.stack_eq]
  refine ⟨hghost, fun _ => ?_, fun v hv => ?_, hlooked, hclosed,
    fun i seed hi hget => (h.seeds i seed hi hget).imp_right fun hm => hsub hm⟩
  · dsimp only
    rw [hpath]
    exact Set.mem_insert _ _
  · dsimp only at hv
    rw [hpath, receivers_tail_concat hne] at hv
    rcases List.mem_append.mp hv with hv | hv
    · exact hfs'.slot_mono (h.slots v hv)
    · rw [List.mem_singleton.mp hv]
      exact hself

end

/-- A walk that the step accepts at the destination is the one it offers. -/
def OffersAccepted (q : CgrCall) (st : SearchState) (o : Option CgrRoute) : Prop :=
  ∀ ps, Accepts q st ps → walkEnd q ps = q.b.dst → o = some (routeOf q ps (walkArrival q ps))

/-- **Every step keeps the ghost invariant**; if the walk it accepts ends at the destination,
    its route is what the step offers. -/
theorem SearchStep.explored {q : CgrCall} {D : List ContactPtr → List ContactPtr → Prop}
    (hrefl : ∀ ps, D ps ps) {st st' : SearchState} {o : Option CgrRoute}
    {acc : Set (List ContactPtr)} (hs : SearchStep q st o st') (hok : SearchOk q st)
    (htable : TableOk q st.frontiers) (hfs : FrontiersOk st.frontiers)
    (hlim : LimitsWide q.cfg) (hroom : ¬ TableFull q st) (hkeeps : KeepsAt q D st acc)
    (h : Explored q D st acc) :
    Explored q D st' (acc ∪ {ps | Accepts q st ps}) ∧ OffersAccepted q st o := by
  have hshort : st.stack.length ≤ frontierMax + 1 := stack_short hok htable hfs h.slots
  -- a step either accepts nothing or accepts one walk
  have hnothing (hnone : ∀ ps, ¬ Accepts q st ps) (h' : Explored q D st' acc) :
      Explored q D st' (acc ∪ {ps | Accepts q st ps}) ∧ OffersAccepted q st o := by
    rw [union_eq_of_not_accepts hnone]
    exact ⟨h', fun ps hps => absurd hps (hnone ps)⟩
  have hone {ps : List ContactPtr} (hacc : Accepts q st ps)
      (h' : Explored q D st' (insert ps acc))
      (hoffer : walkEnd q ps = q.b.dst → o = some (routeOf q ps (walkArrival q ps))) :
      Explored q D st' (acc ∪ {ps | Accepts q st ps}) ∧ OffersAccepted q st o := by
    rw [hacc.union_eq]
    refine ⟨h', fun rs hrs => ?_⟩
    rw [hacc.unique hrs]
    exact hoffer
  cases hs with
  | seedSkip seed hempty hget hfails =>
    refine hnothing ?_ (h.seedSkip hget hfails)
    rintro ps (⟨seed', _, hget', hfeas⟩ | ⟨_, _, _, _, hex, _, _⟩)
    · obtain rfl := Option.some.inj (hget.symm.trans hget')
      rw [hfails] at hfeas
      cases hfeas
    · rw [hex.stack_eq] at hempty
      cases hempty
  | seedDirect seed hempty hget hfeas hdst =>
    exact hone (.seed seed hempty hget hfeas) (h.seedDirect hempty hget hfeas hdst) fun _ => rfl
  | seedPush seed hempty hget hfeas hdst =>
    exact hone (.seed seed hempty hget hfeas) (h.seedPush hempty hget hfeas)
      fun hend => absurd hend hdst
  | popLimit f below hst hbeyond =>
    -- nine frames at most, and the limit is ten
    have hstack := hok.stack
    rw [hst] at hstack hshort
    have hlen := hstack.2.1.pathLen_eq
    rw [stackPath_length] at hlen
    have := hlim.lo
    omega
  | popEnd f below hst _ hend =>
    refine hnothing ?_ (h.popEnd hst hend)
    rintro ps (⟨_, hempty, _, _⟩ | ⟨_, _, _, _, hex, _, _⟩)
    · rw [hst] at hempty
      cases hempty
    · obtain ⟨rfl, rfl⟩ := List.cons.inj (hst.symm.trans hex.stack_eq)
      rw [hex.next_eq] at hend
      cases hend
  | skip f below nc hex why =>
    refine hnothing ?_ (h.skip hex (hkeeps.handled_of_skip hok hex why))
    rintro ps (⟨_, hempty, _, _⟩ | ⟨_, _, _, _, hex', hp, hfs'⟩)
    · rw [hex.stack_eq] at hempty
      cases hempty
    · obtain ⟨rfl, rfl, rfl⟩ := hex.unique hex'
      obtain ⟨sigs, hsigs, hcov⟩ := why hp
      exact (hfs'.of_slot hsigs).1 hcov
  | offer f below nc hex hp fs' hfs' hdst =>
    apply hone (.hop f below nc fs' hex hp hfs') (h.offer hrefl hok hshort hex hp hfs' hdst)
    intro _
    rw [(hok.extend hex hp).2]
  | full f below nc hex hp fs' hfs' hdst hfull =>
    exact absurd (hok.room hlim.hi hex) (not_lt.mpr hfull)
  | push f below nc hex hp fs' hfs' hdst hdepth =>
    have hslot : frontierSigs st.frontiers nc.contact.toNode ≠ none :=
      fun hnone => hroom ⟨f, below, nc, hex, hp, hdst, hnone⟩
    apply hone (.hop f below nc fs' hex hp hfs') (h.push hok hshort hex hp hfs' hslot)
    intro hend
    rw [walkEnd_concat] at hend
    exact absurd hend hdst

/-! ## The beam keeps something as cheap -/

theorem beamPush_cheaper {bm bm' : Beam} {r x : CgrRoute} (h : beamPush bm r = .ok bm')
    (hx : x ∈ bm.routes ∨ x = r) : ∃ y ∈ bm'.routes, y.cost ≤ x.cost := by
  unfold beamPush at h
  split at h
  · obtain ⟨_, _, h⟩ := bind_eq_ok.mp h
    cases h
    exact ⟨x, by simpa using hx, le_refl _⟩
  · obtain ⟨_, _, h⟩ := bind_eq_ok.mp h
    cases hscan : scanMax CgrRoute.cost bm.routes with
    | none => rw [hscan] at h; cases h
    | some w =>
      obtain ⟨worst, y⟩ := w
      obtain ⟨hget, hmax⟩ := scanMax_spec hscan
      have hlt : worst < bm.routes.length := (List.getElem?_eq_some_iff.mp hget).1
      rw [hscan] at h
      dsimp only at h
      split at h
      · rename_i hcheap
        cases h
        have hnew : r ∈ bm.routes.set worst r := List.mem_set hlt r
        rcases hx with hx | rfl
        · obtain ⟨i, hi⟩ := List.getElem?_of_mem hx
          by_cases hiw : i = worst
          · -- the evicted route was the worst one
            subst hiw
            rw [hget] at hi
            cases hi
            exact ⟨r, hnew, hcheap.le⟩
          · refine ⟨x, List.mem_of_getElem? (i := i) ?_, le_refl _⟩
            rw [List.getElem?_set_ne (Ne.symm hiw)]
            exact hi
        · exact ⟨x, hnew, le_refl _⟩
      · rename_i hdear
        cases h
        rcases hx with hx | rfl
        · exact ⟨x, hx, le_refl _⟩
        · exact ⟨y, List.mem_of_getElem? hget, not_lt.mp hdear⟩

/-! ## A whole call -/

/-- The ghost invariant of a call: whatever was accepted at the destination is matched in
    the beam. -/
structure CallExplored (q : CgrCall) (D : List ContactPtr → List ContactPtr → Prop)
    (st : CgrState) (acc : Set (List ContactPtr)) : Prop where
  search : Explored q D st.search acc
  offered : ∀ ps ∈ acc, walkEnd q ps = q.b.dst →
    ∃ r ∈ st.beam.routes, r.cost ≤ (routeOf q ps (walkArrival q ps)).cost

theorem callExplored_start (q : CgrCall) (D : List ContactPtr → List ContactPtr → Prop) :
    CallExplored q D (cgrStart q) ∅ := by
  have hghost : Ghost q [] ∅ :=
    ⟨fun _ h => absurd h (Set.notMem_empty _), fun _ _ _ h => absurd h (Set.notMem_empty _),
      fun _ h => absurd h (Set.notMem_empty _), fun _ h => absurd h List.not_mem_nil⟩
  refine ⟨⟨hghost, fun hne => absurd rfl hne, fun _ hv => absurd hv List.not_mem_nil, ?_,
    fun _ h => absurd h (Set.notMem_empty _), fun i _ hi => absurd hi (Nat.not_lt_zero i)⟩,
    fun _ h => absurd h (Set.notMem_empty _)⟩
  intro f below hsuf
  cases List.eq_nil_of_suffix_nil hsuf

/-- `KeepsAt` wherever a call comes, given what the ghost set is known to satisfy there. -/
def Keeps (q : CgrCall) (D : List ContactPtr → List ContactPtr → Prop) : Prop :=
  ∀ st acc, History q st acc → SearchOk q st.search → Ghost q st.search.frontiers acc →
    KeepsAt q D st.search acc

/-- **The ghost invariant holds throughout a call without a full table.** -/
theorem History.explored {q : CgrCall} {D : List ContactPtr → List ContactPtr → Prop}
    (hrefl : ∀ ps, D ps ps) (hkeeps : Keeps q D) (hcap : 0 < beamCap q)
    (hlim : LimitsWide q.cfg)
    (hroom : ∀ st, (cgrMachine q).Reaches (cgrStart q) st → ¬ TableFull q st.search)
    {st : CgrState} {acc : Set (List ContactPtr)} (h : History q st acc) :
    CallExplored q D st acc := by
  induction h with
  | start => exact callExplored_start q D
  | @step st st' acc hhist hs ih =>
    have hreach := hhist.reaches
    obtain ⟨o, hstep, hbeam⟩ := cgrStep_cases hs
    have hin := cgrInBounds_reaches hcap hreach
    obtain ⟨hexp, hnew⟩ := hstep.explored hrefl hin.ok.search (tableOk_reaches hreach)
      hin.frontiers hlim (hroom st hreach)
      (hkeeps st acc hhist hin.ok.search ih.search.ghost) ih.search
    refine ⟨hexp, fun ps hps hdst => ?_⟩
    rcases hps with hold | hps
    · obtain ⟨r, hr, hle⟩ := ih.offered ps hold hdst
      rcases hbeam with ⟨_, heq⟩ | ⟨x, _, hpush⟩
      · exact ⟨r, heq ▸ hr, hle⟩
      · obtain ⟨y, hy, hyle⟩ := beamPush_cheaper hpush (Or.inl hr)
        exact ⟨y, hy, hyle.trans hle⟩
    · have ho := hnew ps hps hdst
      rcases hbeam with ⟨hnone, _⟩ | ⟨x, hx, hpush⟩
      · rw [hnone] at ho
        cases ho
      · rw [hx] at ho
        cases ho
        exact beamPush_cheaper hpush (Or.inr rfl)

/-- What is left of the history when the search is over: every feasible seed was accepted,
    and every accepted walk is at the destination or done with. -/
structure SearchedAll (q : CgrCall) (D : List ContactPtr → List ContactPtr → Prop)
    (routes : List CgrRoute) (acc : Set (List ContactPtr)) : Prop where
  walk : ∀ ps ∈ acc, SearchWalk q ps
  prefixes : ∀ ps p, ps ≠ [] → ps ++ [p] ∈ acc → ps ∈ acc
  short : ∀ ps ∈ acc, ps.length ≤ cgrRouteMaxHops
  seeds : ∀ seed ∈ seedsOf q, hopFeasible q seed.contact q.t = true → [seed] ∈ acc
  handled : ∀ ps ∈ acc, walkEnd q ps ≠ q.b.dst → FullyHandled q D acc ps
  offered : ∀ ps ∈ acc, walkEnd q ps = q.b.dst →
    ∃ r ∈ routes, r.cost ≤ (routeOf q ps (walkArrival q ps)).cost

theorem CallExplored.searchedAll {q : CgrCall}
    {D : List ContactPtr → List ContactPtr → Prop} {st : CgrState}
    {acc : Set (List ContactPtr)} (h : CallExplored q D st acc)
    (hd : searchDone q st.search = true) : SearchedAll q D st.beam.routes acc := by
  obtain ⟨hempty, hall⟩ : st.search.stack = [] ∧ (seedsOf q).length ≤ st.search.nextSeed := by
    simpa [searchDone] using hd
  refine ⟨h.search.ghost.walk, h.search.ghost.prefixes, h.search.ghost.short, ?_, ?_, h.offered⟩
  · intro seed hseed hfeas
    obtain ⟨i, hi⟩ := List.getElem?_of_mem hseed
    have hlt : i < (seedsOf q).length := (List.getElem?_eq_some_iff.mp hi).1
    rcases h.search.seeds i seed (lt_of_lt_of_le hlt hall) hi with hfails | hmem
    · rw [hfeas] at hfails
      cases hfails
    · exact hmem
  · intro ps hps hdst
    rcases h.search.closed ps hps with ⟨f, below, hsuf, _⟩ | hend | hfull
    · rw [hempty] at hsuf
      cases List.eq_nil_of_suffix_nil hsuf
    · exact absurd hend hdst
    · exact hfull

/-- **A finished search has searched everything.** -/
theorem searchedAll_of_done {q : CgrCall} {D : List ContactPtr → List ContactPtr → Prop}
    (hrefl : ∀ ps, D ps ps) (hkeeps : Keeps q D) (hcap : 0 < beamCap q)
    (hlim : LimitsWide q.cfg) {st : CgrState}
    (hreach : (cgrMachine q).Reaches (cgrStart q) st)
    (hd : searchDone q st.search = true) : ∃ acc, SearchedAll q D st.beam.routes acc := by
  have hreturns : Returns q := by
    obtain ⟨n, hn⟩ := Machine.run_of_reaches hreach
    exact returns_iff_terminates.mpr ⟨n, st, hn, hd⟩
  obtain ⟨acc, hhist⟩ := exists_history hreach
  have hexp := hhist.explored hrefl hkeeps hcap hlim
    fun s hs htf => not_returns_of_tableFull hlim.hi hs htf hreturns
  exact ⟨acc, hexp.searchedAll hd⟩

theorem limitsWide_default (logf : ℚ → ℚ) (cp : ContactPlan) (b : Bundle) (t : ℚ)
    (maxRoutes : Int32) : LimitsWide (CgrCall.default logf cp b t maxRoutes).cfg := by
  refine ⟨?_, ?_⟩ <;> rw [maxHops_default] <;> decide

/-! ## What the dominance test promises -/

/-- `ps` arrives no later than `rs`. -/
def NoLater (q : CgrCall) (ps rs : List ContactPtr) : Prop :=
  walkArrival q ps ≤ walkArrival q rs

/-- **A refused walk finds an accepted one that arrives no later.** -/
theorem keeps_noLater (q : CgrCall) : Keeps q (NoLater q) := by
  intro st acc _ hok hghost f below nc hex _ hdom
  obtain ⟨sigs, hsigs, x, hx, hle⟩ := hdom
  rw [examinedSig_eq hok hex] at hle
  rcases frontierSigs_cases hsigs with ⟨fr, hfr, hnode, rfl⟩ | ⟨rfl, _⟩
  · obtain ⟨ps, nc', _, hmem, hto, rfl⟩ := hghost.sigs fr hfr x hx
    refine ⟨ps ++ [nc'], hmem, (walkEnd_concat _ _ _).trans (hto.trans hnode), ?_⟩
    unfold NoLater
    rw [walkArrival_concat, walkArrival_concat]
    exact hle.1
  · cases hx

end DtnHardware
