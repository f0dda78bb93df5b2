import DtnHardware.Cgr.Bounds

/-!
# When the route search ends

After a push the inner loop breaks without advancing `next_idx`, so the parent meets the
same contact again when its child is exhausted. What stops it from pushing the same child
again is the dominance test: the signature stored by the first push covers the second
attempt. That needs a slot in the frontier table, and the table has eight. A ninth node
gets no slot (`fr` is null), the test is skipped, and the child is pushed for ever.

* `potential` — the measure, a number written in base `frameBase` with one digit per
  frame; the digit counts what the frame still has to look at, and counts the current
  contact twice as long as its signature is not covered;
* `SearchStep.potential_lt` — every step lowers it, provided the table has room;
* `Stuck` — the trap: a contact that was pushed without a slot.

`cgrSelectRoute_terminates_iff` puts them together.
-/

set_option autoImplicit false

namespace DtnHardware

open StepMachine Dominance ArrayLoops

/-! ## The measure -/

/-- Larger than any digit: two per contact of the plan, one for the current contact, one
    for the pop. -/
def frameBase : Nat := 2 * contactPlanMax + 3

/-- Has the current contact of `f` a covered signature? -/
def currentCovered (q : CgrCall) (fs : List Frontier) (f : DfsFrame)
    (below : List DfsFrame) : Bool :=
  match (nextContacts q f)[f.nextIdx]? with
  | some nc => coveredAt fs nc.contact.toNode (extensionSig q (f :: below) f.tArrive nc.contact)
  | none => true

/-- What a frame still has to do. -/
def frameWork (q : CgrCall) (fs : List Frontier) (f : DfsFrame) (below : List DfsFrame) :
    Nat :=
  2 * ((nextContacts q f).length - f.nextIdx) + 1
    + if currentCovered q fs f below then 0 else 1

/-- The frames' work, the deepest one weighing least. -/
def stackWork (q : CgrCall) (fs : List Frontier) : List DfsFrame → Nat
  | [] => 0
  | f :: below =>
      frameWork q fs f below * frameBase ^ (dfsStackMax - (below.length + 1))
        + stackWork q fs below

/-- What the whole search still has to do. -/
def potential (q : CgrCall) (st : SearchState) : Nat :=
  ((seedsOf q).length - st.nextSeed) * frameBase ^ dfsStackMax
    + stackWork q st.frontiers st.stack

theorem frameWork_lt (q : CgrCall) (fs : List Frontier) (f : DfsFrame)
    (below : List DfsFrame) : frameWork q fs f below < frameBase := by
  have hlen : (nextContacts q f).length ≤ contactPlanMax := contactPlanFromNode_length_le _ _
  unfold frameWork frameBase
  split <;> omega

theorem frameWork_pos (q : CgrCall) (fs : List Frontier) (f : DfsFrame)
    (below : List DfsFrame) : 0 < frameWork q fs f below := by
  unfold frameWork
  omega

/-- Remembering more never makes more work. -/
theorem frameWork_mono {q : CgrCall} {fs fs' : List Frontier}
    (h : ∀ w x, coveredAt fs w x = true → coveredAt fs' w x = true) (f : DfsFrame)
    (below : List DfsFrame) : frameWork q fs' f below ≤ frameWork q fs f below := by
  unfold frameWork
  have hcur : currentCovered q fs f below = true → currentCovered q fs' f below = true := by
    unfold currentCovered
    split
    · exact h _ _
    · exact id
  cases hc : currentCovered q fs f below with
  | true => rw [hcur hc]
  | false =>
    rw [if_neg Bool.false_ne_true]
    split <;> omega

theorem stackWork_mono {q : CgrCall} {fs fs' : List Frontier}
    (h : ∀ w x, coveredAt fs w x = true → coveredAt fs' w x = true) (stack : List DfsFrame) :
    stackWork q fs' stack ≤ stackWork q fs stack := by
  induction stack with
  | nil => exact le_refl _
  | cons f below ih =>
    unfold stackWork
    have := frameWork_mono (q := q) h f below
    gcongr

/-- Moving past a contact is work done, covered or not. -/
theorem frameWork_advance {q : CgrCall} (fs : List Frontier) {f : DfsFrame}
    (below : List DfsFrame) {nc : ContactPtr} (h : (nextContacts q f)[f.nextIdx]? = some nc) :
    frameWork q fs f.advance below < frameWork q fs f below := by
  have hlt : f.nextIdx < (nextContacts q f).length := (List.getElem?_eq_some_iff.mp h).1
  have hlen : (nextContacts q f.advance).length = (nextContacts q f).length := rfl
  have hidx : f.advance.nextIdx = f.nextIdx + 1 := rfl
  unfold frameWork
  rw [hlen, hidx]
  split <;> split <;> omega

/-- The branch that goes wrong: the examined contact passes every test, leads to a node
    other than the destination, and that node has no slot in the full table. -/
def TableFull (q : CgrCall) (st : SearchState) : Prop :=
  ∃ f below nc, Examines q st f below nc ∧ Passes q f nc ∧ nc.contact.toNode ≠ q.b.dst ∧
    frontierSigs st.frontiers nc.contact.toNode = none

theorem frameBase_pos : 0 < frameBase := by decide

/-- A contact looked at and left behind, whatever the table learnt from it. -/
theorem potential_advance_lt {q : CgrCall} {st : SearchState} {f : DfsFrame}
    {below : List DfsFrame} {nc : ContactPtr} {fs' : List Frontier}
    (hex : Examines q st f below nc)
    (hmono : ∀ w x, coveredAt st.frontiers w x = true → coveredAt fs' w x = true) :
    potential q { st with stack := f.advance :: below, frontiers := fs' } < potential q st := by
  have hwork : frameWork q fs' f.advance below < frameWork q st.frontiers f below :=
    lt_of_le_of_lt (frameWork_mono hmono _ _) (frameWork_advance _ _ hex.next_eq)
  have hbelow := stackWork_mono (q := q) hmono below
  have hpow : 0 < frameBase ^ (dfsStackMax - (below.length + 1)) := Nat.pow_pos frameBase_pos
  have := Nat.mul_lt_mul_of_pos_right hwork hpow
  unfold potential
  rw [hex.stack_eq, stackWork, stackWork]
  dsimp only
  omega

theorem potential_pop_lt {q : CgrCall} {st : SearchState} {f : DfsFrame}
    {below : List DfsFrame} (hst : st.stack = f :: below) :
    potential q { st with stack := below } < potential q st := by
  have hpow : 0 < frameBase ^ (dfsStackMax - (below.length + 1)) := Nat.pow_pos frameBase_pos
  have := Nat.mul_pos (frameWork_pos q st.frontiers f below) hpow
  unfold potential
  rw [hst, stackWork]
  dsimp only
  omega

/-- A seed less is worth more than any stack it starts. -/
theorem potential_seed_lt {q : CgrCall} {st : SearchState} (stack : List DfsFrame)
    (hlt : st.nextSeed < (seedsOf q).length) (hst : st.stack = [])
    (hwork : stackWork q st.frontiers stack < frameBase ^ dfsStackMax) :
    potential q { st with nextSeed := st.nextSeed + 1, stack := stack } < potential q st := by
  unfold potential
  rw [hst, stackWork]
  obtain ⟨k, hk⟩ : ∃ k, (seedsOf q).length - st.nextSeed = k + 1 :=
    ⟨(seedsOf q).length - st.nextSeed - 1, by omega⟩
  have hk' : (seedsOf q).length - (st.nextSeed + 1) = k := by omega
  dsimp only
  rw [hk, hk', Nat.succ_mul]
  omega

theorem stackWork_seedFrame_lt (q : CgrCall) (fs : List Frontier) (seed : ContactPtr) :
    stackWork q fs [seedFrame q seed] < frameBase ^ dfsStackMax := by
  have hwork := frameWork_lt q fs (seedFrame q seed) []
  have hpow : 0 < frameBase ^ bundleMaxHops := Nat.pow_pos frameBase_pos
  have hexp : dfsStackMax - (([] : List DfsFrame).length + 1) = bundleMaxHops := rfl
  calc stackWork q fs [seedFrame q seed]
      = frameWork q fs (seedFrame q seed) [] * frameBase ^ bundleMaxHops := by
        rw [stackWork, stackWork, hexp, Nat.add_zero]
    _ < frameBase * frameBase ^ bundleMaxHops := Nat.mul_lt_mul_of_pos_right hwork hpow
    _ = frameBase ^ dfsStackMax := by rw [dfsStackMax, Nat.pow_succ']

/-- Storing the signature of the parent's current contact is one unit of work done. -/
theorem frameWork_store {q : CgrCall} {st : SearchState} {f : DfsFrame}
    {below : List DfsFrame} {nc : ContactPtr} {fs' : List Frontier}
    (hex : Examines q st f below nc)
    (hfs : FrontierStep st.frontiers nc.contact.toNode (examinedSig q st f nc) fs')
    (hslot : frontierSigs st.frontiers nc.contact.toNode ≠ none) :
    frameWork q fs' f below + 1 = frameWork q st.frontiers f below := by
  have hsig : examinedSig q st f nc = extensionSig q (f :: below) f.tArrive nc.contact := by
    rw [examinedSig, hex.stack_eq]
  -- the current contact was not covered, and is from now on
  have hbefore : currentCovered q st.frontiers f below = false := by
    rw [currentCovered, hex.next_eq]
    dsimp only
    rw [← hsig, Bool.eq_false_iff]
    intro hc
    obtain ⟨sigs, hsigs, hcov⟩ := coveredAt_iff.mp hc
    exact (hfs.of_slot hsigs).1 hcov
  have hafter : currentCovered q fs' f below = true := by
    rw [currentCovered, hex.next_eq]
    dsimp only
    rw [← hsig]
    exact hfs.coveredAt_self hslot
  unfold frameWork
  rw [hbefore, hafter]
  rfl

/-- A push: the parent's unit outweighs all the work of the child. -/
theorem potential_push_lt {q : CgrCall} {st : SearchState} {f : DfsFrame}
    {below : List DfsFrame} {nc : ContactPtr} {fs' : List Frontier}
    (hex : Examines q st f below nc)
    (hfs : FrontierStep st.frontiers nc.contact.toNode (examinedSig q st f nc) fs')
    (hslot : frontierSigs st.frontiers nc.contact.toNode ≠ none)
    (hroom : st.stack.length < dfsStackMax) :
    potential q { st with stack := childFrame q f nc :: f :: below, frontiers := fs' }
      < potential q st := by
  have hwork := frameWork_store hex hfs hslot
  have hbelow := stackWork_mono (q := q) (fun _ _ => hfs.coveredAt_mono) below
  have hchild := frameWork_lt q fs' (childFrame q f nc) (f :: below)
  rw [hex.stack_eq, List.length_cons] at hroom
  obtain ⟨e, he⟩ : ∃ e, dfsStackMax - (below.length + 1) = e + 1 :=
    ⟨dfsStackMax - (below.length + 1) - 1, by omega⟩
  have he' : dfsStackMax - ((f :: below).length + 1) = e := by
    rw [List.length_cons]
    omega
  have hlt : frameWork q fs' (childFrame q f nc) (f :: below) * frameBase ^ e
      < frameBase ^ (e + 1) := by
    rw [Nat.pow_succ']
    exact Nat.mul_lt_mul_of_pos_right hchild (Nat.pow_pos frameBase_pos)
  unfold potential
  rw [hex.stack_eq, stackWork, stackWork, stackWork, he, he', ← hwork, Nat.succ_mul]
  dsimp only
  omega

/-- **With a slot for every pushed contact, every step is work done.** -/
theorem SearchStep.potential_lt {q : CgrCall} {st st' : SearchState} {o : Option CgrRoute}
    (hs : SearchStep q st o st') (hslot : ¬ TableFull q st) :
    potential q st' < potential q st := by
  cases hs with
  | seedSkip seed hempty hget _ | seedDirect seed hempty hget _ _ =>
    have hlt : st.nextSeed < (seedsOf q).length := (List.getElem?_eq_some_iff.mp hget).1
    have := potential_seed_lt [] hlt hempty (Nat.pow_pos frameBase_pos)
    rwa [← hempty] at this
  | seedPush seed hempty hget _ _ =>
    have hlt : st.nextSeed < (seedsOf q).length := (List.getElem?_eq_some_iff.mp hget).1
    exact potential_seed_lt _ hlt hempty (stackWork_seedFrame_lt q st.frontiers seed)
  | popLimit f below hst _ | popEnd f below hst _ _ => exact potential_pop_lt hst
  | skip f below nc hex _ => exact potential_advance_lt hex fun _ _ => id
  | offer f below nc hex _ fs' hfs _ | full f below nc hex _ fs' hfs _ _ =>
    exact potential_advance_lt hex fun _ _ => hfs.coveredAt_mono
  | push f below nc hex hp fs' hfs hdst hroom =>
    refine potential_push_lt hex hfs ?_ hroom
    intro hnone
    exact hslot ⟨f, below, nc, hex, hp, hdst, hnone⟩

/-! ## The trap -/

theorem TableFull.of_store {q : CgrCall} {st : SearchState} {rest : List DfsFrame}
    {fs' : List Frontier} {v : NodeId} {s : ParetoSig}
    (h : TableFull q { st with stack := rest }) (hfs : FrontierStep st.frontiers v s fs') :
    TableFull q { st with stack := rest, frontiers := fs' } := by
  obtain ⟨f, below, nc, hex, hp, hdst, hnone⟩ := h
  exact ⟨f, below, nc, ⟨hex.stack_eq, hex.within, hex.next_eq⟩, hp, hdst, hfs.noSlot_stays hnone⟩

/-- Somewhere on the stack sits a frame that will push its current contact again. -/
def Stuck (q : CgrCall) (st : SearchState) : Prop :=
  ∃ above rest, st.stack = above ++ rest ∧ TableFull q { st with stack := rest }

theorem Stuck.not_done {q : CgrCall} {st : SearchState} (h : Stuck q st) :
    searchDone q st = false := by
  obtain ⟨above, rest, hst, f, below, nc, hex, _⟩ := h
  have hrest : rest = f :: below := hex.stack_eq
  simp [searchDone, hst, hrest]

/-- The depth test is never what stops a frame that the hop limit lets look. -/
theorem SearchOk.room {q : CgrCall} {st : SearchState} {f : DfsFrame}
    {below : List DfsFrame} {nc : ContactPtr} (h : SearchOk q st)
    (hlim : sizeT q.cfg.maxHops < dfsStackMax) (hex : Examines q st f below nc) :
    st.stack.length < dfsStackMax := by
  have hstack := h.stack
  rw [hex.stack_eq] at hstack ⊢
  have hlen := hstack.2.1.pathLen_eq
  rw [stackPath_length] at hlen
  exact hlen ▸ lt_of_le_of_lt hex.within hlim

/-- **No step leaves the trap.** -/
theorem SearchStep.stuck {q : CgrCall} {st st' : SearchState} {o : Option CgrRoute}
    (hok : SearchOk q st) (hlim : sizeT q.cfg.maxHops < dfsStackMax)
    (hs : SearchStep q st o st') (h : Stuck q st) : Stuck q st' := by
  obtain ⟨above, rest, hst, hfull⟩ := h
  cases above with
  | nil =>
    -- the frame itself is on top: it has to push
    have hst : st.stack = rest := hst
    subst hst
    obtain ⟨f, below, nc, hex, hp, hdst, hnone⟩ := hfull
    cases hs with
    | seedSkip _ hempty _ _ | seedDirect _ hempty _ _ _ | seedPush _ hempty _ _ _ =>
      rw [hex.stack_eq] at hempty; cases hempty
    | popLimit f' below' hst _ =>
      obtain ⟨rfl, rfl⟩ := List.cons.inj (hex.stack_eq.symm.trans hst)
      exact absurd hex.within (by omega)
    | popEnd f' below' hst _ hend =>
      obtain ⟨rfl, rfl⟩ := List.cons.inj (hex.stack_eq.symm.trans hst)
      rw [hex.next_eq] at hend; cases hend
    | skip f' below' nc' hex' why =>
      obtain ⟨rfl, rfl, rfl⟩ := hex.unique hex'
      obtain ⟨sigs, hsigs, _⟩ := why hp
      rw [hnone] at hsigs; cases hsigs
    | offer f' below' nc' hex' _ fs' hfs hdst' =>
      obtain ⟨rfl, rfl, rfl⟩ := hex.unique hex'
      exact absurd hdst' hdst
    | full f' below' nc' hex' _ fs' hfs _ hroom =>
      exact absurd (hok.room hlim hex) (not_lt.mpr hroom)
    | push f' below' nc' hex' _ fs' hfs _ _ =>
      obtain ⟨rfl, rfl, rfl⟩ := hex.unique hex'
      have hfull : TableFull q { st with stack := f :: below } :=
        ⟨f, below, nc, ⟨rfl, hex.within, hex.next_eq⟩, hp, hdst, hnone⟩
      exact ⟨[childFrame q f nc], f :: below, rfl, hfull.of_store hfs⟩
  | cons g above =>
    -- the step is about a frame above it
    cases hs with
    | seedSkip _ hempty _ _ | seedDirect _ hempty _ _ _ | seedPush _ hempty _ _ _ =>
      rw [hst] at hempty; cases hempty
    | popLimit f below hst' _ | popEnd f below hst' _ _ =>
      obtain ⟨rfl, rfl⟩ := List.cons.inj (hst.symm.trans hst')
      exact ⟨above, rest, rfl, hfull⟩
    | skip f below nc hex _ =>
      obtain ⟨rfl, rfl⟩ := List.cons.inj (hst.symm.trans hex.stack_eq)
      exact ⟨g.advance :: above, rest, rfl, hfull⟩
    | offer f below nc hex _ fs' hfs _ | full f below nc hex _ fs' hfs _ _ =>
      obtain ⟨rfl, rfl⟩ := List.cons.inj (hst.symm.trans hex.stack_eq)
      exact ⟨g.advance :: above, rest, rfl, hfull.of_store hfs⟩
    | push f below nc hex _ fs' hfs _ _ =>
      obtain ⟨rfl, rfl⟩ := List.cons.inj (hst.symm.trans hex.stack_eq)
      exact ⟨childFrame q g nc :: g :: above, rest, rfl, hfull.of_store hfs⟩

/-! ## A whole call -/

/-- The call returns, with a route or without. -/
def Returns (q : CgrCall) : Prop :=
  ∃ fuel, cgrSelectRoute q fuel = .noRoute ∨ ∃ r, cgrSelectRoute q fuel = .route r

theorem returns_iff_terminates {q : CgrCall} :
    Returns q ↔ (cgrMachine q).Terminates (cgrStart q) := by
  constructor
  · rintro ⟨fuel, h⟩
    unfold cgrSelectRoute at h
    cases hrun : (cgrMachine q).run fuel (cgrStart q) with
    | error e => simp [hrun] at h
    | ok st =>
      refine ⟨fuel, st, hrun, ?_⟩
      change searchDone q st.search = true
      by_contra hd
      simp [hrun, hd] at h
  · rintro ⟨n, st, hrun, hd⟩
    have hd : searchDone q st.search = true := hd
    refine ⟨n, ?_⟩
    rw [cgrSelectRoute, hrun]
    dsimp only
    rw [if_pos hd, cgrPick]
    cases scanMin CgrRoute.cost st.beam.routes with
    | none => exact Or.inl rfl
    | some w => exact Or.inr ⟨w.2, rfl⟩

/-- A call that reaches a full table stays in its trap. -/
theorem not_returns_of_tableFull {q : CgrCall} (hlim : sizeT q.cfg.maxHops < dfsStackMax)
    {st : CgrState} (hreach : (cgrMachine q).Reaches (cgrStart q) st)
    (h : TableFull q st.search) : ¬ Returns q := by
  rw [returns_iff_terminates]
  intro hterm
  refine Machine.not_terminates_of_trap
    (P := fun s => (cgrMachine q).Reaches (cgrStart q) s ∧ Stuck q s.search) ?_ ?_
    ⟨hreach, [], st.search.stack, rfl, h⟩ (hterm.of_reaches hreach)
  · exact fun s hs => hs.2.not_done
  · intro s s' hs hstep
    obtain ⟨o, hsearch, _⟩ := cgrStep_cases hstep
    exact ⟨hs.1.tail hstep, hsearch.stuck (cgrOk_reaches hs.1).search hlim hs.2⟩

/-- A call that never meets a full table or a full signature list returns. -/
theorem returns_of_never_full {q : CgrCall} (hcap : 0 < beamCap q)
    (h : ∀ st, (cgrMachine q).Reaches (cgrStart q) st →
      ¬ TableFull q st.search ∧ ¬ FrontierFull q st.search) : Returns q := by
  rw [returns_iff_terminates]
  refine Machine.terminates_of_measure (P := (cgrMachine q).Reaches (cgrStart q))
    (fun st => potential q st.search) ?_ (Machine.Reaches.refl _)
  intro st hreach hd
  rcases (cgrInBounds_reaches hcap hreach).progress hd with ⟨st', hok⟩ | ⟨hfull, _⟩
  · obtain ⟨o, hsearch, _⟩ := cgrStep_cases (q := q) ⟨hd, hok⟩
    exact ⟨st', hok, hreach.tail ⟨hd, hok⟩, hsearch.potential_lt (h st hreach).1⟩
  · exact absurd hfull (h st hreach).2

theorem maxHops_default (logf : ℚ → ℚ) (cp : ContactPlan) (b : Bundle) (t : ℚ)
    (maxRoutes : Int32) : sizeT (CgrCall.default logf cp b t maxRoutes).cfg.maxHops
      = bundleMaxHops := rfl

/-- **A call returns exactly when it never pushes a contact without a slot** and never
    stops at `sigs[8]`. -/
theorem cgrSelectRoute_returns_iff (logf : ℚ → ℚ) (cp : ContactPlan) (b : Bundle) (t : ℚ)
    (maxRoutes : Int32) :
    Returns (.default logf cp b t maxRoutes) ↔
      ∀ st, (cgrMachine (.default logf cp b t maxRoutes)).Reaches
          (cgrStart (.default logf cp b t maxRoutes)) st →
        ¬ TableFull (.default logf cp b t maxRoutes) st.search ∧
          ¬ FrontierFull (.default logf cp b t maxRoutes) st.search := by
  have hcap := beamCap_default_pos logf cp b t maxRoutes
  have hlim : sizeT (CgrCall.default logf cp b t maxRoutes).cfg.maxHops < dfsStackMax := by
    rw [maxHops_default]
    decide
  generalize CgrCall.default logf cp b t maxRoutes = q at hcap hlim ⊢
  refine ⟨fun hret st hreach => ⟨fun h => ?_, fun h => ?_⟩, returns_of_never_full hcap⟩
  · exact not_returns_of_tableFull hlim hreach h hret
  · have hd : searchDone q st.search = false := by
      obtain ⟨f, below, nc, _, hex, _⟩ := h
      simp [searchDone, hex.stack_eq]
    rcases (cgrInBounds_reaches hcap hreach).progress hd with ⟨st', hok⟩ | ⟨_, herr⟩
    · obtain ⟨o, hstep, _⟩ := cgrStep_cases (q := q) ⟨hd, hok⟩
      exact h.not_step hstep
    · exact Machine.not_terminates_of_error hd herr
        ((returns_iff_terminates.mp hret).of_reaches hreach)

/-! ### A plan with ten nodes -/

instance (q : CgrCall) (st : SearchState) : Decidable (TableFull q st) :=
  match hst : st.stack with
  | [] => isFalse fun ⟨_, _, _, hex, _⟩ => by rw [hex.stack_eq] at hst; cases hst
  | f :: below =>
    match hnc : (nextContacts q f)[f.nextIdx]? with
    | none => isFalse fun ⟨_, _, _, hex, _⟩ => by
        obtain ⟨rfl, rfl⟩ := List.cons.inj (hst.symm.trans hex.stack_eq)
        rw [hex.next_eq] at hnc
        cases hnc
    | some nc =>
      decidable_of_iff (f.pathLen ≤ sizeT q.cfg.maxHops ∧
          (hopFeasible q nc.contact f.tArrive = true ∧ nc.contact.toNode ∉ f.visited) ∧
          nc.contact.toNode ≠ q.b.dst ∧ frontierSigs st.frontiers nc.contact.toNode = none) (by
        constructor
        · rintro ⟨hlen, ⟨hfeas, hvis⟩, hdst, hnone⟩
          exact ⟨f, below, nc, ⟨hst, hlen, hnc⟩, ⟨hfeas, hvis⟩, hdst, hnone⟩
        · rintro ⟨f', below', nc', hex, hp, hdst, hnone⟩
          obtain ⟨rfl, rfl⟩ := List.cons.inj (hst.symm.trans hex.stack_eq)
          obtain rfl := Option.some.inj (hnc.symm.trans hex.next_eq)
          exact ⟨hex.within, ⟨hp.feasible, hp.fresh⟩, hdst, hnone⟩)

/-- `A → B`, and links from `B` to nine leaves, none of them the destination. -/
def nineLeaves : CgrCall :=
  .default (fun x => x - 1)
    (.ofList (testLink nodeA nodeB 0 100 :: (List.range 9).map fun i =>
      testLink nodeB (0x4C454130 + UInt32.ofNat i) 0 100))
    (testBundle nodeC) 0 16

theorem nineLeaves_not_returns : ¬ Returns nineLeaves := by
  have hrun : (match (cgrMachine nineLeaves).run 25 (cgrStart nineLeaves) with
      | .ok st => decide (TableFull nineLeaves st.search)
      | .error _ => false) = true := by decide +kernel
  cases hst : (cgrMachine nineLeaves).run 25 (cgrStart nineLeaves) with
  | error e => rw [hst] at hrun; cases hrun
  | ok st =>
    rw [hst] at hrun
    exact not_returns_of_tableFull (by decide) (Machine.reaches_of_run hst)
      (of_decide_eq_true hrun)

/-! ## Small networks -/

/-- **A plan with at most eight receivers other than the bundle's node never fills the
    table.** -/
theorem not_tableFull_of_few {q : CgrCall} (hfew : (tableNodes q).card ≤ frontierMax)
    {st : CgrState} (h : (cgrMachine q).Reaches (cgrStart q) st) : ¬ TableFull q st.search := by
  rintro ⟨f, below, nc, hex, hp, _, hnone⟩
  have htable := tableOk_reaches h
  have hmem := (cgrOk_reaches h).search.mem_tableNodes hex hp
  rw [frontierSigs_eq] at hnone
  cases hslot : slotOf st.search.frontiers nc.contact.toNode with
  | some fr => rw [hslot] at hnone; cases hnone
  | none =>
    rw [hslot] at hnone
    dsimp only at hnone
    split at hnone
    · cases hnone
    · rename_i hlen
      have hnodup := List.nodup_cons.mpr ⟨slotOf_eq_none hslot, htable.nodup⟩
      have hsub : (nc.contact.toNode :: st.search.frontiers.map Frontier.node).toFinset
          ⊆ tableNodes q := by
        intro v hv
        rcases List.mem_cons.mp (List.mem_toFinset.mp hv) with rfl | hv
        · exact hmem
        · obtain ⟨fr, hfr, rfl⟩ := List.mem_map.mp hv
          exact htable.nodes fr hfr
      have hcard := Finset.card_le_card hsub
      rw [List.toFinset_card_of_nodup hnodup, List.length_cons, List.length_map] at hcard
      omega

end DtnHardware
