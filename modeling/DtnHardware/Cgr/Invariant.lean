import DtnHardware.Cgr.Walks

/-!
# The invariant of the route search

The whole search is explained by one sentence: *every frame on the stack is a function of
the walk below it*. `StackOk` is that sentence — path length, arrival time and visited
list of each frame are the forward recomputation of the contacts up to it — and
`searchStep_ok` says each of the nine outcomes keeps it. What the search offers to the
beam is then a walk that ends at the destination (`SearchStep.offered`), and the beam
holds nothing else (`CgrOk`).

The visited list starts with `b.curr` and leaves out the *seed's* receiver: the walk's
nodes are pairwise distinct from the second receiver on, and `SearchWalk.fresh` says no
more than that.
-/

set_option autoImplicit false

namespace DtnHardware

open StepMachine Dominance ArrayLoops

/-! ## Walks of pointers -/

def contactsOf (ps : List ContactPtr) : List Contact := ps.map ContactPtr.contact

def receivers (ps : List ContactPtr) : List NodeId := ps.map fun p => p.contact.toNode

/-- `A_i` of a walk of pointers that starts at `b.curr` at time `t`. -/
def walkArrival (q : CgrCall) (ps : List ContactPtr) : ℚ := arrivalAfter q q.t (contactsOf ps)

@[simp] theorem contactsOf_append (ps rs : List ContactPtr) :
    contactsOf (ps ++ rs) = contactsOf ps ++ contactsOf rs := List.map_append

@[simp] theorem contactsOf_singleton (p : ContactPtr) : contactsOf [p] = [p.contact] := rfl

@[simp] theorem contactsOf_length (ps : List ContactPtr) : (contactsOf ps).length = ps.length :=
  List.length_map _

@[simp] theorem receivers_length (ps : List ContactPtr) : (receivers ps).length = ps.length :=
  List.length_map _

theorem receivers_tail_concat {ps : List ContactPtr} (h : ps ≠ []) (p : ContactPtr) :
    (receivers (ps ++ [p])).tail = (receivers ps).tail ++ [p.contact.toNode] := by
  cases ps with
  | nil => exact absurd rfl h
  | cons a ps => simp [receivers]

theorem walkArrival_concat (q : CgrCall) (ps : List ContactPtr) (p : ContactPtr) :
    walkArrival q (ps ++ [p]) = hopArrival q p.contact (walkArrival q ps) := by
  simp [walkArrival, arrivalAfter_append]

@[simp] theorem stackPath_nil : stackPath [] = [] := rfl

@[simp] theorem stackPath_cons (f : DfsFrame) (below : List DfsFrame) :
    stackPath (f :: below) = stackPath below ++ [f.contact] := by
  simp [stackPath]

@[simp] theorem stackPath_length (stack : List DfsFrame) :
    (stackPath stack).length = stack.length := by
  simp [stackPath]

theorem endNode_stackPath (v : NodeId) (f : DfsFrame) (below : List DfsFrame) :
    endNode v (contactsOf (stackPath (f :: below))) = f.contact.contact.toNode := by
  rw [stackPath_cons, contactsOf_append]
  exact endNode_concat v _ _

/-- The walks the search builds from `b.curr` at time `t`. -/
structure SearchWalk (q : CgrCall) (ps : List ContactPtr) : Prop where
  nonempty : ps ≠ []
  points : ∀ p ∈ ps, PointsInto q.cp p
  feasible : FeasibleFrom q q.b.curr q.t (contactsOf ps)
  fresh : (q.b.curr :: (receivers ps).tail).Nodup

/-! ## Frames and stacks -/

/-- The frame `f` is what the walk `ps` up to it makes it. -/
structure FrameOk (q : CgrCall) (f : DfsFrame) (ps : List ContactPtr) : Prop where
  pathLen_eq : f.pathLen = ps.length
  tArrive_eq : f.tArrive = walkArrival q ps
  visited_eq : f.visited = q.b.curr :: (receivers ps).tail
  notDst : f.contact.contact.toNode ≠ q.b.dst

def StackOk (q : CgrCall) : List DfsFrame → Prop
  | [] => True
  | f :: below =>
      SearchWalk q (stackPath (f :: below)) ∧ FrameOk q f (stackPath (f :: below)) ∧
        StackOk q below

/-- The invariant of the search, the frontier table aside. -/
structure SearchOk (q : CgrCall) (st : SearchState) : Prop where
  stack : StackOk q st.stack
  depth : st.stack.length ≤ dfsStackMax

theorem FrameOk.advance {q : CgrCall} {f : DfsFrame} {ps : List ContactPtr}
    (h : FrameOk q f ps) : FrameOk q f.advance ps :=
  ⟨h.pathLen_eq, h.tArrive_eq, h.visited_eq, h.notDst⟩

theorem StackOk.advance {q : CgrCall} {f : DfsFrame} {below : List DfsFrame}
    (h : StackOk q (f :: below)) : StackOk q (f.advance :: below) :=
  ⟨h.1, h.2.1.advance, h.2.2⟩

theorem FrameOk.visited_length {q : CgrCall} {f : DfsFrame} {ps : List ContactPtr}
    (h : FrameOk q f ps) (hne : ps ≠ []) : f.visited.length = ps.length := by
  have hpos : 0 < ps.length := List.length_pos_iff.mpr hne
  rw [h.visited_eq, List.length_cons, List.length_tail, receivers_length]
  omega

/-- With room in the array, copying and appending is appending. -/
theorem childVisited_eq {visited : List NodeId} (h : visited.length ≤ bundleMaxHops)
    (v : NodeId) : childVisited visited v = visited ++ [v] := by
  have hlt : visited.length < visitedMax := Nat.lt_succ_of_le h
  simp [childVisited, if_pos hlt, List.take_of_length_le h, Nat.sub_eq_zero_of_le h]

theorem mem_nextContacts {q : CgrCall} {f : DfsFrame} {nc : ContactPtr} {i : Nat}
    (h : (nextContacts q f)[i]? = some nc) :
    PointsInto q.cp nc ∧ nc.contact.frm = f.contact.contact.toNode :=
  mem_contactPlanFromNode.mp (List.mem_of_getElem? h)

theorem mem_seedsOf {q : CgrCall} {seed : ContactPtr} {i : Nat}
    (h : (seedsOf q)[i]? = some seed) : PointsInto q.cp seed ∧ seed.contact.frm = q.b.curr :=
  mem_contactPlanFromNode.mp (List.mem_of_getElem? h)

/-- A seed that passes its tests is a walk of one hop. -/
theorem searchWalk_seed {q : CgrCall} {seed : ContactPtr} {i : Nat}
    (hs : (seedsOf q)[i]? = some seed) (hf : hopFeasible q seed.contact q.t = true) :
    SearchWalk q [seed] := by
  obtain ⟨hp, hfrm⟩ := mem_seedsOf hs
  refine ⟨by simp, ?_, ?_, by simp [receivers]⟩
  · intro p hp'
    rw [List.mem_singleton.mp hp']
    exact hp
  · exact ⟨hp.mem, hfrm, hf, trivial⟩

/-- The walk on the stack, extended by a contact that passes its tests. -/
theorem SearchOk.extend {q : CgrCall} {st : SearchState} {f : DfsFrame}
    {below : List DfsFrame} {nc : ContactPtr} (h : SearchOk q st)
    (hex : Examines q st f below nc) (hp : Passes q f nc) :
    SearchWalk q (stackPath st.stack ++ [nc]) ∧
      walkArrival q (stackPath st.stack ++ [nc]) = hopArrival q nc.contact f.tArrive := by
  have hst := h.stack
  rw [hex.stack_eq] at hst ⊢
  obtain ⟨hwalk, hframe, _⟩ := hst
  obtain ⟨hpt, hfrm⟩ := mem_nextContacts hex.next_eq
  refine ⟨⟨by simp, ?_, ?_, ?_⟩, by rw [walkArrival_concat, ← hframe.tArrive_eq]⟩
  · intro p hmem
    rcases List.mem_append.mp hmem with hm | hm
    · exact hwalk.points p hm
    · rw [List.mem_singleton.mp hm]
      exact hpt
  · rw [contactsOf_append, contactsOf_singleton, feasibleFrom_concat]
    refine ⟨hwalk.feasible, hpt.mem, ?_, ?_⟩
    · rw [endNode_stackPath]
      exact hfrm
    · change hopFeasible q nc.contact (walkArrival q (stackPath (f :: below))) = true
      rw [← hframe.tArrive_eq]
      exact hp.feasible
  · have hfresh := hp.fresh
    rw [hframe.visited_eq] at hfresh
    rw [receivers_tail_concat hwalk.nonempty, ← List.cons_append]
    exact List.Nodup.append hwalk.fresh (List.nodup_singleton _)
      (List.disjoint_singleton.mpr hfresh)

/-- The frame pushed for such a contact belongs on the stack. -/
theorem SearchOk.child {q : CgrCall} {st : SearchState} {f : DfsFrame}
    {below : List DfsFrame} {nc : ContactPtr} (h : SearchOk q st)
    (hex : Examines q st f below nc) (hp : Passes q f nc)
    (hdst : nc.contact.toNode ≠ q.b.dst) (hroom : st.stack.length < dfsStackMax) :
    StackOk q (childFrame q f nc :: f :: below) := by
  obtain ⟨hwalk, harr⟩ := h.extend hex hp
  have hst := h.stack
  rw [hex.stack_eq] at hwalk harr hst hroom
  have hfwalk := hst.1
  have hframe := hst.2.1
  have hlen := hframe.visited_length hfwalk.nonempty
  rw [stackPath_length] at hlen
  have hvis : childVisited f.visited nc.contact.toNode = f.visited ++ [nc.contact.toNode] :=
    childVisited_eq (by rw [hlen]; exact Nat.le_of_lt_succ hroom) _
  have hpath : stackPath (childFrame q f nc :: f :: below)
      = stackPath (f :: below) ++ [nc] := stackPath_cons _ _
  refine ⟨hpath ▸ hwalk, ?_, hst⟩
  rw [hpath]
  refine ⟨?_, harr.symm, ?_, hdst⟩
  · change f.pathLen + 1 = _
    rw [hframe.pathLen_eq, List.length_append, List.length_singleton]
  · change childVisited f.visited nc.contact.toNode = _
    rw [hvis, receivers_tail_concat hfwalk.nonempty, hframe.visited_eq, List.cons_append]

/-! ## Preservation -/

/-- **Every outcome of a step keeps the invariant.** -/
theorem searchStep_ok {q : CgrCall} {st st' : SearchState} {o : Option CgrRoute}
    (h : SearchOk q st) (hs : SearchStep q st o st') : SearchOk q st' := by
  cases hs with
  | seedSkip _ _ _ _ => exact ⟨h.stack, h.depth⟩
  | seedDirect _ _ _ _ _ => exact ⟨h.stack, h.depth⟩
  | seedPush seed _ hseed hf hdst =>
    refine ⟨⟨searchWalk_seed hseed hf, ⟨rfl, rfl, rfl, hdst⟩, trivial⟩, ?_⟩
    exact Nat.succ_le_succ (Nat.zero_le _)
  | popLimit f below hst _ | popEnd f below hst _ _ =>
    have hstack := h.stack
    have hdepth := h.depth
    rw [hst] at hstack hdepth
    exact ⟨hstack.2.2, Nat.le_of_succ_le hdepth⟩
  | skip f below nc hex _ =>
    have hstack := h.stack
    have hdepth := h.depth
    rw [hex.stack_eq] at hstack hdepth
    exact ⟨hstack.advance, hdepth⟩
  | offer f below nc hex _ _ _ _ | full f below nc hex _ _ _ _ _ =>
    have hstack := h.stack
    have hdepth := h.depth
    rw [hex.stack_eq] at hstack hdepth
    exact ⟨hstack.advance, hdepth⟩
  | push f below nc hex hp _ _ hdst hroom =>
    refine ⟨h.child hex hp hdst hroom, ?_⟩
    rw [hex.stack_eq] at hroom
    exact hroom

/-! ## What is offered -/

/-- `r` is the route over the walk `ps`, which ends at the destination. -/
structure OfferedBy (q : CgrCall) (ps : List ContactPtr) (r : CgrRoute) : Prop where
  walk : SearchWalk q ps
  atDst : endNode q.b.curr (contactsOf ps) = q.b.dst
  route_eq : r = routeOf q ps (walkArrival q ps)

/-- The walk behind the route a step offers. -/
theorem SearchStep.offered {q : CgrCall} {st st' : SearchState} {r : CgrRoute}
    (h : SearchOk q st) (hs : SearchStep q st (some r) st') : ∃ ps, OfferedBy q ps r := by
  cases hs with
  | seedDirect seed _ hseed hf hdst =>
    exact ⟨[seed], searchWalk_seed hseed hf, hdst, rfl⟩
  | offer f below nc hex hp _ _ hdst =>
    obtain ⟨hwalk, harr⟩ := h.extend hex hp
    refine ⟨stackPath st.stack ++ [nc], hwalk, ?_, by rw [harr]⟩
    rw [contactsOf_append]
    exact (endNode_concat _ _ _).trans hdst

/-! ## The beam -/

/-- A push adds the offered route, possibly for the worst one, and nothing else. -/
theorem beamPush_mem {bm bm' : Beam} {r x : CgrRoute} (h : beamPush bm r = .ok bm')
    (hx : x ∈ bm'.routes) : x ∈ bm.routes ∨ x = r := by
  unfold beamPush at h
  split at h
  · obtain ⟨_, _, h⟩ := bind_eq_ok.mp h
    cases h
    simpa using hx
  · obtain ⟨_, _, h⟩ := bind_eq_ok.mp h
    cases hscan : scanMax CgrRoute.cost bm.routes with
    | none => rw [hscan] at h; cases h
    | some w =>
      rw [hscan] at h
      dsimp only at h
      split at h
      · cases h
        exact List.mem_or_eq_of_mem_set hx
      · cases h
        exact Or.inl hx

/-- The invariant of a whole call. -/
structure CgrOk (q : CgrCall) (st : CgrState) : Prop where
  search : SearchOk q st.search
  beam : ∀ r ∈ st.beam.routes, ∃ ps, OfferedBy q ps r

theorem cgrOk_start (q : CgrCall) : CgrOk q (cgrStart q) :=
  ⟨⟨trivial, Nat.zero_le _⟩, fun _ hr => absurd hr List.not_mem_nil⟩

theorem cgrOk_step {q : CgrCall} {st st' : CgrState} (h : CgrOk q st)
    (hs : (cgrMachine q).Steps st st') : CgrOk q st' := by
  obtain ⟨o, hstep, hbeam⟩ := cgrStep_cases hs
  refine ⟨searchStep_ok h.search hstep, fun x hx => ?_⟩
  rcases hbeam with ⟨_, heq⟩ | ⟨r, rfl, hpush⟩
  · exact h.beam x (heq ▸ hx)
  · rcases beamPush_mem hpush hx with hold | rfl
    · exact h.beam x hold
    · exact hstep.offered h.search

/-- **The invariant holds in every state of every call.** -/
theorem cgrOk_reaches {q : CgrCall} {st : CgrState}
    (h : (cgrMachine q).Reaches (cgrStart q) st) : CgrOk q st :=
  h.induct (cgrOk_start q) fun _ _ _ hok hs => cgrOk_step hok hs

/-! ## Returning -/

/-- What a call returns it has picked from the beam of a reached state in which the search is
    done. -/
theorem cgrSelectRoute_picked {q : CgrCall} {fuel : Nat} {out : CgrOutcome}
    (h : cgrSelectRoute q fuel = out) (hfault : ∀ e, out ≠ .fault e) (hrunning : out ≠ .running) :
    ∃ st, (cgrMachine q).Reaches (cgrStart q) st ∧ searchDone q st.search = true ∧
      cgrPick st.beam = out := by
  unfold cgrSelectRoute at h
  cases hrun : (cgrMachine q).run fuel (cgrStart q) with
  | error e =>
    rw [hrun] at h
    exact absurd h.symm (hfault e)
  | ok st =>
    rw [hrun] at h
    dsimp only at h
    split at h
    · rename_i hd
      exact ⟨st, Machine.reaches_of_run hrun, hd, h⟩
    · exact absurd h.symm hrunning

/-- A call that returns a route ends in a reached state whose beam has it cheapest. -/
theorem cgrSelectRoute_route {q : CgrCall} {fuel : Nat} {r : CgrRoute}
    (h : cgrSelectRoute q fuel = .route r) : ∃ st, (cgrMachine q).Reaches (cgrStart q) st ∧
      searchDone q st.search = true ∧ r ∈ st.beam.routes ∧
        ∀ x ∈ st.beam.routes, r.cost ≤ x.cost := by
  obtain ⟨st, hreach, hdone, hpick⟩ := cgrSelectRoute_picked h (by simp) (by simp)
  unfold cgrPick at hpick
  cases hscan : scanMin CgrRoute.cost st.beam.routes with
  | none =>
    rw [hscan] at hpick
    cases hpick
  | some w =>
    rw [hscan] at hpick
    cases hpick
    obtain ⟨hget, hmin⟩ := scanMin_spec hscan
    exact ⟨st, hreach, hdone, List.mem_of_getElem? hget, hmin⟩

/-- A call that returns `-1` ends in a reached state with an empty beam. -/
theorem cgrSelectRoute_noRoute {q : CgrCall} {fuel : Nat}
    (h : cgrSelectRoute q fuel = .noRoute) : ∃ st, (cgrMachine q).Reaches (cgrStart q) st ∧
      searchDone q st.search = true ∧ st.beam.routes = [] := by
  obtain ⟨st, hreach, hdone, hpick⟩ := cgrSelectRoute_picked h (by simp) (by simp)
  unfold cgrPick at hpick
  cases hscan : scanMin CgrRoute.cost st.beam.routes with
  | none => exact ⟨st, hreach, hdone, scanMin_eq_none.mp hscan⟩
  | some w =>
    rw [hscan] at hpick
    cases hpick

end DtnHardware
