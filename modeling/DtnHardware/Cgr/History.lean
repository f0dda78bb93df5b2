import DtnHardware.Cgr.Termination

/-!
# What the search has explored

The search forgets: a popped frame is gone, a signature may be replaced, a route may be
evicted. `History` runs a call with a ghost set `acc` beside it — every walk that was ever
pushed or offered — and `Explored` says what the state still knows about that set:

* every stored signature is that of a walk of `acc` (`Ghost.sigs`);
* every walk of `acc` that does not end at the destination is on the stack or has had
  each of its next contacts handled (`Accounted`), where *handled* means infeasible, or
  back on the walk itself, or no improvement on some walk of `acc` to the same node;
* every walk of `acc` to the destination is matched by a route of the beam that costs no
  more (`CallExplored.offered`).

What counts as an improvement is a parameter, the relation `D`: a refused walk must find an
accepted one that is `D` as good (`Keeps`). The dominance test promises an arrival time and
a confidence; what it does not promise is the subject of `Cgr.Optimal`.

Walks stay short for a reason that has nothing to do with the hop limit: each node of a
walk but the first holds a slot of the frontier table, and there are eight (`stack_short`).
That is why the limits never drop a walk of a call that returns.
-/

set_option autoImplicit false

namespace DtnHardware

open StepMachine Dominance ArrayLoops

/-! ## Extending a walk by a contact -/

/-- The node a walk of pointers leads to from `b.curr`. -/
def walkEnd (q : CgrCall) (ps : List ContactPtr) : NodeId := endNode q.b.curr (contactsOf ps)

/-- The signature of the walk `ps` extended by `nc`. -/
def extendSig (q : CgrCall) (ps : List ContactPtr) (nc : ContactPtr) : ParetoSig :=
  { tArrive := hopArrival q nc.contact (walkArrival q ps)
    conf := pathConf (contactsOf ps) * nc.contact.conf
    margin := hopMargin q nc.contact (walkArrival q ps) }

theorem walkEnd_concat (q : CgrCall) (ps : List ContactPtr) (p : ContactPtr) :
    walkEnd q (ps ++ [p]) = p.contact.toNode := by
  rw [walkEnd, contactsOf_append]
  exact endNode_concat _ _ _

theorem walkEnd_stackPath (q : CgrCall) (f : DfsFrame) (below : List DfsFrame) :
    walkEnd q (stackPath (f :: below)) = f.contact.contact.toNode := endNode_stackPath _ f below

theorem examinedSig_eq {q : CgrCall} {st : SearchState} {f : DfsFrame} {below : List DfsFrame}
    {nc : ContactPtr} (h : SearchOk q st) (hex : Examines q st f below nc) :
    examinedSig q st f nc = extendSig q (stackPath st.stack) nc := by
  have hstack := h.stack
  rw [hex.stack_eq] at hstack
  have harr := hstack.2.1.tArrive_eq
  rw [← hex.stack_eq] at harr
  unfold examinedSig extensionSig extendSig
  rw [harr]
  rfl

/-! ## The ghost set -/

/-- The step from `st` accepts the walk `ps`. -/
inductive Accepts (q : CgrCall) (st : SearchState) : List ContactPtr → Prop
  | seed (seed : ContactPtr) (empty : st.stack = [])
      (seed_eq : (seedsOf q)[st.nextSeed]? = some seed)
      (feasible : hopFeasible q seed.contact q.t = true) : Accepts q st [seed]
  | hop (f : DfsFrame) (below : List DfsFrame) (nc : ContactPtr) (fs' : List Frontier)
      (examines : Examines q st f below nc) (passes : Passes q f nc)
      (frontier : FrontierStep st.frontiers nc.contact.toNode (examinedSig q st f nc) fs') :
      Accepts q st (stackPath st.stack ++ [nc])

/-- A call up to the state `st`, with the set of walks accepted so far. -/
inductive History (q : CgrCall) : CgrState → Set (List ContactPtr) → Prop
  | start : History q (cgrStart q) ∅
  | step {st st' : CgrState} {acc : Set (List ContactPtr)} (h : History q st acc)
      (hs : (cgrMachine q).Steps st st') : History q st' (acc ∪ {ps | Accepts q st.search ps})

theorem History.reaches {q : CgrCall} {st : CgrState} {acc : Set (List ContactPtr)}
    (h : History q st acc) : (cgrMachine q).Reaches (cgrStart q) st := by
  induction h with
  | start => exact Machine.Reaches.refl _
  | step _ hs ih => exact ih.tail hs

theorem exists_history {q : CgrCall} {st : CgrState}
    (h : (cgrMachine q).Reaches (cgrStart q) st) : ∃ acc, History q st acc := by
  refine h.induct (P := fun s => ∃ acc, History q s acc) ⟨∅, .start⟩ ?_
  rintro s s' _ ⟨acc, hacc⟩ hs
  exact ⟨_, hacc.step hs⟩

theorem Accepts.unique {q : CgrCall} {st : SearchState} {ps rs : List ContactPtr}
    (h : Accepts q st ps) (h' : Accepts q st rs) : rs = ps := by
  cases h with
  | seed seed hempty hget _ =>
    cases h' with
    | seed seed' _ hget' _ => rw [Option.some.inj (hget.symm.trans hget')]
    | hop _ _ _ _ hex _ _ => rw [hex.stack_eq] at hempty; cases hempty
  | hop f below nc fs' hex _ _ =>
    cases h' with
    | seed _ hempty _ _ => rw [hex.stack_eq] at hempty; cases hempty
    | hop _ _ _ _ hex' _ _ => rw [(hex.unique hex').2.2]

theorem Accepts.union_eq {q : CgrCall} {st : SearchState} {ps : List ContactPtr}
    (h : Accepts q st ps) (acc : Set (List ContactPtr)) :
    acc ∪ {ps | Accepts q st ps} = insert ps acc := by
  rw [← Set.union_singleton]
  congr 1
  ext rs
  constructor
  · exact fun hrs => Set.mem_singleton_iff.mpr (h.unique hrs)
  · rintro rfl
    exact h

theorem union_eq_of_not_accepts {q : CgrCall} {st : SearchState}
    (h : ∀ ps, ¬ Accepts q st ps) (acc : Set (List ContactPtr)) :
    acc ∪ {ps | Accepts q st ps} = acc := by
  rw [Set.union_eq_left]
  exact fun ps hps => absurd hps (h ps)

/-- `nc` brings nothing new after the walk `ps`. -/
inductive Handled (q : CgrCall) (D : List ContactPtr → List ContactPtr → Prop)
    (acc : Set (List ContactPtr)) (ps : List ContactPtr) (nc : ContactPtr) : Prop
  /-- some test fails -/
  | infeasible (h : hopFeasible q nc.contact (walkArrival q ps) = false)
  /-- the node is in the visited list -/
  | visited (h : nc.contact.toNode ∈ q.b.curr :: (receivers ps).tail)
  /-- an accepted walk is as good there -/
  | asGood (ps' : List ContactPtr) (mem : ps' ∈ acc)
      (same : walkEnd q ps' = nc.contact.toNode) (good : D ps' (ps ++ [nc]))

section
variable {q : CgrCall} {D : List ContactPtr → List ContactPtr → Prop}
  {acc acc' : Set (List ContactPtr)}

theorem Handled.mono {ps : List ContactPtr} {nc : ContactPtr} (hsub : acc ⊆ acc')
    (h : Handled q D acc ps nc) : Handled q D acc' ps nc := by
  cases h with
  | infeasible h => exact .infeasible h
  | visited h => exact .visited h
  | asGood ps' hmem hsame hgood => exact .asGood ps' (hsub hmem) hsame hgood

end

/-- Every contact that leaves the end of `ps` is handled. -/
def FullyHandled (q : CgrCall) (D : List ContactPtr → List ContactPtr → Prop)
    (acc : Set (List ContactPtr)) (ps : List ContactPtr) : Prop :=
  ∀ nc ∈ contactPlanFromNode q.cp (walkEnd q ps), Handled q D acc ps nc

/-- Every contact a frame has moved past is handled. -/
def StackLooked (q : CgrCall) (D : List ContactPtr → List ContactPtr → Prop)
    (acc : Set (List ContactPtr)) (stack : List DfsFrame) : Prop :=
  ∀ f below, (f :: below) <:+ stack → ∀ i nc, i < f.nextIdx →
    (nextContacts q f)[i]? = some nc → Handled q D acc (stackPath (f :: below)) nc

/-- A walk is still on the stack, or at the destination, or done with. -/
def Accounted (q : CgrCall) (D : List ContactPtr → List ContactPtr → Prop)
    (acc : Set (List ContactPtr)) (stack : List DfsFrame) : Prop :=
  ∀ ps ∈ acc, (∃ f below, (f :: below) <:+ stack ∧ stackPath (f :: below) = ps) ∨
    walkEnd q ps = q.b.dst ∨ FullyHandled q D acc ps

/-- What the ghost set itself satisfies, and where the stored signatures come from. -/
structure Ghost (q : CgrCall) (fs : List Frontier) (acc : Set (List ContactPtr)) : Prop where
  walk : ∀ ps ∈ acc, SearchWalk q ps
  prefixes : ∀ ps p, ps ≠ [] → ps ++ [p] ∈ acc → ps ∈ acc
  short : ∀ ps ∈ acc, ps.length ≤ frontierMax + 2
  sigs : ∀ fr ∈ fs, ∀ s ∈ fr.sigs, ∃ ps nc, ps ≠ [] ∧ ps ++ [nc] ∈ acc ∧
    nc.contact.toNode = fr.node ∧ extendSig q ps nc = s

/-- The ghost invariant of the search. -/
structure Explored (q : CgrCall) (D : List ContactPtr → List ContactPtr → Prop)
    (st : SearchState) (acc : Set (List ContactPtr)) : Prop where
  ghost : Ghost q st.frontiers acc
  top : st.stack ≠ [] → stackPath st.stack ∈ acc
  slots : ∀ v ∈ (receivers (stackPath st.stack)).tail, (slotOf st.frontiers v).isSome = true
  looked : StackLooked q D acc st.stack
  closed : Accounted q D acc st.stack
  seeds : ∀ i seed, i < st.nextSeed → (seedsOf q)[i]? = some seed →
    hopFeasible q seed.contact q.t = false ∨ [seed] ∈ acc

/-! ## Moving the stack -/

section
variable {q : CgrCall} {D : List ContactPtr → List ContactPtr → Prop}
  {acc acc' : Set (List ContactPtr)}

theorem StackLooked.mono {stack : List DfsFrame} (hsub : acc ⊆ acc')
    (h : StackLooked q D acc stack) : StackLooked q D acc' stack :=
  fun f below hsuf i nc hi hnc => (h f below hsuf i nc hi hnc).mono hsub

theorem StackLooked.pop {f : DfsFrame} {below : List DfsFrame}
    (h : StackLooked q D acc (f :: below)) : StackLooked q D acc below :=
  fun g rest hsuf => h g rest (hsuf.trans (List.suffix_cons f below))

theorem StackLooked.push {f : DfsFrame} {stack : List DfsFrame}
    (h : StackLooked q D acc stack) (hidx : f.nextIdx = 0) :
    StackLooked q D acc (f :: stack) := by
  intro g rest hsuf i nc hi hnc
  rcases List.suffix_cons_iff.mp hsuf with heq | hsuf
  · obtain ⟨rfl, rfl⟩ := List.cons.inj heq
    rw [hidx] at hi
    exact absurd hi (Nat.not_lt_zero i)
  · exact h g rest hsuf i nc hi hnc

theorem StackLooked.advance {f : DfsFrame} {below : List DfsFrame} {nc : ContactPtr}
    (h : StackLooked q D acc (f :: below))
    (hnc : (nextContacts q f)[f.nextIdx]? = some nc)
    (hhandled : Handled q D acc (stackPath (f :: below)) nc) :
    StackLooked q D acc (f.advance :: below) := by
  intro g rest hsuf i nc' hi hnc'
  rcases List.suffix_cons_iff.mp hsuf with heq | hsuf
  · obtain ⟨rfl, rfl⟩ := List.cons.inj heq
    rcases Nat.lt_succ_iff_lt_or_eq.mp hi with hi | rfl
    · exact h f rest List.suffix_rfl i nc' hi hnc'
    · obtain rfl := Option.some.inj (hnc.symm.trans hnc')
      exact hhandled
  · exact h g rest (hsuf.trans (List.suffix_cons f below)) i nc' hi hnc'

theorem Accounted.insert {stack : List DfsFrame} {ps : List ContactPtr}
    (h : Accounted q D acc stack)
    (hps : (∃ f below, (f :: below) <:+ stack ∧ stackPath (f :: below) = ps) ∨
      walkEnd q ps = q.b.dst) : Accounted q D (insert ps acc) stack := by
  intro rs hrs
  rcases Set.mem_insert_iff.mp hrs with rfl | hrs
  · exact hps.imp_right Or.inl
  · refine (h rs hrs).imp_right (Or.imp_right fun hfull nc hnc => ?_)
    exact (hfull nc hnc).mono (Set.subset_insert _ _)

theorem Accounted.push {f : DfsFrame} {stack : List DfsFrame}
    (h : Accounted q D acc stack) : Accounted q D acc (f :: stack) := by
  intro ps hps
  apply (h ps hps).imp_left
  rintro ⟨g, rest, hsuf, heq⟩
  exact ⟨g, rest, hsuf.trans (List.suffix_cons f stack), heq⟩

theorem Accounted.advance {f : DfsFrame} {below : List DfsFrame}
    (h : Accounted q D acc (f :: below)) : Accounted q D acc (f.advance :: below) := by
  intro ps hps
  apply (h ps hps).imp_left
  rintro ⟨g, rest, hsuf, rfl⟩
  rcases List.suffix_cons_iff.mp hsuf with heq | hsuf
  · obtain ⟨rfl, rfl⟩ := List.cons.inj heq
    exact ⟨g.advance, rest, List.suffix_rfl, by rw [stackPath_cons, stackPath_cons]; rfl⟩
  · exact ⟨g, rest, hsuf.trans (List.suffix_cons _ below), rfl⟩

theorem Accounted.pop {f : DfsFrame} {below : List DfsFrame}
    (h : Accounted q D acc (f :: below))
    (hfull : FullyHandled q D acc (stackPath (f :: below))) : Accounted q D acc below := by
  intro ps hps
  rcases h ps hps with ⟨g, rest, hsuf, rfl⟩ | hdone
  · rcases List.suffix_cons_iff.mp hsuf with heq | hsuf
    · obtain ⟨rfl, rfl⟩ := List.cons.inj heq
      exact Or.inr (Or.inr hfull)
    · exact Or.inl ⟨g, rest, hsuf, rfl⟩
  · exact Or.inr hdone

/-- A frame with no contact left has handled them all. -/
theorem StackLooked.fullyHandled {f : DfsFrame} {below : List DfsFrame}
    (h : StackLooked q D acc (f :: below))
    (hend : (nextContacts q f)[f.nextIdx]? = none) :
    FullyHandled q D acc (stackPath (f :: below)) := by
  intro nc hnc
  rw [walkEnd_stackPath] at hnc
  obtain ⟨i, hi⟩ := List.getElem?_of_mem hnc
  have hlt : i < (nextContacts q f).length := (List.getElem?_eq_some_iff.mp hi).1
  have hle : (nextContacts q f).length ≤ f.nextIdx := List.getElem?_eq_none_iff.mp hend
  exact h f below List.suffix_rfl i nc (lt_of_lt_of_le hlt hle) hi

end

/-! ## Short walks -/

/-- **Each node of a walk on the stack but the first has a slot, so there are at most
    nine.** -/
theorem stack_short {q : CgrCall} {st : SearchState} (hok : SearchOk q st)
    (htable : TableOk q st.frontiers) (hfs : FrontiersOk st.frontiers)
    (hslots : ∀ v ∈ (receivers (stackPath st.stack)).tail, (slotOf st.frontiers v).isSome = true) :
    st.stack.length ≤ frontierMax + 1 := by
  cases hst : st.stack with
  | nil => exact Nat.zero_le _
  | cons f below =>
    have hstack := hok.stack
    rw [hst] at hstack hslots
    have hnodup : (receivers (stackPath (f :: below))).tail.Nodup :=
      (List.nodup_cons.mp hstack.1.fresh).2
    have hsub : (receivers (stackPath (f :: below))).tail.toFinset
        ⊆ (st.frontiers.map Frontier.node).toFinset := by
      intro v hv
      have hsome := hslots v (List.mem_toFinset.mp hv)
      obtain ⟨fr, hfr⟩ := Option.isSome_iff_exists.mp hsome
      have hnode : fr.node = v := by simpa using List.find?_some hfr
      exact List.mem_toFinset.mpr
        (List.mem_map.mpr ⟨fr, List.mem_of_find?_eq_some hfr, hnode⟩)
    have hcard := Finset.card_le_card hsub
    rw [List.toFinset_card_of_nodup hnodup, List.toFinset_card_of_nodup htable.nodup,
      List.length_map, List.length_tail, receivers_length, stackPath_length] at hcard
    have := hfs.table
    omega

/-- A stored node has its slot. -/
theorem FrontierStep.slot_self {fs fs' : List Frontier} {v : NodeId} {s : ParetoSig}
    (h : FrontierStep fs v s fs') (hslot : frontierSigs fs v ≠ none) :
    (slotOf fs' v).isSome = true := by
  obtain ⟨sigs, hsigs⟩ := Option.ne_none_iff_exists'.mp hslot
  rw [(h.of_slot hsigs).2.2, slotOf_store, if_pos rfl]
  rfl

/-- No slot is ever given up. -/
theorem FrontierStep.slot_mono {fs fs' : List Frontier} {v w : NodeId} {s : ParetoSig}
    (h : FrontierStep fs v s fs') (hw : (slotOf fs w).isSome = true) :
    (slotOf fs' w).isSome = true := by
  cases h with
  | noSlot _ => exact hw
  | store sigs _ _ _ =>
    rw [slotOf_store]
    split
    · rfl
    · exact hw

/-- Where the signatures of the table after a step come from. -/
theorem FrontierStep.mem_sigs {fs fs' : List Frontier} {v : NodeId} {s : ParetoSig}
    (h : FrontierStep fs v s fs') {fr : Frontier} (hfr : fr ∈ fs') {x : ParetoSig}
    (hx : x ∈ fr.sigs) : (∃ fr' ∈ fs, fr'.node = fr.node ∧ x ∈ fr'.sigs) ∨
      (fr.node = v ∧ x = s) := by
  cases h with
  | noSlot _ => exact Or.inl ⟨fr, hfr, rfl, hx⟩
  | store sigs hsigs _ _ =>
    rcases mem_frontierStore hfr with hold | rfl
    · exact Or.inl ⟨fr, hold, rfl, hx⟩
    · rcases mem_insertMin.mp hx with ⟨hx, _⟩ | rfl
      · rcases frontierSigs_cases hsigs with ⟨fr', hmem, hnode, rfl⟩ | ⟨rfl, _⟩
        · exact Or.inl ⟨fr', hmem, hnode, hx⟩
        · cases hx
      · exact Or.inr ⟨rfl, rfl⟩

end DtnHardware
