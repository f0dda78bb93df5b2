import DtnHardware.Cgr.Invariant

/-!
# The frontier table

Eight slots, each with the signatures that survived at one node. Three facts about it
carry the rest of the development:

* it *remembers* — a signature that some stored one covers stays covered
  (`FrontierStep.coveredAt_mono`), and a stored one is covered (`coveredAt_self`);
* it *refuses* — a node that finds the table full never gets a slot (`noSlot_stays`);
* its slots belong to distinct receivers of the plan (`TableOk`).
-/

set_option autoImplicit false

namespace DtnHardware

open StepMachine Dominance ArrayLoops

/-! ## Storing -/

theorem mem_frontierStore {fs : List Frontier} {v : NodeId} {sigs : List ParetoSig}
    {fr : Frontier} (h : fr ∈ frontierStore fs v sigs) : fr ∈ fs ∨ fr = ⟨v, sigs⟩ := by
  induction fs with
  | nil => exact Or.inr (List.mem_singleton.mp h)
  | cons x rest ih =>
    unfold frontierStore at h
    split at h
    · rcases List.mem_cons.mp h with rfl | h
      · exact Or.inr rfl
      · exact Or.inl (List.mem_cons_of_mem _ h)
    · rcases List.mem_cons.mp h with rfl | h
      · exact Or.inl List.mem_cons_self
      · exact (ih h).imp (List.mem_cons_of_mem _) id

/-- Storing at a node that has a slot keeps the table's size; otherwise it takes one more. -/
theorem length_frontierStore {fs : List Frontier} {v : NodeId} {sigs : List ParetoSig} :
    (frontierStore fs v sigs).length
      = fs.length + if (fs.find? fun fr => decide (fr.node = v)).isSome then 0 else 1 := by
  induction fs with
  | nil => rfl
  | cons x rest ih =>
    unfold frontierStore
    by_cases hx : x.node = v
    · simp [hx]
    · rw [if_neg hx, List.length_cons, ih, List.find?_cons_of_neg (by simpa using hx),
        List.length_cons]
      omega

/-- A slot that was read holds what the table stores. -/
theorem frontierSigs_cases {fs : List Frontier} {v : NodeId} {sigs : List ParetoSig}
    (h : frontierSigs fs v = some sigs) :
    (∃ fr ∈ fs, fr.node = v ∧ fr.sigs = sigs) ∨ (sigs = [] ∧ fs.length < frontierMax) := by
  unfold frontierSigs at h
  cases hf : fs.find? fun fr => decide (fr.node = v) with
  | some fr =>
    rw [hf] at h
    refine Or.inl ⟨fr, List.mem_of_find?_eq_some hf, ?_, Option.some.inj h⟩
    simpa using List.find?_some hf
  | none =>
    rw [hf] at h
    dsimp only at h
    split at h
    · rename_i hlt
      exact Or.inr ⟨(Option.some.inj h).symm, hlt⟩
    · cases h

/-- With a slot, the table took the signature because it was fresh and there was room. -/
theorem FrontierStep.of_slot {fs fs' : List Frontier} {v : NodeId} {s : ParetoSig}
    {sigs : List ParetoSig} (h : FrontierStep fs v s fs') (hs : frontierSigs fs v = some sigs) :
    ¬ Covers sigs s ∧ (insertMin s sigs).length ≤ maxParetoPerNode ∧
      fs' = frontierStore fs v (insertMin s sigs) := by
  cases h with
  | noSlot hnone => rw [hs] at hnone; cases hnone
  | store sigs' hsigs' hfresh hroom =>
    rw [hs] at hsigs'
    cases hsigs'
    exact ⟨hfresh, hroom, rfl⟩

/-! ## The frontier table remembers -/

/-- The slot of `v`. -/
def slotOf (fs : List Frontier) (v : NodeId) : Option Frontier :=
  fs.find? fun fr => decide (fr.node = v)

/-- Some signature stored for `v` is at least as good as `s`. -/
def coveredAt (fs : List Frontier) (v : NodeId) (s : ParetoSig) : Bool :=
  match slotOf fs v with
  | some fr => fr.sigs.any fun x => decide (x ≤ s)
  | none => false

theorem slotOf_store (fs : List Frontier) (v w : NodeId) (sigs : List ParetoSig) :
    slotOf (frontierStore fs v sigs) w = if w = v then some ⟨v, sigs⟩ else slotOf fs w := by
  induction fs with
  | nil =>
    by_cases hwv : w = v
    · simp [frontierStore, slotOf, hwv]
    · simp [frontierStore, slotOf, hwv, Ne.symm hwv]
  | cons fr rest ih =>
    rw [frontierStore]
    unfold slotOf at ih ⊢
    by_cases hfr : fr.node = v
    · by_cases hwv : w = v
      · simp [hfr, hwv]
      · simp [hfr, hwv, Ne.symm hwv]
    · rw [if_neg hfr]
      by_cases hfw : fr.node = w
      · have hwv : w ≠ v := hfw ▸ hfr
        simp [hfw, hwv]
      · rw [List.find?_cons_of_neg (by simpa using hfw), ih,
          List.find?_cons_of_neg (by simpa using hfw)]

theorem frontierSigs_eq (fs : List Frontier) (v : NodeId) :
    frontierSigs fs v = match slotOf fs v with
      | some fr => some fr.sigs
      | none => if fs.length < frontierMax then some [] else none := rfl

theorem coveredAt_iff {fs : List Frontier} {v : NodeId} {s : ParetoSig} :
    coveredAt fs v s = true ↔ ∃ sigs, frontierSigs fs v = some sigs ∧ Covers sigs s := by
  unfold coveredAt
  rw [frontierSigs_eq]
  cases slotOf fs v with
  | some fr => simp [← any_le_iff_covers]
  | none =>
    dsimp only
    split <;> simp [Covers]

/-- **What is covered stays covered.** -/
theorem FrontierStep.coveredAt_mono {fs fs' : List Frontier} {v w : NodeId}
    {s x : ParetoSig} (h : FrontierStep fs v s fs') (hc : coveredAt fs w x = true) :
    coveredAt fs' w x = true := by
  cases h with
  | noSlot _ => exact hc
  | store sigs hsigs _ _ =>
    obtain ⟨sigs', hsigs', hcov⟩ := coveredAt_iff.mp hc
    by_cases hwv : w = v
    · subst hwv
      rw [hsigs] at hsigs'
      cases hsigs'
      rw [coveredAt_iff]
      refine ⟨_, ?_, hcov.insertMin s⟩
      rw [frontierSigs_eq, slotOf_store, if_pos rfl]
    · unfold coveredAt at hc ⊢
      rw [slotOf_store, if_neg hwv]
      exact hc

/-- A stored signature is covered. -/
theorem FrontierStep.coveredAt_self {fs fs' : List Frontier} {v : NodeId} {s : ParetoSig}
    (h : FrontierStep fs v s fs') (hslot : frontierSigs fs v ≠ none) :
    coveredAt fs' v s = true := by
  cases h with
  | noSlot hnone => exact absurd hnone hslot
  | store sigs hsigs _ _ =>
    rw [coveredAt_iff]
    refine ⟨_, ?_, covers_insertMin_self s sigs⟩
    rw [frontierSigs_eq, slotOf_store, if_pos rfl]

/-- A node without a slot in a full table never gets one. -/
theorem FrontierStep.noSlot_stays {fs fs' : List Frontier} {v w : NodeId} {s : ParetoSig}
    (h : FrontierStep fs v s fs') (hw : frontierSigs fs w = none) :
    frontierSigs fs' w = none := by
  cases h with
  | noSlot _ => exact hw
  | store sigs hsigs _ _ =>
    rw [frontierSigs_eq] at hw hsigs ⊢
    have hfull : slotOf fs w = none ∧ ¬ fs.length < frontierMax := by
      cases hslot : slotOf fs w with
      | some fr => rw [hslot] at hw; cases hw
      | none =>
        rw [hslot] at hw
        dsimp only at hw
        split at hw
        · cases hw
        · rename_i hfull
          exact ⟨rfl, hfull⟩
    have hv : (slotOf fs v).isSome = true := by
      cases hslot : slotOf fs v with
      | some fr => rfl
      | none =>
        rw [hslot] at hsigs
        dsimp only at hsigs
        rw [if_neg hfull.2] at hsigs
        cases hsigs
    have hwv : w ≠ v := by
      rintro rfl
      rw [hfull.1] at hv
      cases hv
    have hlen : (frontierStore fs v (insertMin s sigs)).length = fs.length := by
      rw [length_frontierStore]
      unfold slotOf at hv
      rw [hv]
      rfl
    rw [slotOf_store, if_neg hwv, hfull.1, hlen]
    exact if_neg hfull.2

/-! ## Which nodes have a slot -/

/-- The nodes the table may have to hold. -/
def tableNodes (q : CgrCall) : Finset NodeId :=
  (q.cp.contacts.map Contact.toNode).toFinset.erase q.b.curr

/-- Each slot belongs to one of those nodes, no two to the same. -/
structure TableOk (q : CgrCall) (fs : List Frontier) : Prop where
  nodup : (fs.map Frontier.node).Nodup
  nodes : ∀ fr ∈ fs, fr.node ∈ tableNodes q

theorem slotOf_eq_none {fs : List Frontier} {v : NodeId} (h : slotOf fs v = none) :
    v ∉ fs.map Frontier.node := by
  intro hmem
  obtain ⟨fr, hfr, rfl⟩ := List.mem_map.mp hmem
  have := List.find?_eq_none.mp h fr hfr
  simp at this

theorem map_node_frontierStore {fs : List Frontier} {v : NodeId} {sigs : List ParetoSig} :
    (frontierStore fs v sigs).map Frontier.node
      = if v ∈ fs.map Frontier.node then fs.map Frontier.node
        else fs.map Frontier.node ++ [v] := by
  induction fs with
  | nil => rfl
  | cons fr rest ih =>
    unfold frontierStore
    by_cases hfr : fr.node = v
    · simp [hfr]
    · rw [if_neg hfr, List.map_cons, ih, List.map_cons]
      have hne : v ≠ fr.node := Ne.symm hfr
      by_cases hmem : v ∈ rest.map Frontier.node
      · rw [if_pos hmem, if_pos (List.mem_cons_of_mem _ hmem)]
      · rw [if_neg hmem, if_neg (by rw [List.mem_cons]; tauto), List.cons_append]

theorem TableOk.step {q : CgrCall} {fs fs' : List Frontier} {v : NodeId} {s : ParetoSig}
    (h : TableOk q fs) (hs : FrontierStep fs v s fs') (hv : v ∈ tableNodes q) :
    TableOk q fs' := by
  cases hs with
  | noSlot _ => exact h
  | store sigs _ _ _ =>
    refine ⟨?_, fun fr hfr => ?_⟩
    · rw [map_node_frontierStore]
      split
      · exact h.nodup
      · rename_i hmem
        exact h.nodup.append (List.nodup_singleton v) (List.disjoint_singleton.mpr hmem)
    · rcases mem_frontierStore hfr with hold | rfl
      · exact h.nodes fr hold
      · exact hv

/-- A contact that passes leads to such a node. -/
theorem SearchOk.mem_tableNodes {q : CgrCall} {st : SearchState} {f : DfsFrame}
    {below : List DfsFrame} {nc : ContactPtr} (h : SearchOk q st)
    (hex : Examines q st f below nc) (hp : Passes q f nc) :
    nc.contact.toNode ∈ tableNodes q := by
  have hstack := h.stack
  rw [hex.stack_eq] at hstack
  have hfresh := hp.fresh
  rw [hstack.2.1.visited_eq] at hfresh
  have hmem : nc.contact ∈ q.cp.contacts := (mem_nextContacts hex.next_eq).1.mem
  unfold tableNodes
  rw [Finset.mem_erase, List.mem_toFinset]
  exact ⟨fun heq => hfresh (heq ▸ List.mem_cons_self), List.mem_map_of_mem hmem⟩

theorem SearchStep.tableOk {q : CgrCall} {st st' : SearchState} {o : Option CgrRoute}
    (hs : SearchStep q st o st') (hok : SearchOk q st) (h : TableOk q st.frontiers) :
    TableOk q st'.frontiers := by
  cases hs with
  | seedSkip _ _ _ _ | seedDirect _ _ _ _ _ | seedPush _ _ _ _ _ | popLimit _ _ _ _
  | popEnd _ _ _ _ _ | skip _ _ _ _ _ => exact h
  | offer f below nc hex hp fs' hfs _ | full f below nc hex hp fs' hfs _ _
  | push f below nc hex hp fs' hfs _ _ => exact h.step hfs (hok.mem_tableNodes hex hp)

theorem tableOk_reaches {q : CgrCall} {st : CgrState}
    (h : (cgrMachine q).Reaches (cgrStart q) st) : TableOk q st.search.frontiers := by
  have hstart : TableOk q (cgrStart q).search.frontiers :=
    ⟨List.nodup_nil, fun _ hfr => absurd hfr List.not_mem_nil⟩
  apply h.induct (P := fun s => TableOk q s.search.frontiers) hstart
  intro st st' hreach hok hs
  obtain ⟨o, hstep, _⟩ := cgrStep_cases hs
  exact hstep.tableOk (cgrOk_reaches hreach).search hok

end DtnHardware
