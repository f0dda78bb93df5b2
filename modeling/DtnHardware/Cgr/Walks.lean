import DtnHardware.Cgr.Step

/-!
# Walks through the contact plan

What the route search is *for*, stated without it: sequences of contacts that a bundle
can follow from a node, each hop passing the code's tests at the arrival time that the
hops before it produce. Everything is a recursion on the sequence, and everything has an
append law, because the search grows walks at the far end.

The last section is the first-in first-out law of such walks: a hop that a bundle can
take, it can take when it comes earlier, and then it arrives no later and finds no less
room. It fails for a negative rate only.
-/

set_option autoImplicit false

namespace DtnHardware

/-! ## Arrival, end node, feasibility -/

/-- `A_i`: the arrival time after the hops `cs`, starting at time `a`. -/
def arrivalAfter (q : CgrCall) : ℚ → List Contact → ℚ
  | a, [] => a
  | a, c :: cs => arrivalAfter q (hopArrival q c a) cs

/-- The node the hops `cs` lead to from `v`. -/
def endNode : NodeId → List Contact → NodeId
  | v, [] => v
  | _, c :: cs => endNode c.toNode cs

/-- Contacts of the plan, chained from `v`, each feasible when its turn comes. -/
def FeasibleFrom (q : CgrCall) : NodeId → ℚ → List Contact → Prop
  | _, _, [] => True
  | v, a, c :: cs =>
      c ∈ q.cp.contacts ∧ c.frm = v ∧ hopFeasible q c a = true ∧
        FeasibleFrom q c.toNode (hopArrival q c a) cs

instance decFeasibleFrom (q : CgrCall) :
    ∀ (cs : List Contact) (v : NodeId) (a : ℚ), Decidable (FeasibleFrom q v a cs)
  | [], _, _ => isTrue trivial
  | c :: cs, v, a =>
      have := decFeasibleFrom q cs c.toNode (hopArrival q c a)
      inferInstanceAs (Decidable (c ∈ q.cp.contacts ∧ c.frm = v ∧ hopFeasible q c a = true ∧
        FeasibleFrom q c.toNode (hopArrival q c a) cs))

@[simp] theorem arrivalAfter_nil (q : CgrCall) (a : ℚ) : arrivalAfter q a [] = a := rfl

@[simp] theorem arrivalAfter_cons (q : CgrCall) (a : ℚ) (c : Contact) (cs : List Contact) :
    arrivalAfter q a (c :: cs) = arrivalAfter q (hopArrival q c a) cs := rfl

@[simp] theorem endNode_nil (v : NodeId) : endNode v [] = v := rfl

@[simp] theorem endNode_cons (v : NodeId) (c : Contact) (cs : List Contact) :
    endNode v (c :: cs) = endNode c.toNode cs := rfl

@[simp] theorem feasibleFrom_nil (q : CgrCall) (v : NodeId) (a : ℚ) :
    FeasibleFrom q v a [] := trivial

@[simp] theorem feasibleFrom_cons {q : CgrCall} {v : NodeId} {a : ℚ} {c : Contact}
    {cs : List Contact} : FeasibleFrom q v a (c :: cs) ↔
      c ∈ q.cp.contacts ∧ c.frm = v ∧ hopFeasible q c a = true ∧
        FeasibleFrom q c.toNode (hopArrival q c a) cs := Iff.rfl

theorem arrivalAfter_append (q : CgrCall) : ∀ (cs ds : List Contact) (a : ℚ),
    arrivalAfter q a (cs ++ ds) = arrivalAfter q (arrivalAfter q a cs) ds := by
  intro cs
  induction cs with
  | nil => intro ds a; rfl
  | cons c cs ih => intro ds a; exact ih ds (hopArrival q c a)

theorem endNode_append : ∀ (cs ds : List Contact) (v : NodeId),
    endNode v (cs ++ ds) = endNode (endNode v cs) ds := by
  intro cs
  induction cs with
  | nil => intro ds v; rfl
  | cons c cs ih => intro ds v; exact ih ds c.toNode

theorem feasibleFrom_append {q : CgrCall} : ∀ {cs ds : List Contact} {v : NodeId} {a : ℚ},
    FeasibleFrom q v a (cs ++ ds) ↔
      FeasibleFrom q v a cs ∧ FeasibleFrom q (endNode v cs) (arrivalAfter q a cs) ds := by
  intro cs
  induction cs with
  | nil => intro ds v a; simp
  | cons c cs ih =>
    intro ds v a
    simp only [List.cons_append, feasibleFrom_cons, ih, endNode_cons, arrivalAfter_cons]
    tauto

/-- The end node of a nonempty walk is the receiver of its last hop. -/
theorem endNode_concat (v : NodeId) (cs : List Contact) (c : Contact) :
    endNode v (cs ++ [c]) = c.toNode := by
  rw [endNode_append]
  rfl

theorem feasibleFrom_concat {q : CgrCall} {v : NodeId} {a : ℚ} {cs : List Contact}
    {c : Contact} : FeasibleFrom q v a (cs ++ [c]) ↔
      FeasibleFrom q v a cs ∧ c ∈ q.cp.contacts ∧ c.frm = endNode v cs ∧
        hopFeasible q c (arrivalAfter q a cs) = true := by
  rw [feasibleFrom_append]
  simp

/-- A prefix of a feasible walk is feasible. -/
theorem FeasibleFrom.take {q : CgrCall} {v : NodeId} {a : ℚ} {cs : List Contact}
    (h : FeasibleFrom q v a cs) (n : Nat) : FeasibleFrom q v a (cs.take n) := by
  rw [← List.take_append_drop n cs] at h
  exact (feasibleFrom_append.mp h).1

/-- Reading a feasible walk at one index: the hop is in the plan, leaves where the hops
    before it lead, and is feasible at their arrival time. -/
theorem FeasibleFrom.at_index {q : CgrCall} {v : NodeId} {a : ℚ} {cs : List Contact}
    (h : FeasibleFrom q v a cs) {i : Nat} {c : Contact} (hi : cs[i]? = some c) :
    c ∈ q.cp.contacts ∧ c.frm = endNode v (cs.take i) ∧
      hopFeasible q c (arrivalAfter q a (cs.take i)) = true := by
  obtain ⟨hlt, hc⟩ := List.getElem?_eq_some_iff.mp hi
  have hsplit : cs = cs.take i ++ c :: cs.drop (i + 1) := by
    rw [← hc, List.getElem_cons_drop, List.take_append_drop]
  rw [hsplit] at h
  have hsuffix := (feasibleFrom_append.mp h).2
  exact ⟨hsuffix.1, hsuffix.2.1, hsuffix.2.2.1⟩

/-- The node before a hop is the receiver of the hop before it. -/
theorem endNode_take_succ {v : NodeId} {cs : List Contact} {i : Nat} {c : Contact}
    (hi : cs[i]? = some c) : endNode v (cs.take (i + 1)) = c.toNode := by
  rw [List.take_add_one, hi]
  exact endNode_concat v _ c

/-! ## Confidence and margin along a walk -/

theorem pathConf_nil : pathConf [] = 1 := rfl

theorem pathConf_concat (cs : List Contact) (c : Contact) :
    pathConf (cs ++ [c]) = pathConf cs * c.conf := by
  simp [pathConf, List.foldl_append]

theorem foldl_marginStep_snd (q : CgrCall) : ∀ (cs : List Contact) (s : ℚ × ℚ),
    (cs.foldl (marginStep q) s).2 = arrivalAfter q s.2 cs := by
  intro cs
  induction cs with
  | nil => intro s; rfl
  | cons c cs ih => intro s; exact ih (marginStep q s c)

theorem pathMargin_concat (q : CgrCall) (cs : List Contact) (c : Contact) :
    pathMargin q (cs ++ [c]) = min (pathMargin q cs) (hopMargin q c (arrivalAfter q q.t cs)) := by
  unfold pathMargin
  rw [List.foldl_append]
  have hsnd := foldl_marginStep_snd q cs (10 ^ 30, q.t)
  generalize cs.foldl (marginStep q) (10 ^ 30, q.t) = s at hsnd ⊢
  simp only [List.foldl_cons, List.foldl_nil, marginStep, hsnd]
  split
  · rename_i h; exact (min_eq_right h.le).symm
  · rename_i h; exact (min_eq_left (not_lt.mp h)).symm

/-- Every hop after a prefix can only lower the margin. -/
theorem pathMargin_append_le (q : CgrCall) (cs ds : List Contact) :
    pathMargin q (cs ++ ds) ≤ pathMargin q cs := by
  induction ds using List.reverseRecOn with
  | nil => rw [List.append_nil]
  | append_singleton ds d ih =>
    rw [← List.append_assoc, pathMargin_concat]
    exact (min_le_left _ _).trans ih

/-! ## First in, first out -/

theorem hopArrival_mono (q : CgrCall) (c : Contact) {a a' : ℚ} (h : a' ≤ a) :
    hopArrival q c a' ≤ hopArrival q c a :=
  contactArrivalAtReceiver_mono c _ (contactEarliestStart_mono c h)

theorem le_hopArrival {q : CgrCall} {c : Contact} (ho : 0 ≤ c.owlt) (a : ℚ) :
    a ≤ hopArrival q c a := le_contactArrivalAtReceiver q.b.bytes_nonneg ho a

theorem hopMargin_antitone (q : CgrCall) {c : Contact} (hr : 0 ≤ c.rate) {a a' : ℚ}
    (h : a' ≤ a) : hopMargin q c a ≤ hopMargin q c a' := by
  unfold hopMargin
  have := contactCapUse_antitone hr (contactEarliestStart_mono c h)
  exact sub_le_sub_right this _

/-- The tests of `hopFits`, as the inequalities they are. -/
theorem hopFits_iff {q : CgrCall} {c : Contact} {a : ℚ} : hopFits q c a = true ↔
    hopStart c a < c.tEnd ∧ hopStart c a + contactTxDuration c q.b.bytes ≤ c.tEnd ∧
      (bundleTExp q.b).le (.fin (hopArrival q c a)) = false ∧
      q.b.bytes ≤ contactCapUse c (hopStart c a) ∧
      (q.cfg.berAware = true → cgrContactBerFeasible q.logf c q.b.bytes = true) := by
  unfold hopFits
  cases q.cfg.berAware <;> cases cgrContactBerFeasible q.logf c q.b.bytes <;>
    simp [not_le, and_assoc]

theorem contactOpen_iff {c : Contact} {a : ℚ} : contactOpen c a = true ↔
    c.status ≠ .down ∧ (contactIsActive c a || contactIsFuture c a) = true := by
  simp [contactOpen]

/-- **A hop that can be taken can be taken earlier.** -/
theorem hopFeasible_antitone {q : CgrCall} {c : Contact} (hr : 0 ≤ c.rate) {a a' : ℚ}
    (h : a' ≤ a) (hf : hopFeasible q c a = true) : hopFeasible q c a' = true := by
  simp only [hopFeasible, Bool.and_eq_true] at hf ⊢
  obtain ⟨hopen, hfits⟩ := hf
  obtain ⟨hdown, hact⟩ := contactOpen_iff.mp hopen
  obtain ⟨hend, hlast, hexp, hcap, hber⟩ := hopFits_iff.mp hfits
  have hstart : hopStart c a' ≤ hopStart c a := contactEarliestStart_mono c h
  refine ⟨contactOpen_iff.mpr ⟨hdown, active_or_future_antitone h hact⟩, hopFits_iff.mpr ?_⟩
  refine ⟨lt_of_le_of_lt hstart hend, ?_, ?_, hcap.trans (contactCapUse_antitone hr hstart), hber⟩
  · have : hopStart c a' + contactTxDuration c q.b.bytes
        ≤ hopStart c a + contactTxDuration c q.b.bytes := by gcongr
    exact this.trans hlast
  · exact Flt.le_fin_antitone hexp (hopArrival_mono q c h)

/-- Within any realistic window only a link with a rate is feasible: without one the
    transmission would take `1e30` seconds. -/
theorem rate_pos_of_feasible {q : CgrCall} {c : Contact} {a : ℚ}
    (hs : -(10 : ℚ) ^ 29 < c.tStart) (he : c.tEnd < 10 ^ 29)
    (hf : hopFeasible q c a = true) : 0 < c.rate := by
  simp only [hopFeasible, Bool.and_eq_true] at hf
  obtain ⟨_, hlast, _⟩ := hopFits_iff.mp hf.2
  by_contra hr
  rw [contactTxDuration, if_neg hr, noRateDuration] at hlast
  have hT := tStart_le_contactEarliestStart c a
  unfold hopStart at hlast
  have : (10 : ℚ) ^ 30 = 10 * 10 ^ 29 := by norm_num
  linarith [this, show (0 : ℚ) < 10 ^ 29 by positivity]

/-- Time only moves forward along a walk. -/
theorem le_arrivalAfter {q : CgrCall} : ∀ {cs : List Contact} (a : ℚ),
    (∀ c ∈ cs, 0 ≤ c.owlt) → a ≤ arrivalAfter q a cs := by
  intro cs
  induction cs with
  | nil => intro a _; exact le_refl a
  | cons c cs ih =>
    intro a ho
    exact (le_hopArrival (ho c List.mem_cons_self) a).trans
      (ih _ fun d hd => ho d (List.mem_cons_of_mem _ hd))

/-- Confidences at most one only lower the product. -/
theorem pathConf_append_le {cs ds : List Contact} (hc : ∀ c ∈ cs ++ ds, 0 < c.conf ∧ c.conf ≤ 1) :
    0 < pathConf (cs ++ ds) ∧ pathConf (cs ++ ds) ≤ pathConf cs := by
  induction ds using List.reverseRecOn with
  | nil =>
    rw [List.append_nil] at hc ⊢
    refine ⟨?_, le_refl _⟩
    induction cs using List.reverseRecOn with
    | nil => rw [pathConf_nil]; exact one_pos
    | append_singleton cs c ih =>
      rw [pathConf_concat]
      exact mul_pos (ih fun d hd => hc d (List.mem_append_left _ hd)) (hc c (by simp)).1
  | append_singleton ds d ih =>
    rw [← List.append_assoc] at hc ⊢
    obtain ⟨hpos, hle⟩ := ih fun c h => hc c (List.mem_append_left _ h)
    obtain ⟨hd0, hd1⟩ := hc d (by simp)
    rw [pathConf_concat]
    exact ⟨mul_pos hpos hd0, (mul_le_of_le_one_right hpos.le hd1).trans hle⟩

end DtnHardware
