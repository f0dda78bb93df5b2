import DtnHardware.Node.Sending

/-!
# Capacity accounting

A contact is charged for a bundle when the radio has taken the bundle, and never otherwise.
The test before that looks at the capacity left in the *rest* of the window, so the bound on
the total is a fact about the whole run: each send leaves the contact within what its window
could still carry, and that is within what the whole window can (`sendLog_notOverbooked`).

`SendLog` is a run together with the list of what was sent in it, and over which contact. The
list is not part of the node.
-/

set_option autoImplicit false

namespace DtnHardware

/-! ## What a call does to the plan -/

/-- The plan after a call. -/
inductive PlanStep (logf : ℚ → ℚ) (ns : NodeState) : NodeOp → ContactPlan → Prop
  | same (op : NodeOp)
      (silent : ∀ t fuel sent b q', op = .tick t fuel sent → ¬ Transmits logf ns t fuel sent b q') :
      PlanStep logf ns op ns.plan
  | charged (t : ℚ) (fuel : Nat) (sent : Int) (b : Bundle) (q' : NodeQueue)
      (first : ContactPtr) (frame : List UInt8)
      (hands : HandsOver logf ns t fuel b q' first frame) (sends : sent > 0) :
      PlanStep logf ns (.tick t fuel sent) (contactPlanConsume ns.plan first b.bytes)

theorem TickStep.plan {logf : ℚ → ℚ} {ns : NodeState} {t : ℚ} {fuel : Nat} {sent : Int}
    {res : TickResult} (h : TickStep logf ns t fuel sent res) :
    PlanStep logf ns (.tick t fuel sent) res.state.plan := by
  by_cases htx : ∃ b q', Transmits logf ns t fuel sent b q'
  · obtain ⟨b, q', hsends⟩ := htx
    obtain ⟨⟨first, frame, hands⟩, hsent⟩ := transmits_iff.mp hsends
    rw [h.eq_sentOver hands hsent]
    exact .charged t fuel sent b q' first frame hands hsent
  · have hplan : res.state.plan = ns.plan := by
      cases h with
      | idle | expired | putBack | txFailed => rfl
      | transmitted b q' first frame hands hsent =>
        exact absurd ⟨b, q', transmits_iff.mpr ⟨⟨first, frame, hands⟩, hsent⟩⟩ htx
    rw [hplan]
    apply PlanStep.same
    intro t' fuel' sent' b q' hop hsends
    cases hop
    exact htx ⟨b, q', hsends⟩

/-- **A plan changes only by being charged for what was sent.** -/
theorem nodeStep_plan {logf : ℚ → ℚ} {ns ns' : NodeState} {op : NodeOp}
    (h : nodeStep logf ns op = some ns') : PlanStep logf ns op ns'.plan := by
  have hsame (hplan : ns'.plan = ns.plan) (hop : ∀ t fuel sent, op ≠ .tick t fuel sent) :
      PlanStep logf ns op ns'.plan := by
    rw [hplan]
    exact .same op fun t fuel sent _ _ heq => absurd heq (hop t fuel sent)
  cases op with
  | generate dst cls msg t =>
    apply hsame _ (by simp)
    obtain ⟨_, heq⟩ := nodeGenerateBundle_frame ns dst cls msg t
    cases h
    rw [heq]
  | receive t frame rssi =>
    apply hsame _ (by simp)
    obtain ⟨rc, hres⟩ := eq_ok_of_toOption_map h
    obtain ⟨_, _, _, _, _, _, heq⟩ := (receiveStep_of_ok hres).frame
    dsimp only at heq
    rw [heq]
  | tick t fuel sent =>
    obtain ⟨res, hres, rfl⟩ := Option.map_eq_some_iff.mp h
    exact (nodeTick_cases hres).plan
  | sendTimeSync t sent =>
    apply hsame _ (by simp)
    obtain ⟨_, heq⟩ := nodeSendTimeSync_frame ns t sent
    cases h
    rw [heq]
  | handleTimeSync localT frame =>
    apply hsame _ (by simp)
    obtain ⟨rc, hres⟩ := eq_ok_of_toOption_map h
    obtain ⟨_, _, _, heq⟩ := nodeTryHandleTimeSync_frame hres
    dsimp only at heq
    rw [heq]

/-! ## Runs with their sends -/

/-- A run from `ns₀` to `ns`, with what the radio took on the way: the slot of the contact it
    was sent over, and the bundle. -/
inductive SendLog (logf : ℚ → ℚ) (ns₀ : NodeState) : NodeState → List (Nat × Bundle) → Prop
  | start : SendLog logf ns₀ ns₀ []
  | silent {ns ns' : NodeState} {log : List (Nat × Bundle)} (h : SendLog logf ns₀ ns log)
      (op : NodeOp) (result : nodeStep logf ns op = some ns')
      (silent : ∀ t fuel sent b q', op = .tick t fuel sent →
        ¬ Transmits logf ns t fuel sent b q') : SendLog logf ns₀ ns' log
  | sent {ns ns' : NodeState} {log : List (Nat × Bundle)} (h : SendLog logf ns₀ ns log)
      (t : ℚ) (fuel : Nat) (sent : Int) (b : Bundle) (q' : NodeQueue) (first : ContactPtr)
      (frame : List UInt8) (hands : HandsOver logf ns t fuel b q' first frame)
      (sends : sent > 0) (result : nodeStep logf ns (.tick t fuel sent) = some ns') :
      SendLog logf ns₀ ns' (log ++ [(first.slot, b)])

theorem SendLog.reachable {logf : ℚ → ℚ} {ns₀ ns : NodeState} {log : List (Nat × Bundle)}
    (h : SendLog logf ns₀ ns log) : NodeReachable logf ns₀ ns := by
  induction h with
  | start => exact .start
  | silent _ op hs _ ih => exact ih.call op trivial hs
  | sent _ t fuel sent _ _ _ _ _ _ hs ih => exact ih.call _ trivial hs

/-- Every run has its list. -/
theorem exists_sendLog {logf : ℚ → ℚ} {ns₀ ns : NodeState} (h : NodeReachable logf ns₀ ns) :
    ∃ log, SendLog logf ns₀ ns log := by
  refine h.invariant (P := fun ns => ∃ log, SendLog logf ns₀ ns log) ⟨[], .start⟩ ?_
  intro ns op ns' _ _ hs hlog
  obtain ⟨log, hlog⟩ := hlog
  have hplan := nodeStep_plan hs
  generalize ns'.plan = plan' at hplan
  cases hplan with
  | same _ hsilent => exact ⟨log, hlog.silent op hs hsilent⟩
  | charged t fuel sent b q' first frame hands hsent =>
    exact ⟨_, hlog.sent t fuel sent b q' first frame hands hsent hs⟩

theorem nodeStep_plan_of_silent {logf : ℚ → ℚ} {ns ns' : NodeState} {op : NodeOp}
    (h : nodeStep logf ns op = some ns')
    (hsilent : ∀ t fuel sent b q', op = .tick t fuel sent →
      ¬ Transmits logf ns t fuel sent b q') : ns'.plan = ns.plan := by
  have hplan := nodeStep_plan h
  generalize ns'.plan = plan' at hplan
  cases hplan with
  | same => rfl
  | charged t fuel sent b q' first frame hands hsent =>
    exact absurd (transmits_iff.mpr ⟨⟨first, frame, hands⟩, hsent⟩) (hsilent t fuel sent b q' rfl)

theorem nodeStep_of_handsOver {logf : ℚ → ℚ} {ns ns' : NodeState} {t : ℚ} {fuel : Nat}
    {sent : Int} {b : Bundle} {q' : NodeQueue} {first : ContactPtr} {frame : List UInt8}
    (h : nodeStep logf ns (.tick t fuel sent) = some ns')
    (hands : HandsOver logf ns t fuel b q' first frame) (hsent : sent > 0) :
    ns' = ns.sentOver t b q' first := by
  obtain ⟨res, hres, rfl⟩ := Option.map_eq_some_iff.mp h
  rw [(nodeTick_cases hres).eq_sentOver hands hsent]

/-! ## The books -/

/-- The bytes sent over the contact in slot `i`. -/
def bytesSentOver (log : List (Nat × Bundle)) (i : Nat) : ℚ :=
  ((log.filter fun e => decide (e.1 = i)).map fun e => e.2.bytes).sum

theorem bytesSentOver_nonneg (log : List (Nat × Bundle)) (i : Nat) : 0 ≤ bytesSentOver log i := by
  apply List.sum_nonneg
  intro x hx
  obtain ⟨e, _, rfl⟩ := List.mem_map.mp hx
  exact e.2.bytes_nonneg

theorem bytesSentOver_append (log : List (Nat × Bundle)) (i j : Nat) (b : Bundle) :
    bytesSentOver (log ++ [(j, b)]) i = bytesSentOver log i + if j = i then b.bytes else 0 := by
  unfold bytesSentOver
  by_cases hji : j = i
  · simp [hji]
  · simp [hji]

/-- A contact within its window's capacity has a rate, and stays within it when it takes what
    its remaining window can carry. -/
theorem Carries.le_contactCapacity {ns : NodeState} {t : ℚ} {b : Bundle} {i : Nat} {c : Contact}
    (h : Carries ns t b i c) (hused : 0 ≤ c.bytesUsed) (hreserved : c.reserved = 0) :
    c.bytesUsed + b.bytes ≤ contactCapacity c := by
  have hleft : ¬ c.tEnd - t < 0 := by
    have := h.notClosed
    linarith
  have hwindow : c.tEnd - c.tStart > 0 := by
    have := h.opened
    have := h.notClosed
    linarith
  have hcap := h.capacity
  unfold contactCapUse contactCapRem at hcap
  rw [hreserved] at hcap
  simp only [if_neg hleft, sub_zero] at hcap
  -- a negative rate has no capacity for anything
  have hrate : 0 ≤ c.rate := by
    by_contra hneg
    have htime : 0 < c.tEnd - t := by
      have := h.notClosed
      linarith
    have := mul_neg_of_neg_of_pos (not_le.mp hneg) htime
    have := b.bytes_nonneg
    linarith
  have hmore : c.rate * (c.tEnd - t) ≤ c.rate * (c.tEnd - c.tStart) := by
    apply mul_le_mul_of_nonneg_left _ hrate
    have := h.opened
    linarith
  unfold contactCapacity contactDuration
  simp only [if_pos hwindow]
  linarith

/-- The plan against the loaded one: every contact is as it was loaded but for the bytes it is
    charged, which are those sent over it and no more than its window can carry. -/
structure BooksBalance (plan : ContactPlan) (log : List (Nat × Bundle)) (cp : ContactPlan) :
    Prop where
  length_eq : cp.contacts.length = plan.contacts.length
  charged : ∀ (i : Nat) (c : Contact), plan.contacts[i]? = some c →
    cp.contacts[i]? = some { c with bytesUsed := bytesSentOver log i }
  within : ∀ (i : Nat) (c : Contact), plan.contacts[i]? = some c →
    bytesSentOver log i = 0 ∨ bytesSentOver log i ≤ contactCapacity c

section
variable {logf : ℚ → ℚ} {self : NodeId} {bufCap : ℚ} {policy : Option String}
  {plan : ContactPlan} {ns ns' : NodeState} {log : List (Nat × Bundle)}

theorem booksBalance_start (hplan : ∀ c ∈ plan.contacts, c.bytesUsed = 0 ∧ c.reserved = 0) :
    BooksBalance plan [] plan := by
  refine ⟨rfl, fun i c hc => ?_, fun i c _ => Or.inl rfl⟩
  have hzero : bytesSentOver [] i = c.bytesUsed := (hplan c (List.mem_of_getElem? hc)).1.symm
  rw [hzero]
  exact hc

/-- One send: its contact is charged, the others are not. -/
theorem BooksBalance.charge (hplan : ∀ c ∈ plan.contacts, c.bytesUsed = 0 ∧ c.reserved = 0)
    (h : BooksBalance plan log ns.plan) {t : ℚ} {b : Bundle} {first : ContactPtr}
    (hcarries : Carries ns t b first.slot first.contact) :
    BooksBalance plan (log ++ [(first.slot, b)]) (contactPlanConsume ns.plan first b.bytes) := by
  have hlen : first.slot < ns.plan.contacts.length :=
    (List.getElem?_eq_some_iff.mp hcarries.slot).1
  -- the contact that is charged, as it was loaded
  have hcharged : ∀ c : Contact, plan.contacts[first.slot]? = some c →
      first.contact = { c with bytesUsed := bytesSentOver log first.slot } ∧ c.reserved = 0 := by
    intro c hc
    have hslot := hcarries.slot
    rw [h.charged first.slot c hc, Option.some.injEq] at hslot
    exact ⟨hslot.symm, (hplan c (List.mem_of_getElem? hc)).2⟩
  refine ⟨?_, fun i c hc => ?_, fun i c hc => ?_⟩
  · rw [contactPlanConsume, List.length_set, h.length_eq]
  · rw [contactPlanConsume, bytesSentOver_append]
    by_cases hi : first.slot = i
    · obtain rfl := hi
      obtain ⟨hcontact, hreserved⟩ := hcharged c hc
      have hless : ¬ (0 : ℚ) > b.bytes := not_lt.mpr b.bytes_nonneg
      rw [List.getElem?_set_self hlen, hcontact, contactConsume, if_pos rfl]
      simp [hreserved, hless]
    · rw [List.getElem?_set_ne hi, if_neg hi, add_zero]
      exact h.charged i c hc
  · rw [bytesSentOver_append]
    by_cases hi : first.slot = i
    · obtain rfl := hi
      obtain ⟨hcontact, hreserved⟩ := hcharged c hc
      right
      rw [if_pos rfl]
      rw [hcontact] at hcarries
      exact hcarries.le_contactCapacity (bytesSentOver_nonneg log _) hreserved
    · rw [if_neg hi, add_zero]
      exact h.within i c hc

/-- **No contact is overbooked**: what a contact has been charged is what was sent over it, it
    is no more than its window can carry, and nothing else about it changes. -/
theorem sendLog_notOverbooked (hplan : ∀ c ∈ plan.contacts, c.bytesUsed = 0 ∧ c.reserved = 0)
    (h : SendLog logf (nodeStart self bufCap policy plan) ns log) :
    BooksBalance plan log ns.plan := by
  induction h with
  | start => exact booksBalance_start hplan
  | silent _ op hs hsilent ih =>
    rw [nodeStep_plan_of_silent hs hsilent]
    exact ih
  | sent hlog t fuel sent b q' first frame hands hsent hs ih =>
    -- the contact is checked against what it has been charged so far
    rw [nodeStep_of_handsOver hs hands hsent]
    exact ih.charge hplan (hands.carries hlog.reachable)

end

/-- The relay takes the test frame and sends it on: 45 bytes over its only contact. -/
theorem sendLog_notOverbooked_testRelay : ∃ ns,
    SendLog testLog testRelay ns [(0, testRelay.adopt testReceived)] ∧
      BooksBalance testRelay.plan [(0, testRelay.adopt testReceived)] ns.plan := by
  obtain ⟨ns, frame, hns, _, hands⟩ := testRelay_handsOver
  obtain ⟨res, hres, _⟩ := hands.sends (show (1 : Int) > 0 by decide)
  have hreceived : SendLog testLog testRelay ns [] := by
    apply SendLog.start.silent (.receive 0 testFrame 0) hns
    intro t fuel sent b q' hop
    cases hop
  have hlog : SendLog testLog testRelay res.state [(0, testRelay.adopt testReceived)] :=
    hreceived.sent 1 10 1 _ _ _ frame hands (by decide) (by rw [nodeStep, hres]; rfl)
  exact ⟨res.state, hlog, sendLog_notOverbooked (by decide) hlog⟩

end DtnHardware
