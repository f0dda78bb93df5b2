import DtnHardware.Node.Forwarding

/-!
# What a tick can come to

`node_tick` sweeps the custody table, takes the highest-ranked bundle out of the queue, and
then does one of four things with it: drops it, puts it back untried, hands it to the radio
and puts it back, or hands it to the radio and lets it go. `TickStep` lists these endings
with the node each of them leaves, and `nodeTick_cases` says that a tick that returns ends
in one of them. A tick returns unless the route search for the bundle does not
(`nodeTick_returns`).
-/

set_option autoImplicit false

namespace DtnHardware

/-! ## The endings -/

/-- The node once the tick has swept its custody table and taken a bundle out, leaving the
    queue `q'`. -/
def NodeState.popped (ns : NodeState) (t : ℚ) (q' : NodeQueue) : NodeState :=
  { ns.sweep t with queue := q' }

/-- The node once the radio has taken `b` for the contact `first`. -/
def NodeState.sentOver (ns : NodeState) (t : ℚ) (b : Bundle) (q' : NodeQueue)
    (first : ContactPtr) : NodeState :=
  ({ ns.popped t q' with
    plan := contactPlanConsume ns.plan first b.bytes
    bundlesTx := ns.bundlesTx + 1 } : NodeState).emit (.fin t) .bundleTxStart b.bundleId
      "next_hop=%u via_contact=%u->%u"
      [.u first.contact.toNode.toNat, .u first.contact.frm.toNat,
        .u first.contact.toNode.toNat]

/-- The route search for `b` has returned, with no route or with a route's first hop. -/
def SearchReturns (logf : ℚ → ℚ) (ns : NodeState) (t : ℚ) (fuel : Nat) (b : Bundle) : Prop :=
  cgrSelectRoute (ns.cgrCall logf b t) fuel = .noRoute ∨
    ∃ r first, cgrSelectRoute (ns.cgrCall logf b t) fuel = .route r ∧ r.hops[0]? = some first

/-- The tick pops `b`, leaves the queue `q'`, and hands `frame` to `lora_send` for the
    contact `first`. -/
structure HandsOver (logf : ℚ → ℚ) (ns : NodeState) (t : ℚ) (fuel : Nat) (b : Bundle)
    (q' : NodeQueue) (first : ContactPtr) (frame : List UInt8) : Prop where
  pop : queuePopNext ns.queue t = some (b, q')
  alive : bundleIsAlive b t = true
  routed : ∃ r, cgrSelectRoute (ns.cgrCall logf b t) fuel = .route r ∧ r.hops[0]? = some first
  feasible : contactIsFeasibleFor first.contact b.bytes t = true
  framed : bundleSerialize b txFrameCap = some frame

/-- The endings of a tick. -/
inductive TickStep (logf : ℚ → ℚ) (ns : NodeState) (t : ℚ) (fuel : Nat) (sent : Int) :
    TickResult → Prop
  | idle (pop : queuePopNext ns.queue t = none) :
      TickStep logf ns t fuel sent ⟨0, ns.sweep t, none⟩
  | expired (b : Bundle) (q' : NodeQueue) (pop : queuePopNext ns.queue t = some (b, q'))
      (dead : bundleIsAlive b t = false) :
      TickStep logf ns t fuel sent
        ⟨0, { (ns.popped t q').emit (.fin t) .bundleExpired b.bundleId "ttl_exceeded" [] with
          custody := custodyRelease (ns.sweep t).custody b.bundleId }, none⟩
  | putBack (b : Bundle) (q' : NodeQueue) (pop : queuePopNext ns.queue t = some (b, q'))
      (alive : bundleIsAlive b t = true) (returns : SearchReturns logf ns t fuel b)
      (keeps : ∀ first frame, ¬ HandsOver logf ns t fuel b q' first frame) :
      TickStep logf ns t fuel sent ⟨0, (ns.popped t q').requeue b, none⟩
  | txFailed (b : Bundle) (q' : NodeQueue) (first : ContactPtr) (frame : List UInt8)
      (hands : HandsOver logf ns t fuel b q' first frame) (fails : ¬ sent > 0) :
      TickStep logf ns t fuel sent
        ⟨0, ((ns.popped t q').requeue b).emit (.fin t) .bundleDropped b.bundleId
          "tx_failed" [], some frame⟩
  | transmitted (b : Bundle) (q' : NodeQueue) (first : ContactPtr) (frame : List UInt8)
      (hands : HandsOver logf ns t fuel b q' first frame) (sends : sent > 0) :
      TickStep logf ns t fuel sent
        ⟨0, ns.sentOver t b q' first, some frame⟩

/-! ## There are no others -/

section
variable {logf : ℚ → ℚ} {ns : NodeState} {t : ℚ} {fuel : Nat} {sent : Int} {b : Bundle}
  {q' : NodeQueue}

/-- The search sees the plan and the clock, not the queue or the custody table. -/
theorem cgrCall_popped (logf : ℚ → ℚ) (ns : NodeState) (t : ℚ) (b : Bundle) (q' : NodeQueue) :
    ({ ns.sweep t with queue := q' } : NodeState).cgrCall logf b t = ns.cgrCall logf b t := rfl

/-- A tick that returns after popping a live bundle. -/
theorem nodeTick_alive {res : TickResult} (hpop : queuePopNext ns.queue t = some (b, q'))
    (halive : bundleIsAlive b t = true)
    (h : trySendOne logf (ns.sweep t) t fuel sent = some res) :
    TickStep logf ns t fuel sent { res with ret := 0 } := by
  have hqueue : (ns.sweep t).queue = ns.queue := rfl
  unfold trySendOne at h
  rw [hqueue, hpop] at h
  dsimp only at h
  rw [halive, if_neg (by decide), cgrCall_popped] at h
  cases hroute : cgrSelectRoute (ns.cgrCall logf b t) fuel with
  | running | fault _ =>
    -- the search has not come back, and neither has the tick
    rw [hroute] at h
    cases h
  | noRoute =>
    rw [hroute] at h
    cases h
    apply TickStep.putBack b q' hpop halive (Or.inl hroute)
    intro first frame hands
    obtain ⟨r, hr, _⟩ := hands.routed
    rw [hroute] at hr
    cases hr
  | route r =>
    rw [hroute] at h
    dsimp only at h
    cases hfirst : r.hops[0]? with
    | none =>
      rw [hfirst] at h
      cases h
    | some first =>
      have hreturns : SearchReturns logf ns t fuel b := Or.inr ⟨r, first, hroute, hfirst⟩
      rw [hfirst] at h
      dsimp only at h
      cases hfeas : contactIsFeasibleFor first.contact b.bytes t with
      | false =>
        rw [hfeas] at h
        cases h
        apply TickStep.putBack b q' hpop halive hreturns
        -- only the first hop of that route could carry it
        intro first' frame hands
        obtain ⟨r', hr, hf⟩ := hands.routed
        rw [hroute] at hr
        cases hr
        rw [hfirst] at hf
        cases hf
        rw [hands.feasible] at hfeas
        cases hfeas
      | true =>
        rw [hfeas, if_neg (by decide)] at h
        cases hframe : bundleSerialize b txFrameCap with
        | none =>
          rw [hframe] at h
          cases h
          apply TickStep.putBack b q' hpop halive hreturns
          intro first' frame hands
          rw [hands.framed] at hframe
          cases hframe
        | some frame =>
          have hands : HandsOver logf ns t fuel b q' first frame :=
            ⟨hpop, halive, ⟨r, hroute, hfirst⟩, hfeas, hframe⟩
          rw [hframe] at h
          dsimp only at h
          by_cases hsent : sent > 0
          · rw [if_pos hsent] at h
            cases h
            exact .transmitted b q' first frame hands hsent
          · rw [if_neg hsent] at h
            cases h
            exact .txFailed b q' first frame hands hsent

/-- **A tick that returns ends in one of the listed ways.** -/
theorem nodeTick_cases {res : TickResult} (h : nodeTick logf ns t fuel sent = some res) :
    TickStep logf ns t fuel sent res := by
  have hqueue : (ns.sweep t).queue = ns.queue := rfl
  obtain ⟨res, hres, rfl⟩ := Option.map_eq_some_iff.mp h
  cases hpop : queuePopNext ns.queue t with
  | none =>
    unfold trySendOne at hres
    rw [hqueue, hpop] at hres
    cases hres
    exact .idle hpop
  | some popped =>
    obtain ⟨b, q'⟩ := popped
    cases halive : bundleIsAlive b t with
    | false =>
      unfold trySendOne at hres
      rw [hqueue, hpop] at hres
      dsimp only at hres
      rw [halive] at hres
      cases hres
      exact .expired b q' hpop halive
    | true => exact nodeTick_alive hpop halive hres

/-- **A tick returns** unless there is a live bundle to route and the search for it does
    not. -/
theorem nodeTick_returns (sent : Int) (h : ∀ b q', queuePopNext ns.queue t = some (b, q') →
    bundleIsAlive b t = true → SearchReturns logf ns t fuel b) :
    ∃ res, nodeTick logf ns t fuel sent = some res := by
  have hqueue : (ns.sweep t).queue = ns.queue := rfl
  unfold nodeTick trySendOne
  rw [hqueue]
  cases hpop : queuePopNext ns.queue t with
  | none => exact ⟨_, rfl⟩
  | some popped =>
    obtain ⟨b, q'⟩ := popped
    dsimp only
    cases halive : bundleIsAlive b t with
    | false => exact ⟨_, rfl⟩
    | true =>
      rw [if_neg (by decide), cgrCall_popped]
      rcases h b q' hpop halive with hroute | ⟨r, first, hroute, hfirst⟩
      · rw [hroute]
        exact ⟨_, rfl⟩
      · rw [hroute]
        dsimp only
        rw [hfirst]
        dsimp only
        -- past the search every branch returns
        split
        · exact ⟨_, rfl⟩
        · split
          · exact ⟨_, rfl⟩
          · split
            · exact ⟨_, rfl⟩
            · exact ⟨_, rfl⟩

/-- One bundle is popped, and its route, its first hop and its frame are determined. -/
theorem HandsOver.unique {b₂ : Bundle} {q₂ : NodeQueue} {first first₂ : ContactPtr}
    {frame frame₂ : List UInt8} (h : HandsOver logf ns t fuel b q' first frame)
    (h₂ : HandsOver logf ns t fuel b₂ q₂ first₂ frame₂) :
    b = b₂ ∧ q' = q₂ ∧ first = first₂ ∧ frame = frame₂ := by
  have hpop := h.pop.symm.trans h₂.pop
  cases hpop
  obtain ⟨r, hroute, hfirst⟩ := h.routed
  obtain ⟨r₂, hroute₂, hfirst₂⟩ := h₂.routed
  have hr := hroute.symm.trans hroute₂
  cases hr
  have hf := hfirst.symm.trans hfirst₂
  cases hf
  have hframe := h.framed.symm.trans h₂.framed
  cases hframe
  exact ⟨rfl, rfl, rfl, rfl⟩

/-- **Handed over and taken**: there is no other ending then. -/
theorem TickStep.eq_sentOver {res : TickResult} {first : ContactPtr} {frame : List UInt8}
    (h : TickStep logf ns t fuel sent res) (hands : HandsOver logf ns t fuel b q' first frame)
    (hsent : sent > 0) : res = ⟨0, ns.sentOver t b q' first, some frame⟩ := by
  cases h with
  | idle hpop =>
    rw [hands.pop] at hpop
    cases hpop
  | expired b₂ q₂ hpop hdead =>
    rw [hands.pop] at hpop
    cases hpop
    rw [hands.alive] at hdead
    cases hdead
  | putBack b₂ q₂ hpop _ _ hkeeps =>
    rw [hands.pop] at hpop
    cases hpop
    exact absurd hands (hkeeps first frame)
  | txFailed b₂ q₂ first₂ frame₂ _ hfails => exact absurd hsent hfails
  | transmitted b₂ q₂ first₂ frame₂ hands₂ _ =>
    obtain ⟨rfl, rfl, rfl, rfl⟩ := hands.unique hands₂
    rfl

end

end DtnHardware
