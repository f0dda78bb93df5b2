import DtnHardware.Node.Stores
import DtnHardware.Core.Wire

/-!
# What is in a node's queue

A bundle gets into the queue by being generated here or by being accepted from a frame, and
in no other way: a tick can only put back what it took out. So what holds of every bundle
that enters holds of every bundle that is queued (`NodeReaches.forall_queued`), and three
such facts are used elsewhere: a queued bundle is at this node, its payload fits a frame,
and its remaining lifetime is a number.
-/

set_option autoImplicit false

namespace DtnHardware

/-- The call brings `b` to the queue: `b` is generated here, or accepted from a frame. -/
inductive Enters (ns : NodeState) : NodeOp → Bundle → Prop
  | generated (dst : NodeId) (cls : BundleClass) (msg : List UInt8) (t : F32) :
      Enters ns (.generate dst cls msg t) (generatedBundle ns dst cls msg t)
  | accepted (t : ℚ) (frame : List UInt8) (rssi : Int32) (b : Bundle)
      (decodes : bundleDeserialize frame = .ok (some b)) (away : b.dst ≠ ns.selfId)
      (accepts : acceptsFrame ns b t = true) :
      Enters ns (.receive t frame rssi) (frameTransfer ns b t).2.2

/-! ## Nothing else enters -/

theorem mem_swapRemove {q : NodeQueue} {i : Nat} {v x : Bundle} (hget : q.slots[i]? = some v)
    (h : x ∈ ArrayLoops.swapRemove q.slots i) : x ∈ q.slots :=
  (ArrayLoops.perm_swapRemove hget).mem_iff.mpr (List.mem_cons_of_mem _ h)

theorem Enqueued.mem {q q' : NodeQueue} {b x : Bundle} {rc : Int} (h : Enqueued q b rc q')
    (hx : x ∈ q'.slots) : x ∈ q.slots ∨ x = b := by
  cases h with
  | full _ | noPressure _ _ _ | noVictim _ _ _ _ => exact Or.inl hx
  | fits _ _ =>
    rcases List.mem_append.mp hx with hx | hx
    · exact Or.inl hx
    · exact Or.inr (List.mem_singleton.mp hx)
  | evictedInVain i v _ _ _ _ hget _ => exact Or.inl (mem_swapRemove hget hx)
  | preempted i v _ _ _ _ hget _ =>
    rcases List.mem_append.mp hx with hx | hx
    · exact Or.inl (mem_swapRemove hget hx)
    · exact Or.inr (List.mem_singleton.mp hx)

theorem mem_of_pop {q q' : NodeQueue} {t : ℚ} {b x : Bundle}
    (hpop : queuePopNext q t = some (b, q')) (hx : x = b ∨ x ∈ q'.slots) : x ∈ q.slots :=
  (queuePopNext_perm hpop).mem_iff.mpr (List.mem_cons.mpr hx)

/-- **What is queued after a call was queued before it, or entered.** -/
theorem StoreStep.mem_queue {logf : ℚ → ℚ} {ns : NodeState} {op : NodeOp} {q' : NodeQueue}
    {cm' : CustodyManager} (h : StoreStep logf ns op q' cm') {x : Bundle}
    (hx : x ∈ q'.slots) : x ∈ ns.queue.slots ∨ Enters ns op x := by
  cases h with
  | badFrame | delivered | rejected | idle | sentTimeSync | handledTimeSync => exact Or.inl hx
  | generated dst cls msg t =>
    rcases (queueEnqueue_cases _ _).mem hx with hold | rfl
    · exact Or.inl hold
    · exact Or.inr (.generated dst cls msg t)
  | accepted t frame rssi b hdec haway hacc =>
    rcases (queueEnqueue_cases _ _).mem hx with hold | rfl
    · exact Or.inl hold
    · exact Or.inr (.accepted t frame rssi b hdec haway hacc)
  | expired t fuel sent b q' hpop hdead => exact Or.inl (mem_of_pop hpop (Or.inr hx))
  | requeued t fuel sent b q' hpop hstays =>
    -- what is put back was there
    exact Or.inl (mem_of_pop hpop ((queueEnqueue_cases _ _).mem hx).symm)
  | transmitted t fuel sent b q' hsends => exact Or.inl (mem_of_pop hsends.pop (Or.inr hx))

section
variable {logf : ℚ → ℚ} {ok : NodeState → NodeOp → Prop} {self : NodeId} {bufCap : ℚ}
  {policy : Option String} {plan : ContactPlan} {ns : NodeState}

theorem NodeReaches.selfId (h : NodeReaches logf ok (nodeStart self bufCap policy plan) ns) :
    ns.selfId = self := by
  refine h.invariant (P := fun ns => ns.selfId = self) rfl fun ns op ns' _ _ hs hself => ?_
  rw [(nodeStep_stores hs).1, hself]

/-- **The rule**: what holds of every bundle that enters holds of every queued bundle. -/
theorem NodeReaches.forall_queued {P : Bundle → Prop}
    (h : NodeReaches logf ok (nodeStart self bufCap policy plan) ns)
    (henters : ∀ ns op b, NodeReaches logf ok (nodeStart self bufCap policy plan) ns →
      ok ns op → Enters ns op b → P b) : ∀ b ∈ ns.queue.slots, P b := by
  refine h.invariant (P := fun ns => ∀ b ∈ ns.queue.slots, P b) ?_ fun ns op ns' hr hok hs hP => ?_
  · intro b hb
    exact absurd hb List.not_mem_nil
  · intro b hb
    rcases (nodeStep_stores hs).2.mem_queue hb with hold | hnew
    · exact hP b hold
    · exact henters ns op b hr hok hnew

/-! ## A queued bundle is at this node and fits a frame -/

theorem NodeReaches.queued_curr (h : NodeReaches logf ok (nodeStart self bufCap policy plan) ns)
    {b : Bundle} (hb : b ∈ ns.queue.slots) : b.curr = ns.selfId := by
  rw [h.selfId]
  refine h.forall_queued (P := fun b => b.curr = self) (fun ns op b hr _ hnew => ?_) b hb
  cases hnew with
  | generated => exact hr.selfId
  | accepted t frame rssi b =>
    obtain ⟨cust, heq⟩ := frameTransfer_bundle ns b t
    rw [heq]
    exact hr.selfId

theorem NodeReaches.queued_payload
    (h : NodeReaches logf ok (nodeStart self bufCap policy plan) ns) {b : Bundle}
    (hb : b ∈ ns.queue.slots) : b.payload.length ≤ bundleMaxPayload := by
  refine h.forall_queued (P := fun b => b.payload.length ≤ bundleMaxPayload)
    (fun ns op b hr _ hnew => ?_) b hb
  cases hnew with
  | generated dst cls msg t => exact List.length_take_le _ _
  | accepted t frame rssi b hdec =>
    obtain ⟨cust, heq⟩ := frameTransfer_bundle ns b t
    rw [heq]
    exact (bundleDeserialize_eq_some.mp hdec).1

/-! ## A queued bundle has a lifetime

Unless it was generated at a time that is not a number: the caller's clock is not checked. -/

theorem NodeReaches.queued_lifetime
    (h : NodeReaches logf ok (nodeStart self bufCap policy plan) ns) {b : Bundle}
    (hb : b ∈ ns.queue.slots) (t : ℚ) (hnan : bundleRttl b t = .nan) : b.tGen.value = .nan := by
  refine h.forall_queued (P := fun b => bundleRttl b t = .nan → b.tGen.value = .nan)
    (fun ns op b hr _ hnew => ?_) b hb hnan
  cases hnew with
  | generated dst cls msg g =>
    have httl : generatedTtl.value = .fin 3600 := by decide +kernel
    intro hnan
    have hgen : (Flt.fin 3600).sub ((Flt.fin t).sub g.value) = .nan := by
      rw [← httl]
      exact hnan
    show g.value = .nan
    -- an infinite clock gives an infinite lifetime, not a missing one
    cases hg : g.value <;> simp_all [Flt.sub, Flt.neg, Flt.add]
  | accepted t₀ frame rssi b _ _ hacc =>
    obtain ⟨cust, heq⟩ := frameTransfer_bundle ns b t₀
    rw [heq]
    intro hnan
    exact absurd (bundleRttl_eq_nan b t t₀ hnan) (bundleRttl_of_alive (acceptsFrame_alive hacc))

end

end DtnHardware
