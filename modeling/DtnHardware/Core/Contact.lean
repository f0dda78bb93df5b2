import DtnHardware.Core.Types

/-!
# `dtn_core/contact` — contacts and the contact plan

The timing and capacity helpers of `contact.c`, and the plan with its two lookups.
A `const contact_t *` into the plan is a `ContactPtr`: the slot it points at, with the
contact read there. The plan does not change while a pointer into it is used for
reading, so the copy and the slot agree (`PointsInto`).

What the route search needs to know about the helpers is at the end: everything a
contact asks of an arrival time still holds at an earlier one.
-/

set_option autoImplicit false

namespace DtnHardware

/-- `contact_status_t`. -/
inductive ContactStatus where
  | up | down | uncertain
deriving DecidableEq, Repr

/-- `contact_t`; `toNode` is its field `to`, a keyword here. -/
structure Contact where
  frm : NodeId
  toNode : NodeId
  tStart : ℚ
  tEnd : ℚ
  rate : ℚ
  owlt : ℚ
  conf : ℚ
  ber : ℚ
  status : ContactStatus
  bytesUsed : ℚ
  reserved : ℚ
deriving DecidableEq

/-- A contact as the plan loader fills it in: `UP`, with zero accounting. -/
def Contact.loaded (frm toNode : NodeId) (tStart tEnd rate owlt conf ber : ℚ) : Contact :=
  { frm, toNode, tStart, tEnd, rate, owlt, conf, ber, status := .up, bytesUsed := 0,
    reserved := 0 }

/-! ## Predicates and capacity -/

def contactIsActive (c : Contact) (t : ℚ) : Bool :=
  decide (c.tStart ≤ t ∧ t < c.tEnd) && decide (c.status = .up)

def contactIsFuture (c : Contact) (t : ℚ) : Bool :=
  decide (t < c.tStart) && decide (c.status ≠ .down)

def contactDuration (c : Contact) : ℚ :=
  let d := c.tEnd - c.tStart
  if d > 0 then d else 0

def contactCapacity (c : Contact) : ℚ := c.rate * contactDuration c

def contactCapRem (c : Contact) (t : ℚ) : ℚ :=
  let timeLeft := c.tEnd - t
  let timeLeft := if timeLeft < 0 then 0 else timeLeft
  c.rate * timeLeft - c.bytesUsed

def contactCapUse (c : Contact) (t : ℚ) : ℚ := contactCapRem c t - c.reserved

def contactReserve (c : Contact) (size : ℚ) : Contact :=
  { c with reserved := c.reserved + size }

def contactReleaseReservation (c : Contact) (size : ℚ) : Contact :=
  { c with reserved := if c.reserved > size then c.reserved - size else 0 }

def contactConsume (c : Contact) (size : ℚ) : Contact :=
  { c with
    bytesUsed := c.bytesUsed + size
    reserved := if c.reserved > size then c.reserved - size else 0 }

def contactIsFeasibleFor (c : Contact) (bundleSize t : ℚ) : Bool :=
  contactIsActive c t && decide (contactCapUse c t ≥ bundleSize)

/-! ## Transmission timing -/

/-- The code's `1e30f`: the transmission time of a link without a rate. -/
def noRateDuration : ℚ := 10 ^ 30

def contactTxDuration (c : Contact) (bundleSize : ℚ) : ℚ :=
  if c.rate > 0 then bundleSize / c.rate else noRateDuration

def contactEarliestStart (c : Contact) (arrivalTime : ℚ) : ℚ :=
  if arrivalTime > c.tStart then arrivalTime else c.tStart

def contactArrivalAtReceiver (c : Contact) (bundleSize startTime : ℚ) : ℚ :=
  startTime + contactTxDuration c bundleSize + c.owlt

/-! ## The plan -/

def contactPlanMax : Nat := 64

/-- `contact_plan_t`: at most `CONTACT_PLAN_MAX` contacts, in slot order. -/
structure ContactPlan where
  contacts : List Contact
  bounded : contacts.length ≤ contactPlanMax

/-- The plan with no contacts. -/
def ContactPlan.empty : ContactPlan := ⟨[], Nat.zero_le _⟩

/-- `contact_plan_add`: a full plan ignores the contact. -/
def contactPlanAdd (cp : ContactPlan) (c : Contact) : ContactPlan :=
  if h : cp.contacts.length < contactPlanMax then
    ⟨cp.contacts ++ [c], by rw [List.length_append]; exact h⟩
  else cp

/-- The plan after adding `cs` in order to an empty one. -/
def ContactPlan.ofList (cs : List Contact) : ContactPlan :=
  cs.foldl contactPlanAdd ContactPlan.empty

/-- `const contact_t *` into a plan. -/
structure ContactPtr where
  slot : Nat
  contact : Contact
deriving DecidableEq

/-- The pointer's slot of the plan holds the contact read through it. -/
def PointsInto (cp : ContactPlan) (p : ContactPtr) : Prop :=
  cp.contacts[p.slot]? = some p.contact

/-- `contact_plan_get`: the first contact between two nodes, `none` for `NULL`. -/
def contactPlanGet (cp : ContactPlan) (frm dst : NodeId) : Option Contact :=
  cp.contacts.find? fun c => decide (c.frm = frm ∧ c.toNode = dst)

/-- `contact_plan_from_node`, with `out_cap` at least the plan's size: pointers to the
    contacts that leave `frm`, in slot order. -/
def contactPlanFromNode (cp : ContactPlan) (frm : NodeId) : List ContactPtr :=
  (cp.contacts.zipIdx.filter fun e => decide (e.1.frm = frm)).map fun e => ⟨e.2, e.1⟩

theorem contactPlanFromNode_length_le (cp : ContactPlan) (frm : NodeId) :
    (contactPlanFromNode cp frm).length ≤ contactPlanMax := by
  unfold contactPlanFromNode
  rw [List.length_map]
  calc (cp.contacts.zipIdx.filter fun e => decide (e.1.frm = frm)).length
      ≤ cp.contacts.zipIdx.length := List.length_filter_le _ _
    _ = cp.contacts.length := List.length_zipIdx
    _ ≤ contactPlanMax := cp.bounded

theorem mem_contactPlanFromNode {cp : ContactPlan} {frm : NodeId} {p : ContactPtr} :
    p ∈ contactPlanFromNode cp frm ↔ PointsInto cp p ∧ p.contact.frm = frm := by
  unfold contactPlanFromNode PointsInto
  simp only [List.mem_map, List.mem_filter, Prod.exists, decide_eq_true_eq]
  constructor
  · rintro ⟨c, i, ⟨hmem, hfrm⟩, rfl⟩
    exact ⟨List.mem_zipIdx_iff_getElem?.mp hmem, hfrm⟩
  · rintro ⟨hget, hfrm⟩
    exact ⟨p.contact, p.slot, ⟨List.mem_zipIdx_iff_getElem?.mpr hget, hfrm⟩, rfl⟩

theorem PointsInto.mem {cp : ContactPlan} {p : ContactPtr} (h : PointsInto cp p) :
    p.contact ∈ cp.contacts := List.mem_of_getElem? h

/-- Every contact of the plan is found among those that leave its own sender. -/
theorem exists_ptr_of_mem {cp : ContactPlan} {c : Contact} (h : c ∈ cp.contacts) :
    ∃ p ∈ contactPlanFromNode cp c.frm, p.contact = c := by
  obtain ⟨i, hi⟩ := List.getElem?_of_mem h
  exact ⟨⟨i, c⟩, mem_contactPlanFromNode.mpr ⟨hi, rfl⟩, rfl⟩

/-! ## Earlier is no worse

The links are first-in first-out: whoever arrives earlier starts no later, finds at
least as much capacity left, and arrives at the other end no later. The one exception
is a negative rate, whose "capacity left" grows as its window closes. -/

theorem contactEarliestStart_eq_max (c : Contact) (a : ℚ) :
    contactEarliestStart c a = max a c.tStart := by
  unfold contactEarliestStart
  split
  · rename_i h; exact (max_eq_left h.le).symm
  · rename_i h; exact (max_eq_right (not_lt.mp h)).symm

theorem contactEarliestStart_mono (c : Contact) {a a' : ℚ} (h : a' ≤ a) :
    contactEarliestStart c a' ≤ contactEarliestStart c a := by
  rw [contactEarliestStart_eq_max, contactEarliestStart_eq_max]
  exact max_le_max h le_rfl

theorem le_contactEarliestStart (c : Contact) (a : ℚ) : a ≤ contactEarliestStart c a := by
  rw [contactEarliestStart_eq_max]
  exact le_max_left _ _

theorem tStart_le_contactEarliestStart (c : Contact) (a : ℚ) :
    c.tStart ≤ contactEarliestStart c a := by
  rw [contactEarliestStart_eq_max]
  exact le_max_right _ _

theorem contactTxDuration_nonneg (c : Contact) {size : ℚ} (h : 0 ≤ size) :
    0 ≤ contactTxDuration c size := by
  unfold contactTxDuration
  split
  · rename_i hr; exact div_nonneg h hr.le
  · unfold noRateDuration; positivity

theorem contactArrivalAtReceiver_mono (c : Contact) (size : ℚ) {s s' : ℚ} (h : s' ≤ s) :
    contactArrivalAtReceiver c size s' ≤ contactArrivalAtReceiver c size s := by
  unfold contactArrivalAtReceiver
  gcongr

/-- A transmission takes time, and so does light. -/
theorem le_contactArrivalAtReceiver {c : Contact} {size : ℚ} (hs : 0 ≤ size)
    (ho : 0 ≤ c.owlt) (a : ℚ) :
    a ≤ contactArrivalAtReceiver c size (contactEarliestStart c a) := by
  have h1 := le_contactEarliestStart c a
  have h2 := contactTxDuration_nonneg c hs
  unfold contactArrivalAtReceiver
  linarith

theorem contactCapUse_antitone {c : Contact} (hr : 0 ≤ c.rate) {t t' : ℚ} (h : t' ≤ t) :
    contactCapUse c t ≤ contactCapUse c t' := by
  have hleft : (if c.tEnd - t < 0 then 0 else c.tEnd - t)
      ≤ (if c.tEnd - t' < 0 then 0 else c.tEnd - t') := by
    split <;> split <;> linarith
  unfold contactCapUse contactCapRem
  have := mul_le_mul_of_nonneg_left hleft hr
  dsimp only
  linarith

/-- Still usable at an earlier arrival: what was active is active or not yet open, and
    what was not yet open still is not. -/
theorem active_or_future_antitone {c : Contact} {a a' : ℚ} (h : a' ≤ a)
    (hc : contactIsActive c a || contactIsFuture c a) :
    contactIsActive c a' || contactIsFuture c a' := by
  simp only [contactIsActive, contactIsFuture, Bool.or_eq_true, Bool.and_eq_true,
    decide_eq_true_eq] at hc ⊢
  rcases hc with ⟨⟨hs, he⟩, hup⟩ | ⟨hs, hd⟩
  · rcases le_or_gt c.tStart a' with h1 | h1
    · exact Or.inl ⟨⟨h1, lt_of_le_of_lt h he⟩, hup⟩
    · exact Or.inr ⟨h1, by rw [hup]; decide⟩
  · exact Or.inr ⟨lt_of_le_of_lt h hs, hd⟩

end DtnHardware
