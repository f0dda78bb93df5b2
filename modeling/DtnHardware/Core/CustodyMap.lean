import DtnHardware.Core.Custody
import DtnHardware.Lib.Calls

/-!
# The custody table is a bounded map

What `custody.c` is for, said without arrays: a finite map from bundle ids to
`(custodian, t_accept, timeout)` with room for thirty-two ids. `mapTransfer` inserts or
overwrites, `mapRelease` deletes, the three questions look the id up. The table and the map
are two systems that take the same calls, and

> **they give every sequence of calls the same answers**, and afterwards the table *is* the
> map (`IsMap`).

Unlike `CustodyOk` this makes no assumption on whose bundles are transferred. What carries it
is that ids stay distinct, because a transfer searches before it appends; a table with an id
twice would keep the second record after a release and answer with it.
-/

set_option autoImplicit false

namespace DtnHardware

open GuardedCalls KeyedTable

/-! ## The map -/

/-- What the map keeps for an id. -/
structure CustodyEntry where
  custodian : NodeId
  tAccept : ℚ
  timeout : ℚ
deriving DecidableEq

abbrev CustodyMap := Finmap fun _ : UInt64 => CustodyEntry

/-- The entry as the record the C code hands out. -/
def CustodyEntry.record (bundleId : UInt64) (e : CustodyEntry) : CustodyRecord :=
  { bundleId, custodian := e.custodian, tAccept := e.tAccept, timeout := e.timeout }

def CustodyRecord.entry (r : CustodyRecord) : CustodyEntry :=
  { custodian := r.custodian, tAccept := r.tAccept, timeout := r.timeout }

/-- Insert or overwrite, unless the id is new and the map full; `timeout` is how long custody
    lasts. The answer is the record and the bundle. -/
def mapTransfer (timeout : ℚ) (m : CustodyMap) (b : Bundle) (t : ℚ) :
    (Option CustodyRecord × Bundle) × CustodyMap :=
  if b.bundleId ∈ m ∨ m.keys.card < custodyMaxRecords then
    let e : CustodyEntry := { custodian := b.curr, tAccept := t, timeout := t + timeout }
    ((some (e.record b.bundleId), { b with cust := b.curr }), m.insert b.bundleId e)
  else ((none, b), m)

def mapRelease (m : CustodyMap) (bundleId : UInt64) : CustodyMap := m.erase bundleId

def mapGet (m : CustodyMap) (bundleId : UInt64) : Option CustodyRecord :=
  (m.lookup bundleId).map (CustodyEntry.record bundleId)

def mapIsTimedOut (m : CustodyMap) (bundleId : UInt64) (t : ℚ) : Bool :=
  (m.lookup bundleId).any fun e => decide (e.timeout ≤ t)

/-- Alive, small enough, not refused by policy, and not this custodian's already. -/
def mapCanAccept (m : CustodyMap) (b : Bundle) (nodeId : NodeId) (t bufFree : ℚ)
    (policy : Option (List Char)) : Bool :=
  bundleIsAlive b t && decide (b.bytes ≤ bufFree) &&
    !(policy.any fun p => decide (p.take 3 = ['r', 'e', 'j'])) &&
    !((m.lookup b.bundleId).any fun e => decide (e.custodian = nodeId))

/-! ## Two systems that take the same calls -/

inductive CustodyOp where
  | transfer (b : Bundle) (contact : Option Contact) (t : ℚ)
  | release (bundleId : UInt64)

/-- What a caller gets back: from a transfer the record, `none` for `NULL`, and the bundle. -/
inductive CustodyAnswer where
  | transferred (r : Option CustodyRecord) (b : Bundle)
  | released

/-- A call of `custody.c`. -/
def custodyCall (cm : CustodyManager) : CustodyOp → CustodyAnswer × CustodyManager
  | .transfer b contact t =>
      let res := custodyTransfer cm b contact t
      (.transferred res.1 res.2.2, res.2.1)
  | .release bundleId => (.released, custodyRelease cm bundleId)

/-- The same call on the map. -/
def mapCall (timeout : ℚ) (m : CustodyMap) : CustodyOp → CustodyAnswer × CustodyMap
  | .transfer b _ t =>
      let res := mapTransfer timeout m b t
      (.transferred res.1.1 res.1.2, res.2)
  | .release bundleId => (.released, mapRelease m bundleId)

/-! ## The table as a map -/

/-- The map that a table stands for. -/
def custodyMap (cm : CustodyManager) : CustodyMap :=
  tableMap CustodyRecord.bundleId CustodyRecord.entry cm.records

/-- The table is the map, with its ids distinct and no more of them than fit. -/
structure IsMap (timeout : ℚ) (cm : CustodyManager) (m : CustodyMap) : Prop where
  nodup : (cm.records.map CustodyRecord.bundleId).Nodup
  count : cm.records.length ≤ custodyMaxRecords
  lasts : cm.defaultTimeout = timeout
  map : custodyMap cm = m

theorem isMap_init (timeout : ℚ) :
    IsMap (custodyInit timeout).defaultTimeout (custodyInit timeout) ∅ :=
  ⟨List.nodup_nil, Nat.zero_le _, rfl, rfl⟩

section
variable {timeout : ℚ} {cm : CustodyManager} {m : CustodyMap}

theorem IsMap.mem_iff (h : IsMap timeout cm m) {bundleId : UInt64} :
    bundleId ∈ m ↔ ∃ r ∈ cm.records, r.bundleId = bundleId := by
  rw [← h.map]
  exact mem_tableMap

theorem IsMap.card (h : IsMap timeout cm m) : m.keys.card = cm.records.length := by
  rw [← h.map]
  exact card_keys_tableMap h.nodup

theorem IsMap.lookup (h : IsMap timeout cm m) (bundleId : UInt64) :
    m.lookup bundleId = (custodyGet cm bundleId).map CustodyRecord.entry := by
  rw [← h.map]
  exact lookup_tableMap cm.records bundleId

/-- A transfer does to the table what the map does, and answers the same. -/
theorem IsMap.transfer (h : IsMap timeout cm m) (b : Bundle) (contact : Option Contact)
    (t : ℚ) :
    (custodyCall cm (.transfer b contact t)).1 = (mapCall timeout m (.transfer b contact t)).1 ∧
      IsMap timeout (custodyCall cm (.transfer b contact t)).2
        (mapCall timeout m (.transfer b contact t)).2 := by
  unfold custodyCall mapCall mapTransfer
  dsimp only
  cases hf : custodyFind cm b.bundleId with
  | none =>
    have hfresh := custodyFind_none.mp hf
    have hnot : b.bundleId ∉ m := fun hmem =>
      let ⟨r, hr, hid⟩ := h.mem_iff.mp hmem
      hfresh r hr hid
    rw [custodyTransfer_of_fresh hfresh, h.card]
    by_cases hroom : cm.records.length < custodyMaxRecords
    · rw [if_pos hroom, if_pos (Or.inr hroom)]
      refine ⟨by rw [← h.lasts]; rfl, nodup_append h.nodup hfresh, ?_, h.lasts, ?_⟩
      · dsimp only
        rw [List.length_append, List.length_singleton]
        exact hroom
      · rw [← h.map, ← h.lasts]
        exact tableMap_append h.nodup hfresh
    · rw [if_neg hroom, if_neg (not_or.mpr ⟨hnot, hroom⟩)]
      exact ⟨rfl, h⟩
  | some i =>
    obtain ⟨x, hget, hid⟩ := custodyFind_some hf
    have hmem : b.bundleId ∈ m := h.mem_iff.mpr ⟨x, List.mem_of_getElem? hget, hid⟩
    unfold custodyTransfer
    rw [hf, if_pos (Or.inl hmem)]
    refine ⟨by rw [← h.lasts]; rfl, nodup_set h.nodup hget hid, ?_, h.lasts, ?_⟩
    · dsimp only
      rw [List.length_set]
      exact h.count
    · rw [← h.map, ← h.lasts]
      exact tableMap_set h.nodup hget hid

theorem IsMap.release (h : IsMap timeout cm m) (bundleId : UInt64) :
    IsMap timeout (custodyRelease cm bundleId) (mapRelease m bundleId) := by
  unfold custodyRelease mapRelease
  cases hf : custodyFind cm bundleId with
  | none =>
    have hnot : bundleId ∉ m := fun hmem =>
      let ⟨r, hr, hid⟩ := h.mem_iff.mp hmem
      custodyFind_none.mp hf r hr hid
    refine ⟨h.nodup, h.count, h.lasts, ?_⟩
    rw [h.map]
    apply Finmap.ext_lookup
    intro k
    by_cases hk : k = bundleId
    · rw [hk, Finmap.lookup_erase]
      exact Finmap.lookup_eq_none.mpr hnot
    · exact (Finmap.lookup_erase_ne hk).symm
  | some i =>
    obtain ⟨x, hget, rfl⟩ := custodyFind_some hf
    refine ⟨(nodup_swapRemove h.nodup hget).1, ?_, h.lasts, ?_⟩
    · have := ArrayLoops.length_swapRemove hget
      have := h.count
      dsimp only
      omega
    · rw [← h.map]
      exact tableMap_swapRemove h.nodup hget

/-- One call, either kind. -/
theorem IsMap.call (h : IsMap timeout cm m) (op : CustodyOp) :
    (custodyCall cm op).1 = (mapCall timeout m op).1 ∧
      IsMap timeout (custodyCall cm op).2 (mapCall timeout m op).2 := by
  cases op with
  | transfer b contact t => exact h.transfer b contact t
  | release bundleId => exact ⟨rfl, h.release bundleId⟩

/-! ## The questions -/

theorem IsMap.get (h : IsMap timeout cm m) (bundleId : UInt64) :
    custodyGet cm bundleId = mapGet m bundleId := by
  unfold mapGet
  rw [h.lookup]
  cases hget : custodyGet cm bundleId with
  | none => rfl
  | some r =>
    have hid : r.bundleId = bundleId := by simpa using List.find?_some hget
    subst hid
    rfl

theorem IsMap.isTimedOut (h : IsMap timeout cm m) (bundleId : UInt64) (t : ℚ) :
    custodyIsTimedOut cm bundleId t = mapIsTimedOut m bundleId t := by
  unfold custodyIsTimedOut mapIsTimedOut
  rw [h.lookup]
  cases custodyGet cm bundleId <;> rfl

/-- The scan for a record with this id and this custodian finds the one with this id. -/
theorem IsMap.any_custodian (h : IsMap timeout cm m) (bundleId : UInt64) (nodeId : NodeId) :
    (cm.records.any fun r => decide (r.bundleId = bundleId ∧ r.custodian = nodeId))
      = (m.lookup bundleId).any fun e => decide (e.custodian = nodeId) := by
  rw [h.lookup, Bool.eq_iff_iff, List.any_eq_true]
  constructor
  · rintro ⟨r, hr, hboth⟩
    obtain ⟨rfl, rfl⟩ := of_decide_eq_true hboth
    rw [custodyGet_of_mem h.nodup hr]
    exact decide_eq_true rfl
  · intro hany
    cases hget : custodyGet cm bundleId with
    | none =>
      rw [hget] at hany
      cases hany
    | some r =>
      rw [hget] at hany
      have hid : r.bundleId = bundleId := by simpa using List.find?_some hget
      exact ⟨r, List.mem_of_find?_eq_some hget, decide_eq_true ⟨hid, of_decide_eq_true hany⟩⟩

theorem IsMap.canAccept (h : IsMap timeout cm m) (b : Bundle) (nodeId : NodeId)
    (t bufFree : ℚ) (policy : Option (List Char)) :
    custodyCanAccept cm b nodeId t bufFree policy = mapCanAccept m b nodeId t bufFree policy := by
  unfold custodyCanAccept mapCanAccept
  rw [h.any_custodian]
  cases bundleIsAlive b t with
  | false => rfl
  | true =>
    by_cases hroom : bufFree < b.bytes
    · rw [if_neg (by decide), if_pos hroom, decide_eq_false (not_le.mpr hroom)]
      rfl
    · rw [if_neg (by decide), if_neg hroom, decide_eq_true (not_lt.mp hroom)]
      cases policy.any fun p => decide (p.take 3 = ['r', 'e', 'j']) <;> rfl

end

/-- Calls from an empty table on lead to the map that they lead to from an empty map. -/
theorem answers_isMap (timeout : ℚ) (ops : List CustodyOp) :
    (answers custodyCall (custodyInit timeout) ops).1
        = (answers (mapCall (custodyInit timeout).defaultTimeout) ∅ ops).1 ∧
      IsMap (custodyInit timeout).defaultTimeout (answers custodyCall (custodyInit timeout) ops).2
        (answers (mapCall (custodyInit timeout).defaultTimeout) ∅ ops).2 :=
  answers_simulates (R := IsMap (custodyInit timeout).defaultTimeout)
    (fun _ _ op h => h.call op) ops (custodyInit timeout) ∅ (isMap_init timeout)

/-- **The custody table refines a bounded map.** -/
theorem custody_refines_map (timeout : ℚ) (ops : List CustodyOp) :
    let cm := (answers custodyCall (custodyInit timeout) ops).2
    let m := (answers (mapCall (custodyInit timeout).defaultTimeout) ∅ ops).2
    (answers custodyCall (custodyInit timeout) ops).1
        = (answers (mapCall (custodyInit timeout).defaultTimeout) ∅ ops).1 ∧
      (cm.records.map CustodyRecord.bundleId).Nodup ∧
      cm.records.length ≤ custodyMaxRecords ∧
      m.keys.card = cm.records.length ∧
      (∀ bundleId, custodyGet cm bundleId = mapGet m bundleId) ∧
      (∀ bundleId t, custodyIsTimedOut cm bundleId t = mapIsTimedOut m bundleId t) ∧
      (∀ b nodeId t bufFree policy, custodyCanAccept cm b nodeId t bufFree policy
        = mapCanAccept m b nodeId t bufFree policy) ∧
      ∀ b contact t, b.bundleId ∉ m → cm.records.length = custodyMaxRecords →
        custodyTransfer cm b contact t = (none, cm, b) := by
  intro cm m
  obtain ⟨hans, hmap⟩ := answers_isMap timeout ops
  refine ⟨hans, hmap.nodup, hmap.count, hmap.card, hmap.get, hmap.isTimedOut, hmap.canAccept, ?_⟩
  intro b contact t hnew hfull
  have hfresh : ∀ r ∈ cm.records, r.bundleId ≠ b.bundleId := fun r hr hid =>
    hnew (hmap.mem_iff.mpr ⟨r, hr, hid⟩)
  rw [custodyTransfer_of_fresh hfresh, if_neg (not_lt.mpr hfull.ge)]

end DtnHardware
