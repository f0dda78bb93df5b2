import DtnHardware.Core.Bundle
import DtnHardware.Core.Contact
import DtnHardware.Lib.ArrayLoops
import DtnHardware.Lib.KeyedTable

/-!
# `dtn_core/custody` — who answers for which bundle

A table of at most thirty-two records, looked up by bundle id. Every lookup takes the
first match, and a record is removed by moving the last one into its place; the two agree
with a finite map because a node never holds two records with one id (`CustodyOk`).

`custodySweep` is the timeout loop at the head of `node_tick`. It lives here because it
touches nothing but the table: its result is the list of records it released, in order,
and the table that is left.
-/

set_option autoImplicit false

namespace DtnHardware

open ArrayLoops KeyedTable

def custodyTimeoutDefault : ℚ := 1800
def custodyMaxRecords : Nat := 32

/-- `custody_record_t`. -/
structure CustodyRecord where
  bundleId : UInt64
  custodian : NodeId
  tAccept : ℚ
  timeout : ℚ
deriving DecidableEq

/-- `custody_manager_t`; `count` is the length of `records`. -/
structure CustodyManager where
  records : List CustodyRecord
  defaultTimeout : ℚ
deriving DecidableEq

def custodyInit (defaultTimeout : ℚ) : CustodyManager :=
  { records := []
    defaultTimeout := if defaultTimeout > 0 then defaultTimeout else custodyTimeoutDefault }

/-- The slot of the first record for `bundleId`. -/
def custodyFind (cm : CustodyManager) (bundleId : UInt64) : Option Nat :=
  cm.records.findIdx? fun r => decide (r.bundleId = bundleId)

/-- `custody_can_accept`; `none` is a null policy. -/
def custodyCanAccept (cm : CustodyManager) (b : Bundle) (nodeId : NodeId) (t bufFree : ℚ)
    (policy : Option (List Char)) : Bool :=
  if !bundleIsAlive b t then false
  else if bufFree < b.bytes then false
  else if policy.any fun p => decide (p.take 3 = ['r', 'e', 'j']) then false
  else !cm.records.any fun r => decide (r.bundleId = b.bundleId ∧ r.custodian = nodeId)

/-- `custody_transfer`: the record (`none` for `NULL`), the table, and the bundle with its
    new custodian. The contact is not looked at. -/
def custodyTransfer (cm : CustodyManager) (b : Bundle) (_contact : Option Contact) (t : ℚ) :
    Option CustodyRecord × CustodyManager × Bundle :=
  let r : CustodyRecord :=
    { bundleId := b.bundleId, custodian := b.curr, tAccept := t,
      timeout := t + cm.defaultTimeout }
  match custodyFind cm b.bundleId with
  | some i => (some r, { cm with records := cm.records.set i r }, { b with cust := b.curr })
  | none =>
      if cm.records.length ≥ custodyMaxRecords then (none, cm, b)
      else (some r, { cm with records := cm.records ++ [r] }, { b with cust := b.curr })

def custodyRelease (cm : CustodyManager) (bundleId : UInt64) : CustodyManager :=
  match custodyFind cm bundleId with
  | some i => { cm with records := swapRemove cm.records i }
  | none => cm

def custodyGet (cm : CustodyManager) (bundleId : UInt64) : Option CustodyRecord :=
  cm.records.find? fun r => decide (r.bundleId = bundleId)

def custodyIsTimedOut (cm : CustodyManager) (bundleId : UInt64) (t : ℚ) : Bool :=
  match custodyGet cm bundleId with
  | some r => decide (t ≥ r.timeout)
  | none => false

/-- The timeout loop of `node_tick` from index `i` on. Each round either removes a record
    or moves past one, so `n = count - i` rounds are all there are. -/
def custodySweep (t : ℚ) : Nat → Nat → CustodyManager → List CustodyRecord × CustodyManager
  | 0, _, cm => ([], cm)
  | n + 1, i, cm =>
      match cm.records[i]? with
      | none => ([], cm)
      | some r =>
          if custodyIsTimedOut cm r.bundleId t then
            let (out, cm') := custodySweep t n i (custodyRelease cm r.bundleId)
            (r :: out, cm')
          else custodySweep t n (i + 1) cm

/-! ## The table as a map -/

/-- One record per id, all of them this node's, no more than fit. -/
structure CustodyOk (node : NodeId) (cm : CustodyManager) : Prop where
  nodup : (cm.records.map CustodyRecord.bundleId).Nodup
  own : ∀ r ∈ cm.records, r.custodian = node
  count : cm.records.length ≤ custodyMaxRecords

theorem custodyOk_init (node : NodeId) (timeout : ℚ) : CustodyOk node (custodyInit timeout) :=
  ⟨List.nodup_nil, fun _ hr => absurd hr List.not_mem_nil, Nat.zero_le _⟩

theorem custodyFind_some {cm : CustodyManager} {bundleId : UInt64} {i : Nat}
    (h : custodyFind cm bundleId = some i) :
    ∃ r, cm.records[i]? = some r ∧ r.bundleId = bundleId := by
  obtain ⟨hlt, hp, _⟩ := List.findIdx?_eq_some_iff_getElem.mp h
  exact ⟨cm.records[i], List.getElem?_eq_getElem hlt, of_decide_eq_true hp⟩

theorem custodyFind_none {cm : CustodyManager} {bundleId : UInt64} :
    custodyFind cm bundleId = none ↔ ∀ r ∈ cm.records, r.bundleId ≠ bundleId := by
  simp [custodyFind, List.findIdx?_eq_none_iff]

/-- With one record per id the first match is the only one. -/
theorem custodyFind_of_get {cm : CustodyManager}
    (hnd : (cm.records.map CustodyRecord.bundleId).Nodup) {i : Nat} {r : CustodyRecord}
    (h : cm.records[i]? = some r) : custodyFind cm r.bundleId = some i := by
  cases hf : custodyFind cm r.bundleId with
  | none => exact absurd rfl (custodyFind_none.mp hf r (List.mem_of_getElem? h))
  | some j =>
    obtain ⟨r', hget, hid⟩ := custodyFind_some hf
    have hi : (cm.records.map CustodyRecord.bundleId)[i]? = some r.bundleId := by
      rw [List.getElem?_map, h]
      rfl
    have hj : (cm.records.map CustodyRecord.bundleId)[j]? = some r.bundleId := by
      rw [List.getElem?_map, hget]
      exact congrArg some hid
    rw [(List.getElem?_inj (List.getElem?_eq_some_iff.mp hj).1 hnd).mp (hj.trans hi.symm)]

theorem custodyGet_of_mem {cm : CustodyManager}
    (hnd : (cm.records.map CustodyRecord.bundleId).Nodup) {r : CustodyRecord}
    (h : r ∈ cm.records) : custodyGet cm r.bundleId = some r := by
  unfold custodyGet
  cases hf : cm.records.find? fun r' => decide (r'.bundleId = r.bundleId) with
  | none =>
    have := List.find?_eq_none.mp hf r h
    simp at this
  | some r' =>
    have hid : r'.bundleId = r.bundleId := by simpa using List.find?_some hf
    rw [List.inj_on_of_nodup_map hnd (List.mem_of_find?_eq_some hf) h hid]

theorem custodyIsTimedOut_of_mem {cm : CustodyManager}
    (hnd : (cm.records.map CustodyRecord.bundleId).Nodup) {r : CustodyRecord}
    (h : r ∈ cm.records) (t : ℚ) :
    custodyIsTimedOut cm r.bundleId t = decide (t ≥ r.timeout) := by
  rw [custodyIsTimedOut, custodyGet_of_mem hnd h]

/-- Releasing an id takes its record out and leaves the others. -/
theorem mem_custodyRelease {cm : CustodyManager}
    (hnd : (cm.records.map CustodyRecord.bundleId).Nodup) {bundleId : UInt64}
    {r : CustodyRecord} :
    r ∈ (custodyRelease cm bundleId).records ↔ r ∈ cm.records ∧ r.bundleId ≠ bundleId := by
  unfold custodyRelease
  cases hf : custodyFind cm bundleId with
  | none =>
    have hnone := custodyFind_none.mp hf
    exact ⟨fun h => ⟨h, hnone r h⟩, fun h => h.1⟩
  | some i =>
    obtain ⟨x, hget, rfl⟩ := custodyFind_some hf
    have hperm := perm_swapRemove hget
    dsimp only
    constructor
    · intro h
      refine ⟨hperm.mem_iff.mpr (List.mem_cons_of_mem _ h), fun heq => ?_⟩
      exact (nodup_swapRemove hnd hget).2 r h heq
    · rintro ⟨h, hne⟩
      rcases List.mem_cons.mp (hperm.mem_iff.mp h) with rfl | h
      · exact absurd rfl hne
      · exact h

theorem CustodyOk.release {node : NodeId} {cm : CustodyManager} (h : CustodyOk node cm)
    (bundleId : UInt64) : CustodyOk node (custodyRelease cm bundleId) := by
  cases hf : custodyFind cm bundleId with
  | none =>
    rw [custodyRelease, hf]
    exact h
  | some i =>
    obtain ⟨x, hget, _⟩ := custodyFind_some hf
    have hperm := perm_swapRemove hget
    rw [custodyRelease, hf]
    refine ⟨(nodup_swapRemove h.nodup hget).1, fun r hr => ?_, ?_⟩
    · exact h.own r (hperm.mem_iff.mpr (List.mem_cons_of_mem _ hr))
    · have := length_swapRemove hget
      have := h.count
      dsimp only
      omega

/-! ## Transfer -/

/-- The record that a transfer at `t` writes for `b`. -/
def custodyRecordOf (cm : CustodyManager) (b : Bundle) (t : ℚ) : CustodyRecord :=
  { bundleId := b.bundleId, custodian := b.curr, tAccept := t, timeout := t + cm.defaultTimeout }

/-- A transfer of an id without a record: appended if there is room, refused otherwise. -/
theorem custodyTransfer_of_fresh {cm : CustodyManager} {b : Bundle}
    (hfresh : ∀ r ∈ cm.records, r.bundleId ≠ b.bundleId) (c : Option Contact) (t : ℚ) :
    custodyTransfer cm b c t =
      if cm.records.length < custodyMaxRecords then
        (some (custodyRecordOf cm b t),
          { cm with records := cm.records ++ [custodyRecordOf cm b t] }, { b with cust := b.curr })
      else (none, cm, b) := by
  unfold custodyTransfer
  rw [custodyFind_none.mpr hfresh]
  dsimp only
  by_cases hroom : cm.records.length < custodyMaxRecords
  · rw [if_neg (not_le.mpr hroom), if_pos hroom]
    rfl
  · rw [if_pos (not_lt.mp hroom), if_neg hroom]

theorem CustodyOk.transfer {node : NodeId} {cm : CustodyManager} {b : Bundle}
    (h : CustodyOk node cm) (hcurr : b.curr = node) (c : Option Contact) (t : ℚ) :
    CustodyOk node (custodyTransfer cm b c t).2.1 := by
  cases hf : custodyFind cm b.bundleId with
  | none =>
    have hfresh := custodyFind_none.mp hf
    rw [custodyTransfer_of_fresh hfresh]
    split
    · rename_i hroom
      refine ⟨nodup_append h.nodup hfresh, fun r hr => ?_, ?_⟩
      · rcases List.mem_append.mp hr with hr | hr
        · exact h.own r hr
        · rw [List.mem_singleton.mp hr]
          exact hcurr
      · dsimp only
        rw [List.length_append, List.length_singleton]
        exact hroom
    · exact h
  | some i =>
    obtain ⟨x, hget, hid⟩ := custodyFind_some hf
    unfold custodyTransfer
    rw [hf]
    refine ⟨nodup_set h.nodup hget hid, fun r hr => ?_, ?_⟩
    · rcases List.mem_or_eq_of_mem_set hr with hr | rfl
      · exact h.own r hr
      · exact hcurr
    · dsimp only
      rw [List.length_set]
      exact h.count

/-! ## The timeout sweep -/

theorem swapRemove_take {α : Type} {l : List α} {i : Nat} (h : i < l.length) :
    (swapRemove l i).take i = l.take i := by
  have hne : l ≠ [] := by
    rintro rfl
    exact absurd h (Nat.not_lt_zero i)
  unfold swapRemove
  rw [List.getLast?_eq_some_getLast hne]
  dsimp only
  rw [List.dropLast_eq_take, List.length_set, List.take_take, min_eq_left (by omega),
    List.take_set_of_le (le_refl i)]

theorem custodyRelease_of_get {cm : CustodyManager}
    (hnd : (cm.records.map CustodyRecord.bundleId).Nodup) {i : Nat} {r : CustodyRecord}
    (h : cm.records[i]? = some r) :
    custodyRelease cm r.bundleId = { cm with records := swapRemove cm.records i } := by
  rw [custodyRelease, custodyFind_of_get hnd h]

/-- **What the loop does from index `i` on**, if what is before `i` is not yet due: the
    records it releases are due, those it leaves are not, and together they are the table. -/
theorem custodySweep_spec (t : ℚ) : ∀ (n i : Nat) (cm : CustodyManager),
    (cm.records.map CustodyRecord.bundleId).Nodup → cm.records.length = i + n →
    (∀ r ∈ cm.records.take i, t < r.timeout) →
    cm.records.Perm ((custodySweep t n i cm).1 ++ (custodySweep t n i cm).2.records) ∧
      (∀ r ∈ (custodySweep t n i cm).1, r.timeout ≤ t) ∧
      ∀ r ∈ (custodySweep t n i cm).2.records, t < r.timeout := by
  intro n
  induction n with
  | zero =>
    intro i cm _ hlen hdue
    rw [List.take_of_length_le (by omega)] at hdue
    exact ⟨List.Perm.refl _, fun _ hr => absurd hr List.not_mem_nil, hdue⟩
  | succ n ih =>
    intro i cm hnd hlen hdue
    have hlt : i < cm.records.length := by omega
    have hget : cm.records[i]? = some cm.records[i] := List.getElem?_eq_getElem hlt
    generalize cm.records[i] = r at hget
    have hmem : r ∈ cm.records := List.mem_of_getElem? hget
    rw [custodySweep, hget]
    dsimp only
    rw [custodyIsTimedOut_of_mem hnd hmem]
    by_cases htime : t ≥ r.timeout
    · rw [if_pos (decide_eq_true htime), custodyRelease_of_get hnd hget]
      have hperm := perm_swapRemove hget
      have hlen' := length_swapRemove hget
      obtain ⟨hperm', hout, hleft⟩ := ih i { cm with records := swapRemove cm.records i }
        (nodup_swapRemove hnd hget).1 (by dsimp only; omega)
        (by dsimp only; rwa [swapRemove_take hlt])
      refine ⟨?_, fun x hx => ?_, hleft⟩
      · dsimp only
        rw [List.cons_append]
        exact hperm.trans (hperm'.cons r)
      · rcases List.mem_cons.mp hx with rfl | hx
        · exact htime
        · exact hout x hx
    · rw [if_neg (by simpa using htime)]
      apply ih (i + 1) cm hnd (by omega)
      intro x hx
      rw [List.take_add_one, hget] at hx
      rcases List.mem_append.mp hx with hx | hx
      · exact hdue x hx
      · rw [Option.toList_some, List.mem_singleton] at hx
        rw [hx]
        exact not_le.mp htime

/-- A table that others have been taken out of is as good as it was. -/
theorem CustodyOk.of_perm {node : NodeId} {cm cm' : CustodyManager} {out : List CustodyRecord}
    (h : CustodyOk node cm) (hperm : cm.records.Perm (out ++ cm'.records)) :
    CustodyOk node cm' := by
  have hnd := ((hperm.map CustodyRecord.bundleId).nodup_iff).mp h.nodup
  rw [List.map_append] at hnd
  have hlen := hperm.length_eq
  rw [List.length_append] at hlen
  have := h.count
  exact ⟨hnd.of_append_right,
    fun r hr => h.own r (hperm.mem_iff.mpr (List.mem_append_right _ hr)), by omega⟩

/-- From the first record on, the loop splits the table by the time. -/
theorem custodySweep_perm {cm : CustodyManager}
    (hnd : (cm.records.map CustodyRecord.bundleId).Nodup) (t : ℚ) :
    cm.records.Perm ((custodySweep t cm.records.length 0 cm).1
        ++ (custodySweep t cm.records.length 0 cm).2.records) ∧
      (∀ r ∈ (custodySweep t cm.records.length 0 cm).1, r.timeout ≤ t) ∧
      ∀ r ∈ (custodySweep t cm.records.length 0 cm).2.records, t < r.timeout := by
  refine custodySweep_spec t cm.records.length 0 cm hnd (Nat.zero_add _).symm ?_
  intro r hr
  rw [List.take_zero] at hr
  exact absurd hr List.not_mem_nil

end DtnHardware
