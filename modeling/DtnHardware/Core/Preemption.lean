import DtnHardware.Core.Queue

/-!
# What admission costs, what a rejection costs, and what it would have cost not to reject

An admitted bundle costs nothing, or one queued bundle of the lowest class
(`queueEnqueue_accepted`). `queue.h` says of `queue_enqueue`'s `-1`: *rejected (no room, no
preemption candidates)*. Two readings of that line are settled here, and neither holds of the
code as it stands.

> **A rejected bundle leaves the queue alone** unless the one victim is evicted and its bytes
> are not enough (`EvictedInVain`).

> **A bundle is rejected only if no eviction of lower classes would admit it** unless the table
> is full, or more than a tenth of the buffer is free, or the one victim is too small
> (`RefusedInVain`).

Both conditions are on the queue and the bundle before the call. They speak of *the victim*,
and `IsVictim` says which queued bundle that is without running the loop: the first of the
lowest class.

On classes: the loop compares `(int8_t)` casts, while *strictly lower class* is about the enum.
They agree below 128, and an incoming bundle of one of the four enumerators is.
-/

set_option autoImplicit false

namespace DtnHardware

open ArrayLoops

/-! ## Which bundle is the victim -/

/-- `v`, in slot `i`, is the first queued bundle of the lowest class, and that is below
    the incoming one. -/
structure IsVictim (q : NodeQueue) (b : Bundle) (i : Nat) (v : Bundle) : Prop where
  get : q.slots[i]? = some v
  lower : classRank v < classRank b
  lowest : ∀ s ∈ q.slots, classRank v ≤ classRank s
  first : ∀ (j : Nat) (s : Bundle), j < i → q.slots[j]? = some s → classRank v < classRank s

/-- Two bundles of the lowest class cannot both be the first. -/
theorem IsVictim.unique {q : NodeQueue} {b v w : Bundle} {i j : Nat} (hv : IsVictim q b i v)
    (hw : IsVictim q b j w) : i = j ∧ v = w := by
  have hij : i = j := by
    rcases lt_trichotomy i j with hlt | heq | hgt
    · have := hw.first i v hlt hv.get
      exact absurd (hv.lowest w (List.mem_of_getElem? hw.get)) (not_le.mpr this)
    · exact heq
    · have := hv.first j w hgt hw.get
      exact absurd (hw.lowest v (List.mem_of_getElem? hv.get)) (not_le.mpr this)
  subst hij
  exact ⟨rfl, Option.some.inj (hv.get.symm.trans hw.get)⟩

/-- What the loop maintains of the best so far: nothing seen is below it, and whatever
    stands before its slot is above it. -/
structure FirstSoFar (incoming : Bundle) (seen : List Bundle) (best : Option Nat × Int) :
    Prop where
  le : best.2 ≤ classRank incoming
  lowest : ∀ s ∈ seen, best.2 ≤ classRank s
  first : ∀ i, best.1 = some i → ∀ (j : Nat) (s : Bundle), j < i → seen[j]? = some s →
    best.2 < classRank s

/-- One slot of the scan. -/
theorem FirstSoFar.step {incoming : Bundle} {seen : List Bundle} {best : Option Nat × Int}
    (h : FirstSoFar incoming seen best) (hbound : ∀ i, best.1 = some i → i < seen.length)
    (s : Bundle) :
    FirstSoFar incoming (seen ++ [s])
      (if classRank s < classRank incoming ∧ classRank s < best.2
        then (some seen.length, classRank s) else best) := by
  split
  · rename_i hlower
    refine ⟨hlower.1.le, fun x hx => ?_, fun i hi j x hj hx => ?_⟩
    · rcases List.mem_append.mp hx with hx | hx
      · exact hlower.2.le.trans (h.lowest x hx)
      · rw [List.mem_singleton.mp hx]
    · cases hi
      rw [List.getElem?_append_left hj] at hx
      exact hlower.2.trans_le (h.lowest x (List.mem_of_getElem? hx))
  · rename_i hnot
    refine ⟨h.le, fun x hx => ?_, fun i hi j x hj hx => ?_⟩
    · rcases List.mem_append.mp hx with hx | hx
      · exact h.lowest x hx
      · rw [List.mem_singleton.mp hx]
        by_contra hlt
        have hlt := not_le.mp hlt
        exact hnot ⟨hlt.trans_le h.le, hlt⟩
    · rw [List.getElem?_append_left (hj.trans (hbound i hi))] at hx
      exact h.first i hi j x hj hx

theorem victimFrom_first (incoming : Bundle) : ∀ (rest seen : List Bundle)
    (best : Option Nat × Int), FirstSoFar incoming seen best →
    (∀ i, best.1 = some i → i < seen.length) →
    FirstSoFar incoming (seen ++ rest) (victimFrom incoming seen.length best rest) := by
  intro rest
  induction rest with
  | nil =>
    intro seen best h _
    rw [List.append_nil]
    exact h
  | cons s rest ih =>
    intro seen best h hbound
    have happ : seen ++ s :: rest = (seen ++ [s]) ++ rest := by simp
    have hlen : (seen ++ [s]).length = seen.length + 1 := by simp
    rw [victimFrom, happ, ← hlen]
    refine ih (seen ++ [s]) _ (h.step hbound s) fun i hi => ?_
    rw [hlen]
    split at hi
    · cases hi
      exact Nat.lt_succ_self _
    · exact (hbound i hi).trans (Nat.lt_succ_self _)

/-- `find_lowest_class_victim` finds the victim. -/
theorem isVictim_of_find {q : NodeQueue} {b : Bundle} {i : Nat}
    (h : findLowestClassVictim q b = some i) : ∃ v, IsVictim q b i v := by
  have hspec := victimFrom_spec b q.slots [] (none, classRank b) (Or.inl ⟨rfl, nofun⟩)
  have hfirst := victimFrom_first b q.slots [] (none, classRank b) ⟨le_refl _, nofun, nofun⟩
    nofun
  rw [List.nil_append, List.length_nil] at hspec hfirst
  unfold findLowestClassVictim at h
  rcases hspec with ⟨heq, _⟩ | ⟨k, v, heq, hget, hlt, hall⟩
  · rw [heq] at h
    cases h
  · rw [heq] at h hfirst
    cases h
    exact ⟨v, hget, hlt, hall, hfirst.first i rfl⟩

theorem find_of_isVictim {q : NodeQueue} {b v : Bundle} {i : Nat} (h : IsVictim q b i v) :
    findLowestClassVictim q b = some i := by
  cases hfind : findLowestClassVictim q b with
  | none =>
    have hspec := victimFrom_spec b q.slots [] (none, classRank b) (Or.inl ⟨rfl, nofun⟩)
    rw [List.nil_append, List.length_nil] at hspec
    unfold findLowestClassVictim at hfind
    rcases hspec with ⟨_, hall⟩ | ⟨k, w, heq, _⟩
    · exact absurd (hall v (List.mem_of_getElem? h.get)) (not_le.mpr h.lower)
    · rw [heq] at hfind
      cases hfind
  | some j =>
    obtain ⟨w, hw⟩ := isVictim_of_find hfind
    rw [(hw.unique h).1]

/-- No victim, no lower class in the queue. -/
theorem le_of_find_none {q : NodeQueue} {b : Bundle} (h : findLowestClassVictim q b = none) :
    ∀ s ∈ q.slots, classRank b ≤ classRank s := by
  have hspec := victimFrom_spec b q.slots [] (none, classRank b) (Or.inl ⟨rfl, nofun⟩)
  rw [List.nil_append, List.length_nil] at hspec
  unfold findLowestClassVictim at h
  rcases hspec with ⟨_, hall⟩ | ⟨k, w, heq, _⟩
  · exact hall
  · rw [heq] at h
    cases h

/-! ## An admission -/

/-- An enumerator survives the cast. -/
theorem classRank_of_code {b : Bundle} {c : BundleClass} (h : b.bundleClass = c.code) :
    classRank b = b.bundleClass.toNat := by
  unfold classRank
  rw [h]
  cases c <;> rfl

/-- Among enumerators the loop compares what the enum orders. -/
theorem classRank_le_iff {s b : Bundle} {c d : BundleClass} (hs : s.bundleClass = c.code)
    (hb : b.bundleClass = d.code) : classRank s ≤ classRank b ↔ s.bundleClass ≤ b.bundleClass := by
  rw [classRank_of_code hs, classRank_of_code hb, UInt32.le_iff_toNat_le, Nat.cast_le]

/-- **What an admitted bundle costs**: nothing where it fits, and otherwise one bundle of the
    lowest class queued, which is below its own. Nothing else is lost or doubled. -/
theorem queueEnqueue_accepted (q : NodeQueue) (b : Bundle) (c : BundleClass)
    (hb : b.bundleClass = c.code)
    (hq : ∀ s ∈ q.slots, ∃ d : BundleClass, s.bundleClass = d.code) :
    ((queueEnqueue q b).1 = 0 → (queueEnqueue q b).2.slots.Perm (b :: q.slots)) ∧
      ((queueEnqueue q b).1 = 1 → ∃ v rest, q.slots.Perm (v :: rest) ∧
        (queueEnqueue q b).2.slots.Perm (b :: rest) ∧ v.bundleClass < b.bundleClass ∧
        (∀ s ∈ q.slots, v.bundleClass ≤ s.bundleClass) ∧
        queueFree q < b.bytes ∧ queueFree q ≤ preemptionThresholdFraction * q.bufCap) := by
  have hcases := queueEnqueue_cases q b
  generalize queueEnqueue q b = res at hcases ⊢
  obtain ⟨rc, q'⟩ := res
  dsimp only at hcases ⊢
  cases hcases with
  | full _ | noPressure _ _ _ | noVictim _ _ _ _ | evictedInVain _ _ _ _ _ _ _ _ =>
    exact ⟨fun hrc => absurd hrc (by decide), fun hrc => absurd hrc (by decide)⟩
  | fits room h =>
    exact ⟨fun _ => List.perm_append_singleton b q.slots, fun hrc => absurd hrc (by decide)⟩
  | preempted i v room tooBig pressure victim get now =>
    refine ⟨fun hrc => absurd hrc (by decide), fun _ => ?_⟩
    obtain ⟨w, hget, hlower, hlowest⟩ := findLowestClassVictim_some victim
    obtain ⟨d, hd⟩ := hq w (List.mem_of_getElem? hget)
    refine ⟨w, swapRemove q.slots i, perm_swapRemove hget, List.perm_append_singleton b _,
      ?_, fun s hs => ?_, tooBig, pressure⟩
    · apply UInt32.not_le.mp
      rw [← classRank_le_iff hb hd]
      exact not_le.mpr hlower
    · obtain ⟨e, he⟩ := hq s hs
      exact (classRank_le_iff hd he).mp (hlowest s hs)

/-- Ninety bytes of housekeeping in a buffer of a hundred, in two bundles. -/
def housekeptQueue : NodeQueue :=
  { queueInit 0 100 none with slots :=
      [{ Bundle.zero with bundleId := 1, size := 45 },
        { Bundle.zero with bundleId := 2, size := 45 }] }

/-- Thirty bytes of command. -/
def smallCommand : Bundle :=
  { Bundle.zero with bundleId := 3, size := 30, bundleClass := BundleClass.command.code }

/-- The repository's own preemption: one of the two goes. -/
theorem queueEnqueue_accepted_smallCommand :
    (queueEnqueue housekeptQueue smallCommand).1 = 1 ∧
      ∃ v rest, housekeptQueue.slots.Perm (v :: rest) ∧
        (queueEnqueue housekeptQueue smallCommand).2.slots.Perm (smallCommand :: rest) ∧
        v.bundleClass < smallCommand.bundleClass ∧
        (∀ s ∈ housekeptQueue.slots, v.bundleClass ≤ s.bundleClass) ∧
        queueFree housekeptQueue < smallCommand.bytes ∧
        queueFree housekeptQueue ≤ preemptionThresholdFraction * housekeptQueue.bufCap := by
  have hrc : (queueEnqueue housekeptQueue smallCommand).1 = 1 := by decide +kernel
  refine ⟨hrc, (queueEnqueue_accepted housekeptQueue smallCommand .command rfl ?_).2 hrc⟩
  intro s hs
  refine ⟨.housekeeping, ?_⟩
  rcases List.mem_cons.mp hs with rfl | hs
  · rfl
  · rw [List.mem_singleton.mp hs]
    rfl

/-! ## A rejection that loses a bundle -/

/-- The free bytes once the victim is out. -/
theorem queueFree_swapRemove {q : NodeQueue} {i : Nat} {v : Bundle}
    (h : q.slots[i]? = some v) :
    queueFree { q with slots := swapRemove q.slots i } = queueFree q + v.bytes := by
  have hload := queueLoad_swapRemove h
  unfold queueFree
  dsimp only
  linarith

/-- Pressure, and a victim whose bytes do not make up for what is missing. -/
def EvictedInVain (q : NodeQueue) (b : Bundle) : Prop :=
  q.slots.length < nodeQueueMax ∧ queueFree q ≤ preemptionThresholdFraction * q.bufCap ∧
    ∃ i v, IsVictim q b i v ∧ queueFree q + v.bytes < b.bytes

/-- In that case, and it is the only one, the victim is gone and the call returns `-1`. -/
theorem queueEnqueue_of_evictedInVain {q : NodeQueue} {b : Bundle} (h : EvictedInVain q b) :
    ∃ i v, q.slots[i]? = some v ∧
      queueEnqueue q b = (-1, { q with slots := swapRemove q.slots i }) := by
  obtain ⟨hroom, hpress, i, v, hv, hstill⟩ := h
  have htoo : queueFree q < b.bytes := by linarith [v.bytes_nonneg]
  refine ⟨i, v, hv.get, ?_⟩
  have hstill' : queueFree { q with slots := swapRemove q.slots i } < b.bytes := by
    rw [queueFree_swapRemove hv.get]
    exact hstill
  unfold queueEnqueue queueCanAccept
  rw [if_neg (not_le.mpr hroom), if_neg (by simpa using htoo), if_neg (not_lt.mpr hpress),
    find_of_isVictim hv]
  dsimp only
  rw [if_pos hstill']

/-- **A rejected enqueue leaves the queue's bundles as they were, except for a victim
    evicted in vain.** -/
theorem queueEnqueue_rejected_keeps (q : NodeQueue) (b : Bundle) :
    ((queueEnqueue q b).1 = -1 → (queueEnqueue q b).2.slots.Perm q.slots) ↔
      ¬ EvictedInVain q b := by
  constructor
  · intro hkeeps hvain
    obtain ⟨i, v, hget, heq⟩ := queueEnqueue_of_evictedInVain hvain
    rw [heq] at hkeeps
    have hlen := (hkeeps rfl).length_eq
    have := length_swapRemove hget
    dsimp only at hlen
    omega
  · intro hvain hrc
    have hcases := queueEnqueue_cases q b
    generalize queueEnqueue q b = res at hcases hrc ⊢
    obtain ⟨rc, q'⟩ := res
    dsimp only at hcases hrc ⊢
    cases hcases with
    | full _ | noPressure _ _ _ | noVictim _ _ _ _ => exact List.Perm.refl _
    | fits _ _ | preempted _ _ _ _ _ _ _ _ => exact absurd hrc (by decide)
    | evictedInVain i v room tooBig pressure victim get still =>
      obtain ⟨w, hw⟩ := isVictim_of_find victim
      rw [queueFree_swapRemove hw.get] at still
      exact absurd ⟨room, pressure, i, w, hw, still⟩ hvain

/-- Sixty bytes of telemetry and thirty-five of command in a buffer of a hundred. -/
def crowdedQueue : NodeQueue :=
  { queueInit 0 100 none with slots :=
      [{ Bundle.zero with size := 60, bundleClass := BundleClass.telemetry.code },
        { Bundle.zero with size := 35, bundleClass := BundleClass.command.code }] }

/-- Seventy bytes of command. -/
def bigCommand : Bundle :=
  { Bundle.zero with size := 70, bundleClass := BundleClass.command.code }

/-- The telemetry goes, and the five bytes that are missing still are. -/
theorem queueEnqueue_crowdedQueue :
    crowdedQueue.slots.length ≤ nodeQueueMax ∧ (queueEnqueue crowdedQueue bigCommand).1 = -1 ∧
      ¬ (queueEnqueue crowdedQueue bigCommand).2.slots.Perm crowdedQueue.slots := by
  decide +kernel

/-! ## A rejection that evicting would have avoided -/

/-- A slot is free, and enough bytes. -/
def FitsAsIs (q : NodeQueue) (b : Bundle) : Prop :=
  q.slots.length < nodeQueueMax ∧ b.bytes ≤ queueFree q

/-- Some of the queued bundles of strictly lower class can go, and what stays leaves a slot
    and the bytes. -/
def RoomByEvicting (q : NodeQueue) (b : Bundle) : Prop :=
  ∃ evicted rest : List Bundle, q.slots.Perm (evicted ++ rest) ∧
    (∀ e ∈ evicted, e.bundleClass < b.bundleClass) ∧
    FitsAsIs { q with slots := rest } b

/-- The queued bundles of strictly lower class. -/
def lowerClass (q : NodeQueue) (b : Bundle) : List Bundle :=
  q.slots.filter fun s => decide (s.bundleClass < b.bundleClass)

def notLowerClass (q : NodeQueue) (b : Bundle) : List Bundle :=
  q.slots.filter fun s => !decide (s.bundleClass < b.bundleClass)

theorem perm_lowerClass (q : NodeQueue) (b : Bundle) :
    q.slots.Perm (lowerClass q b ++ notLowerClass q b) :=
  (List.filter_append_perm _ _).symm

theorem queueLoad_of_perm {q : NodeQueue} {xs ys : List Bundle} (h : q.slots.Perm (xs ++ ys)) :
    queueLoad q = (xs.map Bundle.bytes).sum + queueLoad { q with slots := ys } := by
  unfold queueLoad
  rw [(h.map Bundle.bytes).sum_eq, List.map_append, List.sum_append]

/-- Evicting every lower class there is frees the most. -/
theorem roomByEvicting_iff {q : NodeQueue} (hcount : q.slots.length ≤ nodeQueueMax)
    (b : Bundle) : RoomByEvicting q b ↔
      b.bytes ≤ queueFree q + ((lowerClass q b).map Bundle.bytes).sum ∧
        (q.slots.length < nodeQueueMax ∨ lowerClass q b ≠ []) := by
  constructor
  · rintro ⟨evicted, rest, hperm, hlower, hroom, hbytes⟩
    have hload := queueLoad_of_perm hperm
    have hfilter : (lowerClass q b).Perm (evicted ++ rest.filter
        fun s => decide (s.bundleClass < b.bundleClass)) := by
      have := hperm.filter fun s => decide (s.bundleClass < b.bundleClass)
      rwa [List.filter_append, List.filter_eq_self.mpr
        fun e he => decide_eq_true (hlower e he)] at this
    have hsum := (hfilter.map Bundle.bytes).sum_eq
    rw [List.map_append, List.sum_append] at hsum
    have hnonneg : 0 ≤ ((rest.filter
        fun s => decide (s.bundleClass < b.bundleClass)).map Bundle.bytes).sum := by
      apply List.sum_nonneg
      intro x hx
      obtain ⟨s, _, rfl⟩ := List.mem_map.mp hx
      exact s.bytes_nonneg
    refine ⟨?_, ?_⟩
    · unfold queueFree at hbytes ⊢
      dsimp only at hbytes
      linarith
    · rcases hcount.lt_or_eq with hlt | heq
      · exact Or.inl hlt
      · refine Or.inr fun hnil => ?_
        rw [hnil] at hfilter
        have hnone : evicted = [] := (List.append_eq_nil_iff.mp hfilter.symm.eq_nil).1
        have hlen := hperm.length_eq
        rw [hnone, List.nil_append] at hlen
        dsimp only at hroom
        omega
  · rintro ⟨hbytes, hslot⟩
    have hperm := perm_lowerClass q b
    refine ⟨lowerClass q b, notLowerClass q b, hperm, fun e he => ?_, ?_, ?_⟩
    · exact of_decide_eq_true (List.mem_filter.mp he).2
    · have hlen := hperm.length_eq
      rw [List.length_append] at hlen
      dsimp only
      rcases hslot with hlt | hne
      · omega
      · have := List.length_pos_iff.mpr hne
        omega
    · have hload := queueLoad_of_perm hperm
      unfold queueFree at hbytes ⊢
      dsimp only
      linarith

/-- Evicting the lower classes would free the bytes, and either it would also free the slot
    that is missing, or the code does not evict, or not enough. -/
def RefusedInVain (q : NodeQueue) (b : Bundle) : Prop :=
  b.bytes ≤ queueFree q + ((lowerClass q b).map Bundle.bytes).sum ∧
    (q.slots.length = nodeQueueMax ∧ lowerClass q b ≠ [] ∨
      q.slots.length < nodeQueueMax ∧ queueFree q < b.bytes ∧
        (preemptionThresholdFraction * q.bufCap < queueFree q ∨
          ∃ i v, IsVictim q b i v ∧ queueFree q + v.bytes < b.bytes))

theorem classRank_lt_of_lower {s b : Bundle} {c : BundleClass} (hb : b.bundleClass = c.code)
    (h : s.bundleClass < b.bundleClass) : classRank s < classRank b := by
  have hlt : s.bundleClass.toNat < c.code.toNat := by
    rw [hb] at h
    exact h
  have hthree : c.code.toNat ≤ 3 := by cases c <;> decide
  obtain ⟨d, hd⟩ : ∃ d : BundleClass, s.bundleClass = d.code := by
    have hcases : s.bundleClass.toNat = 0 ∨ s.bundleClass.toNat = 1 ∨
        s.bundleClass.toNat = 2 := by omega
    rcases hcases with h0 | h1 | h2
    · exact ⟨.housekeeping, UInt32.toNat_inj.mp h0⟩
    · exact ⟨.telemetry, UInt32.toNat_inj.mp h1⟩
    · exact ⟨.science, UInt32.toNat_inj.mp h2⟩
  rw [classRank_of_code hd, classRank_of_code hb, hb]
  exact_mod_cast hlt

/-- Where a lower class is queued there is a victim. -/
theorem exists_isVictim {q : NodeQueue} {b : Bundle} {c : BundleClass}
    (hb : b.bundleClass = c.code) (h : lowerClass q b ≠ []) : ∃ i v, IsVictim q b i v := by
  cases hfind : findLowestClassVictim q b with
  | none =>
    obtain ⟨s, hs⟩ := List.exists_mem_of_ne_nil _ h
    obtain ⟨hmem, hlow⟩ := List.mem_filter.mp hs
    have hlt := classRank_lt_of_lower hb (of_decide_eq_true hlow)
    exact absurd (le_of_find_none hfind s hmem) (not_le.mpr hlt)
  | some i =>
    obtain ⟨v, hv⟩ := isVictim_of_find hfind
    exact ⟨i, v, hv⟩

/-- When the code returns `-1`. -/
theorem queueEnqueue_rejected_iff (q : NodeQueue) (b : Bundle) :
    (queueEnqueue q b).1 = -1 ↔ nodeQueueMax ≤ q.slots.length ∨
      queueFree q < b.bytes ∧ (preemptionThresholdFraction * q.bufCap < queueFree q ∨
        (∀ i v, ¬ IsVictim q b i v) ∨
        ∃ i v, IsVictim q b i v ∧ queueFree q + v.bytes < b.bytes) := by
  have hcases := queueEnqueue_cases q b
  generalize queueEnqueue q b = res at hcases ⊢
  obtain ⟨rc, q'⟩ := res
  dsimp only at hcases ⊢
  cases hcases with
  | full h => exact ⟨fun _ => Or.inl h, fun _ => rfl⟩
  | fits room h =>
    refine ⟨fun hrc => absurd hrc (by decide), fun hor => ?_⟩
    rcases hor with hfull | ⟨htoo, _⟩
    · omega
    · exact absurd h (not_le.mpr htoo)
  | noPressure room tooBig h => exact ⟨fun _ => Or.inr ⟨tooBig, Or.inl h⟩, fun _ => rfl⟩
  | noVictim room tooBig pressure h =>
    refine ⟨fun _ => Or.inr ⟨tooBig, Or.inr (Or.inl fun i v hv => ?_)⟩, fun _ => rfl⟩
    rw [find_of_isVictim hv] at h
    cases h
  | evictedInVain i v room tooBig pressure victim get still =>
    obtain ⟨w, hw⟩ := isVictim_of_find victim
    rw [queueFree_swapRemove hw.get] at still
    exact ⟨fun _ => Or.inr ⟨tooBig, Or.inr (Or.inr ⟨i, w, hw, still⟩)⟩, fun _ => rfl⟩
  | preempted i v room tooBig pressure victim get now =>
    obtain ⟨w, hw⟩ := isVictim_of_find victim
    rw [queueFree_swapRemove hw.get] at now
    refine ⟨fun hrc => absurd hrc (by decide), fun hor => ?_⟩
    rcases hor with hfull | ⟨_, hfree | hnone | ⟨j, x, hx, hstill⟩⟩
    · omega
    · exact absurd hfree (not_lt.mpr pressure)
    · exact absurd hw (hnone i w)
    · obtain ⟨rfl, rfl⟩ := hw.unique hx
      exact absurd hstill (not_lt.mpr now)

/-- **A bundle of one of the four classes is refused only where no eviction of lower
    classes would admit it, except where it is refused in vain.** -/
theorem queueEnqueue_rejected_means (q : NodeQueue) (b : Bundle) (c : BundleClass)
    (hcount : q.slots.length ≤ nodeQueueMax) (hb : b.bundleClass = c.code) :
    ((queueEnqueue q b).1 = -1 → ¬ FitsAsIs q b ∧ ¬ RoomByEvicting q b) ↔
      ¬ RefusedInVain q b := by
  rw [queueEnqueue_rejected_iff, roomByEvicting_iff hcount]
  constructor
  · rintro hmeans ⟨hbytes, ⟨hfull, hne⟩ | ⟨hroom, htoo, hwhy⟩⟩
    · exact (hmeans (Or.inl hfull.ge)).2 ⟨hbytes, Or.inr hne⟩
    · refine (hmeans (Or.inr ⟨htoo, ?_⟩)).2 ⟨hbytes, Or.inl hroom⟩
      exact hwhy.imp_right Or.inr
  · intro hvain hrej
    refine ⟨fun ⟨hroom, hfits⟩ => ?_, fun ⟨hbytes, hslot⟩ => hvain ⟨hbytes, ?_⟩⟩
    · rcases hrej with hfull | ⟨htoo, _⟩
      · omega
      · exact absurd hfits (not_le.mpr htoo)
    · rcases hcount.lt_or_eq with hroom | hfull
      · rcases hrej with hfull | ⟨htoo, hfree | hnone | hsmall⟩
        · omega
        · exact Or.inr ⟨hroom, htoo, Or.inl hfree⟩
        · -- with no victim there is no lower class to evict, and the bytes are missing
          have hnil : lowerClass q b = [] := by
            by_contra hne
            obtain ⟨i, v, hv⟩ := exists_isVictim hb hne
            exact hnone i v hv
          rw [hnil, List.map_nil, List.sum_nil, add_zero] at hbytes
          exact absurd hbytes (not_le.mpr htoo)
        · exact Or.inr ⟨hroom, htoo, Or.inr hsmall⟩
      · exact Or.inl ⟨hfull, hslot.resolve_left (by omega)⟩

/-- Sixteen slots of ten bytes of housekeeping, in a buffer of ten thousand. -/
def fullOfHousekeeping : NodeQueue :=
  { queueInit 0 10000 none with slots := List.replicate 16 { Bundle.zero with size := 10 } }

/-- The command is refused, though any of the sixteen could go. -/
theorem queueEnqueue_fullOfHousekeeping :
    QueueOk fullOfHousekeeping ∧ bigCommand.bundleClass = BundleClass.command.code ∧
      (queueEnqueue fullOfHousekeeping bigCommand).1 = -1 ∧
      RoomByEvicting fullOfHousekeeping bigCommand := by
  refine ⟨⟨by decide, by decide +kernel⟩, rfl, by decide +kernel, ?_⟩
  refine ⟨[{ Bundle.zero with size := 10 }],
    List.replicate 15 { Bundle.zero with size := 10 }, ?_, by decide, ?_, ?_⟩
  · exact List.Perm.refl _
  · decide
  · decide +kernel

/-- With room for it, the command is queued, and nothing was refused in vain. -/
theorem queueEnqueue_rejected_means_bigCommand :
    bigCommand.bundleClass = BundleClass.command.code ∧
      (((queueEnqueue (queueInit 0 100 none) bigCommand).1 = -1 →
          ¬ FitsAsIs (queueInit 0 100 none) bigCommand ∧
            ¬ RoomByEvicting (queueInit 0 100 none) bigCommand) ↔
        ¬ RefusedInVain (queueInit 0 100 none) bigCommand) :=
  ⟨rfl, queueEnqueue_rejected_means (queueInit 0 100 none) bigCommand .command (by decide) rfl⟩

end DtnHardware
