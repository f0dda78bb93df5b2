import DtnHardware.Node.Forwarding

/-!
# Clock synchronisation

The platform's clock already contains the offset: it passes `r + time_offset` as
`local_t`, and the handler sets `time_offset = gs_time - local_t`. So the new offset is
the wanted one minus the old one, and the clock is off by the old offset until the next
sync (`dtnTime_syncStep`). The first sync of a node that was never synced is right, and
every sync after a nonzero offset is wrong.
-/

set_option autoImplicit false

namespace DtnHardware

/-- The frame is a time-sync frame, and the ground time in it is the rational `g`. -/
def CarriesTime (frame : List UInt8) (g : ℚ) : Prop :=
  6 ≤ frame.length ∧ getU16 frame 0 = .ok timeSyncMagic ∧
    ∃ gs : F32, getF32 frame 2 = .ok gs ∧ gs.value = .fin g

/-- A sync: the raw clock when the frame is handled, and the ground time it carries. -/
structure SyncEvent where
  raw : ℚ
  ground : ℚ
  frame : List UInt8
  carries : CarriesTime frame ground

/-- The platform hands the frame over, with its own clock as `local_t`. -/
def syncStep (ns : NodeState) (e : SyncEvent) : NodeState :=
  match nodeTryHandleTimeSync ns (ns.dtnTime e.raw) e.frame with
  | .ok (_, ns') => ns'
  | .error _ => ns

/-- After each sync the DTN time at the raw clock `r` is the ground time of that sync plus
    the time since. -/
def KeepsTime : NodeState → List SyncEvent → Prop
  | _, [] => True
  | ns, e :: es =>
      (∀ r, (syncStep ns e).dtnTime r = .fin (e.ground + (r - e.raw))) ∧
        KeepsTime (syncStep ns e) es

/-- The handler takes every such frame, and sets the offset from the clock it was given. -/
theorem nodeTryHandleTimeSync_of_carries {frame : List UInt8} {g : ℚ}
    (h : CarriesTime frame g) (ns : NodeState) (localT : Flt) :
    ∃ ns', nodeTryHandleTimeSync ns localT frame = .ok (1, ns') ∧
      ns'.timeOffset = (Flt.fin g).sub localT ∧ ns'.timeSynced = true := by
  obtain ⟨hlen, hmagic, gs, hgs, hval⟩ := h
  unfold nodeTryHandleTimeSync
  rw [if_neg (not_lt.mpr hlen), hmagic, hgs]
  exact ⟨_, rfl, by rw [← hval]; rfl, rfl⟩

theorem timeOffset_syncStep {ns : NodeState} {o : ℚ} (ho : ns.timeOffset = .fin o)
    (e : SyncEvent) : (syncStep ns e).timeOffset = .fin (e.ground - (e.raw + o)) := by
  obtain ⟨ns', heq, hoff, _⟩ := nodeTryHandleTimeSync_of_carries e.carries ns (ns.dtnTime e.raw)
  rw [syncStep, heq, hoff, NodeState.dtnTime, ho, Flt.add_fin, Flt.sub_fin]

/-- **After a sync the clock is off by exactly the offset before it.** -/
theorem dtnTime_syncStep {ns : NodeState} {o : ℚ} (ho : ns.timeOffset = .fin o)
    (e : SyncEvent) (r : ℚ) :
    (syncStep ns e).dtnTime r = .fin (e.ground + (r - e.raw) - o) := by
  rw [NodeState.dtnTime, timeOffset_syncStep ho, Flt.add_fin]
  congr 1
  ring

/-- One sync is right exactly when there was no offset before it. -/
theorem dtnTime_syncStep_iff {ns : NodeState} {o : ℚ} (ho : ns.timeOffset = .fin o)
    (e : SyncEvent) :
    (∀ r, (syncStep ns e).dtnTime r = .fin (e.ground + (r - e.raw))) ↔ o = 0 := by
  constructor
  · intro h
    have h0 := (dtnTime_syncStep ho e 0).symm.trans (h 0)
    rw [Flt.fin.injEq] at h0
    linarith
  · rintro rfl r
    rw [dtnTime_syncStep ho, sub_zero]

theorem keepsTime_of_offset : ∀ (es : List SyncEvent) (ns : NodeState) (o : ℚ),
    ns.timeOffset = .fin o →
    (KeepsTime ns es ↔ es = [] ∨ o = 0 ∧ ∀ e ∈ es.dropLast, e.ground = e.raw) := by
  intro es
  induction es with
  | nil => exact fun ns o _ => ⟨fun _ => Or.inl rfl, fun _ => trivial⟩
  | cons e es ih =>
    intro ns o ho
    rw [KeepsTime, dtnTime_syncStep_iff ho, ih _ _ (timeOffset_syncStep ho e)]
    cases es with
    | nil => simp
    | cons e' es =>
      -- the next offset is zero when this one is and the frame carried the raw clock
      have hnext : o = 0 → (e.ground - (e.raw + o) = 0 ↔ e.ground = e.raw) := by
        rintro rfl
        rw [add_zero, sub_eq_zero]
      simp only [reduceCtorEq, false_or, List.dropLast_cons_cons, List.mem_cons,
        forall_eq_or_imp]
      constructor
      · rintro ⟨h0, hoff, hall⟩
        exact ⟨h0, (hnext h0).mp hoff, hall⟩
      · rintro ⟨h0, hraw, hall⟩
        exact ⟨h0, (hnext h0).mpr hraw, hall⟩

/-- **A sequence of syncs keeps the time exactly when there is no offset before any of
    them**: none at the start, and every frame but the last carries the raw clock. -/
theorem keepsTime_iff (ns : NodeState) (o : ℚ) (es : List SyncEvent) :
    KeepsTime { ns with timeOffset := .fin o } es ↔
      es = [] ∨ o = 0 ∧ ∀ e ∈ es.dropLast, e.ground = e.raw :=
  keepsTime_of_offset es _ o rfl

/-! ### Two syncs, a hundred seconds apart -/

/-- At raw clock 100 the ground says 1000, at 200 it says 1100. -/
def twoSyncs : List SyncEvent :=
  [{ raw := 100, ground := 1000, frame := timeSyncFrame ⟨0x447A0000⟩
     carries := ⟨by decide, by decide, ⟨0x447A0000⟩, by decide, by decide +kernel⟩ },
   { raw := 200, ground := 1100, frame := timeSyncFrame ⟨0x44898000⟩
     carries := ⟨by decide, by decide, ⟨0x44898000⟩, by decide, by decide +kernel⟩ }]

theorem twoSyncs_lose_time : ¬ ∀ (ns : NodeState) (o : ℚ) (es : List SyncEvent),
    ns.timeOffset = .fin o → (es.map SyncEvent.raw).Pairwise (· ≤ ·) → KeepsTime ns es := by
  intro h
  have hkeeps := h (nodeStateInit 0 0 none) 0 twoSyncs rfl (by simp [twoSyncs]; norm_num)
  rw [keepsTime_of_offset _ _ 0 rfl] at hkeeps
  rcases hkeeps with hnil | ⟨_, hall⟩
  · cases hnil
  · have hraw : (1000 : ℚ) = 100 := hall _ List.mem_cons_self
    norm_num at hraw

end DtnHardware
