import DtnHardware.Core.CustodyMap
import DtnHardware.Lib.Machine
import DtnHardware.Node.Forwarding

/-!
# The timeout loop of a tick

`node_tick` begins with a loop over the custody table that removes from the table while it
counts through it. A release moves the last record into slot `i`, and `i` then stays where it
is; both the question and the release go by the bundle id and not by the slot.

`timeoutLoop` is that loop as a machine, one trip a step. Each trip either passes a record or
releases one, so that `count - i` goes down whatever the table holds (`timeoutLoop_run`): the
loop ends, and in the node that `NodeState.sweep` names. That it releases the records that are
due and no others takes ids that are distinct, and in a table that transfers and releases have
built they are (`answers_isMap`).
-/

set_option autoImplicit false

namespace DtnHardware

open GuardedCalls StepMachine

/-- The loop's variables: the index, and the node. -/
structure TimeoutLoop where
  i : Nat
  ns : NodeState

/-- The body of the loop for the record `r` in slot `i`. -/
def timeoutTrip (t : ℚ) (s : TimeoutLoop) (r : CustodyRecord) : TimeoutLoop :=
  if custodyIsTimedOut s.ns.custody r.bundleId t then
    let ns := s.ns.emit (.fin t) .custodyTimeout r.bundleId "custodian=%u" [.u r.custodian.toNat]
    { s with ns := { ns with custody := custodyRelease ns.custody r.bundleId } }
  else { s with i := s.i + 1 }

/-- `for (i = 0; i < custody.count; )`, which cannot fault. -/
def timeoutLoop (t : ℚ) : Machine Empty TimeoutLoop where
  step s := .ok ((s.ns.custody.records[s.i]?).elim s (timeoutTrip t s))
  done s := decide (s.ns.custody.records.length ≤ s.i)

section
variable {t : ℚ} {s : TimeoutLoop} {r : CustodyRecord}

theorem timeoutLoop_steps (h : s.ns.custody.records[s.i]? = some r) :
    (timeoutLoop t).Steps s (timeoutTrip t s r) := by
  have hlt := (List.getElem?_eq_some_iff.mp h).1
  refine ⟨decide_eq_false (not_le.mpr hlt), ?_⟩
  change Except.ok ((s.ns.custody.records[s.i]?).elim s (timeoutTrip t s)) = _
  rw [h]
  rfl

/-- What is timed out is in the table, and its release takes one record out. -/
theorem length_custodyRelease {cm : CustodyManager} {bundleId : UInt64}
    (h : custodyIsTimedOut cm bundleId t = true) :
    (custodyRelease cm bundleId).records.length + 1 = cm.records.length := by
  cases hf : custodyFind cm bundleId with
  | none =>
    have hget : custodyGet cm bundleId = none := by
      apply List.find?_eq_none.mpr
      intro r hr
      simpa using custodyFind_none.mp hf r hr
    rw [custodyIsTimedOut, hget] at h
    cases h
  | some i =>
    obtain ⟨r, hget, _⟩ := custodyFind_some hf
    rw [custodyRelease, hf]
    exact ArrayLoops.length_swapRemove hget

/-- **The loop ends**, after at most `count - i` trips, and in the node of `custodySweep`. -/
theorem timeoutLoop_run (t : ℚ) (n i : Nat) (ns : NodeState)
    (hn : ns.custody.records.length = i + n) :
    ∃ i', (timeoutLoop t).run n ⟨i, ns⟩ = .ok ⟨i', { ns with
        custody := (custodySweep t n i ns.custody).2
        trace := ns.trace ++ (custodySweep t n i ns.custody).1.map (timeoutTrace ns t) }⟩ ∧
      (custodySweep t n i ns.custody).2.records.length ≤ i' := by
  induction n generalizing i ns with
  | zero =>
    refine ⟨i, ?_, hn.le⟩
    rw [custodySweep, List.map_nil, List.append_nil]
    rfl
  | succ n ih =>
    have hlt : i < ns.custody.records.length := by omega
    have hget : ns.custody.records[i]? = some ns.custody.records[i] := List.getElem?_eq_getElem hlt
    generalize ns.custody.records[i] = r at hget
    have hstep := timeoutLoop_steps (t := t) (s := ⟨i, ns⟩) hget
    rw [Machine.run_step hstep, custodySweep, hget]
    dsimp only
    cases hdue : custodyIsTimedOut ns.custody r.bundleId t with
    | true =>
      have hlen := length_custodyRelease hdue
      obtain ⟨i', hrun, hend⟩ := ih i { ns with
        custody := custodyRelease ns.custody r.bundleId
        trace := ns.trace ++ [timeoutTrace ns t r] } (by dsimp only; omega)
      refine ⟨i', ?_, hend⟩
      have htrip : timeoutTrip t ⟨i, ns⟩ r = ⟨i, { ns with
          custody := custodyRelease ns.custody r.bundleId
          trace := ns.trace ++ [timeoutTrace ns t r] }⟩ := by
        rw [timeoutTrip, hdue]
        rfl
      rw [htrip, hrun]
      dsimp only
      rw [List.append_assoc]
      rfl
    | false =>
      have htrip : timeoutTrip t ⟨i, ns⟩ r = ⟨i + 1, ns⟩ := by
        rw [timeoutTrip, hdue]
        rfl
      rw [htrip]
      exact ih (i + 1) ns (by omega)

theorem custodySweep_defaultTimeout (t : ℚ) (n i : Nat) (cm : CustodyManager) :
    (custodySweep t n i cm).2.defaultTimeout = cm.defaultTimeout := by
  induction n generalizing i cm with
  | zero => rfl
  | succ n ih =>
    unfold custodySweep
    split
    · rfl
    · rename_i r _
      split
      · -- a release changes nothing but the records
        refine (ih i _).trans ?_
        unfold custodyRelease
        split <;> rfl
      · exact ih (i + 1) cm

end

/-- A list in two parts, of which the first satisfies `p` and the second does not. -/
theorem perm_filter {α : Type} {p : α → Bool} {l xs ys : List α} (hperm : l.Perm (xs ++ ys))
    (hxs : ∀ x ∈ xs, p x = true) (hys : ∀ y ∈ ys, p y = false) : xs.Perm (l.filter p) := by
  have hfilter := hperm.filter p
  have hnone : ys.filter p = [] := List.filter_eq_nil_iff.mpr fun y hy => by simp [hys y hy]
  rw [List.filter_append, List.filter_eq_self.mpr hxs, hnone, List.append_nil] at hfilter
  exact hfilter.symm

/-- **The custody timeouts of a tick**, on any node whose table was built by transfers and
    releases: the loop ends, the records that stay are those not yet due, and each of the
    others is reported once, with its bundle and its custodian. Nothing of the node changes but
    the table and the trace. -/
theorem timeoutLoop_releases (timeout t : ℚ) (ops : List CustodyOp) (ns : NodeState) :
    let cm := (answers custodyCall (custodyInit timeout) ops).2
    let before : NodeState := { ns with custody := cm }
    ∃ (i : Nat) (after : NodeState) (out : List CustodyRecord),
      (timeoutLoop t).run cm.records.length ⟨0, before⟩ = .ok ⟨i, after⟩ ∧
      (timeoutLoop t).done ⟨i, after⟩ = true ∧
      after = before.sweep t ∧
      after = { before with
        custody := { cm with records := after.custody.records }
        trace := ns.trace ++ out.map (timeoutTrace ns t) } ∧
      after.custody.records.Perm (cm.records.filter fun r => decide (t < r.timeout)) ∧
      out.Perm (cm.records.filter fun r => decide (r.timeout ≤ t)) := by
  intro cm before
  have hmap := (answers_isMap timeout ops).2
  obtain ⟨hperm, hout, hleft⟩ := custodySweep_perm hmap.nodup t
  have hgoes := perm_filter (p := fun r => decide (r.timeout ≤ t)) hperm
    (fun r hr => decide_eq_true (hout r hr))
    fun r hr => decide_eq_false (not_le.mpr (hleft r hr))
  have hstays := perm_filter (p := fun r => decide (t < r.timeout))
    (hperm.trans List.perm_append_comm) (fun r hr => decide_eq_true (hleft r hr))
    fun r hr => decide_eq_false (not_lt.mpr (hout r hr))
  obtain ⟨i, hrun, hend⟩ := timeoutLoop_run t cm.records.length 0 before (Nat.zero_add _).symm
  refine ⟨i, before.sweep t, before.timedOut t, hrun, decide_eq_true hend, rfl, ?_, hstays, hgoes⟩
  have hdefault := custodySweep_defaultTimeout t cm.records.length 0 cm
  have hcustody : (custodySweep t cm.records.length 0 cm).2
      = { cm with records := (before.sweep t).custody.records } := by
    rw [← hdefault]
    rfl
  exact congrArg (fun custody => { before with
    custody, trace := ns.trace ++ (before.timedOut t).map (timeoutTrace ns t) }) hcustody

end DtnHardware
