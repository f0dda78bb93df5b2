import DtnHardware.Core.PlanRoundTrip

/-!
# When objects leak into each other

A search for a number that the object leaves out does not stop at the closing brace. If the key
is found in a later object (`Mentions`), the number is taken from there and the cursor with it,
so that whatever it passes over is lost; if what is found is a node id spelled like the key, a
string may stand behind the next colon, the number cannot be read and `NULL` is searched next.

> **A plan is read as it is meant exactly if its objects are apart**
> (`contactPlanLoadJson_apart`): the objects that are passed over are missing from the count,
> which is at most one for each object that a trip begins with (`count_le`).

Beyond `CONTACT_PLAN_MAX` objects a missing one need not show in the count.
-/

set_option autoImplicit false

namespace DtnHardware

open StepMachine CString Tokens

variable {F : Strtof}

/-! ## One search -/

section
variable {k : NumKey} {os : List (PlanObject F)} {fs : List (NumKey × Numeral F)}
  {p : List UInt8} {out : ℚ}

/-- Where one statement can leave the cursor: at `NULL`, or among the numbers of an object with
    the later objects `os'`, of which `P` holds. -/
def LeavesAt (P : List (PlanObject F) → Prop)
    (r : Except Stray (ℚ × Option (List UInt8))) : Prop :=
  ∃ v, r = .ok (v, none) ∨ ∃ q fs os', r = .ok (v, some q) ∧
    CursorAt (restTokens (F := F) fs os') q ∧ P os'

theorem numberField_found {ts : List Token} (h : CursorAt (restTokens fs os) p)
    (hfound : Found k.name (restTokens fs os) ts) {P : List (PlanObject F) → Prop}
    (hts : (∃ s ts', ts = .quoted s :: ts') ∨
      ∃ (n : Numeral F) (fs' : List (NumKey × Numeral F)) (os' : List (PlanObject F)),
        ts = .bare n.digits :: restTokens fs' os' ∧ P os') :
    LeavesAt P (numberField F k.name (some p) out) := by
  obtain ⟨q, hcolon, hq⟩ := h.keyColon k.isWord_name hfound
  rcases hts with ⟨s, ts', rfl⟩ | ⟨n, fs', os', rfl, hP⟩
  · exact ⟨out, Or.inl (numberField_unread hcolon hq.readNumber_quoted)⟩
  · obtain ⟨stop, hread, hstop⟩ := hq.readNumber (endsField_restTokens fs' os')
    exact ⟨n.value, Or.inr ⟨stop, fs', os', numberField_read hcolon hread, hstop, hP⟩⟩

/-- **A leak**: the number is taken from a later object, or there is none. -/
theorem numberField_leak (h : CursorAt (restTokens fs os) p) (hk : ∀ e ∈ fs, e.1 ≠ k)
    (hyes : Mentions k os) : LeavesAt (fun os' : List (PlanObject F) => os' <:+ os ∧
      os'.length < os.length) (numberField F k.name (some p) out) := by
  rcases rest_cases hk os with ⟨hno, _⟩ | ⟨_, ts, hfound, hforeign⟩
  · exact absurd hyes hno
  · exact numberField_found h hfound hforeign

/-- In any case the cursor does not move back. -/
theorem numberField_moves (h : CursorAt (restTokens fs os) p) :
    LeavesAt (fun os' : List (PlanObject F) => os' <:+ os)
      (numberField F k.name (some p) out) := by
  by_cases hk : ∃ e ∈ fs, e.1 = k
  · obtain ⟨n, fs', hfound⟩ := found_fields hk os
    exact numberField_found h hfound (Or.inr ⟨n, fs', os, rfl, List.suffix_rfl⟩)
  · have hk' : ∀ e ∈ fs, e.1 ≠ k := fun e he hek => hk ⟨e, he, hek⟩
    rcases rest_cases hk' os with ⟨hno, _⟩ | ⟨_, ts, hfound, hforeign⟩
    · exact ⟨out, Or.inr ⟨p, fs, os, numberField_silent out h hk' hno, h, List.suffix_rfl⟩⟩
    · refine numberField_found h hfound (hforeign.imp_right ?_)
      rintro ⟨n, fs', os', rfl, hsuf, _⟩
      exact ⟨n, fs', os', rfl, hsuf⟩

end

/-! ## The numbers of one trip -/

/-- Where the six statements together can leave the cursor. -/
def EndsAt (P : List (PlanObject F) → Prop)
    (r : Except Stray ((NumKey → ℚ) × Option (List UInt8))) : Prop :=
  r = .error .null ∨ (∃ vals, r = .ok (vals, none)) ∨
    ∃ vals q fs os', r = .ok (vals, some q) ∧ CursorAt (restTokens (F := F) fs os') q ∧ P os'

/-- From `NULL` nothing can be read. -/
theorem endsAt_null (P : List (PlanObject F) → Prop) (ks : List NumKey) (vals : NumKey → ℚ) :
    EndsAt P (numberFields F ks none vals) := by
  cases ks with
  | nil => exact Or.inr (Or.inl ⟨vals, rfl⟩)
  | cons k ks => exact Or.inl rfl

/-- One statement, and then the others. -/
theorem EndsAt.cons {k : NumKey} {ks : List NumKey} {p : List UInt8} {vals : NumKey → ℚ}
    {P P' : List (PlanObject F) → Prop}
    (h : LeavesAt P (numberField F k.name (some p) k.initial))
    (hrest : ∀ q fs os' vals', CursorAt (restTokens (F := F) fs os') q → P os' →
      EndsAt P' (numberFields F ks (some q) vals')) :
    EndsAt P' (numberFields F (k :: ks) (some p) vals) := by
  obtain ⟨v, hv | ⟨q, fs, os', hv, hq, hP⟩⟩ := h
  · rw [numberFields, hv]
    exact endsAt_null P' ks _
  · rw [numberFields, hv]
    exact hrest q fs os' _ hq hP

theorem numberFields_moves (ks : List NumKey) {os : List (PlanObject F)}
    {fs : List (NumKey × Numeral F)} {p : List UInt8} (h : CursorAt (restTokens fs os) p)
    (vals : NumKey → ℚ) : EndsAt (fun os' : List (PlanObject F) => os' <:+ os)
      (numberFields F ks (some p) vals) := by
  induction ks generalizing os fs p vals with
  | nil => exact Or.inr (Or.inr ⟨vals, p, fs, os, rfl, h, List.suffix_rfl⟩)
  | cons k ks ih =>
    refine EndsAt.cons (numberField_moves h) fun q fs' os' vals' hq hsuf => ?_
    rcases ih hq vals' with hend | hend | ⟨vals'', q', fs'', os'', hrun, hq', hsuf'⟩
    · exact Or.inl hend
    · exact Or.inr (Or.inl hend)
    · exact Or.inr (Or.inr ⟨vals'', q', fs'', os'', hrun, hq', hsuf'.trans hsuf⟩)

/-- **A trip with a leak passes over an object**, or it ends at `NULL`. -/
theorem numberFields_leak {o : PlanObject F} {os : List (PlanObject F)} {ks : List NumKey}
    (hnodup : ks.Nodup) {p : List UInt8} (h : CursorAt (restTokens (o.fieldsOf ks) os) p)
    (hleak : ∃ k ∈ ks, o.number k = none ∧ Mentions k os) (vals : NumKey → ℚ) :
    EndsAt (fun os' : List (PlanObject F) => os' <:+ os ∧ os'.length < os.length)
      (numberFields F ks (some p) vals) := by
  induction ks generalizing p vals with
  | nil => simp at hleak
  | cons k ks ih =>
    obtain ⟨hk, hnodup'⟩ := List.nodup_cons.mp hnodup
    have hothers : ∀ e ∈ o.fieldsOf ks, e.1 ≠ k := by
      intro e he hek
      exact hk (hek ▸ (PlanObject.mem_fieldsOf he).1)
    by_cases hfirst : o.number k = none ∧ Mentions k os
    · rw [PlanObject.fieldsOf_cons_none hfirst.1] at h
      refine EndsAt.cons (numberField_leak h hothers hfirst.2) fun q fs os' vals' hq hos' => ?_
      rcases numberFields_moves ks hq vals' with hend | hend | ⟨vals'', q', fs', os'', hrun, hq', hsuf⟩
      · exact Or.inl hend
      · exact Or.inr (Or.inl hend)
      · exact Or.inr (Or.inr ⟨vals'', q', fs', os'', hrun, hq', hsuf.trans hos'.1,
          hsuf.length_le.trans_lt hos'.2⟩)
    · -- the leak is at one of the other keys
      have hleak' : ∃ k' ∈ ks, o.number k' = none ∧ Mentions k' os := by
        obtain ⟨k', hk', hboth⟩ := hleak
        rcases List.mem_cons.mp hk' with rfl | hk'
        · exact absurd hboth hfirst
        · exact ⟨k', hk', hboth⟩
      cases hn : o.number k with
      | some n =>
        rw [PlanObject.fieldsOf_cons_some hn] at h
        obtain ⟨q, hread, hq⟩ := numberField_own k.initial h
        rw [numberFields, hread]
        exact ih hnodup' hq hleak' _
      | none =>
        rw [PlanObject.fieldsOf_cons_none hn] at h
        have hno : ¬ Mentions k os := fun hyes => hfirst ⟨hn, hyes⟩
        rw [numberFields, numberField_silent k.initial h hothers hno]
        exact ih hnodup' h hleak' _

/-! ## The count -/

/-- **A trip of a run that ends**: one contact is added, and the next trip begins in front of
    later objects; in front of all of them only if nothing has leaked. -/
theorem RestAt.trip {o : PlanObject F} {os : List (PlanObject F)} {p : List UInt8}
    (h : RestAt (o :: os) p) {cp : ContactPlan} {sf : LoadState}
    (hf : (planLoop F).Reaches ⟨cp, some p, false⟩ sf) (hret : sf.returned = true) :
    ∃ c q os', (planLoop F).Reaches ⟨contactPlanAdd cp c, some q, false⟩ sf ∧ RestAt os' q ∧
      os' <:+ os ∧
      (os'.length = os.length → ∀ k, o.number k = none → ¬ Mentions k os) := by
  obtain ⟨p', hids, hp'⟩ := h.ids
  obtain ⟨s', hstep, hrest⟩ := reaches_step hf rfl hret
  change loadStep F cp (some p) = .ok s' at hstep
  rw [loadStep_ids hids, loadNumbers_eq] at hstep
  have hends : EndsAt (fun os' : List (PlanObject F) => os' <:+ os ∧ (os'.length = os.length →
      ∀ k, o.number k = none → ¬ Mentions k os))
      (numberFields F NumKey.all (some p') NumKey.initial) := by
    by_cases hleak : ∃ k ∈ NumKey.all, o.number k = none ∧ Mentions k os
    · rcases numberFields_leak (by decide) hp' hleak NumKey.initial with
        h | h | ⟨vals, q, fs, os', hrun, hq, hsuf, hlt⟩
      · exact Or.inl h
      · exact Or.inr (Or.inl h)
      · exact Or.inr (Or.inr ⟨vals, q, fs, os', hrun, hq, hsuf, fun heq => absurd heq hlt.ne⟩)
    · rcases numberFields_moves NumKey.all hp' NumKey.initial with
        h | h | ⟨vals, q, fs, os', hrun, hq, hsuf⟩
      · exact Or.inl h
      · exact Or.inr (Or.inl h)
      · exact Or.inr (Or.inr ⟨vals, q, fs, os', hrun, hq, hsuf,
          fun _ k hk hyes => hleak ⟨k, k.mem_all, hk, hyes⟩⟩)
  rcases hends with hnull | ⟨vals, hnull⟩ | ⟨vals, q, fs, os', hrun, hq, hos'⟩
  · rw [hnull] at hstep
    cases hstep
  · rw [hnull] at hstep
    cases hstep
    obtain ⟨s'', hstep', _⟩ := reaches_step hrest rfl hret
    cases hstep'
  · rw [hrun] at hstep
    cases hstep
    exact ⟨_, q, os', hrest, hq.restAt, hos'⟩

theorem length_contactPlanAdd_le (cp : ContactPlan) (c : Contact) :
    (contactPlanAdd cp c).contacts.length ≤ cp.contacts.length + 1 := by
  unfold contactPlanAdd
  split <;> simp

/-- **At most one contact for each object.** -/
theorem count_le {os : List (PlanObject F)} {p : List UInt8} (h : RestAt os p) {cp : ContactPlan}
    {sf : LoadState} (hf : (planLoop F).Reaches ⟨cp, some p, false⟩ sf) (hret : sf.returned = true) :
    sf.cp.contacts.length ≤ cp.contacts.length + os.length := by
  induction hn : os.length using Nat.strong_induction_on generalizing os p cp with
  | _ n ih =>
    subst hn
    cases os with
    | nil =>
      obtain ⟨s', hstep, hrest⟩ := reaches_step hf rfl hret
      cases (loadStep_done h.done).symm.trans hstep
      rw [reaches_returned hrest rfl]
      simp
    | cons o os =>
      obtain ⟨c, q, os', hrest, hq, hsuf, _⟩ := h.trip hf hret
      have hlt : os'.length < (o :: os).length := Nat.lt_succ_of_le hsuf.length_le
      have hcount := ih os'.length hlt hq hrest rfl
      have hadd := length_contactPlanAdd_le cp c
      have hle := hsuf.length_le
      rw [List.length_cons]
      omega

/-- With one contact for each object nothing has leaked. -/
theorem apart_of_count {os : List (PlanObject F)} {p : List UInt8} (h : RestAt os p)
    {cp : ContactPlan} {sf : LoadState} (hf : (planLoop F).Reaches ⟨cp, some p, false⟩ sf)
    (hret : sf.returned = true)
    (hcount : sf.cp.contacts.length = cp.contacts.length + os.length) : Apart os := by
  induction os generalizing p cp with
  | nil => trivial
  | cons o os ih =>
    obtain ⟨c, q, os', hrest, hq, hsuf, hleak⟩ := h.trip hf hret
    have hle := count_le hq hrest hret
    have hadd := length_contactPlanAdd_le cp c
    have hlen := hsuf.length_le
    rw [List.length_cons] at hcount
    have heq : os'.length = os.length := by omega
    obtain rfl := hsuf.eq_of_length heq
    exact ⟨hleak rfl, ih hq hrest (by omega)⟩

/-- **A plan file is read as it is meant if its objects are apart**, and, with no more objects
    than a plan can hold, only then. -/
theorem contactPlanLoadJson_apart (F : Strtof) (os : List (PlanObject F)) (text : List UInt8)
    (htext : Spaced planAlphabet (planTokens os) text) (hlen : text.length ≤ planBufSize - 1) :
    (Apart os → ReadAsMeant F os text) ∧
      (os.length ≤ contactPlanMax → ReadAsMeant F os text → Apart os) := by
  refine ⟨loads_of_apart htext hlen, fun hmax hread => ?_⟩
  obtain ⟨cp, hload, hcontacts⟩ := hread
  obtain ⟨sf, hsf, hret, rfl, _⟩ := contactPlanLoadJson_eq_ok.mp hload
  refine apart_of_count (restAt_start htext hlen) hsf hret ?_
  rw [hcontacts, List.length_take, List.length_map, min_eq_right hmax]
  simp [ContactPlan.empty]

/-! ### Without `conf` -/

/-- The first contact of the repository's plan, without its `conf`. -/
def noConf : PlanObject wholeStrtof :=
  { earthToRelay with number := fun k => if k = .conf then none else marsNumbers k }

/-- A contact with no confidence, and nothing else. -/
def noConfidence : PlanObject wholeStrtof :=
  { keyToKey with number := fun _ => some zeroNumeral }

/-- In front of another contact: that one's `conf` is read and not the initial one, and it is
    lost itself. -/
theorem noConf_leaks : Spaced planAlphabet (planTokens [noConf, noConfidence])
      (planText [noConf, noConfidence]) ∧
    (planText [noConf, noConfidence]).length ≤ planBufSize - 1 ∧
    contactPlanLoadJson wholeStrtof (some (planText [noConf, noConfidence]))
      = .ok (some (1, ContactPlan.ofList [{ noConf.contact with conf := 0 }])) ∧
    ¬ ReadAsMeant wholeStrtof [noConf, noConfidence] (planText [noConf, noConfidence]) := by
  have hload : contactPlanLoadJson wholeStrtof (some (planText [noConf, noConfidence]))
      = .ok (some (1, ContactPlan.ofList [{ noConf.contact with conf := 0 }])) := by decide +kernel
  refine ⟨spaced_flatMap _, by decide +kernel, hload, ?_⟩
  rintro ⟨cp, hcp, _⟩
  rw [hload] at hcp
  cases hcp

/-- At the end of the plan a number can be left out. -/
theorem contactPlanLoadJson_apart_noConf :
    ReadAsMeant wholeStrtof [keyToKey, noConf] (planText [keyToKey, noConf]) := by
  refine (contactPlanLoadJson_apart wholeStrtof [keyToKey, noConf] _ (spaced_flatMap _)
    (by decide +kernel)).1 ⟨fun k hk => ?_, fun k _ => id, trivial⟩
  cases k <;> cases hk

end DtnHardware
