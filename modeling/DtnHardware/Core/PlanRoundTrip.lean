import DtnHardware.Core.PlanText

/-!
# What the loader makes of a plan file

A trip of the loop on a plan file begins in front of an object, reads its two node ids, and then
asks for six numbers. If every number that the object leaves out is not to be found further on
either (`Apart`), the trip ends in front of the next object with the contact that was meant, so

> **the plan is what is written** (`loads_of_apart`), up to `CONTACT_PLAN_MAX` contacts.

A complete object leaves nothing out, which is the round trip
(`contactPlanLoadJson_roundTrip`).
-/

set_option autoImplicit false

namespace DtnHardware

open StepMachine CString Tokens

variable {F : Strtof}

/-! ## One number -/

section
variable {k : NumKey} {os : List (PlanObject F)} {fs : List (NumKey × Numeral F)}
  {p : List UInt8}

/-- The next number of the object. -/
theorem numberField_own {n : Numeral F} (out : ℚ)
    (h : CursorAt (restTokens ((k, n) :: fs) os) p) :
    ∃ q, numberField F k.name (some p) out = .ok (n.value, some q) ∧
      CursorAt (restTokens fs os) q := by
  have hfound : Found k.name (restTokens ((k, n) :: fs) os) (.bare n.digits :: restTokens fs os) :=
    ⟨[punct ','], [], rfl, by simp [punct], NoColon.nil⟩
  obtain ⟨q, hcolon, hq⟩ := h.keyColon k.isWord_name hfound
  obtain ⟨stop, hread, hstop⟩ := hq.readNumber (endsField_restTokens fs os)
  exact ⟨stop, numberField_read hcolon hread, hstop⟩

/-- Behind the object's own numbers, a search finds what it finds in the later objects. -/
theorem rest_cases (hk : ∀ e ∈ fs, e.1 ≠ k) (os : List (PlanObject F)) :
    (¬ Mentions k os ∧ Silent k.name (restTokens fs os)) ∨
      (Mentions k os ∧ ∃ ts, Found k.name (restTokens fs os) ts ∧ Foreign os ts) := by
  have hskip : .quoted k.name ∉ fieldTokens fs ++ [punct '}'] := by
    intro hmem
    rcases List.mem_append.mp hmem with hmem | hmem
    · obtain ⟨e, he, hek⟩ := quoted_mem_fieldTokens.mp hmem
      exact hk e he hek
    · simp [punct] at hmem
  have hshape : restTokens fs os = (fieldTokens fs ++ [punct '}']) ++ laterTokens os := by
    simp [restTokens]
  rw [hshape]
  rcases later_cases k os with ⟨hno, hsilent⟩ | ⟨hyes, ts, hfound, hforeign⟩
  · exact Or.inl ⟨hno, hsilent.append hskip⟩
  · exact Or.inr ⟨hyes, ts, hfound.append hskip, hforeign⟩

/-- A number that is left out, and not to be found further on. -/
theorem numberField_silent (out : ℚ) (h : CursorAt (restTokens fs os) p) (hk : ∀ e ∈ fs, e.1 ≠ k)
    (hno : ¬ Mentions k os) : numberField F k.name (some p) out = .ok (out, some p) := by
  rcases rest_cases hk os with ⟨_, hsilent⟩ | ⟨hyes, _⟩
  · exact numberField_absent (h.keyColon_none k.isWord_name hsilent)
  · exact absurd hyes hno

end

/-! ## The numbers of an object -/

theorem PlanObject.fieldsOf_cons_some {o : PlanObject F} {k : NumKey} {n : Numeral F}
    (hn : o.number k = some n) (ks : List NumKey) :
    o.fieldsOf (k :: ks) = (k, n) :: o.fieldsOf ks := by
  simp [fieldsOf, hn]

theorem PlanObject.fieldsOf_cons_none {o : PlanObject F} {k : NumKey} (hn : o.number k = none)
    (ks : List NumKey) : o.fieldsOf (k :: ks) = o.fieldsOf ks := by
  simp [fieldsOf, hn]

/-- **Each key that is asked for gets the object's own number.** -/
theorem numberFields_apart {o : PlanObject F} {os : List (PlanObject F)} {ks : List NumKey}
    (hnodup : ks.Nodup) {p : List UInt8} (h : CursorAt (restTokens (o.fieldsOf ks) os) p)
    (hapart : ∀ k ∈ ks, o.number k = none → ¬ Mentions k os) (vals : NumKey → ℚ) :
    ∃ vals' stop, numberFields F ks (some p) vals = .ok (vals', some stop) ∧
      CursorAt (restTokens [] os) stop ∧ (∀ k ∈ ks, vals' k = o.value k) ∧
      ∀ k, k ∉ ks → vals' k = vals k := by
  induction ks generalizing p vals with
  | nil => exact ⟨vals, p, rfl, h, by simp, fun _ _ => rfl⟩
  | cons k ks ih =>
    obtain ⟨hk, hnodup'⟩ := List.nodup_cons.mp hnodup
    have hapart' : ∀ k' ∈ ks, o.number k' = none → ¬ Mentions k' os :=
      fun k' hk' => hapart k' (by simp [hk'])
    obtain ⟨q, hread, hq⟩ : ∃ q, numberField F k.name (some p) k.initial = .ok (o.value k, some q) ∧
        CursorAt (restTokens (o.fieldsOf ks) os) q := by
      cases hn : o.number k with
      | some n =>
        rw [PlanObject.fieldsOf_cons_some hn] at h
        simpa [PlanObject.value, hn] using numberField_own k.initial h
      | none =>
        rw [PlanObject.fieldsOf_cons_none hn] at h
        have hothers : ∀ e ∈ o.fieldsOf ks, e.1 ≠ k := by
          intro e he hek
          exact hk (hek ▸ (PlanObject.mem_fieldsOf he).1)
        refine ⟨p, ?_, h⟩
        simpa [PlanObject.value, hn] using
          numberField_silent k.initial h hothers (hapart k (by simp) hn)
    obtain ⟨vals', stop, hrun, hstop, hown, hother⟩ :=
      ih hnodup' hq hapart' (Function.update vals k (o.value k))
    refine ⟨vals', stop, ?_, hstop, ?_, ?_⟩
    · rw [numberFields, hread]
      exact hrun
    · intro k' hk'
      rcases List.mem_cons.mp hk' with rfl | hk'
      · simp [hother k' hk]
      · exact hown k' hk'
    · intro k' hk'
      simp only [List.mem_cons, not_or] at hk'
      simp [hother k' hk'.2, Function.update_of_ne hk'.1]

/-! ## One object -/

/-- The next `"frm"` is that of the first of the objects `os`. -/
def RestAt (os : List (PlanObject F)) (p : List UInt8) : Prop :=
  ∃ pre, .quoted frmKey ∉ pre ∧ CursorAt (pre ++ objectsTokens os) p

/-- Among an object's numbers there is no `"frm"`. -/
theorem CursorAt.restAt {fs : List (NumKey × Numeral F)} {os : List (PlanObject F)}
    {p : List UInt8} (h : CursorAt (restTokens fs os) p) : RestAt os p := by
  have hfields : .quoted frmKey ∉ fieldTokens fs := by
    intro hmem
    obtain ⟨e, _, he⟩ := List.mem_flatMap.mp hmem
    simp [punct, e.1.name_ne_frmKey.symm] at he
  cases os with
  | nil => exact ⟨fieldTokens fs ++ [punct '}'], by simp [hfields, punct], by
      simpa [restTokens, laterTokens, objectsTokens] using h⟩
  | cons o os => exact ⟨fieldTokens fs ++ [punct '}', punct ','], by simp [hfields, punct], by
      simpa [restTokens, laterTokens, objectsTokens] using h⟩

theorem restAt_start {os : List (PlanObject F)} {text : List UInt8}
    (htext : Spaced planAlphabet (planTokens os) text) (hlen : text.length ≤ planBufSize - 1) :
    RestAt os (planBuf text) := by
  refine ⟨[punct '{', .quoted contactsKey, punct ':', punct '['], ?_, text, text_planTokens htext, ?_⟩
  · have hne : frmKey ≠ contactsKey := by decide
    simp [punct, hne]
  · rw [planBuf, List.take_of_length_le hlen]

/-- **The two node ids are read as they are written.** -/
theorem RestAt.ids {o : PlanObject F} {os : List (PlanObject F)} {p : List UInt8}
    (h : RestAt (o :: os) p) :
    ∃ q, IdsAt p o.frm.chars o.toNode.chars q ∧ CursorAt (restTokens o.fields os) q := by
  obtain ⟨pre, hpre, hp⟩ := h
  rw [objectsTokens, o.tokens_append] at hp
  obtain ⟨hit, hfrm, hhit⟩ := CursorAt.findKey (pre ++ [punct '{']) isWord_frmKey
    (by simpa using hp) (by simp [hpre, punct])
  obtain ⟨c, hchr, hc⟩ := CursorAt.colon [.quoted frmKey] hhit
    (NoColon.cons_word isWord_frmKey NoColon.nil)
  obtain ⟨q, hread, hq⟩ := hc.readStringField (o.frm.length_le.trans (by decide))
  obtain ⟨kTo, hto, hkTo⟩ := CursorAt.findKey [punct ','] isWord_toKey hq (by simp [punct])
  obtain ⟨c', hchr', hc'⟩ := CursorAt.colon [.quoted toKey] hkTo
    (NoColon.cons_word isWord_toKey NoColon.nil)
  obtain ⟨q', hread', hq'⟩ := hc'.readStringField (o.toNode.length_le.trans (by decide))
  exact ⟨q', ⟨kTo, _, ⟨hit, _, q, hfrm, hchr, hread, hto⟩, hchr', hread'⟩, hq'⟩

theorem RestAt.done {p : List UInt8} (h : RestAt ([] : List (PlanObject F)) p) :
    findKey (some p) frmKey = .ok none := by
  obtain ⟨pre, hpre, hp⟩ := h
  exact hp.findKey_none isWord_frmKey (by simp [hpre, objectsTokens, punct])

/-! ## The whole file -/

/-- What an object leaves out is not to be found in the later ones. -/
def Apart : List (PlanObject F) → Prop
  | [] => True
  | o :: os => (∀ k, o.number k = none → ¬ Mentions k os) ∧ Apart os

/-- **One trip, one object.** -/
theorem RestAt.step {o : PlanObject F} {os : List (PlanObject F)} {p : List UInt8}
    (h : RestAt (o :: os) p) (hapart : ∀ k, o.number k = none → ¬ Mentions k os)
    (cp : ContactPlan) : ∃ q, RestAt os q ∧ (planLoop F).Steps ⟨cp, some p, false⟩
      ⟨contactPlanAdd cp o.contact, some q, false⟩ := by
  obtain ⟨q, hids, hq⟩ := h.ids
  obtain ⟨vals, stop, hrun, hstop, hown, _⟩ :=
    numberFields_apart (by decide) hq (fun k _ => hapart k) NumKey.initial
  have hvals : vals = o.value := funext fun k => hown k k.mem_all
  refine ⟨stop, hstop.restAt, rfl, ?_⟩
  change loadStep F cp (some p) = _
  rw [loadStep_ids hids, loadNumbers_eq, hrun, hvals]
  rfl

/-- The run on objects that are apart. -/
theorem RestAt.reaches {os : List (PlanObject F)} {p : List UInt8} (h : RestAt os p)
    (hapart : Apart os) (cp : ContactPlan) : (planLoop F).Reaches ⟨cp, some p, false⟩
      ⟨(os.map PlanObject.contact).foldl contactPlanAdd cp, none, true⟩ := by
  induction os generalizing p cp with
  | nil => exact (Machine.Reaches.refl _).tail ⟨rfl, loadStep_done h.done⟩
  | cons o os ih =>
    obtain ⟨q, hq, hstep⟩ := h.step hapart.1 cp
    exact Relation.ReflTransGen.head hstep (ih hq hapart.2 _)

/-- A plan keeps the first `CONTACT_PLAN_MAX` contacts that are added. -/
theorem contacts_foldl_contactPlanAdd (cs : List Contact) (cp : ContactPlan) :
    (cs.foldl contactPlanAdd cp).contacts = (cp.contacts ++ cs).take contactPlanMax := by
  induction cs generalizing cp with
  | nil => simp [List.take_of_length_le cp.bounded]
  | cons c cs ih =>
    rw [List.foldl_cons, ih]
    by_cases hroom : cp.contacts.length < contactPlanMax
    · simp [contactPlanAdd, hroom]
    · have hfull : cp.contacts.length = contactPlanMax := le_antisymm cp.bounded (not_lt.mp hroom)
      rw [contactPlanAdd, dif_neg hroom, ← hfull, List.take_left, List.take_left]

/-- The file is read as it is meant. -/
def ReadAsMeant (F : Strtof) (os : List (PlanObject F)) (text : List UInt8) : Prop :=
  ∃ cp, contactPlanLoadJson F (some text) = .ok (some ((min os.length contactPlanMax : Nat), cp)) ∧
    cp.contacts = (os.map PlanObject.contact).take contactPlanMax

/-- **Objects that are apart are read as they are meant.** -/
theorem loads_of_apart {os : List (PlanObject F)} {text : List UInt8}
    (htext : Spaced planAlphabet (planTokens os) text) (hlen : text.length ≤ planBufSize - 1)
    (hapart : Apart os) : ReadAsMeant F os text := by
  have hreach := (restAt_start htext hlen).reaches hapart ContactPlan.empty
  have hcontacts := contacts_foldl_contactPlanAdd (os.map PlanObject.contact) ContactPlan.empty
  refine ⟨_, contactPlanLoadJson_eq_ok.mpr ⟨_, hreach, rfl, rfl, congrArg Nat.cast ?_⟩, hcontacts⟩
  rw [hcontacts, List.length_take, min_comm]
  simp [ContactPlan.empty]

theorem apart_of_complete {os : List (PlanObject F)}
    (h : ∀ o ∈ os, ∀ k, (o.number k).isSome = true) : Apart os := by
  induction os with
  | nil => trivial
  | cons o os ih =>
    refine ⟨fun k hk => ?_, ih fun o' ho' => h o' (by simp [ho'])⟩
    have hsome := h o (by simp) k
    simp [hk] at hsome

/-- **A complete plan file is read as it is written**, whatever the blanks between its tokens:
    the contacts in order, up to `CONTACT_PLAN_MAX`, and their number is returned. -/
theorem contactPlanLoadJson_roundTrip (F : Strtof) (os : List (PlanObject F)) (text : List UInt8)
    (hcomplete : ∀ o ∈ os, ∀ k, (o.number k).isSome = true)
    (htext : Spaced planAlphabet (planTokens os) text) (hlen : text.length ≤ planBufSize - 1) :
    ∃ cp, contactPlanLoadJson F (some text)
        = .ok (some ((min os.length contactPlanMax : Nat), cp)) ∧
      cp.contacts = (os.map PlanObject.contact).take contactPlanMax :=
  loads_of_apart htext hlen (apart_of_complete hcomplete)

/-! ### Two contacts -/

theorem isDigit_plain {x : UInt8} (h : isDigit x = true) :
    (x ≠ 0 ∧ x ≠ quoteChar) ∧ isSpace x = false := by
  refine ⟨⟨?_, ?_⟩, ?_⟩
  · rintro rfl
    exact absurd h (by decide)
  · rintro rfl
    exact absurd h (by decide)
  · rw [← Bool.not_eq_true]
    intro hspace
    simp only [isSpace, decide_eq_true_eq] at hspace
    rcases hspace with rfl | rfl | rfl | rfl <;> exact absurd h (by decide)

/-- What ends a number is no digit. -/
theorem EndsNumber.takeWhile {rest : List UInt8} (h : EndsNumber rest) :
    rest.takeWhile isDigit = [] := by
  obtain ⟨x, r, rfl, hx⟩ := h
  have hdigit : isDigit x = false := by
    rw [← Bool.not_eq_true]
    intro hdigit
    rcases hx with hx | rfl | rfl
    · rw [(isDigit_plain hdigit).2] at hx
      cases hx
    · exact absurd hdigit (by decide)
    · exact absurd hdigit (by decide)
  simp [hdigit]

/-- Digits, as the `strtof` for whole numbers reads them. -/
def wholeNumeral (digits : List UInt8) (hne : digits ≠ []) (h : digits.all isDigit = true) :
    Numeral wholeStrtof where
  digits := digits
  value := wholeValue digits
  nonempty := hne
  plain x hx := isDigit_plain (List.all_eq_true.mp h x hx)
  reads rest hrest := by
    have htake : (digits ++ rest).takeWhile isDigit = digits := by
      rw [List.takeWhile_append_of_pos (List.all_eq_true.mp h), hrest.takeWhile, List.append_nil]
    simp only [wholeStrtof, htake, hne, if_false]

def zeroNumeral : Numeral wholeStrtof := wholeNumeral (ascii ['0']) (by decide) (by decide)

/-- The numbers of the first contact in the repository's plan. -/
def marsNumbers : NumKey → Option (Numeral wholeStrtof)
  | .tEnd => some (wholeNumeral (ascii ['6', '0']) (by decide) (by decide))
  | .rate => some (wholeNumeral (ascii ['1', '2', '0', '0']) (by decide) (by decide))
  | .conf => some (wholeNumeral (ascii ['1']) (by decide) (by decide))
  | _ => some zeroNumeral

/-- A node id, checked. -/
def wordName (chars : List UInt8) (hpos : 1 ≤ chars.length) (hle : chars.length ≤ 4)
    (h : (chars.all fun x => x != 0 && x != quoteChar) = true) : NodeName where
  chars := chars
  length_pos := hpos
  length_le := hle
  plain x hx := by simpa using List.all_eq_true.mp h x hx

/-- `{"frm":"EART","to":"ERLY","t_start":0,"t_end":60,"rate":1200,"owlt":0,"conf":1,"ber":0}`. -/
def earthToRelay : PlanObject wholeStrtof where
  frm := wordName (ascii ['E', 'A', 'R', 'T']) (by decide) (by decide) (by decide)
  toNode := wordName (ascii ['E', 'R', 'L', 'Y']) (by decide) (by decide) (by decide)
  number := marsNumbers

/-- The same with node ids that are spelled like keys. -/
def keyToKey : PlanObject wholeStrtof where
  frm := wordName frmKey (by decide) (by decide) (by decide)
  toNode := wordName NumKey.ber.name (by decide) (by decide) (by decide)
  number := marsNumbers

/-- The plan without blanks. -/
def planText {F : Strtof} (os : List (PlanObject F)) : List UInt8 :=
  (planTokens os).flatMap planAlphabet.bytes

theorem contactPlanLoadJson_roundTrip_twoContacts : ∃ cp,
    contactPlanLoadJson wholeStrtof (some (planText [earthToRelay, keyToKey])) = .ok (some (2, cp)) ∧
      cp.contacts = [earthToRelay.contact, keyToKey.contact] := by
  refine contactPlanLoadJson_roundTrip wholeStrtof [earthToRelay, keyToKey] _ ?_
    (spaced_flatMap _) (by decide +kernel)
  intro o ho k
  rcases List.mem_pair.mp ho with rfl | rfl <;> cases k <;> rfl

end DtnHardware
