import DtnHardware.Core.PlanLoader

/-!
# The plan loader on any file

Whatever the file holds, every read is inside the buffer and every trip of the loop moves the
cursor forward: the readers return suffixes with the NUL still ahead (`readStringField_ok`,
`readNumber_ok`), so the loop ends within as many trips as the buffer has bytes
(`planLoop_ends`).

What is not true of every file is that the cursors are there. The colon behind `"to"` is not
checked, unlike the one behind `"frm"`, and a number that cannot be read leaves the cursor
`NULL` for the next search.

> **The loader returns exactly on the files whose trips find what they need**: a colon behind
> the first `"to"`, and a number behind the colon of each numeric key that is found
> (`TripReadable`).
-/

set_option autoImplicit false

namespace DtnHardware

open StepMachine CString

/-! ## The readers stay inside -/

theorem isSpace_ne_zero {x : UInt8} (h : isSpace x = true) : x ≠ 0 := by
  have hzero : isSpace 0 = false := by decide
  intro hx
  rw [hx, hzero] at h
  cases h

theorem quoteChar_ne_zero : quoteChar ≠ 0 := by decide

theorem colonChar_ne_zero : colonChar ≠ 0 := by decide

theorem skipWs_ok {p : List UInt8} (h : 0 ∈ p) :
    ∃ q, skipWs p = .ok q ∧ q <:+ p ∧ 0 ∈ q := by
  induction p with
  | nil => simp at h
  | cons x p ih =>
    by_cases hx : isSpace x = true
    · obtain ⟨q, hq, hsuf, hnul⟩ := ih (mem_of_cons h (isSpace_ne_zero hx))
      exact ⟨q, by simp [skipWs, hx, hq], hsuf.trans (List.suffix_cons x p), hnul⟩
    · exact ⟨x :: p, by simp [skipWs, hx], List.suffix_rfl, h⟩

theorem deref_ok {p : List UInt8} (h : 0 ∈ p) : ∃ x r, deref p = .ok x ∧ p = x :: r := by
  cases p with
  | nil => simp at h
  | cons x r => exact ⟨x, r, rfl, rfl⟩

theorem copyString_ok (n : Nat) {p : List UInt8} (h : 0 ∈ p) :
    ∃ out q, copyString n p = .ok (out, q) ∧ q <:+ p ∧ 0 ∈ q := by
  induction n generalizing p with
  | zero =>
    obtain ⟨x, r, _, rfl⟩ := deref_ok h
    exact ⟨[], x :: r, rfl, List.suffix_rfl, h⟩
  | succ n ih =>
    obtain ⟨x, r, _, rfl⟩ := deref_ok h
    by_cases hx : x ≠ 0 ∧ x ≠ quoteChar
    · obtain ⟨out, q, hq, hsuf, hnul⟩ := ih (mem_of_cons h hx.1)
      refine ⟨x :: out, q, ?_, hsuf.trans (List.suffix_cons x r), hnul⟩
      rw [copyString, if_pos hx, hq]
      rfl
    · exact ⟨[], x :: r, by rw [copyString, if_neg hx], List.suffix_rfl, h⟩

/-- **`read_string_field` stays inside.** -/
theorem readStringField_ok {p : List UInt8} (cap : Nat) (h : 0 ∈ p) :
    ∃ r, readStringField p cap = .ok r ∧ ∀ out q, r = some (out, q) → q <:+ p ∧ 0 ∈ q := by
  obtain ⟨p₁, hskip, hsuf₁, hnul₁⟩ := skipWs_ok h
  obtain ⟨x, r₁, _, rfl⟩ := deref_ok hnul₁
  by_cases hx : x = quoteChar
  · subst hx
    have hnul₂ := mem_of_cons hnul₁ quoteChar_ne_zero
    obtain ⟨out, p₃, hcopy, hsuf₃, hnul₃⟩ := copyString_ok (cap - 1) hnul₂
    obtain ⟨y, r₃, _, rfl⟩ := deref_ok hnul₃
    have hsuf := (hsuf₃.trans (List.suffix_cons _ _)).trans hsuf₁
    refine ⟨_, readStringField_some cap hskip hcopy, fun out' q hq => ?_⟩
    cases hq
    by_cases hy : y = quoteChar
    · rw [if_pos hy]
      exact ⟨(List.suffix_cons _ _).trans hsuf, mem_of_cons hnul₃ (hy ▸ quoteChar_ne_zero)⟩
    · rw [if_neg hy]
      exact ⟨hsuf, hnul₃⟩
  · exact ⟨none, readStringField_none hskip hx cap, nofun⟩

/-- **`read_number` stays inside.** -/
theorem readNumber_ok (F : Strtof) {p : List UInt8} (h : 0 ∈ p) :
    ∃ r, readNumber F p = .ok r ∧ ∀ v q, r = some (v, q) → q <:+ p ∧ 0 ∈ q := by
  obtain ⟨p₁, hskip, hsuf₁, hnul₁⟩ := skipWs_ok h
  obtain ⟨s, rest, hs, rfl⟩ := string_ok hnul₁
  refine ⟨_, readNumber_eq F hskip hs, fun v q hq => ?_⟩
  obtain ⟨⟨v', k⟩, hread, heq⟩ := Option.map_eq_some_iff.mp hq
  cases heq
  have hk := (F.inside s _ k hread).2
  refine ⟨(List.drop_suffix _ _).trans hsuf₁, ?_⟩
  rw [List.drop_append_of_le_length hk]
  simp

theorem findKey_ok {p : List UInt8} (key : List UInt8) (h : 0 ∈ p) :
    ∃ hit, findKey (some p) key = .ok hit ∧
      ∀ q, hit = some q → q <:+ p ∧ keyPattern key <+: q ∧ 0 ∈ q :=
  strstr_ok h

/-- **`keyColon` stays inside**, and what it finds is a colon. -/
theorem keyColon_ok {q : List UInt8} (key : List UInt8) (h : 0 ∈ q) :
    ∃ c, keyColon (some q) key = .ok c ∧
      ∀ colon, c = some colon → ∃ r, colon = colonChar :: r ∧ colon <:+ q ∧ 0 ∈ r := by
  obtain ⟨hit, hfind, hall⟩ := findKey_ok key h
  cases hit with
  | none => exact ⟨none, keyColon_none hfind, nofun⟩
  | some k =>
    obtain ⟨hsuf, _, hnul⟩ := hall k rfl
    obtain ⟨c, hchr, hcolon⟩ := strchr_ok colonChar_ne_zero hnul
    refine ⟨c, (keyColon_some hfind).trans hchr, fun colon hc => ?_⟩
    obtain ⟨r, hr, hsuf', hnul'⟩ := hcolon colon hc
    exact ⟨r, hr, hsuf'.trans hsuf, hnul'⟩

/-! ## One trip -/

/-- Of the keys `ks`, in this order from `q` on: behind the colon of each that is found stands
    a number. -/
def NumbersReadable (F : Strtof) : List NumKey → List UInt8 → Prop
  | [], _ => True
  | k :: ks, q =>
    (keyColon (some q) k.name = .ok none → NumbersReadable F ks q) ∧
    ∀ colon, keyColon (some q) k.name = .ok (some colon) →
      ∃ v stop, readNumber F (colon.drop 1) = .ok (some (v, stop)) ∧ NumbersReadable F ks stop

/-- **What a trip from `p` needs to find**: behind the first `"to"` a colon, and numbers. -/
structure TripReadable (F : Strtof) (p : List UInt8) : Prop where
  colon : ∀ frmStr kTo, ToKeyAt p frmStr kTo → ∃ c, strchr colonChar kTo = .ok (some c)
  numbers : ∀ frmStr toStr q, IdsAt p frmStr toStr q → NumbersReadable F NumKey.all q

section
variable {F : Strtof}

/-- With numbers to read the cursor is there in the end, and it has not moved back. -/
theorem numberFields_readable {ks : List NumKey} {q : List UInt8} (hnul : 0 ∈ q)
    (h : NumbersReadable F ks q) (vals : NumKey → ℚ) :
    ∃ vals' stop, numberFields F ks (some q) vals = .ok (vals', some stop) ∧ stop <:+ q ∧
      0 ∈ stop := by
  induction ks generalizing q vals with
  | nil => exact ⟨vals, q, rfl, List.suffix_rfl, hnul⟩
  | cons k ks ih =>
    obtain ⟨c, hcolon, hall⟩ := keyColon_ok k.name hnul
    cases c with
    | none =>
      obtain ⟨vals', stop, hrun, hrest⟩ := ih hnul (h.1 hcolon) (Function.update vals k k.initial)
      refine ⟨vals', stop, ?_, hrest⟩
      rw [numberFields, numberField_absent hcolon]
      exact hrun
    | some colon =>
      obtain ⟨r, rfl, hsuf, hnul'⟩ := hall colon rfl
      obtain ⟨v, stop, hread, hks⟩ := h.2 _ hcolon
      obtain ⟨res, hres, hstop⟩ := readNumber_ok F (p := (colonChar :: r).drop 1) hnul'
      obtain ⟨hsuf₁, hnul₁⟩ := hstop v stop (Except.ok.inj (hres.symm.trans hread))
      obtain ⟨vals', stop', hrun, hsuf₂, hnul₂⟩ := ih hnul₁ hks (Function.update vals k v)
      refine ⟨vals', stop', ?_, ?_, hnul₂⟩
      · rw [numberFields, numberField_read hcolon hread]
        exact hrun
      · exact hsuf₂.trans (hsuf₁.trans ((List.suffix_cons _ _).trans hsuf))

/-- Otherwise the cursor is `NULL` in the end, or `NULL` has been searched. -/
theorem numberFields_unreadable {ks : List NumKey} {q : List UInt8} (hnul : 0 ∈ q)
    (h : ¬ NumbersReadable F ks q) (vals : NumKey → ℚ) :
    numberFields F ks (some q) vals = .error .null ∨
      ∃ vals', numberFields F ks (some q) vals = .ok (vals', none) := by
  induction ks generalizing q vals with
  | nil => exact absurd trivial h
  | cons k ks ih =>
    obtain ⟨c, hcolon, hall⟩ := keyColon_ok k.name hnul
    cases c with
    | none =>
      have hks : ¬ NumbersReadable F ks q := by
        intro hks
        refine h ⟨fun _ => hks, fun colon hc => ?_⟩
        rw [hcolon] at hc
        cases hc
      rw [numberFields, numberField_absent hcolon]
      exact ih hnul hks (Function.update vals k k.initial)
    | some colon =>
      obtain ⟨r, rfl, _, hnul'⟩ := hall colon rfl
      obtain ⟨res, hres, hstop⟩ := readNumber_ok F (p := (colonChar :: r).drop 1) hnul'
      cases res with
      | none =>
        rw [numberFields, numberField_unread hcolon hres]
        -- the next search, if there is one, is from `NULL`
        cases ks with
        | nil => exact Or.inr ⟨_, rfl⟩
        | cons k' ks => exact Or.inl rfl
      | some res =>
        obtain ⟨v, stop⟩ := res
        have hks : ¬ NumbersReadable F ks stop := by
          intro hks
          refine h ⟨fun hc => ?_, fun colon hc => ?_⟩
          · rw [hcolon] at hc
            cases hc
          · rw [hcolon] at hc
            cases hc
            exact ⟨v, stop, hres, hks⟩
        rw [numberFields, numberField_read hcolon hres]
        exact ih (hstop v stop rfl).2 hks (Function.update vals k v)

end

/-- A later cursor of a trip from `p`: further on by at least a byte, and still inside. -/
def Ahead (p q : List UInt8) : Prop := q.length < p.length ∧ 0 ∈ q

theorem Ahead.of_suffix {p q r : List UInt8} (h : Ahead p q) (hsuf : r <:+ q) (hnul : 0 ∈ r) :
    Ahead p r := ⟨hsuf.length_le.trans_lt h.1, hnul⟩

/-- Past a colon. -/
theorem Ahead.of_colon {p q r : List UInt8} (hr : q = colonChar :: r) (hsuf : q <:+ p)
    (hnul : 0 ∈ r) : Ahead p r := by
  subst hr
  exact ⟨by simpa using hsuf.length_le, hnul⟩

/-- Into a key that was found. -/
theorem Ahead.of_key {key hit p : List UInt8} {n : Nat} (hkey : keyPattern key <+: hit)
    (hsuf : hit <:+ p) (hnul : 0 ∈ hit) (h0 : 0 ∉ key) (hn : 0 < n) (hle : n ≤ key.length + 1) :
    Ahead p (hit.drop n) := by
  obtain ⟨r, rfl⟩ := hkey
  have hlen : (keyPattern key).length = key.length + 2 := by simp [keyPattern]
  have h0' : 0 ∉ keyPattern key := by simp [keyPattern, h0, quoteChar_ne_zero.symm]
  have hr : 0 ∈ r := (List.mem_append.mp hnul).resolve_left h0'
  constructor
  · have hle' := hsuf.length_le
    rw [List.length_append, hlen] at hle'
    rw [List.length_drop, List.length_append, hlen]
    omega
  · rw [List.drop_append_of_le_length (by omega)]
    exact List.mem_append_right _ hr

theorem toKeyAt_unique {p frmStr frmStr' kTo kTo' : List UInt8} (h : ToKeyAt p frmStr kTo)
    (h' : ToKeyAt p frmStr' kTo') : kTo = kTo' := by
  obtain ⟨hit, colon, q, h₁, h₂, h₃, h₄⟩ := h
  obtain ⟨hit', colon', q', h₁', h₂', h₃', h₄'⟩ := h'
  simp_all

theorem idsAt_unique {p frmStr frmStr' toStr toStr' q q' : List UInt8}
    (h : IdsAt p frmStr toStr q) (h' : IdsAt p frmStr' toStr' q') : q = q' := by
  obtain ⟨kTo, colon, hkey, h₁, h₂⟩ := h
  obtain ⟨kTo', colon', hkey', h₁', h₂'⟩ := h'
  rw [toKeyAt_unique hkey hkey'] at h₁
  simp_all

/-- The first `"to"` is found ahead. -/
theorem ToKeyAt.ahead {p frmStr kTo : List UInt8} (h : ToKeyAt p frmStr kTo) (hnul : 0 ∈ p) :
    kTo <:+ p ∧ keyPattern toKey <+: kTo ∧ 0 ∈ kTo := by
  obtain ⟨hit, colon, q, hfrm, hchr, hread, hto⟩ := h
  obtain ⟨_, hfrm', hhit⟩ := findKey_ok frmKey hnul
  obtain ⟨hsuf₁, _, hnul₁⟩ := hhit hit (Except.ok.inj (hfrm'.symm.trans hfrm))
  obtain ⟨_, hchr', hcolon⟩ := strchr_ok colonChar_ne_zero hnul₁
  obtain ⟨r, rfl, hsuf₂, hnul₂⟩ := hcolon colon (Except.ok.inj (hchr'.symm.trans hchr))
  obtain ⟨_, hread', hstop⟩ := readStringField_ok idBuf (p := (colonChar :: r).drop 1) hnul₂
  obtain ⟨hsuf₃, hnul₃⟩ := hstop frmStr q (Except.ok.inj (hread'.symm.trans hread))
  obtain ⟨_, hto', hkTo⟩ := findKey_ok toKey hnul₃
  obtain ⟨hsuf₄, hkey, hnul₄⟩ := hkTo kTo (Except.ok.inj (hto'.symm.trans hto))
  have hsuf := (hsuf₄.trans hsuf₃).trans ((List.suffix_cons _ _).trans (hsuf₂.trans hsuf₁))
  exact ⟨hsuf, hkey, hnul₄⟩

/-- Without a `"to"` the loop is left, or it goes on behind the `"frm"`. -/
theorem loadStep_noTo (F : Strtof) (cp : ContactPlan) {p : List UInt8} (hnul : 0 ∈ p)
    (hno : ∀ frmStr kTo, ¬ ToKeyAt p frmStr kTo) :
    ∃ s', loadStep F cp (some p) = .ok s' ∧
      (s'.returned = false → ∃ q, s'.p = some q ∧ Ahead p q) := by
  obtain ⟨res, hfrm, hhit⟩ := findKey_ok frmKey hnul
  cases res with
  | none => exact ⟨_, loadStep_done hfrm, nofun⟩
  | some hit =>
    obtain ⟨hsuf, hkey, hnul₁⟩ := hhit hit rfl
    obtain ⟨c, hchr, hcolon⟩ := strchr_ok colonChar_ne_zero hnul₁
    cases c with
    | none =>
      refine ⟨⟨cp, some hit, true⟩, ?_, nofun⟩
      simp only [loadStep, hfrm, hchr, bind, Except.bind, pure, Except.pure]
    | some colon =>
      obtain ⟨r, rfl, hsuf₁, hnul₂⟩ := hcolon colon rfl
      obtain ⟨res, hread, hstop⟩ := readStringField_ok idBuf (p := (colonChar :: r).drop 1) hnul₂
      cases res with
      | none =>
        -- `p += 4`
        refine ⟨⟨cp, some (hit.drop 4), false⟩, ?_, fun _ => ⟨_, rfl, ?_⟩⟩
        · simp only [loadStep, hfrm, hchr, hread, bind, Except.bind, pure, Except.pure]
        · exact Ahead.of_key hkey hsuf hnul₁ (by decide) (by decide) (by decide)
      | some res =>
        obtain ⟨frmStr, q⟩ := res
        obtain ⟨_, hnul₃⟩ := hstop frmStr q rfl
        obtain ⟨res, hto', _⟩ := findKey_ok toKey hnul₃
        cases res with
        | none =>
          refine ⟨⟨cp, some hit, true⟩, ?_, nofun⟩
          simp only [loadStep, hfrm, hchr, hread, hto', bind, Except.bind, pure, Except.pure]
        | some kTo => exact absurd ⟨hit, _, q, hfrm, hchr, hread, hto'⟩ (hno frmStr kTo)

/-- **The three kinds of trip**: no colon behind the first `"to"`; two node ids; or neither, and
    then the loop is left or goes on further ahead. -/
theorem loadStep_cases (F : Strtof) (cp : ContactPlan) {p : List UInt8} (hnul : 0 ∈ p) :
    (∃ frmStr kTo, ToKeyAt p frmStr kTo ∧ strchr colonChar kTo = .ok none) ∨
    (∃ frmStr toStr q, IdsAt p frmStr toStr q ∧ Ahead p q) ∨
    ((∀ frmStr kTo, ToKeyAt p frmStr kTo → ∃ c, strchr colonChar kTo = .ok (some c)) ∧
      (∀ frmStr toStr q, ¬ IdsAt p frmStr toStr q) ∧
      ∃ s', loadStep F cp (some p) = .ok s' ∧
        (s'.returned = false → ∃ q, s'.p = some q ∧ Ahead p q)) := by
  by_cases hto : ∃ frmStr kTo, ToKeyAt p frmStr kTo
  · obtain ⟨frmStr, kTo, hkTo⟩ := hto
    obtain ⟨hsuf, hkey, hnul₁⟩ := hkTo.ahead hnul
    obtain ⟨c, hchr, hcolon⟩ := strchr_ok colonChar_ne_zero hnul₁
    cases c with
    | none => exact Or.inl ⟨frmStr, kTo, hkTo, hchr⟩
    | some colon =>
      obtain ⟨r, hr, hsuf₁, hnul₂⟩ := hcolon colon rfl
      have hahead := Ahead.of_colon hr (hsuf₁.trans hsuf) hnul₂
      subst hr
      obtain ⟨res, hread, hstop⟩ := readStringField_ok idBuf (p := (colonChar :: r).drop 1) hnul₂
      cases res with
      | some res =>
        obtain ⟨toStr, q⟩ := res
        obtain ⟨hsuf₂, hnul₃⟩ := hstop toStr q rfl
        exact Or.inr (Or.inl ⟨frmStr, toStr, q, ⟨kTo, _, hkTo, hchr, hread⟩,
          hahead.of_suffix hsuf₂ hnul₃⟩)
      | none =>
        -- `p = k_to + 3`
        refine Or.inr (Or.inr ⟨fun f k hk => ⟨_, toKeyAt_unique hkTo hk ▸ hchr⟩, ?_,
          ⟨cp, some (kTo.drop 3), false⟩, ?_, fun _ => ⟨_, rfl, ?_⟩⟩)
        · intro f t q hids
          obtain ⟨k, c, hk, hc, hq⟩ := hids
          rw [← toKeyAt_unique hkTo hk, hchr] at hc
          cases hc
          rw [hread] at hq
          cases hq
        · obtain ⟨hit, colon, q, hfrm, hchr', hread', hto⟩ := hkTo
          simp only [loadStep, hfrm, hchr', hread', hto, hchr, behindColon, nonNull, hread, bind,
            Except.bind, pure, Except.pure]
        · exact Ahead.of_key hkey hsuf hnul₁ (by decide) (by decide) (by decide)
  · have hno : ∀ frmStr kTo, ¬ ToKeyAt p frmStr kTo := fun f k hk => hto ⟨f, k, hk⟩
    refine Or.inr (Or.inr ⟨fun f k hk => absurd hk (hno f k), ?_, loadStep_noTo F cp hnul hno⟩)
    intro f t q hids
    obtain ⟨k, _, hk, _⟩ := hids
    exact hno f k hk

/-! ## The whole run -/

/-- A cursor is inside or `NULL`. -/
def Inside (s : LoadState) : Prop := ∀ p, s.p = some p → s.returned = false → 0 ∈ p

/-- How many trips are left at most. -/
def LoadState.room (s : LoadState) : Nat :=
  if s.returned then 0 else s.p.elim 1 (fun p => p.length + 1)

section
variable {F : Strtof}

theorem inside_start (file : List UInt8) : Inside (loadStart file) := by
  intro p hp _
  cases hp
  simp [planBuf]

/-- A trip keeps the cursor inside, moves it forward, and never reads outside. -/
theorem loadStep_ok (F : Strtof) (cp : ContactPlan) {p : List UInt8} (hnul : 0 ∈ p) :
    (TripReadable F p ∧ ∃ s', loadStep F cp (some p) = .ok s' ∧
      (s'.returned = false → ∃ q, s'.p = some q ∧ Ahead p q)) ∨
    (¬ TripReadable F p ∧ (loadStep F cp (some p) = .error .null ∨
      ∃ s', loadStep F cp (some p) = .ok s' ∧ s'.returned = false ∧ s'.p = none)) := by
  rcases loadStep_cases F cp hnul with ⟨f, k, hk, hchr⟩ | ⟨f, t, q, hids, hq⟩ | ⟨hto, hids, hrun⟩
  · refine Or.inr ⟨fun h => ?_, Or.inl (loadStep_noColon hk hchr)⟩
    obtain ⟨c, hc⟩ := h.colon f k hk
    rw [hchr] at hc
    cases hc
  · have hcolon : ∀ f k, ToKeyAt p f k → ∃ c, strchr colonChar k = .ok (some c) := by
      intro f' k hk
      obtain ⟨kTo, c, hkTo, hc, _⟩ := hids
      exact ⟨c, toKeyAt_unique hkTo hk ▸ hc⟩
    by_cases hnum : NumbersReadable F NumKey.all q
    · obtain ⟨vals, stop, hvals, hsuf, hnul'⟩ := numberFields_readable hq.2 hnum NumKey.initial
      refine Or.inl ⟨⟨hcolon, fun f' t' q' h' => idsAt_unique hids h' ▸ hnum⟩,
        ⟨contactPlanAdd cp (loadedContact f t vals), some stop, false⟩, ?_,
        fun _ => ⟨stop, rfl, hq.of_suffix hsuf hnul'⟩⟩
      rw [loadStep_ids hids, loadNumbers_eq, hvals]
      rfl
    · refine Or.inr ⟨fun h => hnum (h.numbers f t q hids), ?_⟩
      rw [loadStep_ids hids, loadNumbers_eq]
      rcases numberFields_unreadable hq.2 hnum NumKey.initial with hvals | ⟨vals, hvals⟩
      · exact Or.inl (by rw [hvals]; rfl)
      · exact Or.inr ⟨_, by rw [hvals]; rfl, rfl, rfl⟩
  · obtain ⟨s', hs', hgo⟩ := hrun
    exact Or.inl ⟨⟨hto, fun f t q h => absurd h (hids f t q)⟩, s', hs', hgo⟩

theorem inside_step {s s' : LoadState} (hs : Inside s) (h : (planLoop F).Steps s s') :
    Inside s' ∧ s'.room < s.room := by
  obtain ⟨cp, p, ret⟩ := s
  obtain ⟨hret, hstep⟩ := h
  change ret = false at hret
  subst hret
  change loadStep F cp p = .ok s' at hstep
  cases p with
  | none => cases hstep
  | some p =>
    have hnul : 0 ∈ p := hs p rfl rfl
    have hpos : 0 < p.length := List.length_pos_of_mem hnul
    rcases loadStep_ok F cp hnul with ⟨_, t, ht, hgo⟩ | ⟨_, ht | ⟨t, ht, hret, hnone⟩⟩
    · rw [ht] at hstep
      cases hstep
      cases hret : s'.returned with
      | true => exact ⟨fun q _ hq => absurd (hret.symm.trans hq) (by decide), by simp [LoadState.room, hret]⟩
      | false =>
        obtain ⟨q, hq, hlt, hnul'⟩ := hgo hret
        refine ⟨fun r hr _ => ?_, by simp [LoadState.room, hret, hq, hlt]⟩
        cases hq.symm.trans hr
        exact hnul'
    · rw [ht] at hstep
      cases hstep
    · rw [ht] at hstep
      cases hstep
      refine ⟨fun q hq _ => ?_, by simp [LoadState.room, hret, hnone, hpos]⟩
      cases hnone.symm.trans hq

theorem inside_of_reaches {file : List UInt8} {s : LoadState}
    (hs : (planLoop F).Reaches (loadStart file) s) : Inside s :=
  hs.induct (inside_start file) fun _ _ _ h hstep => (inside_step h hstep).1

/-- The one way in which a trip can fail. -/
theorem loadStep_error {s : LoadState} (hs : Inside s) (hret : s.returned = false) {e : Stray}
    (h : loadStep F s.cp s.p = .error e) : e = .null := by
  obtain ⟨cp, p, ret⟩ := s
  cases p with
  | none =>
    cases h
    rfl
  | some p =>
    rcases loadStep_ok F cp (hs p rfl hret) with ⟨_, t, ht, _⟩ | ⟨_, ht | ⟨t, ht, _⟩⟩
    · cases ht.symm.trans h
    · cases ht.symm.trans h
      rfl
    · cases ht.symm.trans h

/-- The loop goes on for as many trips as the buffer has bytes and one more, at most. -/
theorem planLoop_ends (F : Strtof) (file : List UInt8) :
    (∃ s, (planLoop F).run (planBufSize + 1) (loadStart file) = .ok s ∧ s.returned = true) ∨
      ∃ e, (planLoop F).run (planBufSize + 1) (loadStart file) = .error e := by
  have hroom : (loadStart file).room ≤ planBufSize + 1 := by
    simp [LoadState.room, loadStart, planBuf, planBufSize]
    omega
  have hzero : ∀ s, Inside s → s.room = 0 → s.returned = true := by
    intro s _ h
    cases hret : s.returned with
    | true => rfl
    | false => cases hp : s.p <;> simp [LoadState.room, hret, hp] at h
  exact Machine.run_of_measure LoadState.room hzero (fun _ _ => inside_step) _ _
    (inside_start file) hroom

/-- **The two endings**: the loop has been left, or `NULL` has been followed. -/
theorem contactPlanLoadJson_cases (F : Strtof) (file : List UInt8) :
    (∃ s, (planLoop F).Reaches (loadStart file) s ∧ s.returned = true ∧
      contactPlanLoadJson F (some file) = .ok (some (s.cp.contacts.length, s.cp))) ∨
    (∃ s, (planLoop F).Reaches (loadStart file) s ∧ s.returned = false ∧
      loadStep F s.cp s.p = .error .null ∧
      contactPlanLoadJson F (some file) = .error .null) := by
  rcases planLoop_ends F file with ⟨s, hrun, hret⟩ | ⟨e, hrun⟩
  · refine Or.inl ⟨s, Machine.reaches_of_run hrun, hret, ?_⟩
    simp [contactPlanLoadJson, hrun, hret, bind, Except.bind, pure, Except.pure]
  · obtain ⟨s, hs, hret, hstep⟩ := Machine.faults_iff.mp ⟨_, hrun⟩
    obtain rfl := loadStep_error (inside_of_reaches hs) hret hstep
    refine Or.inr ⟨s, hs, hret, hstep, ?_⟩
    simp [contactPlanLoadJson, hrun, bind, Except.bind]

/-- **No file makes the loader read outside the buffer or loop for ever.** -/
theorem contactPlanLoadJson_ends (F : Strtof) (file : List UInt8) :
    (∃ n cp, contactPlanLoadJson F (some file) = .ok (some (n, cp))) ∨
      contactPlanLoadJson F (some file) = .error .null := by
  rcases contactPlanLoadJson_cases F file with ⟨s, _, _, hload⟩ | ⟨_, _, _, _, hload⟩
  · exact Or.inl ⟨_, _, hload⟩
  · exact Or.inr hload

/-- A run that ends makes its next trip. -/
theorem reaches_step {s sf : LoadState} (h : (planLoop F).Reaches s sf) (hs : s.returned = false)
    (hf : sf.returned = true) :
    ∃ s', loadStep F s.cp s.p = .ok s' ∧ (planLoop F).Reaches s' sf := by
  rcases Relation.ReflTransGen.cases_head h with rfl | ⟨s', hstep, hrest⟩
  · rw [hs] at hf
    cases hf
  · exact ⟨s', hstep.2, hrest⟩

/-- Nothing comes after the loop has been left. -/
theorem reaches_returned {s sf : LoadState} (h : (planLoop F).Reaches s sf)
    (hs : s.returned = true) : sf = s := by
  rcases Relation.ReflTransGen.cases_head h with rfl | ⟨_, hstep, _⟩
  · rfl
  · exact absurd (hs.symm.trans hstep.1) (by decide)

/-- What is returned is what the loop was left with, however many trips that took. -/
theorem contactPlanLoadJson_eq_ok {file : List UInt8} {n : Int} {cp : ContactPlan} :
    contactPlanLoadJson F (some file) = .ok (some (n, cp)) ↔
      ∃ s, (planLoop F).Reaches (loadStart file) s ∧ s.returned = true ∧ s.cp = cp ∧
        n = cp.contacts.length := by
  rcases contactPlanLoadJson_cases F file with ⟨s, hs, hret, hload⟩ | ⟨s, hs, hret, hstep, hload⟩
  · rw [hload]
    constructor
    · intro h
      cases h
      exact ⟨s, hs, hret, rfl, rfl⟩
    · rintro ⟨s', hs', hret', rfl, rfl⟩
      obtain rfl := reaches_returned (hs.to_final hret hs') hret'
      rfl
  · rw [hload]
    constructor
    · intro h
      cases h
    · rintro ⟨s', hs', hret', _⟩
      obtain ⟨t, ht, _⟩ := reaches_step (hs'.to_final hret' hs) hret hret'
      cases hstep.symm.trans ht

/-! ### Readable trips -/

/-- The loop makes a trip from `p`. -/
def TripFrom (F : Strtof) (file p : List UInt8) : Prop :=
  ∃ cp, (planLoop F).Reaches (loadStart file) ⟨cp, some p, false⟩

/-- A trip of a run that ends is readable. -/
theorem readable_of_reaches {cp : ContactPlan} {p : List UInt8} (hnul : 0 ∈ p) {sf : LoadState}
    (h : (planLoop F).Reaches ⟨cp, some p, false⟩ sf) (hf : sf.returned = true) :
    TripReadable F p := by
  obtain ⟨s', hstep, hrest⟩ := reaches_step h rfl hf
  rcases loadStep_ok F cp hnul with ⟨hread, _⟩ | ⟨_, ht | ⟨t, ht, hret, hnone⟩⟩
  · exact hread
  · cases ht.symm.trans hstep
  · -- the trip ends with a `NULL` cursor, and the next one searches it
    cases ht.symm.trans hstep
    obtain ⟨s'', hnull, _⟩ := reaches_step hrest hret hf
    rw [hnone] at hnull
    cases hnull

/-- While trips are readable, the cursor is not `NULL`. -/
theorem cursor_of_readable {file : List UInt8} (hall : ∀ p, TripFrom F file p → TripReadable F p)
    {s : LoadState} (hs : (planLoop F).Reaches (loadStart file) s) :
    s.returned = false → ∃ p, s.p = some p ∧ 0 ∈ p := by
  refine hs.induct (P := fun s => s.returned = false → ∃ p, s.p = some p ∧ 0 ∈ p)
    (fun _ => ⟨_, rfl, by simp [planBuf]⟩) ?_
  rintro ⟨cp, p, ret⟩ s' hr ih ⟨hret, hstep⟩ hret'
  obtain ⟨q, hq, hnul⟩ := ih hret
  cases hq
  cases hret
  rcases loadStep_ok F cp hnul with ⟨_, t, ht, hgo⟩ | ⟨hnot, _⟩
  · cases ht.symm.trans hstep
    obtain ⟨r, hr', _, hnul'⟩ := hgo hret'
    exact ⟨r, hr', hnul'⟩
  · exact absurd (hall q ⟨cp, hr⟩) hnot

end

/-- **The loader returns exactly where every trip finds what it needs.** -/
theorem contactPlanLoadJson_safe (F : Strtof) (file : List UInt8) :
    (∃ n cp, contactPlanLoadJson F (some file) = .ok (some (n, cp))) ↔
      ∀ p, TripFrom F file p → TripReadable F p := by
  constructor
  · rintro ⟨n, cp, hload⟩ p ⟨cp', hp⟩
    obtain ⟨sf, hsf, hret, _⟩ := contactPlanLoadJson_eq_ok.mp hload
    exact readable_of_reaches (inside_of_reaches hp p rfl rfl) (hsf.to_final hret hp) hret
  · intro hall
    rcases contactPlanLoadJson_cases F file with ⟨s, _, _, hload⟩ | ⟨s, hs, hret, hstep, _⟩
    · exact ⟨_, _, hload⟩
    · obtain ⟨p, hp, hnul⟩ := cursor_of_readable hall hs hret
      obtain ⟨cp, q, ret⟩ := s
      cases hp
      cases hret
      rcases loadStep_ok F cp hnul with ⟨_, t, ht, _⟩ | ⟨hnot, _⟩
      · cases ht.symm.trans hstep
      · exact absurd (hall p ⟨cp, hs⟩) hnot

/-! ### Files that stop it -/

def isDigit (x : UInt8) : Bool := decide ('0'.toUInt8 ≤ x ∧ x ≤ '9'.toUInt8)

/-- The number that decimal digits stand for. -/
def wholeValue (digits : List UInt8) : ℚ :=
  digits.foldl (fun v x => 10 * v + ((x.toNat : ℚ) - 48)) 0

/-- A `strtof` that knows whole numbers. -/
def wholeStrtof : Strtof where
  read s :=
    if s.takeWhile isDigit = [] then none
    else some (wholeValue (s.takeWhile isDigit), (s.takeWhile isDigit).length)
  inside s v k h := by
    split at h
    · cases h
    · rename_i hne
      obtain ⟨_, rfl⟩ := Prod.mk.inj (Option.some.inj h)
      exact ⟨List.length_pos_iff.mpr hne, (List.takeWhile_sublist _).length_le⟩
  not_quote s := rfl

/-- `{"frm":"A","to":"B","rate":null,"conf":1}`. -/
def nullRateFile : List UInt8 :=
  ascii ['{'] ++ keyPattern frmKey ++ [colonChar] ++ keyPattern (ascii ['A']) ++ ascii [',']
    ++ keyPattern toKey ++ [colonChar] ++ keyPattern (ascii ['B']) ++ ascii [',']
    ++ keyPattern NumKey.rate.name ++ ascii [':', 'n', 'u', 'l', 'l', ','] ++ keyPattern NumKey.conf.name
    ++ ascii [':', '1', '}']

/-- `{"frm":"A","to"}`. -/
def noColonFile : List UInt8 :=
  ascii ['{'] ++ keyPattern frmKey ++ [colonChar] ++ keyPattern (ascii ['A']) ++ ascii [',']
    ++ keyPattern toKey ++ ascii ['}']

/-- The rate is no number, and the search for the next key is from `NULL`; and a `"to"` at the
    end of the file has no colon to add one to. -/
theorem nullRateFile_null : contactPlanLoadJson wholeStrtof (some nullRateFile) = .error .null ∧
    contactPlanLoadJson wholeStrtof (some noColonFile) = .error .null := by
  constructor <;> decide

end DtnHardware
