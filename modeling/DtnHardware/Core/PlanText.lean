import DtnHardware.Core.PlanSafety
import DtnHardware.Lib.Tokens

/-!
# Plan files

The shape that `contact.c` documents for `contact_plan.json`: an object per contact, the two
node ids first, then numbers, in the order in which the loader asks for them; a number may be
left out. Blanks may stand between any two tokens.

On such a file a cursor stands in front of a token, and what is in front of it is the rest of
one object's numbers and then the later objects (`restTokens`). One search for a key is then
one of three things (`later_cases`): the key is in the object itself, or it is nowhere ahead, or
it is found in a *later* object, where it may even be the spelling of a node id.

> **A complete file is read as it is written** (`contactPlanLoadJson_roundTrip`).
-/

set_option autoImplicit false

namespace DtnHardware

open StepMachine CString Tokens

/-! ## What a plan file is -/

/-- The bytes that keys are made of. -/
def isKeyChar (x : UInt8) : Bool := decide ('a'.toUInt8 ≤ x ∧ x ≤ 'z'.toUInt8 ∨ x = '_'.toUInt8)

def planAlphabet : Alphabet where
  quote := quoteChar
  blank := isSpace
  word := isKeyChar
  quote_ok := by decide
  blank_ok := by
    intro x hx
    simp only [isSpace, decide_eq_true_eq] at hx
    rcases hx with rfl | rfl | rfl | rfl <;> decide
  word_ok := by decide

/-- A node id as it is written: one to four bytes, neither NUL nor quote. -/
structure NodeName where
  chars : List UInt8
  length_pos : 1 ≤ chars.length
  length_le : chars.length ≤ 4
  plain : ∀ x ∈ chars, x ≠ 0 ∧ x ≠ quoteChar

/-- What may stand behind a number: a blank, a comma or a closing brace. -/
def EndsNumber (rest : List UInt8) : Prop :=
  ∃ x r, rest = x :: r ∧ (isSpace x = true ∨ x = ','.toUInt8 ∨ x = '}'.toUInt8)

/-- A number as it is written: a token that `strtof` reads fully, as `value`. -/
structure Numeral (F : Strtof) where
  digits : List UInt8
  value : ℚ
  nonempty : digits ≠ []
  plain : ∀ x ∈ digits, (x ≠ 0 ∧ x ≠ quoteChar) ∧ isSpace x = false
  reads : ∀ rest, EndsNumber rest → F.read (digits ++ rest) = some (value, digits.length)

/-- A contact as it is written; any of the numbers may be left out. -/
structure PlanObject (F : Strtof) where
  frm : NodeName
  toNode : NodeName
  number : NumKey → Option (Numeral F)

variable {F : Strtof}

/-- The numbers that are there, of the keys `ks`. -/
def PlanObject.fieldsOf (o : PlanObject F) (ks : List NumKey) : List (NumKey × Numeral F) :=
  ks.filterMap fun k => (o.number k).map fun n => (k, n)

def PlanObject.fields (o : PlanObject F) : List (NumKey × Numeral F) := o.fieldsOf NumKey.all

/-- A number that is left out is what the loader starts with. -/
def PlanObject.value (o : PlanObject F) (k : NumKey) : ℚ :=
  ((o.number k).map Numeral.value).getD k.initial

/-- The contact that is meant. -/
def PlanObject.contact (o : PlanObject F) : Contact :=
  loadedContact o.frm.chars o.toNode.chars o.value

def punct (c : Char) : Token := .mark c.toUInt8

def fieldTokens (fs : List (NumKey × Numeral F)) : List Token :=
  fs.flatMap fun e => [punct ',', .quoted e.1.name, punct ':', .bare e.2.digits]

@[simp] theorem fieldTokens_nil : fieldTokens ([] : List (NumKey × Numeral F)) = [] := rfl

@[simp] theorem fieldTokens_cons (e : NumKey × Numeral F) (fs : List (NumKey × Numeral F)) :
    fieldTokens (e :: fs) = punct ',' :: .quoted e.1.name :: punct ':' :: .bare e.2.digits
      :: fieldTokens fs := rfl

def PlanObject.tokens (o : PlanObject F) : List Token :=
  [punct '{', .quoted frmKey, punct ':', .quoted o.frm.chars, punct ',',
    .quoted toKey, punct ':', .quoted o.toNode.chars] ++ fieldTokens o.fields ++ [punct '}']

/-- The objects `os` that are still to come, each behind a comma, and the end of the file. -/
def laterTokens : List (PlanObject F) → List Token
  | [] => [punct ']', punct '}']
  | o :: os => punct ',' :: o.tokens ++ laterTokens os

/-- The objects `os`, the first of them without a comma. -/
def objectsTokens : List (PlanObject F) → List Token
  | [] => [punct ']', punct '}']
  | o :: os => o.tokens ++ laterTokens os

def contactsKey : List UInt8 := ascii ['c', 'o', 'n', 't', 'a', 'c', 't', 's']

def planTokens (os : List (PlanObject F)) : List Token :=
  [punct '{', .quoted contactsKey, punct ':', punct '['] ++ objectsTokens os

/-- The rest of an object, of whose numbers `fs` are still to come, and the later objects. -/
def restTokens (fs : List (NumKey × Numeral F)) (os : List (PlanObject F)) : List Token :=
  fieldTokens fs ++ punct '}' :: laterTokens os

/-! ## The tokens can be told apart -/

theorem isWord_of_all {key : List UInt8} (hne : key ≠ []) (h : key.all isKeyChar = true) :
    planAlphabet.IsWord key := ⟨hne, List.all_eq_true.mp h⟩

theorem isWord_frmKey : planAlphabet.IsWord frmKey := isWord_of_all (by decide) (by decide)

theorem isWord_toKey : planAlphabet.IsWord toKey := isWord_of_all (by decide) (by decide)

theorem isWord_contactsKey : planAlphabet.IsWord contactsKey :=
  isWord_of_all (by decide) (by decide)

theorem NumKey.isWord_name (k : NumKey) : planAlphabet.IsWord k.name := by
  cases k <;> exact isWord_of_all (by decide) (by decide)

theorem NumKey.name_injective {k k' : NumKey} (h : k.name = k'.name) : k = k' := by
  revert h
  cases k <;> cases k' <;> decide

theorem NumKey.name_ne_frmKey (k : NumKey) : k.name ≠ frmKey := by cases k <;> decide

theorem NumKey.name_ne_toKey (k : NumKey) : k.name ≠ toKey := by cases k <;> decide

theorem clean_quoted_word {key : List UInt8} (h : planAlphabet.IsWord key) :
    planAlphabet.Clean (.quoted key) := h.plain

theorem clean_punct {c : Char} (h : c ∈ ['{', '}', '[', ']', ',', ':']) :
    planAlphabet.Clean (punct c) := by
  simp only [List.mem_cons, List.not_mem_nil, or_false] at h
  rcases h with rfl | rfl | rfl | rfl | rfl | rfl <;>
    exact ⟨⟨by decide, by decide⟩, by decide, by decide⟩

theorem clean_fieldTokens (fs : List (NumKey × Numeral F)) :
    ∀ t ∈ fieldTokens fs, planAlphabet.Clean t := by
  intro t ht
  obtain ⟨e, _, ht⟩ := List.mem_flatMap.mp ht
  simp only [List.mem_cons, List.not_mem_nil, or_false] at ht
  rcases ht with rfl | rfl | rfl | rfl
  · exact clean_punct (by decide)
  · exact clean_quoted_word e.1.isWord_name
  · exact clean_punct (by decide)
  · exact ⟨e.2.nonempty, e.2.plain⟩

theorem PlanObject.clean_tokens (o : PlanObject F) : ∀ t ∈ o.tokens, planAlphabet.Clean t := by
  intro t ht
  simp only [PlanObject.tokens, List.mem_append, List.mem_cons, List.not_mem_nil, or_false] at ht
  rcases ht with ((rfl | rfl | rfl | rfl | rfl | rfl | rfl | rfl) | ht) | rfl
  · exact clean_punct (by decide)
  · exact clean_quoted_word isWord_frmKey
  · exact clean_punct (by decide)
  · exact o.frm.plain
  · exact clean_punct (by decide)
  · exact clean_quoted_word isWord_toKey
  · exact clean_punct (by decide)
  · exact o.toNode.plain
  · exact clean_fieldTokens _ t ht
  · exact clean_punct (by decide)

theorem clean_laterTokens (os : List (PlanObject F)) :
    ∀ t ∈ laterTokens os, planAlphabet.Clean t := by
  induction os with
  | nil =>
    intro t ht
    simp only [laterTokens, List.mem_cons, List.not_mem_nil, or_false] at ht
    rcases ht with rfl | rfl <;> exact clean_punct (by decide)
  | cons o os ih =>
    intro t ht
    simp only [laterTokens, List.cons_append, List.mem_cons, List.mem_append] at ht
    rcases ht with rfl | ht | ht
    · exact clean_punct (by decide)
    · exact o.clean_tokens t ht
    · exact ih t ht

theorem clean_planTokens (os : List (PlanObject F)) :
    ∀ t ∈ planTokens os, planAlphabet.Clean t := by
  have hobjects : ∀ t ∈ objectsTokens os, planAlphabet.Clean t := by
    intro t ht
    cases os with
    | nil => exact clean_laterTokens ([] : List (PlanObject F)) t ht
    | cons o os => exact (List.mem_append.mp ht).elim (o.clean_tokens t) (clean_laterTokens os t)
  intro t ht
  simp only [planTokens, List.cons_append, List.nil_append, List.mem_cons] at ht
  rcases ht with rfl | rfl | rfl | rfl | ht
  · exact clean_punct (by decide)
  · exact clean_quoted_word isWord_contactsKey
  · exact clean_punct (by decide)
  · exact clean_punct (by decide)
  · exact hobjects t ht

/-- Numbers in front of a mark begin with a mark themselves. -/
theorem separated_fields {c : UInt8} {ts : List Token} (h : Separated (.mark c :: ts))
    (fs : List (NumKey × Numeral F)) : Separated (fieldTokens fs ++ .mark c :: ts) ∧
      ∃ c' ts', fieldTokens fs ++ .mark c :: ts = .mark c' :: ts' := by
  induction fs with
  | nil => exact ⟨h, c, ts, rfl⟩
  | cons e fs ih =>
    obtain ⟨hsep, c', ts', heq⟩ := ih
    refine ⟨?_, _, _, rfl⟩
    rw [heq] at hsep
    rw [fieldTokens_cons, List.cons_append, List.cons_append, List.cons_append, List.cons_append,
      heq]
    exact (((hsep.cons_mark _).mark _).cons_mark _).mark _

/-- An object and what is behind it, up to its numbers. -/
theorem PlanObject.tokens_append (o : PlanObject F) (os : List (PlanObject F)) :
    o.tokens ++ laterTokens os = [punct '{', .quoted frmKey, punct ':', .quoted o.frm.chars,
      punct ',', .quoted toKey, punct ':', .quoted o.toNode.chars] ++ restTokens o.fields os := by
  simp [PlanObject.tokens, restTokens]

theorem laterTokens_cons (o : PlanObject F) (os : List (PlanObject F)) :
    laterTokens (o :: os) = [punct ',', punct '{', .quoted frmKey, punct ':', .quoted o.frm.chars,
      punct ',', .quoted toKey, punct ':', .quoted o.toNode.chars] ++ restTokens o.fields os := by
  rw [laterTokens, List.cons_append, o.tokens_append]
  rfl

theorem separated_laterTokens (os : List (PlanObject F)) :
    Separated (laterTokens os) ∧ Separated (objectsTokens os) ∧
      ∀ fs : List (NumKey × Numeral F), Separated (restTokens fs os) := by
  induction os with
  | nil =>
    have hend : Separated (laterTokens ([] : List (PlanObject F))) :=
      Separated.mark (Separated.mark (List.IsChain.nil) _) _
    refine ⟨hend, hend, fun fs => ?_⟩
    exact (separated_fields (hend.mark _) fs).1
  | cons o os ih =>
    obtain ⟨hlater, _, _⟩ := ih
    have hobject : Separated (o.tokens ++ laterTokens os) := by
      obtain ⟨hsep, c, ts, heq⟩ := separated_fields (hlater.mark '}'.toUInt8) o.fields
      rw [heq] at hsep
      rw [o.tokens_append]
      unfold restTokens punct
      rw [heq]
      exact ((((((hsep.cons_mark _).mark _).cons_mark _).mark _).cons_mark _).mark _).cons_mark _
        |>.mark _
    have hlater' : Separated (laterTokens (o :: os)) := hobject.mark _
    refine ⟨hlater', hobject, fun fs => ?_⟩
    exact (separated_fields (hlater'.mark _) fs).1

/-- **A plan file is a text of tokens.** -/
theorem text_planTokens {os : List (PlanObject F)} {text : List UInt8}
    (h : Spaced planAlphabet (planTokens os) text) : Text planAlphabet (planTokens os) text := by
  refine ⟨h, clean_planTokens os, ?_⟩
  have hobjects := (separated_laterTokens os).2.1
  exact (((hobjects.mark _).mark _).cons_mark _).mark _

/-! ## Cursors in front of tokens -/

/-- The tokens `toks` are ahead of the cursor, and then the NUL. -/
def CursorAt (toks : List Token) (p : List UInt8) : Prop :=
  ∃ s, Text planAlphabet toks s ∧ p = s ++ [0]

theorem skipWs_blanks {w : List UInt8} (hw : ∀ x ∈ w, isSpace x = true) {y : UInt8}
    (hy : isSpace y = false) (r : List UInt8) : skipWs (w ++ y :: r) = .ok (y :: r) := by
  induction w with
  | nil => simp [skipWs, hy]
  | cons x w ih => simp [skipWs, hw x (by simp), ih fun z hz => hw z (by simp [hz])]

theorem copyString_plain {s : List UInt8} (hs : ∀ x ∈ s, x ≠ 0 ∧ x ≠ quoteChar) {n : Nat}
    (hn : s.length ≤ n) (r : List UInt8) :
    copyString n (s ++ quoteChar :: r) = .ok (s, quoteChar :: r) := by
  induction s generalizing n with
  | nil => cases n <;> simp [copyString]
  | cons x s ih =>
    cases n with
    | zero => simp at hn
    | succ n =>
      have hrest := ih (fun z hz => hs z (by simp [hz])) (n := n) (by simpa using hn)
      simp [copyString, hs x (by simp), hrest, bind, Except.bind, pure, Except.pure]

section
variable {p s : List UInt8} {toks ts : List Token}

/-- A short string is read as it is. -/
theorem CursorAt.readStringField (h : CursorAt (.quoted s :: ts) p) (hs : s.length ≤ 7) :
    ∃ q, readStringField p idBuf = .ok (some (s, q)) ∧ CursorAt ts q := by
  obtain ⟨text, htext, rfl⟩ := h
  obtain ⟨w, rest, rfl, hw, hclean, hrest⟩ := htext.cons_cases
  have hshape : w ++ planAlphabet.bytes (.quoted s) ++ rest ++ [0]
      = w ++ quoteChar :: (s ++ quoteChar :: (rest ++ [0])) := by
    simp [Alphabet.bytes, Alphabet.inQuotes, planAlphabet]
  have hread := readStringField_some idBuf
    (skipWs_blanks hw (by decide) (s ++ quoteChar :: (rest ++ [0]))) (copyString_plain hclean hs _)
  rw [hshape]
  exact ⟨rest ++ [0], hread, rest, hrest, rfl⟩

/-- A string is no number. -/
theorem CursorAt.readNumber_quoted (h : CursorAt (.quoted s :: ts) p) :
    readNumber F p = .ok none := by
  obtain ⟨text, htext, rfl⟩ := h
  obtain ⟨w, rest, rfl, hw, hclean, hrest⟩ := htext.cons_cases
  have hshape : w ++ planAlphabet.bytes (.quoted s) ++ rest ++ [0]
      = w ++ (planAlphabet.bytes (.quoted s) ++ rest ++ [0]) := by simp
  have h0 : 0 ∉ planAlphabet.bytes (.quoted s) ++ rest := by
    simp [hclean.bytes_ne_zero, hrest.zero_notMem]
  have hskip : skipWs (w ++ (planAlphabet.bytes (.quoted s) ++ rest ++ [0]))
      = .ok (planAlphabet.bytes (.quoted s) ++ rest ++ [0]) :=
    skipWs_blanks hw (y := quoteChar) (by decide) _
  have hnone : F.read (planAlphabet.bytes (.quoted s) ++ rest) = none := F.not_quote _
  rw [hshape, readNumber_eq F hskip (string_append h0 []), hnone]
  rfl

/-- A comma or a closing brace is ahead. -/
def EndsField (ts : List Token) : Prop :=
  ∃ c ts', ts = punct c :: ts' ∧ (c = ',' ∨ c = '}')

theorem EndsField.endsNumber {rest : List UInt8} (h : EndsField ts)
    (hrest : Text planAlphabet ts rest) : EndsNumber rest := by
  obtain ⟨c, ts', rfl, hc⟩ := h
  obtain ⟨w, rest', rfl, hw, _, _⟩ := hrest.cons_cases
  cases w with
  | nil =>
    refine ⟨c.toUInt8, rest', rfl, Or.inr ?_⟩
    rcases hc with rfl | rfl
    · exact Or.inl rfl
    · exact Or.inr rfl
  | cons x w => exact ⟨x, _, rfl, Or.inl (hw x (by simp))⟩

/-- A number is read as it is meant. -/
theorem CursorAt.readNumber {n : Numeral F} (h : CursorAt (.bare n.digits :: ts) p)
    (hts : EndsField ts) : ∃ q, readNumber F p = .ok (some (n.value, q)) ∧ CursorAt ts q := by
  obtain ⟨text, htext, rfl⟩ := h
  obtain ⟨w, rest, rfl, hw, hclean, hrest⟩ := htext.cons_cases
  obtain ⟨d, ds, hd⟩ := List.exists_cons_of_ne_nil n.nonempty
  have hspace : isSpace d = false := (n.plain d (by simp [hd])).2
  have h0 : 0 ∉ n.digits ++ rest := by
    have hdigits := hclean.bytes_ne_zero
    simp only [Alphabet.bytes] at hdigits
    simp [hdigits, hrest.zero_notMem]
  have hskip : skipWs (w ++ n.digits ++ rest ++ [0]) = .ok (n.digits ++ rest ++ [0]) := by
    rw [List.append_assoc, List.append_assoc, hd]
    simpa using skipWs_blanks hw hspace (ds ++ (rest ++ [0]))
  have hread := readNumber_eq F hskip (string_append h0 [])
  rw [n.reads rest (hts.endsNumber hrest)] at hread
  refine ⟨rest ++ [0], ?_, rest, hrest, rfl⟩
  simpa [Alphabet.bytes] using hread

theorem CursorAt.findKey {key : List UInt8} (pre : List Token) (hkey : planAlphabet.IsWord key)
    (h : CursorAt (pre ++ .quoted key :: ts) p) (hpre : .quoted key ∉ pre) :
    ∃ hit, findKey (some p) key = .ok (some hit) ∧ CursorAt (.quoted key :: ts) hit := by
  obtain ⟨text, htext, rfl⟩ := h
  obtain ⟨hit, hhit, hfind⟩ := htext.find_quoted pre hkey hpre []
  exact ⟨hit ++ [0], hfind, hit, hhit, rfl⟩

theorem CursorAt.findKey_none {key : List UInt8} (hkey : planAlphabet.IsWord key)
    (h : CursorAt toks p) (hnot : .quoted key ∉ toks) : DtnHardware.findKey (some p) key = .ok none := by
  obtain ⟨text, htext, rfl⟩ := h
  exact htext.find_quoted_none hkey hnot []

theorem isMark_colonChar : planAlphabet.IsMark colonChar := by unfold Alphabet.IsMark; decide

/-- Tokens without a colon. -/
def NoColon (ts : List Token) : Prop := ∀ t ∈ ts, colonChar ∉ planAlphabet.bytes t

theorem NoColon.nil : NoColon [] := by simp [NoColon]

theorem CursorAt.colon (pre : List Token) (h : CursorAt (pre ++ punct ':' :: ts) p)
    (hpre : NoColon pre) :
    ∃ q, strchr colonChar p = .ok (some (colonChar :: q)) ∧ CursorAt ts q := by
  obtain ⟨text, htext, rfl⟩ := h
  obtain ⟨rest, hrest, hfind⟩ := htext.find_mark pre isMark_colonChar hpre []
  exact ⟨rest ++ [0], hfind, rest, hrest, rfl⟩

theorem CursorAt.colon_none (h : CursorAt toks p) (hnot : NoColon toks) :
    strchr colonChar p = .ok none := by
  obtain ⟨text, htext, rfl⟩ := h
  exact htext.find_mark_none isMark_colonChar hnot []

/-- Behind the first `key`, and behind the next colon, stands `ts`. -/
def Found (key : List UInt8) (toks ts : List Token) : Prop :=
  ∃ pre mid, toks = pre ++ .quoted key :: (mid ++ punct ':' :: ts) ∧ .quoted key ∉ pre ∧ NoColon mid

/-- There is no `key`, or no colon behind it. -/
def Silent (key : List UInt8) (toks : List Token) : Prop :=
  .quoted key ∉ toks ∨
    ∃ pre post, toks = pre ++ .quoted key :: post ∧ .quoted key ∉ pre ∧ NoColon post

theorem Found.append {key : List UInt8} {l : List Token} (hl : .quoted key ∉ l)
    (h : Found key toks ts) : Found key (l ++ toks) ts := by
  obtain ⟨pre, mid, rfl, hpre, hmid⟩ := h
  exact ⟨l ++ pre, mid, by simp, by simp [hl, hpre], hmid⟩

theorem Silent.append {key : List UInt8} {l : List Token} (hl : .quoted key ∉ l)
    (h : Silent key toks) : Silent key (l ++ toks) := by
  rcases h with h | ⟨pre, post, rfl, hpre, hpost⟩
  · exact Or.inl (by simp [hl, h])
  · exact Or.inr ⟨l ++ pre, post, by simp, by simp [hl, hpre], hpost⟩

theorem noColon_word {key : List UInt8} (h : planAlphabet.IsWord key) :
    colonChar ∉ planAlphabet.bytes (.quoted key) := by
  have hkey : colonChar ∉ key := by
    intro hc
    have hword := h.2 colonChar hc
    exact absurd hword (by decide)
  have hquote : colonChar ≠ planAlphabet.quote := by decide
  simp [Alphabet.bytes, Alphabet.inQuotes, hkey, hquote]

/-- **The searches for a key and its colon** find what stands behind them. -/
theorem CursorAt.keyColon {key : List UInt8} (hkey : planAlphabet.IsWord key) (h : CursorAt toks p)
    (hfound : Found key toks ts) :
    ∃ q, DtnHardware.keyColon (some p) key = .ok (some (colonChar :: q)) ∧ CursorAt ts q := by
  obtain ⟨pre, mid, rfl, hpre, hmid⟩ := hfound
  obtain ⟨hit, hfind, hhit⟩ := h.findKey pre hkey hpre
  have hclear : NoColon (.quoted key :: mid) := by
    intro t ht
    rcases List.mem_cons.mp ht with rfl | ht
    · exact noColon_word hkey
    · exact hmid t ht
  obtain ⟨q, hchr, hq⟩ := CursorAt.colon (.quoted key :: mid) hhit hclear
  exact ⟨q, (keyColon_some hfind).trans hchr, hq⟩

theorem CursorAt.keyColon_none {key : List UInt8} (hkey : planAlphabet.IsWord key)
    (h : CursorAt toks p) (hsilent : Silent key toks) :
    DtnHardware.keyColon (some p) key = .ok none := by
  rcases hsilent with hnot | ⟨pre, post, rfl, hpre, hpost⟩
  · exact DtnHardware.keyColon_none (h.findKey_none hkey hnot)
  · obtain ⟨hit, hfind, hhit⟩ := h.findKey pre hkey hpre
    refine (keyColon_some hfind).trans (hhit.colon_none ?_)
    intro t ht
    rcases List.mem_cons.mp ht with rfl | ht
    · exact noColon_word hkey
    · exact hpost t ht

end

/-! ## Searching in the rest of a plan -/

theorem endsField_restTokens (fs : List (NumKey × Numeral F)) (os : List (PlanObject F)) :
    EndsField (restTokens fs os) := by
  cases fs with
  | nil => exact ⟨'}', _, rfl, Or.inr rfl⟩
  | cons e fs => exact ⟨',', _, rfl, Or.inl rfl⟩

theorem quoted_mem_fieldTokens {k : NumKey} {fs : List (NumKey × Numeral F)} :
    .quoted k.name ∈ fieldTokens fs ↔ ∃ e ∈ fs, e.1 = k := by
  induction fs with
  | nil => simp
  | cons e fs ih =>
    have hname : k.name = e.1.name ↔ e.1 = k :=
      ⟨fun h => (NumKey.name_injective h).symm, fun h => h ▸ rfl⟩
    simp [punct, ih, hname]

/-- A key of the object is found there. -/
theorem found_fields {k : NumKey} {fs : List (NumKey × Numeral F)} (h : ∃ e ∈ fs, e.1 = k)
    (os : List (PlanObject F)) : ∃ (n : Numeral F) (fs' : List (NumKey × Numeral F)),
      Found k.name (restTokens fs os) (.bare n.digits :: restTokens fs' os) := by
  induction fs with
  | nil => simp at h
  | cons e fs ih =>
    by_cases hek : e.1 = k
    · subst hek
      exact ⟨e.2, fs, [punct ','], [], rfl, by simp [punct], NoColon.nil⟩
    · obtain ⟨n, fs', hfound⟩ := ih (by simpa [hek] using h)
      have hskip : .quoted k.name ∉ fieldTokens [e] := by
        intro hmem
        obtain ⟨e', he', hek'⟩ := quoted_mem_fieldTokens.mp hmem
        rw [List.mem_singleton.mp he'] at hek'
        exact hek hek'
      have hshape : restTokens (e :: fs) os = fieldTokens [e] ++ restTokens fs os := by
        simp [restTokens]
      rw [hshape]
      exact ⟨n, fs', hfound.append hskip⟩

theorem PlanObject.mem_fieldsOf {o : PlanObject F} {ks : List NumKey} {e : NumKey × Numeral F}
    (he : e ∈ o.fieldsOf ks) : e.1 ∈ ks ∧ o.number e.1 = some e.2 := by
  obtain ⟨k, hk, hmap⟩ := List.mem_filterMap.mp he
  obtain ⟨n, hn, rfl⟩ := Option.map_eq_some_iff.mp hmap
  exact ⟨hk, hn⟩

theorem NumKey.mem_all (k : NumKey) : k ∈ NumKey.all := by cases k <;> decide

theorem PlanObject.mem_fields {o : PlanObject F} {k : NumKey} {n : Numeral F}
    (hn : o.number k = some n) : (k, n) ∈ o.fields :=
  List.mem_filterMap.mpr ⟨k, k.mem_all, by simp [hn]⟩

/-- The name of `k` stands in quotes in one of the objects `os`, and a colon behind it: as a
    key, or as a node id spelled like it. -/
def Mentions (k : NumKey) : List (PlanObject F) → Prop
  | [] => False
  | o :: os => o.frm.chars = k.name ∨ (o.toNode.chars = k.name ∧ (o.fields ≠ [] ∨ os ≠ [])) ∨
      (o.number k).isSome ∨ Mentions k os

/-- What a search that leaves its object runs into: a string, or a number of a later object. -/
def Foreign (os : List (PlanObject F)) (ts : List Token) : Prop :=
  (∃ s ts', ts = .quoted s :: ts') ∨
    ∃ (n : Numeral F) (fs : List (NumKey × Numeral F)) (os' : List (PlanObject F)),
      ts = .bare n.digits :: restTokens fs os' ∧ os' <:+ os ∧ os'.length < os.length

theorem noColon_puncts (cs : List Char) (h : (cs.all fun c => c.toUInt8 != colonChar) = true) :
    NoColon (cs.map punct) := by
  intro t ht
  obtain ⟨c, hc, rfl⟩ := List.mem_map.mp ht
  have hne : c.toUInt8 ≠ colonChar := by simpa using List.all_eq_true.mp h c hc
  simpa [punct, Alphabet.bytes] using hne.symm

theorem NoColon.cons_word {key : List UInt8} {l : List Token} (hkey : planAlphabet.IsWord key)
    (h : NoColon l) : NoColon (.quoted key :: l) := by
  intro t ht
  rcases List.mem_cons.mp ht with rfl | ht
  · exact noColon_word hkey
  · exact h t ht

theorem NoColon.append {l l' : List Token} (h : NoColon l) (h' : NoColon l') : NoColon (l ++ l') :=
  fun t ht => (List.mem_append.mp ht).elim (h t) (h' t)

section
variable {k : NumKey} {o : PlanObject F} {os : List (PlanObject F)}

/-- The sender is spelled like the key: the next colon is that of `"to"`. -/
theorem found_frm (h : o.frm.chars = k.name) : Found k.name (laterTokens (o :: os))
    (.quoted o.toNode.chars :: restTokens o.fields os) := by
  refine ⟨[punct ',', punct '{', .quoted frmKey, punct ':'], [punct ',', .quoted toKey], ?_, ?_, ?_⟩
  · rw [laterTokens_cons, h]
    rfl
  · simp [punct, k.name_ne_frmKey]
  · exact (noColon_puncts [','] (by decide)).append
      (NoColon.cons_word isWord_toKey NoColon.nil)

/-- The receiver is spelled like the key, and a number follows. -/
theorem found_to {k' : NumKey} {n : Numeral F} {fs : List (NumKey × Numeral F)}
    (hfrm : o.frm.chars ≠ k.name) (h : o.toNode.chars = k.name) (hfs : o.fields = (k', n) :: fs) :
    Found k.name (laterTokens (o :: os)) (.bare n.digits :: restTokens fs os) := by
  refine ⟨[punct ',', punct '{', .quoted frmKey, punct ':', .quoted o.frm.chars, punct ',',
    .quoted toKey, punct ':'], [punct ',', .quoted k'.name], ?_, ?_, ?_⟩
  · rw [laterTokens_cons, hfs, h]
    rfl
  · simp [punct, k.name_ne_frmKey, k.name_ne_toKey, hfrm.symm]
  · exact (noColon_puncts [','] (by decide)).append
      (NoColon.cons_word k'.isWord_name NoColon.nil)

/-- The receiver is spelled like the key, and another object follows. -/
theorem found_to_next {o' : PlanObject F} (hfrm : o.frm.chars ≠ k.name)
    (h : o.toNode.chars = k.name) (hfs : o.fields = []) :
    Found k.name (laterTokens (o :: o' :: os)) (.quoted o'.frm.chars :: punct ',' :: .quoted toKey
      :: punct ':' :: .quoted o'.toNode.chars :: restTokens o'.fields os) := by
  refine ⟨[punct ',', punct '{', .quoted frmKey, punct ':', .quoted o.frm.chars, punct ',',
    .quoted toKey, punct ':'], [punct '}', punct ',', punct '{', .quoted frmKey], ?_, ?_, ?_⟩
  · rw [laterTokens_cons, hfs, h, restTokens, laterTokens_cons]
    rfl
  · simp [punct, k.name_ne_frmKey, k.name_ne_toKey, hfrm.symm]
  · exact (noColon_puncts ['}', ',', '{'] (by decide)).append
      (NoColon.cons_word isWord_frmKey NoColon.nil)

/-- The receiver is spelled like the key, and the file ends. -/
theorem silent_to (hfrm : o.frm.chars ≠ k.name) (h : o.toNode.chars = k.name)
    (hfs : o.fields = []) : Silent k.name (laterTokens [o]) := by
  refine Or.inr ⟨[punct ',', punct '{', .quoted frmKey, punct ':', .quoted o.frm.chars, punct ',',
    .quoted toKey, punct ':'], [punct '}', punct ']', punct '}'], ?_, ?_, ?_⟩
  · rw [laterTokens_cons, hfs, h]
    rfl
  · simp [punct, k.name_ne_frmKey, k.name_ne_toKey, hfrm.symm]
  · exact noColon_puncts ['}', ']', '}'] (by decide)

/-- The object has the key. -/
theorem found_number {n : Numeral F} (hfrm : o.frm.chars ≠ k.name) (hto : o.toNode.chars ≠ k.name)
    (hn : o.number k = some n) (os : List (PlanObject F)) :
    ∃ (n : Numeral F) (fs : List (NumKey × Numeral F)),
      Found k.name (laterTokens (o :: os)) (.bare n.digits :: restTokens fs os) := by
  obtain ⟨n, fs, hfound⟩ := found_fields ⟨(k, n), PlanObject.mem_fields hn, rfl⟩ os
  refine ⟨n, fs, ?_⟩
  rw [laterTokens_cons]
  refine hfound.append ?_
  simp [punct, k.name_ne_frmKey, k.name_ne_toKey, hfrm.symm, hto.symm]

/-- The object has nothing of the kind. -/
theorem quoted_notMem_tokens (hfrm : o.frm.chars ≠ k.name) (hto : o.toNode.chars ≠ k.name)
    (hn : o.number k = none) : .quoted k.name ∉ punct ',' :: o.tokens := by
  have hfields : .quoted k.name ∉ fieldTokens o.fields := by
    intro hmem
    obtain ⟨e, he, rfl⟩ := quoted_mem_fieldTokens.mp hmem
    have hsome := (PlanObject.mem_fieldsOf he).2
    rw [hn] at hsome
    cases hsome
  simp [PlanObject.tokens, punct, k.name_ne_frmKey, k.name_ne_toKey, hfrm.symm, hto.symm, hfields]

end

theorem Foreign.mono {os os' : List (PlanObject F)} {ts : List Token} (h : Foreign os' ts)
    (hsuf : os' <:+ os) : Foreign os ts := by
  rcases h with h | ⟨n, fs, os₁, rfl, hsuf₁, hlt⟩
  · exact Or.inl h
  · exact Or.inr ⟨n, fs, os₁, rfl, hsuf₁.trans hsuf, hlt.trans_le hsuf.length_le⟩

/-- **A search through later objects**: nothing is found, or something that is not meant. -/
theorem later_cases (k : NumKey) (os : List (PlanObject F)) :
    (¬ Mentions k os ∧ Silent k.name (laterTokens os)) ∨
      (Mentions k os ∧ ∃ ts, Found k.name (laterTokens os) ts ∧ Foreign os ts) := by
  induction os with
  | nil => exact Or.inl ⟨id, Or.inl (by simp [laterTokens, punct])⟩
  | cons o os ih =>
    have hsuf : os <:+ o :: os := List.suffix_cons o os
    by_cases hfrm : o.frm.chars = k.name
    · exact Or.inr ⟨Or.inl hfrm, _, found_frm hfrm, Or.inl ⟨_, _, rfl⟩⟩
    · by_cases hto : o.toNode.chars = k.name
      · cases hfs : o.fields with
        | cons e fs =>
          refine Or.inr ⟨Or.inr (Or.inl ⟨hto, Or.inl (by simp [hfs])⟩), _,
            found_to hfrm hto hfs, Or.inr ⟨_, fs, os, rfl, hsuf, ?_⟩⟩
          simp
        | nil =>
          cases os with
          | cons o' os =>
            exact Or.inr ⟨Or.inr (Or.inl ⟨hto, Or.inr (by simp)⟩), _,
              found_to_next hfrm hto hfs, Or.inl ⟨_, _, rfl⟩⟩
          | nil =>
            refine Or.inl ⟨?_, silent_to hfrm hto hfs⟩
            have hnone : o.number k = none := by
              cases hn : o.number k with
              | none => rfl
              | some n =>
                have hmem := PlanObject.mem_fields hn
                simp [hfs] at hmem
            simp [Mentions, hfrm, hfs, hnone]
      · cases hn : o.number k with
        | some n =>
          obtain ⟨n', fs, hfound⟩ := found_number hfrm hto hn os
          refine Or.inr ⟨Or.inr (Or.inr (Or.inl (by simp [hn]))), _, hfound,
            Or.inr ⟨n', fs, os, rfl, hsuf, ?_⟩⟩
          simp
        | none =>
          have hskip := quoted_notMem_tokens hfrm hto hn
          have hmentions : Mentions k (o :: os) ↔ Mentions k os := by
            simp [Mentions, hfrm, hto, hn]
          rw [hmentions]
          rcases ih with ⟨hno, hsilent⟩ | ⟨hyes, ts, hfound, hforeign⟩
          · exact Or.inl ⟨hno, hsilent.append hskip⟩
          · exact Or.inr ⟨hyes, ts, hfound.append hskip, hforeign.mono hsuf⟩

end DtnHardware
