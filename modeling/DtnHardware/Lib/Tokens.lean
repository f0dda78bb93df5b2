import DtnHardware.Lib.CString

/-!
# Searching text as if it were tokens

A reader without a tokenizer looks for a quoted word with `strstr` and for a mark with
`strchr`. On text that *is* made of tokens, with any blanks between them, such a search finds
what the same search over the list of tokens finds (`Text.find_quoted`, `Text.find_mark`). The
three ways in which it could go wrong are excluded by what tokens look like: a quoted token has
no quotes inside, so the pattern matches at its first quote only if it is spelled the same; and
behind its last quote comes a mark or a blank, which no word begins with.

The alphabet is a parameter.
-/

set_option autoImplicit false

namespace Tokens

open CString

/-- What the bytes of a text are for. -/
structure Alphabet where
  quote : UInt8
  blank : UInt8 → Bool
  /-- the bytes of the words that are searched for -/
  word : UInt8 → Bool
  quote_ok : quote ≠ 0 ∧ blank quote = false ∧ word quote = false
  blank_ok : ∀ x, blank x = true → x ≠ 0 ∧ word x = false
  word_ok : word 0 = false

inductive Token where
  | mark (c : UInt8)
  | quoted (s : List UInt8)
  | bare (s : List UInt8)
deriving DecidableEq

def Token.isMark : Token → Bool
  | .mark _ => true
  | _ => false

variable {A : Alphabet}

/-- `s` between quotes. -/
def Alphabet.inQuotes (A : Alphabet) (s : List UInt8) : List UInt8 := A.quote :: (s ++ [A.quote])

def Alphabet.bytes (A : Alphabet) : Token → List UInt8
  | .mark c => [c]
  | .quoted s => A.inQuotes s
  | .bare s => s

/-- Neither NUL nor quote. -/
def Alphabet.Plain (A : Alphabet) (x : UInt8) : Prop := x ≠ 0 ∧ x ≠ A.quote

/-- A token that can be told from its surroundings. -/
def Alphabet.Clean (A : Alphabet) : Token → Prop
  | .mark c => A.Plain c ∧ A.blank c = false ∧ A.word c = false
  | .quoted s => ∀ x ∈ s, A.Plain x
  | .bare s => s ≠ [] ∧ ∀ x ∈ s, A.Plain x ∧ A.blank x = false

/-- A word that can be searched for. -/
def Alphabet.IsWord (A : Alphabet) (key : List UInt8) : Prop :=
  key ≠ [] ∧ ∀ x ∈ key, A.word x = true

/-- The tokens in order, with blanks in front of each and at the end. -/
inductive Spaced (A : Alphabet) : List Token → List UInt8 → Prop
  | nil {w : List UInt8} (hw : ∀ x ∈ w, A.blank x = true) : Spaced A [] w
  | cons {w : List UInt8} {t : Token} {ts : List Token} {text : List UInt8}
      (hw : ∀ x ∈ w, A.blank x = true) (h : Spaced A ts text) :
      Spaced A (t :: ts) (w ++ A.bytes t ++ text)

/-- Of two neighbours one is a mark. -/
def Separated (toks : List Token) : Prop := toks.IsChain fun t t' => t.isMark ∨ t'.isMark

/-- A text of clean tokens that do not run together. -/
structure Text (A : Alphabet) (toks : List Token) (text : List UInt8) : Prop where
  spaced : Spaced A toks text
  clean : ∀ t ∈ toks, A.Clean t
  separated : Separated toks

/-! ## Bytes -/

theorem Alphabet.blank_plain {x : UInt8} (h : A.blank x = true) : A.Plain x := by
  refine ⟨(A.blank_ok x h).1, ?_⟩
  rintro rfl
  simp [A.quote_ok] at h

theorem Alphabet.word_plain {x : UInt8} (h : A.word x = true) : A.Plain x := by
  constructor
  · rintro rfl
    simp [A.word_ok] at h
  · rintro rfl
    simp [A.quote_ok] at h

theorem Alphabet.IsWord.plain {key : List UInt8} (h : A.IsWord key) : ∀ x ∈ key, A.Plain x :=
  fun x hx => A.word_plain (h.2 x hx)

theorem Alphabet.Clean.bytes_ne_zero {t : Token} (h : A.Clean t) : 0 ∉ A.bytes t := by
  cases t with
  | mark c => simpa [bytes] using Ne.symm h.1.1
  | quoted s =>
    have hs : 0 ∉ s := fun h0 => (h 0 h0).1 rfl
    simp [bytes, inQuotes, hs, Ne.symm A.quote_ok.1]
  | bare s => exact fun h0 => (h.2 0 h0).1.1 rfl

/-- No blanks at all. -/
theorem spaced_flatMap (toks : List Token) : Spaced A toks (toks.flatMap A.bytes) := by
  induction toks with
  | nil => exact .nil nofun
  | cons t ts ih => simpa using Spaced.cons (w := []) (t := t) nofun ih

/-! ## Separated tokens -/

theorem Separated.mark {ts : List Token} (h : Separated ts) (c : UInt8) :
    Separated (.mark c :: ts) := by
  cases ts with
  | nil => exact List.IsChain.singleton _
  | cons t ts => exact List.isChain_cons_cons.mpr ⟨Or.inl rfl, h⟩

/-- In front of a mark anything may stand. -/
theorem Separated.cons_mark {c : UInt8} {ts : List Token} (h : Separated (.mark c :: ts))
    (t : Token) : Separated (t :: .mark c :: ts) :=
  List.isChain_cons_cons.mpr ⟨Or.inr rfl, h⟩

/-! ## Texts, token by token -/

/-- The first token, and the text behind it. -/
theorem Text.cons_cases {t : Token} {ts : List Token} {text : List UInt8}
    (h : Text A (t :: ts) text) : ∃ w rest, text = w ++ A.bytes t ++ rest ∧
      (∀ x ∈ w, A.blank x = true) ∧ A.Clean t ∧ Text A ts rest := by
  obtain ⟨hspaced, hclean, hsep⟩ := h
  cases hspaced with
  | cons hw hrest =>
    exact ⟨_, _, rfl, hw, hclean t (by simp), hrest, fun t' ht' => hclean t' (by simp [ht']),
      hsep.tail⟩

theorem Text.nil_blank {text : List UInt8} (h : Text A [] text) : ∀ x ∈ text, A.blank x = true := by
  obtain ⟨hspaced, _, _⟩ := h
  cases hspaced with
  | nil hw => exact hw

theorem Text.zero_notMem {toks : List Token} {text : List UInt8} (h : Text A toks text) :
    0 ∉ text := by
  induction toks generalizing text with
  | nil => exact fun h0 => (A.blank_ok 0 (h.nil_blank 0 h0)).1 rfl
  | cons t ts ih =>
    obtain ⟨w, rest, rfl, hw, ht, hrest⟩ := h.cons_cases
    have hw0 : 0 ∉ w := fun h0 => (A.blank_ok 0 (hw 0 h0)).1 rfl
    simp [hw0, ht.bytes_ne_zero, ih hrest]

/-- Leading blanks can be left out. -/
theorem Text.trim {t : Token} {ts : List Token} {text rest : List UInt8} (h : Text A (t :: ts) text)
    (hrest : Text A ts rest) : Text A (t :: ts) (A.bytes t ++ rest) :=
  ⟨by simpa using Spaced.cons (w := []) (t := t) nofun hrest.spaced, h.clean, h.separated⟩

/-- What stands behind a token that is no mark begins no word. -/
theorem Text.head_not_word {t : Token} {ts : List Token} {text junk : List UInt8}
    (h : Text A (t :: ts) text) (ht : t.isMark = false) {rest : List UInt8}
    (hrest : Text A ts rest) {x : UInt8} {r : List UInt8} (hx : rest ++ 0 :: junk = x :: r) :
    A.word x = false := by
  have hblank {w s : List UInt8} (hw : ∀ y ∈ w, A.blank y = true) (hws : w ++ s = x :: r)
      (hs : ∀ y l, s = y :: l → A.word y = false) : A.word x = false := by
    cases w with
    | nil => exact hs x r hws
    | cons y w =>
      obtain ⟨rfl, _⟩ := List.cons.inj hws
      exact (A.blank_ok y (hw y (by simp))).2
  cases ts with
  | nil =>
    refine hblank hrest.nil_blank hx fun y l hy => ?_
    obtain ⟨rfl, _⟩ := List.cons.inj hy
    exact A.word_ok
  | cons t' ts =>
    obtain ⟨w, rest', rfl, hw, hclean, _⟩ := hrest.cons_cases
    rw [List.append_assoc, List.append_assoc] at hx
    refine hblank hw hx fun y l hy => ?_
    -- the next token is a mark
    have hmark : t'.isMark = true :=
      (List.isChain_cons_cons.mp h.separated).1.resolve_left (by simp [ht])
    cases t' with
    | mark c =>
      obtain ⟨rfl, _⟩ := List.cons.inj hy
      exact hclean.2.2
    | quoted s => cases hmark
    | bare s => cases hmark

/-! ## Searching for a quoted word -/

/-- Between quotes nothing matches but itself. -/
theorem eq_of_prefix {key s r : List UInt8} (hkey : ∀ x ∈ key, x ≠ A.quote)
    (hs : ∀ x ∈ s, x ≠ A.quote) (h : key ++ [A.quote] <+: s ++ A.quote :: r) : key = s := by
  induction key generalizing s with
  | nil =>
    cases s with
    | nil => rfl
    | cons y s => exact absurd (List.cons_prefix_cons.mp h).1.symm (hs y (by simp))
  | cons x key ih =>
    cases s with
    | nil => exact absurd (List.cons_prefix_cons.mp h).1 (hkey x (by simp))
    | cons y s =>
      obtain ⟨rfl, hrest⟩ := List.cons_prefix_cons.mp h
      rw [ih (fun z hz => hkey z (by simp [hz])) (fun z hz => hs z (by simp [hz])) hrest]

theorem strstr_skip_plain {key s : List UInt8} (hs : ∀ x ∈ s, A.Plain x) (p : List UInt8) :
    strstr (A.inQuotes key) (s ++ p) = strstr (A.inQuotes key) p :=
  strstr_skip (fun x hx => ⟨(hs x hx).2, (hs x hx).1⟩) p

/-- A token spelled otherwise is passed over. -/
theorem Text.strstr_tail {key text : List UInt8} {t : Token} {ts : List Token}
    (hkey : A.IsWord key) (h : Text A (t :: ts) text) (ht : t ≠ .quoted key) (junk : List UInt8) :
    ∃ rest, Text A ts rest ∧ strstr (A.inQuotes key) (text ++ 0 :: junk)
      = strstr (A.inQuotes key) (rest ++ 0 :: junk) := by
  obtain ⟨w, rest, rfl, hw, hclean, hrest⟩ := h.cons_cases
  refine ⟨rest, hrest, ?_⟩
  rw [List.append_assoc, List.append_assoc,
    strstr_skip_plain fun x hx => A.blank_plain (hw x hx)]
  cases t with
  | mark c =>
    refine strstr_skip_plain (fun x hx => ?_) _
    rw [List.mem_singleton.mp hx]
    exact hclean.1
  | bare s => exact strstr_skip_plain (fun x hx => (hclean.2 x hx).1) _
  | quoted s =>
    have hopen : ¬ A.inQuotes key <+: A.quote :: (s ++ A.quote :: (rest ++ 0 :: junk)) := by
      intro hp
      have heq := eq_of_prefix (fun x hx => (hkey.plain x hx).2) (fun x hx => (hclean x hx).2)
        (List.cons_prefix_cons.mp hp).2
      exact ht (heq ▸ rfl)
    have hclose : ¬ A.inQuotes key <+: A.quote :: (rest ++ 0 :: junk) := by
      intro hp
      obtain ⟨x, key', rfl⟩ := List.exists_cons_of_ne_nil hkey.1
      obtain ⟨r, hr⟩ := (List.cons_prefix_cons.mp hp).2
      have hword := h.head_not_word rfl hrest hr.symm
      exact absurd (hkey.2 x (by simp)) (by simp [hword])
    have hbytes : A.bytes (.quoted s) ++ (rest ++ 0 :: junk)
        = A.quote :: (s ++ A.quote :: (rest ++ 0 :: junk)) := by simp [Alphabet.bytes, Alphabet.inQuotes]
    rw [hbytes, strstr_cons hopen A.quote_ok.1, strstr_skip_plain hclean,
      strstr_cons hclose A.quote_ok.1]

/-- **`strstr` finds the first token that is spelled so.** -/
theorem Text.find_quoted {key text : List UInt8} {ts : List Token} (pre : List Token)
    (hkey : A.IsWord key) (h : Text A (pre ++ .quoted key :: ts) text)
    (hpre : .quoted key ∉ pre) (junk : List UInt8) :
    ∃ hit, Text A (.quoted key :: ts) hit ∧
      strstr (A.inQuotes key) (text ++ 0 :: junk) = .ok (some (hit ++ 0 :: junk)) := by
  induction pre generalizing text with
  | nil =>
    obtain ⟨w, rest, rfl, hw, hclean, hrest⟩ := h.cons_cases
    refine ⟨_, h.trim hrest, ?_⟩
    rw [List.append_assoc, List.append_assoc, List.append_assoc,
      strstr_skip_plain fun x hx => A.blank_plain (hw x hx)]
    exact strstr_here (by simp [Alphabet.inQuotes]) _
  | cons t pre ih =>
    simp only [List.mem_cons, not_or] at hpre
    obtain ⟨rest, hrest, heq⟩ := h.strstr_tail hkey (Ne.symm hpre.1) junk
    obtain ⟨hit, hhit, hfind⟩ := ih hrest hpre.2
    exact ⟨hit, hhit, heq.trans hfind⟩

theorem Text.find_quoted_none {key text : List UInt8} {toks : List Token} (hkey : A.IsWord key)
    (h : Text A toks text) (hnot : .quoted key ∉ toks) (junk : List UInt8) :
    strstr (A.inQuotes key) (text ++ 0 :: junk) = .ok none := by
  induction toks generalizing text with
  | nil =>
    rw [strstr_skip_plain fun x hx => A.blank_plain (h.nil_blank x hx)]
    exact strstr_end _ _ _ A.quote_ok.1
  | cons t ts ih =>
    simp only [List.mem_cons, not_or] at hnot
    obtain ⟨rest, hrest, heq⟩ := h.strstr_tail hkey (Ne.symm hnot.1) junk
    exact heq.trans (ih hrest hnot.2)

/-! ## Searching for a mark -/

/-- A byte that `strchr` can find in tokens only. -/
def Alphabet.IsMark (A : Alphabet) (c : UInt8) : Prop := c ≠ 0 ∧ A.blank c = false

/-- Blanks are passed over. -/
theorem Alphabet.IsMark.skip {c : UInt8} (hc : A.IsMark c) {w : List UInt8}
    (hw : ∀ x ∈ w, A.blank x = true) : ∀ x ∈ w, x ≠ c ∧ x ≠ 0 := by
  intro x hx
  refine ⟨?_, (A.blank_ok x (hw x hx)).1⟩
  intro heq
  have hblank := hw x hx
  simp [heq, hc.2] at hblank

theorem Text.strchr_tail {c : UInt8} {text : List UInt8} {t : Token} {ts : List Token}
    (hc : A.IsMark c) (h : Text A (t :: ts) text) (ht : c ∉ A.bytes t) (junk : List UInt8) :
    ∃ rest, Text A ts rest ∧ strchr c (text ++ 0 :: junk) = strchr c (rest ++ 0 :: junk) := by
  obtain ⟨w, rest, rfl, hw, hclean, hrest⟩ := h.cons_cases
  refine ⟨rest, hrest, ?_⟩
  rw [List.append_assoc, strchr_skip]
  intro x hx
  rcases List.mem_append.mp hx with hx | hx
  · exact hc.skip hw x hx
  · exact ⟨fun heq => ht (heq ▸ hx), fun heq => hclean.bytes_ne_zero (heq ▸ hx)⟩

/-- **`strchr` finds the first mark**, past tokens without that byte. -/
theorem Text.find_mark {c : UInt8} {text : List UInt8} {ts : List Token} (pre : List Token)
    (hc : A.IsMark c) (h : Text A (pre ++ .mark c :: ts) text)
    (hpre : ∀ t ∈ pre, c ∉ A.bytes t) (junk : List UInt8) :
    ∃ rest, Text A ts rest ∧ strchr c (text ++ 0 :: junk) = .ok (some (c :: (rest ++ 0 :: junk))) := by
  induction pre generalizing text with
  | nil =>
    obtain ⟨w, rest, rfl, hw, _, hrest⟩ := h.cons_cases
    refine ⟨rest, hrest, ?_⟩
    rw [List.append_assoc, List.append_assoc, strchr_skip (hc.skip hw)]
    exact strchr_here c _
  | cons t pre ih =>
    obtain ⟨rest, hrest, heq⟩ := h.strchr_tail hc (hpre t (by simp)) junk
    obtain ⟨rest', hrest', hfind⟩ := ih hrest fun t' ht' => hpre t' (by simp [ht'])
    exact ⟨rest', hrest', heq.trans hfind⟩

theorem Text.find_mark_none {c : UInt8} {text : List UInt8} {toks : List Token} (hc : A.IsMark c)
    (h : Text A toks text) (hnot : ∀ t ∈ toks, c ∉ A.bytes t) (junk : List UInt8) :
    strchr c (text ++ 0 :: junk) = .ok none := by
  induction toks generalizing text with
  | nil =>
    rw [strchr_skip (hc.skip h.nil_blank)]
    exact strchr_end hc.1 junk
  | cons t ts ih =>
    obtain ⟨rest, hrest, heq⟩ := h.strchr_tail hc (hnot t (by simp)) junk
    exact heq.trans (ih hrest fun t' ht' => hnot t' (by simp [ht']))

end Tokens
