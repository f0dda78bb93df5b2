import Mathlib.Tactic

/-!
# Strings in a buffer

A `const char *` into a buffer is what is left of the buffer from there on, so moving a pointer
forward is dropping bytes and two pointers into one buffer are two suffixes of it. `NULL` is
`none`. Reading where nothing is left is a read outside the buffer, and `Stray` names the two
ways in which a read has no meaning.

A pointer is safe to search from as long as a NUL is still ahead (`0 ∈ p`). Everything that a
search finds is a suffix with a NUL ahead of it again (`strstr_ok`, `strchr_ok`), which is all
that a proof of memory safety needs. What is found is a question of what stands in front of it
(`strstr_skip`, `strchr_skip`).
-/

set_option autoImplicit false

namespace CString

/-- A read with no meaning. -/
inductive Stray where
  | null
  | outside
deriving DecidableEq, Repr

/-- A pointer that is followed: `NULL` cannot be. -/
def nonNull : Option (List UInt8) → Except Stray (List UInt8)
  | none => .error .null
  | some p => .ok p

/-- The string at `p`, without its NUL. -/
def string : List UInt8 → Except Stray (List UInt8)
  | [] => .error .outside
  | x :: p => if x = 0 then .ok [] else (string p).map (x :: ·)

/-- `strstr(p, pat)`. -/
def strstr (pat : List UInt8) : List UInt8 → Except Stray (Option (List UInt8))
  | [] => .error .outside
  | x :: p =>
    if pat.isPrefixOf (x :: p) then .ok (some (x :: p))
    else if x = 0 then .ok none
    else strstr pat p

/-- `strchr(p, c)`. -/
def strchr (c : UInt8) : List UInt8 → Except Stray (Option (List UInt8))
  | [] => .error .outside
  | x :: p =>
    if x = c then .ok (some (x :: p))
    else if x = 0 then .ok none
    else strchr c p

/-! ## Inside the buffer -/

theorem mem_of_cons {x : UInt8} {p : List UInt8} (h : 0 ∈ x :: p) (hx : x ≠ 0) : 0 ∈ p := by
  rcases List.mem_cons.mp h with rfl | h
  · exact absurd rfl hx
  · exact h

/-- A string is read up to its NUL. -/
theorem string_ok {p : List UInt8} (h : 0 ∈ p) :
    ∃ s rest, string p = .ok s ∧ p = s ++ 0 :: rest := by
  induction p with
  | nil => simp at h
  | cons x p ih =>
    by_cases hx : x = 0
    · exact ⟨[], p, by simp [string, hx], by simp [hx]⟩
    · obtain ⟨s, rest, hs, rfl⟩ := ih (mem_of_cons h hx)
      exact ⟨x :: s, rest, by simp [string, hx, hs, Except.map], rfl⟩

/-- **`strstr` stays inside**, and what it finds begins with the pattern. -/
theorem strstr_ok {pat p : List UInt8} (h : 0 ∈ p) :
    ∃ hit, strstr pat p = .ok hit ∧ ∀ q, hit = some q → q <:+ p ∧ pat <+: q ∧ 0 ∈ q := by
  induction p with
  | nil => simp at h
  | cons x p ih =>
    by_cases hpat : pat.isPrefixOf (x :: p) = true
    · refine ⟨some (x :: p), by rw [strstr, if_pos hpat], fun q hq => ?_⟩
      cases hq
      exact ⟨List.suffix_rfl, List.isPrefixOf_iff_prefix.mp hpat, h⟩
    · by_cases hx : x = 0
      · exact ⟨none, by rw [strstr, if_neg hpat, if_pos hx], nofun⟩
      · obtain ⟨hit, hstr, hall⟩ := ih (mem_of_cons h hx)
        refine ⟨hit, by rw [strstr, if_neg hpat, if_neg hx, hstr], fun q hq => ?_⟩
        obtain ⟨hsuf, hrest⟩ := hall q hq
        exact ⟨hsuf.trans (List.suffix_cons x p), hrest⟩

/-- **`strchr` stays inside**, and what it finds begins with the character. -/
theorem strchr_ok {c : UInt8} {p : List UInt8} (hc : c ≠ 0) (h : 0 ∈ p) :
    ∃ hit, strchr c p = .ok hit ∧ ∀ q, hit = some q → ∃ r, q = c :: r ∧ q <:+ p ∧ 0 ∈ r := by
  induction p with
  | nil => simp at h
  | cons x p ih =>
    by_cases hxc : x = c
    · refine ⟨some (x :: p), by simp [strchr, hxc], fun q hq => ?_⟩
      cases hq
      exact ⟨p, by rw [hxc], List.suffix_rfl, mem_of_cons h (hxc ▸ hc)⟩
    · by_cases hx : x = 0
      · exact ⟨none, by rw [strchr, if_neg hxc, if_pos hx], nofun⟩
      · obtain ⟨hit, hstr, hall⟩ := ih (mem_of_cons h hx)
        refine ⟨hit, by simp [strchr, hxc, hx, hstr], fun q hq => ?_⟩
        obtain ⟨r, hr, hsuf, hrest⟩ := hall q hq
        exact ⟨r, hr, hsuf.trans (List.suffix_cons x p), hrest⟩

/-! ## What is in front -/

theorem string_append {s : List UInt8} (h : 0 ∉ s) (rest : List UInt8) :
    string (s ++ 0 :: rest) = .ok s := by
  induction s with
  | nil => simp [string]
  | cons x s ih =>
    simp only [List.mem_cons, not_or] at h
    simp [string, Ne.symm h.1, ih h.2, Except.map]

/-- Where the pattern does not begin, the search goes on. -/
theorem strstr_cons {pat p : List UInt8} {x : UInt8} (h : ¬ pat <+: x :: p) (hx : x ≠ 0) :
    strstr pat (x :: p) = strstr pat p := by
  have hpat : ¬ pat.isPrefixOf (x :: p) = true := fun hp => h (List.isPrefixOf_iff_prefix.mp hp)
  rw [strstr, if_neg hpat, if_neg hx]

/-- Bytes other than the pattern's first one do not matter. -/
theorem strstr_skip {y : UInt8} {pat : List UInt8} {s : List UInt8}
    (h : ∀ x ∈ s, x ≠ y ∧ x ≠ 0) (p : List UInt8) :
    strstr (y :: pat) (s ++ p) = strstr (y :: pat) p := by
  induction s with
  | nil => rfl
  | cons x s ih =>
    obtain ⟨hxy, hx⟩ := h x (by simp)
    have hpat : ¬ (y :: pat) <+: x :: (s ++ p) := by
      intro hp
      exact hxy (List.cons_prefix_cons.mp hp).1.symm
    rw [List.cons_append, strstr_cons hpat hx, ih fun z hz => h z (by simp [hz])]

theorem strstr_here {pat : List UInt8} (h : pat ≠ []) (p : List UInt8) :
    strstr pat (pat ++ p) = .ok (some (pat ++ p)) := by
  cases pat with
  | nil => simp at h
  | cons y pat =>
    have hpat : (y :: pat).isPrefixOf (y :: (pat ++ p)) = true :=
      List.isPrefixOf_iff_prefix.mpr (List.prefix_append (y :: pat) p)
    rw [List.cons_append, strstr, if_pos hpat]

theorem strstr_end (y : UInt8) (pat rest : List UInt8) (h : y ≠ 0) :
    strstr (y :: pat) (0 :: rest) = .ok none := by
  simp [strstr, List.isPrefixOf, h]

theorem strchr_skip {c : UInt8} {s : List UInt8} (h : ∀ x ∈ s, x ≠ c ∧ x ≠ 0)
    (p : List UInt8) : strchr c (s ++ p) = strchr c p := by
  induction s with
  | nil => rfl
  | cons x s ih =>
    obtain ⟨hxc, hx⟩ := h x (by simp)
    have hrest := ih fun z hz => h z (by simp [hz])
    simp [strchr, hxc, hx, hrest]

@[simp] theorem strchr_here (c : UInt8) (p : List UInt8) :
    strchr c (c :: p) = .ok (some (c :: p)) := by simp [strchr]

theorem strchr_end {c : UInt8} (h : c ≠ 0) (rest : List UInt8) :
    strchr c (0 :: rest) = .ok none := by
  simp [strchr, Ne.symm h]

end CString
