import Mathlib.Data.List.TakeWhile
import Mathlib.Tactic

/-!
# A command line

A program that is typed at reads what there is, in pieces that have nothing to do with lines,
collects a line in a buffer of fixed size, and hands the line over at its end. What is handed
over should depend on the text alone:

> **the lines of the text, in order, each cut to the buffer** (`foldl_takeByte`), however the
> text came in pieces.

The bytes are stamped, since a command is carried out when its line ends and not when it was
begun: the stamp of a line is that of the byte that ends it.

The second half is `strtok`, which takes one word after the other off a line.
-/

set_option autoImplicit false

namespace CommandLine

section
variable {α τ σ : Type*}

/-- One byte into a line buffer with room for `cap`; what does not fit is lost. -/
def store (cap : Nat) (line : List α) (x : α) : List α :=
  if line.length < cap then line ++ [x] else line

/-- One byte of the stream: `ends x` hands the line to `handle` and begins the next one. -/
def takeByte (cap : Nat) (ends : α → Bool) (handle : τ → σ → List α → σ)
    (s : σ × List α) (x : τ × α) : σ × List α :=
  let line := store cap s.2 x.2
  if ends x.2 then (handle x.1 s.1 line, []) else (s.1, line)

/-- The lines that `xs` completes when `line` is the beginning of the first one, each with the
    byte that ends it and that byte's stamp, and the beginning that is left over. -/
def linesFrom (ends : α → Bool) (line : List α) : List (τ × α) → List (τ × List α) × List α
  | [] => ([], line)
  | x :: xs =>
    if ends x.2 then
      ((x.1, line ++ [x.2]) :: (linesFrom ends [] xs).1, (linesFrom ends [] xs).2)
    else linesFrom ends (line ++ [x.2]) xs

@[simp] theorem linesFrom_nil (ends : α → Bool) (line : List α) :
    linesFrom ends line ([] : List (τ × α)) = ([], line) := rfl

/-- A buffer that is full keeps what it has, which is what cutting does. -/
theorem store_take (cap : Nat) (line : List α) (x : α) :
    store cap (line.take cap) x = (line ++ [x]).take cap := by
  unfold store
  by_cases h : line.length < cap
  · have hlen : (line.take cap).length < cap := by
      rw [List.length_take]
      omega
    rw [if_pos hlen, List.take_of_length_le h.le, List.take_of_length_le (by simp; omega)]
  · have hlen : ¬ (line.take cap).length < cap := by
      rw [List.length_take]
      omega
    rw [if_neg hlen, List.take_append_of_le_length (by omega)]

/-- **The lines of the text, each cut to the buffer.** -/
theorem foldl_takeByte (cap : Nat) (ends : α → Bool) (handle : τ → σ → List α → σ)
    (xs : List (τ × α)) (s : σ) (line : List α) :
    xs.foldl (takeByte cap ends handle) (s, line.take cap) =
      ((linesFrom ends line xs).1.foldl (fun s l => handle l.1 s (l.2.take cap)) s,
        (linesFrom ends line xs).2.take cap) := by
  induction xs generalizing s line with
  | nil => rfl
  | cons x xs ih =>
    rw [List.foldl_cons, takeByte, linesFrom]
    simp only [store_take]
    by_cases hends : ends x.2 = true
    · have hnext := ih (handle x.1 s ((line ++ [x.2]).take cap)) []
      rw [List.take_nil] at hnext
      rw [if_pos hends, if_pos hends, hnext, List.foldl_cons]
    · rw [if_neg hends, if_neg hends, ih]

/-- What one piece leaves over begins the first line of the next. -/
theorem linesFrom_append (ends : α → Bool) (xs ys : List (τ × α)) (line : List α) :
    linesFrom ends line (xs ++ ys) =
      ((linesFrom ends line xs).1 ++ (linesFrom ends (linesFrom ends line xs).2 ys).1,
        (linesFrom ends (linesFrom ends line xs).2 ys).2) := by
  induction xs generalizing line with
  | nil => rfl
  | cons x xs ih =>
    rw [List.cons_append, linesFrom, linesFrom]
    split
    · rw [ih, List.cons_append]
    · rw [ih]

/-- Where no line ends, all is left over. -/
theorem linesFrom_pending {ends : α → Bool} {xs : List (τ × α)}
    (h : ∀ y ∈ xs.map Prod.snd, ends y = false) (line : List α) :
    linesFrom ends line xs = ([], line ++ xs.map Prod.snd) := by
  induction xs generalizing line with
  | nil => simp
  | cons x xs ih =>
    have hx : ¬ ends x.2 = true := by simp [h x.2 (by simp)]
    rw [linesFrom, if_neg hx, ih fun y hy => h y (List.mem_cons_of_mem _ hy)]
    simp

/-- The lines are the text's, whatever the stamps. -/
theorem linesFrom_stamps {τ' : Type*} (ends : α → Bool) {xs : List (τ × α)}
    {ys : List (τ' × α)} (h : xs.map Prod.snd = ys.map Prod.snd) (line : List α) :
    (linesFrom ends line xs).1.map Prod.snd = (linesFrom ends line ys).1.map Prod.snd ∧
      (linesFrom ends line xs).2 = (linesFrom ends line ys).2 := by
  induction xs generalizing ys line with
  | nil =>
    have hys : ys = [] := by simpa using h.symm
    subst hys
    exact ⟨rfl, rfl⟩
  | cons x xs ih =>
    obtain ⟨y, zs, rfl, hy, hzs⟩ := List.map_eq_cons_iff.mp h.symm
    rw [linesFrom, linesFrom, hy]
    split
    · obtain ⟨hlines, hleft⟩ := ih hzs.symm []
      exact ⟨by simp [hlines], hleft⟩
    · exact ih hzs.symm _

/-- A line's stamp is one of the text's. -/
theorem stamp_mem_of_mem_linesFrom {ends : α → Bool} {xs : List (τ × α)} {line : List α}
    {l : τ × List α} (h : l ∈ (linesFrom ends line xs).1) : l.1 ∈ xs.map Prod.fst := by
  induction xs generalizing line with
  | nil => simp at h
  | cons x xs ih =>
    rw [linesFrom] at h
    rw [List.map_cons]
    split at h
    · rcases List.mem_cons.mp h with rfl | h
      · exact List.mem_cons_self
      · exact List.mem_cons_of_mem _ (ih h)
    · exact List.mem_cons_of_mem _ (ih h)

/-- **A text that is lines is read as those lines.** -/
theorem linesFrom_lines {ends : α → Bool} {x : α} (hx : ends x = true) :
    ∀ {ls : List (List α)} {xs : List (τ × α)}, (∀ l ∈ ls, ∀ y ∈ l, ends y = false) →
      xs.map Prod.snd = ls.flatMap (· ++ [x]) →
      (linesFrom ends [] xs).1.map Prod.snd = ls.map (· ++ [x]) := by
  intro ls
  induction ls with
  | nil =>
    intro xs _ h
    have hxs : xs = [] := by simpa using h
    rw [hxs, linesFrom, List.map_nil, List.map_nil]
  | cons l ls ih =>
    intro xs hls h
    rw [List.flatMap_cons, List.append_assoc] at h
    obtain ⟨ys, zs, rfl, hys, hzs⟩ := List.map_eq_append_iff.mp h
    obtain ⟨z, ws, rfl, hz, hws⟩ := List.map_eq_cons_iff.mp hzs
    have hfirst := linesFrom_pending (fun y hy => hls l (by simp) y (hys ▸ hy)) []
    have hrest := ih (fun l' h' => hls l' (List.mem_cons_of_mem _ h')) hws
    rw [linesFrom_append, hfirst, hys, linesFrom, if_pos (hz ▸ hx), hz]
    simp [hrest]

end

/-! ## Words -/

section
variable {α : Type*} [DecidableEq α] {delims w : List α}

/-- `strtok`: delimiters are skipped, and the word is what stands before the next one, which is
    consumed. Past the last word there is none, now or later. -/
def strtok (delims s : List α) : Option (List α) × List α :=
  let s := s.dropWhile (· ∈ delims)
  if s = [] then (none, [])
  else (some (s.takeWhile (· ∉ delims)), (s.dropWhile (· ∉ delims)).drop 1)

@[simp] theorem strtok_nil (delims : List α) : strtok delims [] = (none, []) := rfl

/-- No byte of it is a delimiter. -/
def FreeOf (delims w : List α) : Prop := ∀ x ∈ w, x ∉ delims

instance : Decidable (FreeOf delims w) := inferInstanceAs (Decidable (∀ x ∈ w, x ∉ delims))

theorem FreeOf.dropWhile_mem (h : FreeOf delims w) (hw : w ≠ []) (rest : List α) :
    (w ++ rest).dropWhile (· ∈ delims) = w ++ rest := by
  cases w with
  | nil => exact absurd rfl hw
  | cons x w => simp [h x (by simp)]

/-- The word at the front, and what stands behind its delimiter. -/
theorem strtok_word (h : FreeOf delims w) (hw : w ≠ []) {d : α} (hd : d ∈ delims)
    (rest : List α) : strtok delims (w ++ d :: rest) = (some w, rest) := by
  have hkeep : ∀ x ∈ w, (decide (x ∉ delims)) = true := fun x hx => by simp [h x hx]
  rw [strtok, h.dropWhile_mem hw, if_neg (by simp)]
  rw [List.takeWhile_append_of_pos hkeep, List.dropWhile_append_of_pos hkeep]
  simp [hd]

/-- The last word. -/
theorem strtok_last (h : FreeOf delims w) (hw : w ≠ []) : strtok delims w = (some w, []) := by
  have hkeep : ∀ x ∈ w, (decide (x ∉ delims)) = true := fun x hx => by simp [h x hx]
  have hskip := h.dropWhile_mem hw []
  rw [List.append_nil] at hskip
  rw [strtok, hskip, if_neg hw, List.takeWhile_eq_self_iff.mpr hkeep,
    List.dropWhile_eq_nil_iff.mpr hkeep, List.drop_nil]

end

end CommandLine
