import Mathlib.Tactic
import Mathlib.Order.OrderDual

/-!
# Loops over an array

C code picks a best slot with a counting loop that keeps the first winner, and removes
a slot by moving the last one into it. Both are written here once, over lists.

* `scanMax key l` is `best = 0; for (i = 1; i < n; ++i) if (key(a[i]) > key(a[best]))
  best = i;` — the winning index together with the element there, `none` on an empty
  array. `scanMin` is the same loop with `<`.
* `swapRemove l i` is `a[i] = a[n-1]; --n;`. It permutes what stays, so statements
  about it are about multisets (`perm_swapRemove`).

The two together, again and again, are a selection sort: `selectAll` takes the largest out
until nothing is left, and what it takes is sorted (`pairwise_selectAll`).
-/

set_option autoImplicit false

namespace ArrayLoops

variable {α β : Type*}

/-! ## Keeping the first best -/

section
variable [LinearOrder β]

/-- The loop from index `i` on, with the best so far. -/
def scanFrom (key : α → β) : Nat → Nat × α → List α → Nat × α
  | _, best, [] => best
  | i, best, x :: xs => scanFrom key (i + 1) (if key best.2 < key x then (i, x) else best) xs

def scanMax (key : α → β) : List α → Option (Nat × α)
  | [] => none
  | x :: xs => some (scanFrom key 1 (0, x) xs)

def scanMin (key : α → β) (l : List α) : Option (Nat × α) :=
  scanMax (fun x => OrderDual.toDual (key x)) l

/-- What the loop maintains: the best so far sits where it says, and beats all that
    has been seen. -/
theorem scanFrom_spec (key : α → β) : ∀ (xs pre : List α) (best : Nat × α),
    pre[best.1]? = some best.2 → (∀ x ∈ pre, key x ≤ key best.2) →
    (pre ++ xs)[(scanFrom key pre.length best xs).1]?
        = some (scanFrom key pre.length best xs).2 ∧
      ∀ x ∈ pre ++ xs, key x ≤ key (scanFrom key pre.length best xs).2 := by
  intro xs
  induction xs with
  | nil =>
    intro pre best hget hmax
    simp only [List.append_nil, scanFrom]
    exact ⟨hget, hmax⟩
  | cons y ys ih =>
    intro pre best hget hmax
    have hlen : (pre ++ [y]).length = pre.length + 1 := by simp
    have happ : pre ++ y :: ys = (pre ++ [y]) ++ ys := by simp
    have hlt : best.1 < pre.length := (List.getElem?_eq_some_iff.mp hget).1
    simp only [scanFrom]
    rw [happ, ← hlen]
    by_cases hb : key best.2 < key y
    · rw [if_pos hb]
      apply ih (pre ++ [y]) (pre.length, y) (by simp)
      intro x hx
      rcases List.mem_append.mp hx with hx | hx
      · exact (hmax x hx).trans hb.le
      · rw [List.mem_singleton.mp hx]
    · rw [if_neg hb]
      refine ih (pre ++ [y]) best ?_ fun x hx => ?_
      · rw [List.getElem?_append_left hlt]; exact hget
      · rcases List.mem_append.mp hx with hx | hx
        · exact hmax x hx
        · rw [List.mem_singleton.mp hx]; exact not_lt.mp hb

theorem scanMax_spec {key : α → β} {l : List α} {i : Nat} {b : α}
    (h : scanMax key l = some (i, b)) : l[i]? = some b ∧ ∀ x ∈ l, key x ≤ key b := by
  cases l with
  | nil => simp [scanMax] at h
  | cons x xs =>
    simp only [scanMax, Option.some.injEq] at h
    have := scanFrom_spec key xs [x] (0, x) (by simp) (by simp)
    simp only [List.length_singleton, h, List.singleton_append] at this
    exact this

theorem scanMin_spec {key : α → β} {l : List α} {i : Nat} {b : α}
    (h : scanMin key l = some (i, b)) : l[i]? = some b ∧ ∀ x ∈ l, key b ≤ key x := by
  obtain ⟨hget, hmin⟩ := scanMax_spec h
  exact ⟨hget, fun x hx => OrderDual.toDual_le_toDual.mp (hmin x hx)⟩

theorem scanMax_eq_none {key : α → β} {l : List α} : scanMax key l = none ↔ l = [] := by
  cases l <;> simp [scanMax]

theorem scanMin_eq_none {key : α → β} {l : List α} : scanMin key l = none ↔ l = [] :=
  scanMax_eq_none

end

/-! ## Moving the last slot into the hole -/

def swapRemove (l : List α) (i : Nat) : List α :=
  match l.getLast? with
  | none => l
  | some z => (l.set i z).dropLast

/-- Overwriting a slot trades its element for the new one. -/
theorem perm_set : ∀ (l : List α) (i : Nat) (x z : α), l[i]? = some x →
    (x :: l.set i z).Perm (z :: l) := by
  intro l
  induction l with
  | nil => intro i x z h; simp at h
  | cons y ys ih =>
    intro i x z h
    cases i with
    | zero =>
      simp only [List.getElem?_cons_zero, Option.some.injEq] at h
      subst h
      exact List.Perm.swap _ _ _
    | succ i =>
      simp only [List.getElem?_cons_succ] at h
      simp only [List.set_cons_succ]
      calc (x :: y :: ys.set i z).Perm (y :: x :: ys.set i z) := List.Perm.swap _ _ _
        _ |>.Perm (y :: z :: ys) := (ih i x z h).cons y
        _ |>.Perm (z :: y :: ys) := List.Perm.swap _ _ _

/-- Swap-remove takes exactly the element at `i` out of the multiset. -/
theorem perm_swapRemove {l : List α} {i : Nat} {x : α} (h : l[i]? = some x) :
    l.Perm (x :: swapRemove l i) := by
  rcases List.eq_nil_or_concat l with rfl | ⟨init, z, rfl⟩
  · simp at h
  · have hsr : swapRemove (init ++ [z]) i = ((init ++ [z]).set i z).dropLast := by
      simp [swapRemove]
    rw [List.concat_eq_append] at *
    rw [hsr]
    rcases lt_or_ge i init.length with hi | hi
    · rw [List.set_append_left _ _ hi, List.dropLast_concat]
      rw [List.getElem?_append_left hi] at h
      calc (init ++ [z]).Perm (z :: init) := List.perm_append_singleton z init
        _ |>.Perm (x :: init.set i z) := (perm_set init i x z h).symm
    · have hlt : i < (init ++ [z]).length := (List.getElem?_eq_some_iff.mp h).1
      rw [List.length_append, List.length_singleton] at hlt
      have hi' : i = init.length := by omega
      subst hi'
      simp only [List.getElem?_concat_length, Option.some.injEq] at h
      subst h
      rw [List.set_append_right _ _ (le_refl _), Nat.sub_self]
      simp only [List.set_cons_zero, List.dropLast_concat]
      exact List.perm_append_singleton z init

theorem length_swapRemove {l : List α} {i : Nat} {x : α} (h : l[i]? = some x) :
    (swapRemove l i).length + 1 = l.length := by
  have := (perm_swapRemove h).length_eq
  simpa using this.symm

/-! ## Selecting until nothing is left -/

section
variable [LinearOrder β]

/-- Up to `n` times the best is taken out: what was taken, in order, and what stays. -/
def selectAll (key : α → β) : Nat → List α → List α × List α
  | 0, l => ([], l)
  | n + 1, l =>
      match scanMax key l with
      | none => ([], l)
      | some (i, x) =>
          let (out, rest) := selectAll key n (swapRemove l i)
          (x :: out, rest)

@[simp] theorem selectAll_nil (key : α → β) (n : Nat) : selectAll key n [] = ([], []) := by
  cases n <;> rfl

/-- Where there is something, the best of it goes first. -/
theorem selectAll_succ (key : α → β) (n : Nat) {l : List α} (h : l ≠ []) :
    ∃ i x, scanMax key l = some (i, x) ∧ l[i]? = some x ∧ (∀ y ∈ l, key y ≤ key x) ∧
      selectAll key (n + 1) l = (x :: (selectAll key n (swapRemove l i)).1,
        (selectAll key n (swapRemove l i)).2) := by
  cases hscan : scanMax key l with
  | none => exact absurd (scanMax_eq_none.mp hscan) h
  | some best =>
    obtain ⟨i, x⟩ := best
    obtain ⟨hget, hmax⟩ := scanMax_spec hscan
    refine ⟨i, x, rfl, hget, hmax, ?_⟩
    rw [selectAll, hscan]

theorem perm_selectAll (key : α → β) (n : Nat) (l : List α) :
    l.Perm ((selectAll key n l).1 ++ (selectAll key n l).2) := by
  induction n generalizing l with
  | zero => exact List.Perm.refl l
  | succ n ih =>
    by_cases hl : l = []
    · rw [hl, selectAll_nil]
      exact List.Perm.refl []
    · obtain ⟨i, x, _, hget, _, heq⟩ := selectAll_succ key n hl
      rw [heq]
      exact (perm_swapRemove hget).trans ((ih (swapRemove l i)).cons x)

/-- With as many rounds as elements nothing stays. -/
theorem selectAll_rest (key : α → β) {n : Nat} {l : List α} (h : l.length ≤ n) :
    (selectAll key n l).2 = [] := by
  induction n generalizing l with
  | zero => exact List.length_eq_zero_iff.mp (Nat.le_zero.mp h)
  | succ n ih =>
    by_cases hl : l = []
    · rw [hl, selectAll_nil]
    · obtain ⟨i, x, _, hget, _, heq⟩ := selectAll_succ key n hl
      have hlen := length_swapRemove hget
      rw [heq]
      exact ih (by omega)

/-- More rounds than that do nothing. -/
theorem selectAll_of_length_le (key : α → β) {m n : Nat} {l : List α} (hm : l.length ≤ m)
    (hn : l.length ≤ n) : selectAll key m l = selectAll key n l := by
  induction m generalizing n l with
  | zero =>
    rw [List.length_eq_zero_iff.mp (Nat.le_zero.mp hm), selectAll_nil, selectAll_nil]
  | succ m ih =>
    by_cases hl : l = []
    · rw [hl, selectAll_nil, selectAll_nil]
    · obtain ⟨i, x, hscan, hget, _, heq⟩ := selectAll_succ key m hl
      have hlen := length_swapRemove hget
      obtain ⟨k, rfl⟩ : ∃ k, n = k + 1 := ⟨n - 1, by omega⟩
      obtain ⟨i', x', hscan', _, _, heq'⟩ := selectAll_succ key k hl
      cases hscan.symm.trans hscan'
      rw [heq, heq', ih (show _ ≤ m by omega) (show _ ≤ k by omega)]

/-- **A selection sort sorts**: each element taken is at least as large as the next. -/
theorem pairwise_selectAll (key : α → β) (n : Nat) (l : List α) :
    (selectAll key n l).1.Pairwise fun x y => key y ≤ key x := by
  induction n generalizing l with
  | zero => exact List.Pairwise.nil
  | succ n ih =>
    by_cases hl : l = []
    · rw [hl, selectAll_nil]
      exact List.Pairwise.nil
    · obtain ⟨i, x, _, hget, hmax, heq⟩ := selectAll_succ key n hl
      rw [heq]
      refine List.Pairwise.cons (fun y hy => hmax y ?_) (ih (swapRemove l i))
      have hmem : y ∈ swapRemove l i :=
        (perm_selectAll key n (swapRemove l i)).mem_iff.mpr (List.mem_append_left _ hy)
      exact (perm_swapRemove hget).mem_iff.mpr (List.mem_cons_of_mem x hmem)

end

end ArrayLoops
