import Mathlib.Tactic
import Mathlib.Order.Basic

/-!
# Lists kept free of dominated entries

A search that prunes by dominance keeps, per place, a list of the best signatures
seen so far: an incoming `x` is dropped when some entry is `≤ x`, and otherwise
replaces every entry it is `≤` of. The order is any preorder — in the applications a
product of "earlier", "more reliable", "more spare", so it is far from total.

The one fact such a search lives on is that the pruning forgets nothing:
`Covers l x` ("some entry is at least as good as `x`") survives every insertion
(`Covers.insertMin`), and the inserted value is covered from then on
(`covers_insertMin_self`). Where the entries come from is the other half
(`mem_insertMin`): insertion invents nothing.
-/

set_option autoImplicit false

namespace Dominance

variable {α : Type*} [Preorder α]

/-- Some entry of `l` is at least as good as `x`. -/
def Covers (l : List α) (x : α) : Prop := ∃ y ∈ l, y ≤ x

section
variable [DecidableLE α]

/-- Drop what `x` is at least as good as, then append `x`. -/
def insertMin (x : α) (l : List α) : List α :=
  l.filter (fun y => !decide (x ≤ y)) ++ [x]

theorem mem_insertMin {x y : α} {l : List α} :
    y ∈ insertMin x l ↔ (y ∈ l ∧ ¬ x ≤ y) ∨ y = x := by
  simp [insertMin, List.mem_append, List.mem_filter]

theorem covers_insertMin_self (x : α) (l : List α) : Covers (insertMin x l) x :=
  ⟨x, mem_insertMin.mpr (Or.inr rfl), le_refl x⟩

/-- Insertion forgets nothing: an entry that goes is one `x` is at least as good as. -/
theorem Covers.insertMin {l : List α} {z : α} (x : α) (h : Covers l z) :
    Covers (insertMin x l) z := by
  obtain ⟨y, hy, hyz⟩ := h
  by_cases hxy : x ≤ y
  · exact ⟨x, mem_insertMin.mpr (Or.inr rfl), hxy.trans hyz⟩
  · exact ⟨y, mem_insertMin.mpr (Or.inl ⟨hy, hxy⟩), hyz⟩

end

/-- What covers a value covers everything that value is at least as good as. -/
theorem Covers.trans {l : List α} {x y : α} (h : Covers l x) (hxy : x ≤ y) : Covers l y :=
  let ⟨z, hz, hzx⟩ := h
  ⟨z, hz, hzx.trans hxy⟩

end Dominance
