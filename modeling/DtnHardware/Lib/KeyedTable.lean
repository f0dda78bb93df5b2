import Mathlib.Data.Finmap
import Mathlib.Tactic
import DtnHardware.Lib.ArrayLoops

/-!
# Keyed tables

A table kept in an array, whose records are looked up by a key: the first match counts, a new
record goes to the end or over the one with its key, and a record is removed by moving the
last one into its place. None of this is about keys occurring once, and all of it is only
right if they do.

`tableMap key val l` is the finite map such a table stands for. With the keys distinct,

* overwriting the record of a key and appending one under a fresh key are `Finmap.insert`
  (`tableMap_set`, `tableMap_append`);
* removing a record is `Finmap.erase` (`tableMap_swapRemove`);
* the first match is `Finmap.lookup` (`lookup_tableMap`, for which they need not be);

and each of the three leaves them distinct (`nodup_set`, `nodup_append`, `nodup_swapRemove`).
-/

set_option autoImplicit false

namespace KeyedTable

open ArrayLoops

variable {ρ κ ν : Type*} {key : ρ → κ} {val : ρ → ν}

/-! ## Distinct keys -/

theorem nodup_append {l : List ρ} {r : ρ} (h : (l.map key).Nodup)
    (hfresh : ∀ x ∈ l, key x ≠ key r) : ((l ++ [r]).map key).Nodup := by
  rw [List.map_append, List.map_singleton]
  refine h.append (List.nodup_singleton _) (List.disjoint_singleton.mpr fun hmem => ?_)
  obtain ⟨x, hx, hkey⟩ := List.mem_map.mp hmem
  exact hfresh x hx hkey

/-- The key in the slot does not change. -/
theorem nodup_set {l : List ρ} {i : Nat} {x r : ρ} (h : (l.map key).Nodup)
    (hget : l[i]? = some x) (hkey : key x = key r) : ((l.set i r).map key).Nodup := by
  have hsame : (l.map key)[i]? = some (key r) := by
    rw [List.getElem?_map, hget]
    exact congrArg some hkey
  obtain ⟨hlt, heq⟩ := List.getElem?_eq_some_iff.mp hsame
  rw [List.map_set, ← heq, List.set_getElem_self]
  exact h

/-- What stays has distinct keys, and none of them is the removed one. -/
theorem nodup_swapRemove {l : List ρ} {i : Nat} {x : ρ} (h : (l.map key).Nodup)
    (hget : l[i]? = some x) :
    ((swapRemove l i).map key).Nodup ∧ ∀ y ∈ swapRemove l i, key y ≠ key x := by
  have hperm := (((perm_swapRemove hget).map key).nodup_iff).mp h
  rw [List.map_cons] at hperm
  obtain ⟨hnot, hnd⟩ := List.nodup_cons.mp hperm
  exact ⟨hnd, fun y hy heq => hnot (heq ▸ List.mem_map_of_mem hy)⟩

/-! ## The map -/

variable [DecidableEq κ]

/-- The finite map from keys to values; of two records with one key, the first counts. -/
def tableMap (key : ρ → κ) (val : ρ → ν) (l : List ρ) : Finmap fun _ : κ => ν :=
  (l.map fun r => (⟨key r, val r⟩ : Sigma fun _ : κ => ν)).toFinmap

/-- A lookup is a search for the first match. -/
theorem lookup_tableMap (l : List ρ) (k : κ) :
    (tableMap key val l).lookup k = (l.find? fun r => decide (key r = k)).map val := by
  unfold tableMap
  rw [Finmap.dlookup_list_toFinmap]
  induction l with
  | nil => rfl
  | cons r l ih =>
    rw [List.map_cons, List.find?_cons]
    by_cases hk : key r = k
    · subst hk
      rw [List.dlookup_cons_eq, decide_eq_true rfl]
      rfl
    · rw [List.dlookup_cons_ne _ _ (Ne.symm hk), ih, decide_eq_false hk]

theorem mem_tableMap {l : List ρ} {k : κ} :
    k ∈ tableMap key val l ↔ ∃ r ∈ l, key r = k := by
  rw [← Finmap.lookup_isSome, lookup_tableMap, Option.isSome_map, List.find?_isSome]
  simp only [decide_eq_true_iff]

theorem tableMap_cons (r : ρ) (l : List ρ) :
    tableMap key val (r :: l) = (tableMap key val l).insert (key r) (val r) :=
  Finmap.toFinmap_cons _ _ _

/-- The order of the records does not matter. -/
theorem tableMap_of_perm {l l' : List ρ} (h : (l.map key).Nodup) (hperm : l.Perm l') :
    tableMap key val l = tableMap key val l' := by
  apply Finmap.ext_lookup
  intro k
  unfold tableMap
  rw [Finmap.dlookup_list_toFinmap, Finmap.dlookup_list_toFinmap]
  refine List.perm_dlookup k ?_ (hperm.map _)
  unfold List.NodupKeys List.keys
  rw [List.map_map]
  exact h

theorem tableMap_append {l : List ρ} {r : ρ} (h : (l.map key).Nodup)
    (hfresh : ∀ x ∈ l, key x ≠ key r) :
    tableMap key val (l ++ [r]) = (tableMap key val l).insert (key r) (val r) := by
  rw [← tableMap_cons]
  exact tableMap_of_perm (nodup_append h hfresh) (List.perm_append_singleton r l)

theorem tableMap_swapRemove {l : List ρ} {i : Nat} {x : ρ} (h : (l.map key).Nodup)
    (hget : l[i]? = some x) :
    tableMap key val (swapRemove l i) = (tableMap key val l).erase (key x) := by
  rw [tableMap_of_perm h (perm_swapRemove hget), tableMap_cons]
  apply Finmap.ext_lookup
  intro k
  by_cases hk : k = key x
  · subst hk
    rw [Finmap.lookup_erase, Finmap.lookup_eq_none, mem_tableMap]
    rintro ⟨y, hy, hkey⟩
    exact (nodup_swapRemove h hget).2 y hy hkey
  · rw [Finmap.lookup_erase_ne hk, Finmap.lookup_insert_of_ne _ hk]

theorem tableMap_set {l : List ρ} {i : Nat} {x r : ρ} (h : (l.map key).Nodup)
    (hget : l[i]? = some x) (hkey : key x = key r) :
    tableMap key val (l.set i r) = (tableMap key val l).insert (key r) (val r) := by
  have hperm : (l.set i r).Perm (r :: swapRemove l i) := by
    have htrade : (x :: l.set i r).Perm (x :: r :: swapRemove l i) :=
      calc (x :: l.set i r).Perm (r :: l) := perm_set l i x r hget
        _ |>.Perm (r :: x :: swapRemove l i) := (perm_swapRemove hget).cons r
        _ |>.Perm (x :: r :: swapRemove l i) := List.Perm.swap _ _ _
    exact htrade.cons_inv
  rw [tableMap_of_perm (nodup_set h hget hkey) hperm, tableMap_of_perm h (perm_swapRemove hget),
    tableMap_cons, tableMap_cons, hkey, Finmap.insert_insert]

/-- As many keys as records. -/
theorem card_keys_tableMap {l : List ρ} (h : (l.map key).Nodup) :
    (tableMap key val l).keys.card = l.length := by
  have hkeys : (tableMap key val l).keys = (l.map key).toFinset := by
    ext k
    rw [Finmap.mem_keys, mem_tableMap, List.mem_toFinset, List.mem_map]
  rw [hkeys, List.toFinset_card_of_nodup h, List.length_map]

end KeyedTable
