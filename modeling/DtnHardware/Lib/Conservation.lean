import DtnHardware.Lib.Broadcast
import Mathlib.Algebra.BigOperators.Fin

/-!
# What a channel can multiply

On a channel that hands messages over one by one, a message that is heard is gone, so what
travels is passed on and not multiplied, unless the channel itself makes a copy. `Act` is a
channel that may do anything but make messages up: deliver to any party, delay, lose, and copy.

A `Budget` counts one kind of thing: what a party holds of it and what a message carries, what a
call makes of it and what a call uses up. If no call comes out ahead, then

> **what is held, carried and used up was there at the start, made by a call, or copied by the
> channel** (`NetReaches.budget`).

With nothing made, the rule says that what the parties start with can be used up once
(`NetReaches.used_le`), which is how names that are given out are seen to be different.
-/

set_option autoImplicit false

namespace Conservation

open Broadcast GuardedCalls

/-- The parties, what is on its way, the calls so far, and the copies so far. -/
structure Net (ι σ α μ : Type*) where
  parties : ι → σ
  air : List μ
  log : List (Event ι σ α)
  copies : List μ

/-- A call at a party, or something the channel does. -/
inductive Act (ι α μ : Type*) where
  | call (i : ι) (a : α)
  | lose (m : μ)
  | copy (m : μ)

section
variable {ι σ α μ : Type*}

/-- Nothing on its way. -/
def Net.start (parties : ι → σ) : Net ι σ α μ := ⟨parties, [], [], []⟩

/-- Only what is on its way is heard or copied, and calls are made as `allowed`. -/
def Possible (P : Program σ α μ) (allowed : σ → α → Prop) (s : Net ι σ α μ) :
    Act ι α μ → Prop
  | .call i a => allowed (s.parties i) a ∧ ∀ m, P.hears a = some m → m ∈ s.air
  | .lose _ => True
  | .copy m => m ∈ s.air

variable [DecidableEq μ]

instance (P : Program σ α μ) (allowed : σ → α → Prop) [∀ n a, Decidable (allowed n a)]
    (s : Net ι σ α μ) (c : Act ι α μ) : Decidable (Possible P allowed s c) :=
  match c with
  | .call i a =>
    decidable_of_iff (allowed (s.parties i) a ∧ (P.hears a).all (· ∈ s.air) = true) (by
      cases h : P.hears a with
      | none => simp [Possible, h]
      | some m => simp [Possible, h])
  | .lose _ => .isTrue trivial
  | .copy m => inferInstanceAs (Decidable (m ∈ s.air))

/-- What a call hears is no longer on its way. -/
def heardOff (P : Program σ α μ) (air : List μ) (a : α) : List μ :=
  ((P.hears a).map air.erase).getD air

variable [DecidableEq ι]

def netStep (P : Program σ α μ) (s : Net ι σ α μ) : Act ι α μ → Option (Net ι σ α μ)
  | .call i a => (P.step (s.parties i) a).map fun n =>
      { s with
        parties := Function.update s.parties i n
        air := heardOff P s.air a ++ P.sends (s.parties i) a
        log := s.log ++ [⟨i, s.parties i, a⟩] }
  | .lose m => some { s with air := s.air.erase m }
  | .copy m => some { s with air := m :: s.air, copies := m :: s.copies }

/-- The nets that calls and the channel lead to. -/
abbrev NetReaches (P : Program σ α μ) (allowed : σ → α → Prop) (s₀ : Net ι σ α μ) :
    Net ι σ α μ → Prop := Reaches (netStep P) (Possible P allowed) s₀

end

/-! ## Budgets -/

/-- What is counted: no call comes out ahead. -/
structure Budget {σ α μ : Type*} (P : Program σ α μ) (allowed : σ → α → Prop) where
  held : σ → ℕ
  carried : μ → ℕ
  made : σ → α → ℕ
  used : σ → α → ℕ
  step : ∀ n a n', allowed n a → P.step n a = some n' →
    held n' + ((P.sends n a).map carried).sum + used n a ≤
      held n + ((P.hears a).map carried).getD 0 + made n a

section
variable {ι σ α μ : Type*} {P : Program σ α μ} {allowed : σ → α → Prop}

/-- Over a log. -/
def total (f : σ → α → ℕ) (log : List (Event ι σ α)) : ℕ :=
  (log.map fun e => f e.before e.call).sum

@[simp] theorem total_append (f : σ → α → ℕ) (log : List (Event ι σ α)) (e : Event ι σ α) :
    total f (log ++ [e]) = total f log + f e.before e.call := by
  simp [total]

/-- Along a list of messages. -/
def load (carried : μ → ℕ) (air : List μ) : ℕ := (air.map carried).sum

@[simp] theorem load_append (carried : μ → ℕ) (air air' : List μ) :
    load carried (air ++ air') = load carried air + load carried air' := by
  simp [load]

@[simp] theorem load_cons (carried : μ → ℕ) (m : μ) (air : List μ) :
    load carried (m :: air) = carried m + load carried air := by
  simp [load]

variable [DecidableEq μ]

theorem load_erase (carried : μ → ℕ) {m : μ} {air : List μ} (h : m ∈ air) :
    carried m + load carried (air.erase m) = load carried air := by
  have hperm := (List.perm_cons_erase h).map carried
  simpa [load] using hperm.sum_eq.symm

theorem load_erase_le (carried : μ → ℕ) (m : μ) (air : List μ) :
    load carried (air.erase m) ≤ load carried air := by
  by_cases h : m ∈ air
  · have := load_erase carried h
    omega
  · rw [List.erase_of_not_mem h]

/-- A message that was heard is counted once. -/
theorem load_heardOff (carried : μ → ℕ) {a : α} {air : List μ}
    (h : ∀ m, P.hears a = some m → m ∈ air) :
    ((P.hears a).map carried).getD 0 + load carried (heardOff P air a) = load carried air := by
  cases hm : P.hears a with
  | none => simp [heardOff, hm]
  | some m => simpa [heardOff, hm] using load_erase carried (h m hm)

variable [DecidableEq ι] [Fintype ι]

/-- One party's share changes by what its call changes. -/
theorem sum_update (held : σ → ℕ) (parties : ι → σ) (i : ι) (n : σ) :
    ∑ j, held (Function.update parties i n j) + held (parties i) =
      ∑ j, held (parties j) + held n := by
  have hrest : ∀ j ∈ Finset.univ.erase i,
      held (Function.update parties i n j) = held (parties j) := by
    intro j hj
    rw [Function.update_of_ne (Finset.ne_of_mem_erase hj)]
  have hnew := Finset.add_sum_erase Finset.univ
    (fun j => held (Function.update parties i n j)) (Finset.mem_univ i)
  have hold := Finset.add_sum_erase Finset.univ (fun j => held (parties j)) (Finset.mem_univ i)
  rw [Finset.sum_congr rfl hrest] at hnew
  simp only [Function.update_self] at hnew
  omega

/-- The books of a net: all that is held, carried or used up is accounted for. -/
def Balanced (B : Budget P allowed) (parties : ι → σ) (s : Net ι σ α μ) : Prop :=
  ∑ i, B.held (s.parties i) + load B.carried s.air + total B.used s.log ≤
    ∑ i, B.held (parties i) + total B.made s.log + load B.carried s.copies

theorem Balanced.step {B : Budget P allowed} {parties : ι → σ} {s s' : Net ι σ α μ}
    {c : Act ι α μ} (h : Balanced B parties s) (hpossible : Possible P allowed s c)
    (hs : netStep P s c = some s') : Balanced B parties s' := by
  unfold Balanced at h ⊢
  cases c with
  | call i a =>
    obtain ⟨n, hn, rfl⟩ := Option.map_eq_some_iff.mp hs
    have hcall := B.step _ _ _ hpossible.1 hn
    have hheard := load_heardOff B.carried hpossible.2
    have hshare := sum_update B.held s.parties i n
    simp only [load_append, total_append]
    unfold load at hheard h ⊢
    omega
  | lose m =>
    cases hs
    have := load_erase_le B.carried m s.air
    dsimp only
    omega
  | copy m =>
    cases hs
    simp only [load_cons]
    omega

/-- **The rule.** What is held, carried and used up was there, was made, or was copied. -/
theorem NetReaches.budget (B : Budget P allowed) {parties : ι → σ} {s : Net ι σ α μ}
    (h : NetReaches P allowed (.start parties) s) : Balanced B parties s := by
  refine h.invariant (P := Balanced B parties) ?_ fun s c s' _ hpossible hs hP =>
    hP.step hpossible hs
  simp [Balanced, Net.start, load, total]

/-- Where calls make nothing and messages carry nothing, the parties live on what they have. -/
theorem NetReaches.used_le (B : Budget P allowed) (hmade : ∀ n a, B.made n a = 0)
    (hcarried : ∀ m, B.carried m = 0) {parties : ι → σ} {s : Net ι σ α μ}
    (h : NetReaches P allowed (.start parties) s) :
    total B.used s.log ≤ ∑ i, B.held (parties i) := by
  have hbudget := h.budget B
  have hnone : total B.made s.log = 0 := by simp [total, hmade]
  have hcopies : load B.carried s.copies = 0 := by simp [load, funext hcarried]
  unfold Balanced at hbudget
  omega

end

end Conservation
