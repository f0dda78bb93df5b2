import Mathlib.Tactic
import Mathlib.Order.WellFounded

/-!
# Deterministic machines that can fault

A `Machine` is one step function and a test for the states that have nothing left
to do. A step either yields the next state or stops with an error `ε`, which is
how an embedding of a C program marks an access outside its array.

Nothing here knows what the machine computes. The file supplies the four things a
proof about a loop needs and that no client should redo:

* `run n s` — `n` steps, idempotent once the machine is done;
* `Reaches` — the states of a run, with the invariant rule `Reaches.induct`;
* `terminates_of_measure` — a measure that every step lowers ends every run, and within as
  many steps as it says (`run_of_measure`);
* `not_terminates_of_trap` — a set of states that no step leaves and that is never
  done makes the run endless;
* `Projects` — a machine that does the same as another and keeps some more on the side;
  a run of the larger one that ends covers the whole run of the smaller
  (`Projects.lift`).

Determinism enters in exactly one place, `Terminates.of_reaches` with its sibling
`Reaches.to_final`: a run that ends passes through every state it reaches.
-/

set_option autoImplicit false

namespace StepMachine

/-- A step function with errors, and the test for a finished state. -/
structure Machine (ε σ : Type*) where
  step : σ → Except ε σ
  done : σ → Bool

namespace Machine

/-- At most `n` steps; a finished state stays where it is. -/
def run {ε σ : Type*} (M : Machine ε σ) : Nat → σ → Except ε σ
  | 0, s => .ok s
  | n + 1, s => if M.done s then .ok s else (M.step s).bind (M.run n)

/-- One proper step. -/
def Steps {ε σ : Type*} (M : Machine ε σ) (s s' : σ) : Prop :=
  M.done s = false ∧ M.step s = .ok s'

/-- `s'` occurs in the run from `s`. -/
def Reaches {ε σ : Type*} (M : Machine ε σ) : σ → σ → Prop :=
  Relation.ReflTransGen M.Steps

/-- The run from `s` ends, without an error, in a finished state. -/
def Terminates {ε σ : Type*} (M : Machine ε σ) (s : σ) : Prop :=
  ∃ n s', M.run n s = .ok s' ∧ M.done s' = true

/-- The run from `s` stops with the error `e`. -/
def Faults {ε σ : Type*} (M : Machine ε σ) (s : σ) (e : ε) : Prop :=
  ∃ n, M.run n s = .error e

section
variable {ε σ : Type*} {M : Machine ε σ}

/-! ## Runs, one step at a time -/

@[simp] theorem run_zero (s : σ) : M.run 0 s = .ok s := rfl

theorem run_done {s : σ} (h : M.done s = true) (n : Nat) : M.run n s = .ok s := by
  cases n with
  | zero => rfl
  | succ n => simp [run, h]

theorem run_step {s s' : σ} (h : M.Steps s s') (n : Nat) :
    M.run (n + 1) s = M.run n s' := by
  simp [run, h.1, h.2, Except.bind]

theorem run_error {s : σ} {e : ε} (hd : M.done s = false) (h : M.step s = .error e)
    (n : Nat) : M.run (n + 1) s = .error e := by
  simp [run, hd, h, Except.bind]

/-- A longer run from a state is the shorter run from its successor. The three
    outcomes of a first step, in the only form the inductions below use. -/
theorem step_cases (M : Machine ε σ) (s : σ) :
    M.done s = true ∨ (∃ s', M.Steps s s') ∨ (M.done s = false ∧ ∃ e, M.step s = .error e) := by
  cases hd : M.done s with
  | true => exact Or.inl rfl
  | false =>
    cases hs : M.step s with
    | ok s' => exact Or.inr (Or.inl ⟨s', hd, hs⟩)
    | error e => exact Or.inr (Or.inr ⟨rfl, e, rfl⟩)

/-! ## Reachability -/

theorem Reaches.refl (s : σ) : M.Reaches s s := Relation.ReflTransGen.refl

theorem Reaches.tail {s s' s'' : σ} (h : M.Reaches s s') (hs : M.Steps s' s'') :
    M.Reaches s s'' := Relation.ReflTransGen.tail h hs

theorem Reaches.trans {s s' s'' : σ} (h : M.Reaches s s') (h' : M.Reaches s' s'') :
    M.Reaches s s'' := Relation.ReflTransGen.trans h h'

/-- **The invariant rule**: what holds at the start and is kept by every step holds
    of every state of the run. The step may use that its source is in the run. -/
theorem Reaches.induct {P : σ → Prop} {s₀ s : σ} (h : M.Reaches s₀ s) (h₀ : P s₀)
    (hstep : ∀ s s', M.Reaches s₀ s → P s → M.Steps s s' → P s') : P s := by
  induction h with
  | refl => exact h₀
  | tail hr hs ih => exact hstep _ _ hr ih hs

/-- A successful run ends in a reached state. -/
theorem reaches_of_run : ∀ {n : Nat} {s s' : σ}, M.run n s = .ok s' → M.Reaches s s' := by
  intro n
  induction n with
  | zero => intro s s' h; cases h; exact Reaches.refl s
  | succ n ih =>
    intro s s' h
    rcases step_cases M s with hd | ⟨s₁, hs⟩ | ⟨hd, e, he⟩
    · rw [run_done hd] at h; cases h; exact Reaches.refl s
    · rw [run_step hs] at h
      exact Relation.ReflTransGen.head hs (ih h)
    · rw [run_error hd he] at h; cases h

/-- A reached state is the result of some run. -/
theorem run_of_reaches {s s' : σ} (h : M.Reaches s s') : ∃ n, M.run n s = .ok s' := by
  induction h using Relation.ReflTransGen.head_induction_on with
  | refl => exact ⟨0, rfl⟩
  | head hs _ ih =>
    obtain ⟨n, hn⟩ := ih
    exact ⟨n + 1, by rw [run_step hs, hn]⟩

/-- The run faults exactly where a reached state's step does. -/
theorem faults_iff {s : σ} {e : ε} :
    M.Faults s e ↔ ∃ s', M.Reaches s s' ∧ M.done s' = false ∧ M.step s' = .error e := by
  constructor
  · rintro ⟨n, hn⟩
    induction n generalizing s with
    | zero => cases hn
    | succ n ih =>
      rcases step_cases M s with hd | ⟨s₁, hs⟩ | ⟨hd, e', he⟩
      · rw [run_done hd] at hn; cases hn
      · rw [run_step hs] at hn
        obtain ⟨s', hr, hd, he⟩ := ih hn
        exact ⟨s', Relation.ReflTransGen.head hs hr, hd, he⟩
      · rw [run_error hd he] at hn
        cases hn
        exact ⟨s, Reaches.refl s, hd, he⟩
  · rintro ⟨s', hr, hd, he⟩
    induction hr using Relation.ReflTransGen.head_induction_on with
    | refl => exact ⟨1, run_error hd he 0⟩
    | head hs _ ih =>
      obtain ⟨n, hn⟩ := ih
      exact ⟨n + 1, by rw [run_step hs, hn]⟩

/-! ## Termination -/

/-- Ending in `s'` after a first step is ending in `s'`, and conversely. -/
theorem terminates_step_iff {s s' : σ} (h : M.Steps s s') :
    M.Terminates s ↔ M.Terminates s' := by
  constructor
  · rintro ⟨n, sf, hn, hd⟩
    cases n with
    | zero => cases hn; rw [h.1] at hd; cases hd
    | succ n => rw [run_step h] at hn; exact ⟨n, sf, hn, hd⟩
  · rintro ⟨n, sf, hn, hd⟩
    exact ⟨n + 1, sf, by rw [run_step h, hn], hd⟩

/-- A run that ends passes through everything it reaches, so it ends from there. -/
theorem Terminates.of_reaches {s s' : σ} (h : M.Terminates s) (hr : M.Reaches s s') :
    M.Terminates s' := by
  induction hr with
  | refl => exact h
  | tail _ hs ih => exact (terminates_step_iff hs).mp ih

theorem not_terminates_of_error {s : σ} {e : ε} (hd : M.done s = false)
    (he : M.step s = .error e) : ¬ M.Terminates s := by
  rintro ⟨n, sf, hn, hdf⟩
  cases n with
  | zero => cases hn; rw [hd] at hdf; cases hdf
  | succ n => rw [run_error hd he] at hn; cases hn

/-- **Termination by a measure.** On the states that satisfy `P`, a step always
    exists, keeps `P` and lowers `μ`. -/
theorem terminates_of_measure {α : Type*} [Preorder α] [WellFoundedLT α] {P : σ → Prop}
    (μ : σ → α)
    (hstep : ∀ s, P s → M.done s = false → ∃ s', M.step s = .ok s' ∧ P s' ∧ μ s' < μ s)
    {s : σ} (hs : P s) : M.Terminates s := by
  generalize hm : μ s = m
  induction m using WellFoundedLT.induction generalizing s with
  | ind m ih =>
    cases hd : M.done s with
    | true => exact ⟨0, s, rfl, hd⟩
    | false =>
      obtain ⟨s', he, hs', hlt⟩ := hstep s hs hd
      exact (terminates_step_iff ⟨hd, he⟩).mpr (ih _ (hm ▸ hlt) hs' rfl)

/-- A measure also says how many steps are enough, whether or not one of them faults. -/
theorem run_of_measure {P : σ → Prop} (μ : σ → Nat)
    (hdone : ∀ s, P s → μ s = 0 → M.done s = true)
    (hstep : ∀ s s', P s → M.Steps s s' → P s' ∧ μ s' < μ s) :
    ∀ (n : Nat) (s : σ), P s → μ s ≤ n →
      (∃ s', M.run n s = .ok s' ∧ M.done s' = true) ∨ ∃ e, M.run n s = .error e := by
  intro n
  induction n with
  | zero => exact fun s hs hn => Or.inl ⟨s, rfl, hdone s hs (Nat.le_zero.mp hn)⟩
  | succ n ih =>
    intro s hs hn
    rcases step_cases M s with hd | ⟨s', hst⟩ | ⟨hd, e, he⟩
    · exact Or.inl ⟨s, run_done hd _, hd⟩
    · obtain ⟨hs', hlt⟩ := hstep s s' hs hst
      rw [run_step hst]
      exact ih s' hs' (by omega)
    · exact Or.inr ⟨e, run_error hd he n⟩

/-- **Endlessness by a trap.** States that are never done and that no step leaves:
    the run from any of them does not end. -/
theorem not_terminates_of_trap {P : σ → Prop} (hdone : ∀ s, P s → M.done s = false)
    (hstep : ∀ s s', P s → M.Steps s s' → P s') {s : σ} (hs : P s) : ¬ M.Terminates s := by
  rintro ⟨n, sf, hn, hd⟩
  have hP : P sf := (reaches_of_run hn).induct hs fun a b _ ha hab => hstep a b ha hab
  rw [hdone sf hP] at hd
  cases hd

/-- Everything a run passes through leads to its final state. -/
theorem Reaches.to_final {s s' sf : σ} (hf : M.Reaches s sf) (hd : M.done sf = true)
    (hr : M.Reaches s s') : M.Reaches s' sf := by
  induction hr with
  | refl => exact hf
  | tail _ hs ih =>
    rcases Relation.ReflTransGen.cases_head ih with rfl | ⟨s₁, hs₁, hrest⟩
    · rw [hs.1] at hd
      cases hd
    · have heq := Except.ok.inj (hs₁.2.symm.trans hs.2)
      exact heq ▸ hrest

end

/-! ## A machine inside another -/

/-- Forgetting by `π` what `M` keeps on the side leaves a run of `N`. -/
structure Projects {ε σ τ : Type*} (M : Machine ε σ) (N : Machine ε τ) (π : σ → τ) : Prop where
  done : ∀ s, N.done (π s) = M.done s
  step : ∀ s s', M.Steps s s' → N.step (π s) = .ok (π s')

section
variable {ε σ τ : Type*} {M : Machine ε σ} {N : Machine ε τ} {π : σ → τ}

theorem Projects.steps (h : Projects M N π) {s s' : σ} (hs : M.Steps s s') :
    N.Steps (π s) (π s') :=
  ⟨(h.done s).trans hs.1, h.step s s' hs⟩

theorem Projects.reaches (h : Projects M N π) {s s' : σ} (hr : M.Reaches s s') :
    N.Reaches (π s) (π s') := by
  induction hr with
  | refl => exact Reaches.refl _
  | tail _ hs ih => exact ih.tail (h.steps hs)

/-- **Where the larger machine ends, it has covered the smaller one's run.** -/
theorem Projects.lift (h : Projects M N π) {s sf : σ} (hf : M.Reaches s sf)
    (hd : M.done sf = true) {t : τ} (hr : N.Reaches (π s) t) :
    ∃ s', M.Reaches s s' ∧ π s' = t := by
  induction hr with
  | refl => exact ⟨s, Reaches.refl s, rfl⟩
  | @tail t t' _ hs ih =>
    obtain ⟨s', hs', rfl⟩ := ih
    rcases Relation.ReflTransGen.cases_head (hf.to_final hd hs') with rfl | ⟨s₁, hs₁, _⟩
    · rw [← h.done, hs.1] at hd
      cases hd
    · have heq : N.step (π s') = .ok (π s₁) := h.step s' s₁ hs₁
      exact ⟨s₁, hs'.tail hs₁, Except.ok.inj (heq.symm.trans hs.2)⟩

end

end Machine

end StepMachine
