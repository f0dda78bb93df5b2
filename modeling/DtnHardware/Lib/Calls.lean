import Mathlib.Tactic

/-!
# Systems that are called

A system that waits to be called: `step s a` is the state after the call `a` in the state
`s`, and `none` when the call does not come back. Nothing here knows what the calls do.

* `Reaches step ok s₀ s` — some sequence of calls leads from `s₀` to `s`, each of them
  allowed by `ok` in the state in which it is made;
* `Reaches.invariant` — the invariant rule over such sequences;
* `run` — one given sequence, executed, which is how a run is exhibited.

Where the calls answer and always come back, `answers call s as` is what a caller sees, with
the state it leaves behind; `answers_simulates` compares two systems by what they answer.

* `log call s as` — each of the calls with its answer and the states around it, with
  `forall_mem_log_of_invariant`, the rule for what every call gives, and `log_pairwise`, the one
  for what it owes to the calls before it;
* `answersTo own call s as` — what one of several callers sees, and `answersTo_alone`, the rule
  for when that is what it would see alone.

A guard that depends on the state says under which use of the system a property holds: it is
the condition that the callers have to meet, call by call.
-/

set_option autoImplicit false

namespace GuardedCalls

/-- The states that allowed calls lead to from `s₀`. -/
inductive Reaches {σ α : Type*} (step : σ → α → Option σ) (ok : σ → α → Prop) (s₀ : σ) :
    σ → Prop
  | start : Reaches step ok s₀ s₀
  | call {s s' : σ} (h : Reaches step ok s₀ s) (a : α) (allowed : ok s a)
      (result : step s a = some s') : Reaches step ok s₀ s'

/-- A given sequence of calls; `none` as soon as one does not come back. -/
def run {σ α : Type*} (step : σ → α → Option σ) (s : σ) : List α → Option σ
  | [] => some s
  | a :: as => (step s a).bind fun s' => run step s' as

section
variable {σ α : Type*} {step : σ → α → Option σ} {ok : σ → α → Prop} {s₀ s s' : σ}

/-- **The invariant rule**: what holds at the start and is kept by every allowed call holds
    wherever the calls lead. The call may use that its state is one of them. -/
theorem Reaches.invariant {P : σ → Prop} (h : Reaches step ok s₀ s) (h₀ : P s₀)
    (hcall : ∀ s a s', Reaches step ok s₀ s → ok s a → step s a = some s' → P s → P s') :
    P s := by
  induction h with
  | start => exact h₀
  | call hreach a hok hs ih => exact hcall _ a _ hreach hok hs ih

/-- A sequence of calls that are all allowed leads to a reached state. -/
theorem reaches_of_run (hok : ∀ s a, ok s a) : ∀ {as : List α} {s s' : σ},
    Reaches step ok s₀ s → run step s as = some s' → Reaches step ok s₀ s' := by
  intro as
  induction as with
  | nil =>
    intro s s' h hrun
    cases hrun
    exact h
  | cons a as ih =>
    intro s s' h hrun
    obtain ⟨s₁, hs, hrest⟩ := Option.bind_eq_some_iff.mp hrun
    exact ih (h.call a (hok s a) hs) hrest

/-- One sequence of calls after another. -/
theorem run_append {as bs : List α} {s s' s'' : σ} (h : run step s as = some s')
    (h' : run step s' bs = some s'') : run step s (as ++ bs) = some s'' := by
  induction as generalizing s with
  | nil =>
    cases h
    exact h'
  | cons a as ih =>
    obtain ⟨s₁, hs, hrest⟩ := Option.bind_eq_some_iff.mp h
    rw [List.cons_append, run, hs]
    exact ih hrest

end

/-- A given sequence, checked call by call against `ok`; `none` also where a call is not
    allowed. -/
def runAllowed {σ α : Type*} (step : σ → α → Option σ) (ok : σ → α → Prop)
    [∀ s a, Decidable (ok s a)] (s : σ) : List α → Option σ
  | [] => some s
  | a :: as => if ok s a then (step s a).bind fun s' => runAllowed step ok s' as else none

theorem reaches_of_runAllowed {σ α : Type*} {step : σ → α → Option σ} {ok : σ → α → Prop}
    [∀ s a, Decidable (ok s a)] {s₀ : σ} : ∀ {as : List α} {s s' : σ},
    Reaches step ok s₀ s → runAllowed step ok s as = some s' → Reaches step ok s₀ s' := by
  intro as
  induction as with
  | nil =>
    intro s s' h hrun
    cases hrun
    exact h
  | cons a as ih =>
    intro s s' h hrun
    rw [runAllowed] at hrun
    split at hrun
    · rename_i hok
      obtain ⟨s₁, hs, hrest⟩ := Option.bind_eq_some_iff.mp hrun
      exact ih (h.call a hok hs) hrest
    · cases hrun

/-- Runs of a system whose calls are among those of another are runs of the other. -/
theorem Reaches.map {σ α β : Type*} {step : σ → β → Option σ} {ok : σ → α → Prop} {s₀ s : σ}
    (f : α → β) (h : Reaches (fun s a => step s (f a)) ok s₀ s) :
    Reaches step (fun s b => ∃ a, f a = b ∧ ok s a) s₀ s := by
  induction h with
  | start => exact .start
  | call _ a hok hs ih => exact ih.call (f a) ⟨a, rfl, hok⟩ hs

/-! ## Answers -/

section
variable {σ τ α ω : Type*} {call : σ → α → ω × σ} {call' : τ → α → ω × τ}

/-- The answers to a sequence of calls, and the state afterwards. -/
def answers (call : σ → α → ω × σ) (s : σ) : List α → List ω × σ
  | [] => ([], s)
  | a :: as => ((call s a).1 :: (answers call (call s a).2 as).1, (answers call (call s a).2 as).2)

/-- **Simulation**: related states that give each call one answer, and stay related, give
    every sequence of calls the same answers. -/
theorem answers_simulates {R : σ → τ → Prop}
    (hcall : ∀ s t a, R s t → (call s a).1 = (call' t a).1 ∧ R (call s a).2 (call' t a).2) :
    ∀ (as : List α) (s : σ) (t : τ), R s t →
      (answers call s as).1 = (answers call' t as).1 ∧
        R (answers call s as).2 (answers call' t as).2 := by
  intro as
  induction as with
  | nil => exact fun s t h => ⟨rfl, h⟩
  | cons a as ih =>
    intro s t h
    obtain ⟨hans, hrel⟩ := hcall s t a h
    obtain ⟨hrest, hend⟩ := ih _ _ hrel
    unfold answers
    exact ⟨by rw [hans, hrest], hend⟩

end

/-! ## The log -/

/-- A call that was made. -/
structure Called (σ α ω : Type*) where
  before : σ
  call : α
  answer : ω
  after : σ

section
variable {σ α ω : Type*}

/-- The call `a` in the state `s`. -/
def called (call : σ → α → ω × σ) (s : σ) (a : α) : Called σ α ω :=
  ⟨s, a, (call s a).1, (call s a).2⟩

/-- A sequence of calls, oldest first. -/
def log (call : σ → α → ω × σ) (s : σ) : List α → List (Called σ α ω)
  | [] => []
  | a :: as => called call s a :: log call (call s a).2 as

/-- What every call gives in a state with `I`, and keeps, holds of every call made. -/
theorem forall_mem_log_of_invariant {call : σ → α → ω × σ} {I : σ → Prop}
    {P : Called σ α ω → Prop} (hstep : ∀ s a, I s → P (called call s a) ∧ I (call s a).2) :
    ∀ (as : List α) (s : σ), I s → ∀ e ∈ log call s as, P e := by
  intro as
  induction as with
  | nil =>
    intro s _ e he
    exact absurd he List.not_mem_nil
  | cons a as ih =>
    intro s hI e he
    obtain ⟨hP, hI'⟩ := hstep s a hI
    rcases List.mem_cons.mp he with rfl | he
    · exact hP
    · exact ih _ hI' e he

/-- What holds of a call in any state holds of every call made. -/
theorem forall_mem_log {call : σ → α → ω × σ} {P : Called σ α ω → Prop}
    (h : ∀ s a, P (called call s a)) (as : List α) (s : σ) : ∀ e ∈ log call s as, P e :=
  forall_mem_log_of_invariant (I := fun _ => True) (fun s a _ => ⟨h s a, trivial⟩) as s trivial

/-- **What every call owes to the ones before it.** The invariant `I` speaks of the calls so
    far and the state they have led to; `T` is what is known of the order of the calls. -/
theorem log_pairwise {call : σ → α → ω × σ} {T : α → α → Prop}
    {Q : Called σ α ω → Called σ α ω → Prop} {I : List (Called σ α ω) → σ → Prop}
    (hstep : ∀ past s a, I past s → (∀ e ∈ past, T e.call a) →
      (∀ e ∈ past, Q e (called call s a)) ∧ I (past ++ [called call s a]) (call s a).2)
    {as : List α} {s : σ} (hstart : I [] s) (horder : as.Pairwise T) :
    (log call s as).Pairwise Q := by
  have hrun : ∀ (as : List α) (past : List (Called σ α ω)) (s : σ), I past s →
      as.Pairwise T → (∀ e ∈ past, ∀ a ∈ as, T e.call a) →
      (log call s as).Pairwise Q ∧ ∀ e ∈ past, ∀ f ∈ log call s as, Q e f := by
    intro as
    induction as with
    | nil =>
      intro past s _ _ _
      exact ⟨List.Pairwise.nil, fun _ _ f hf => absurd hf List.not_mem_nil⟩
    | cons a as ih =>
      intro past s hI horder hpast
      obtain ⟨hfirst, hrest⟩ := List.pairwise_cons.mp horder
      obtain ⟨hQ, hI'⟩ := hstep past s a hI fun e he => hpast e he a List.mem_cons_self
      obtain ⟨hlog, hafter⟩ := ih (past ++ [called call s a]) (call s a).2 hI' hrest (by
        intro e he b hb
        rcases List.mem_append.mp he with he | he
        · exact hpast e he b (List.mem_cons_of_mem a hb)
        · rw [List.mem_singleton.mp he]
          exact hfirst b hb)
      refine ⟨List.Pairwise.cons (hafter _ ?_) hlog, fun e he f hf => ?_⟩
      · exact List.mem_append_right past List.mem_cons_self
      · rcases List.mem_cons.mp hf with rfl | hf
        · exact hQ e he
        · exact hafter e (List.mem_append_left _ he) f hf
  exact (hrun as [] s hstart horder fun _ he => absurd he List.not_mem_nil).1

end

/-! ## One caller among others -/

section
variable {σ τ α ω : Type*} {call : σ → α → ω × σ} {call' : τ → α → ω × τ}

/-- The answers to the calls that are its `own`. -/
def answersTo (own : α → Bool) (call : σ → α → ω × σ) (s : σ) : List α → List ω
  | [] => []
  | a :: as =>
      if own a then (call s a).1 :: answersTo own call (call s a).2 as
      else answersTo own call (call s a).2 as

/-- The system with all callers and the one with a single caller, side by side: at each of its
    own calls `ok` holds of the two states. -/
def Alongside (own : α → Bool) (call : σ → α → ω × σ) (call' : τ → α → ω × τ)
    (ok : σ → τ → α → Prop) : σ → τ → List α → Prop
  | _, _, [] => True
  | s, t, a :: as =>
      (own a = true → ok s t a) ∧
        Alongside own call call' ok (call s a).2 (if own a then (call' t a).2 else t) as

/-- **A caller sees what it would see alone**, if its own calls are answered alike in related
    states and those of the others keep the states related. -/
theorem answersTo_alone {own : α → Bool} {ok : σ → τ → α → Prop} {R : σ → τ → Prop}
    (hown : ∀ s t a, R s t → own a = true → ok s t a →
      (call s a).1 = (call' t a).1 ∧ R (call s a).2 (call' t a).2)
    (hother : ∀ s t a, R s t → own a = false → R (call s a).2 t) :
    ∀ (as : List α) (s : σ) (t : τ), R s t → Alongside own call call' ok s t as →
      answersTo own call s as = (answers call' t (as.filter own)).1 := by
  intro as
  induction as with
  | nil => exact fun s t _ _ => rfl
  | cons a as ih =>
    intro s t h halong
    obtain ⟨hok, hrest⟩ := halong
    cases hmine : own a with
    | true =>
      rw [hmine, if_pos rfl] at hrest
      obtain ⟨hans, hrel⟩ := hown s t a h hmine (hok hmine)
      rw [answersTo, hmine, if_pos rfl, List.filter_cons_of_pos hmine, answers,
        ih _ _ hrel hrest, hans]
    | false =>
      rw [hmine, if_neg (by decide)] at hrest
      rw [answersTo, hmine, if_neg (by decide), List.filter_cons_of_neg (by simp [hmine])]
      exact ih _ _ (hother s t a h hmine) hrest

end

end GuardedCalls
