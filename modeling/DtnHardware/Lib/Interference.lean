import Mathlib.Logic.Relation
import Mathlib.Data.List.Basic

/-!
# A device that moves by itself

A host drives a device with actions. The device answers each by changing its state, and may emit
something to the outside; before and after every action it may change by itself, any number
of times. `Runs` is what can come of a list of actions.

`Triple P as os Q` speaks of all of these at once: from a state with `P`, whatever the device
does by itself, the actions `as` make it emit `os` and leave it with `Q`. A condition on the state
is worth something only if the device does not undo it:

> **A condition that is used between actions is one the device keeps** (`Stable`).

A driver whose own steps depend on what it hears has no fixed list of actions. `Course` is the
device along everything that happens to the driver, actions or not; `Does` tells which actions a
piece of it comes to, and `Course.triple` is the rule for that piece.
-/

set_option autoImplicit false

namespace Interference

/-- What an action does and emits, and what the device does by itself. -/
structure Device (α σ ω : Type*) where
  does : σ → α → σ
  emits : σ → α → Option ω
  own : σ → σ → Prop

namespace Device

variable {α σ ω : Type*} (D : Device α σ ω)

/-- What the device may come to by itself. -/
abbrev Drifts : σ → σ → Prop := Relation.ReflTransGen D.own

/-- The state after the actions, and what was emitted. -/
inductive Runs : σ → List α → σ → List ω → Prop
  | rest {s s' : σ} (h : D.Drifts s s') : Runs s [] s' []
  | act {s₀ s s' : σ} {a : α} {as : List α} {os : List ω} (h : D.Drifts s₀ s)
      (hrun : Runs (D.does s a) as s' os) : Runs s₀ (a :: as) s' ((D.emits s a).toList ++ os)

/-- The device keeps it. -/
def Stable (P : σ → Prop) : Prop := ∀ s s', P s → D.own s s' → P s'

/-- From `P` the actions lead to `Q`, and the device emits `os`. -/
def Triple (P : σ → Prop) (as : List α) (os : List ω) (Q : σ → Prop) : Prop :=
  ∀ s s' out, P s → D.Runs s as s' out → out = os ∧ Q s'

section
variable {D} {P Q R : σ → Prop} {as bs : List α} {os os' : List ω} {s s' s'' : σ}

/-! ## Conditions the device keeps -/

theorem Stable.drifts (h : D.Stable P) (hdrift : D.Drifts s s') (hs : P s) : P s' := by
  induction hdrift with
  | refl => exact hs
  | tail _ hown ih => exact h _ _ ih hown

theorem Stable.and (h : D.Stable P) (h' : D.Stable Q) : D.Stable fun s => P s ∧ Q s :=
  fun _ _ hs hown => ⟨h _ _ hs.1 hown, h' _ _ hs.2 hown⟩

/-! ## Runs -/

theorem Runs.drifted (hdrift : D.Drifts s s') (h : D.Runs s' as s'' os) :
    D.Runs s as s'' os := by
  cases h with
  | rest h => exact .rest (hdrift.trans h)
  | act h hrun => exact .act (hdrift.trans h) hrun

theorem Runs.append (h : D.Runs s (as ++ bs) s'' os) :
    ∃ s' os₁ os₂, D.Runs s as s' os₁ ∧ D.Runs s' bs s'' os₂ ∧ os = os₁ ++ os₂ := by
  induction as generalizing s os with
  | nil => exact ⟨s, [], os, .rest .refl, h, rfl⟩
  | cons a as ih =>
    rw [List.cons_append] at h
    cases h with
    | act hdrift hrun =>
      obtain ⟨s', os₁, os₂, h₁, h₂, rfl⟩ := ih hrun
      exact ⟨s', _, os₂, .act hdrift h₁, h₂, (List.append_assoc _ _ _).symm⟩

theorem Runs.after {a : α} (hrun : D.Runs s [a] s' os) (hP : D.Stable P)
    (h : ∀ s, P (D.does s a)) : P s' := by
  cases hrun with
  | act _ hrest =>
    cases hrest with
    | rest hdrift => exact hP.drifts hdrift (h _)

/-! ## The rules -/

theorem Triple.nil (hP : D.Stable P) : D.Triple P [] [] P := by
  intro s s' out hs hrun
  cases hrun with
  | rest hdrift => exact ⟨rfl, hP.drifts hdrift hs⟩

/-- **One action**, between two conditions the device keeps. -/
theorem Triple.act (hP : D.Stable P) (hQ : D.Stable Q) {a : α} {o : Option ω}
    (h : ∀ s, P s → D.emits s a = o ∧ Q (D.does s a)) : D.Triple P [a] o.toList Q := by
  intro s s' out hs hrun
  cases hrun with
  | act hdrift hrun =>
    obtain ⟨hemits, hq⟩ := h _ (hP.drifts hdrift hs)
    cases hrun with
    | rest hdrift' => exact ⟨by rw [hemits, List.append_nil], hQ.drifts hdrift' hq⟩

/-- **One piece after the other.** -/
theorem Triple.append (h : D.Triple P as os Q) (h' : D.Triple Q bs os' R) :
    D.Triple P (as ++ bs) (os ++ os') R := by
  intro s s'' out hs hrun
  obtain ⟨s', os₁, os₂, h₁, h₂, rfl⟩ := hrun.append
  obtain ⟨hout₁, hq⟩ := h s s' os₁ hs h₁
  obtain ⟨hout₂, hr⟩ := h' s' s'' os₂ hq h₂
  exact ⟨by rw [hout₁, hout₂], hr⟩

/-- **Actions that keep a condition and emit nothing.** -/
theorem Triple.keeps (hP : D.Stable P)
    (h : ∀ a ∈ as, ∀ s, P s → D.emits s a = none ∧ P (D.does s a)) : D.Triple P as [] P := by
  induction as with
  | nil => exact .nil hP
  | cons a as ih =>
    have hfirst : D.Triple P [a] (none : Option ω).toList P := .act hP hP (h a (by simp))
    exact hfirst.append (ih fun b hb => h b (List.mem_cons_of_mem a hb))

end

end Device

/-! ## Along what happens to a driver -/

section
variable {α β σ ω : Type*}

/-- What has happened since, and the actions among it. -/
def Does (host : β → Option α) (hist hist' : List β) (as : List α) : Prop :=
  ∃ es, hist' = hist ++ es ∧ es.filterMap host = as

section
variable {host : β → Option α} {hist hist' hist'' : List β} {as bs : List α}

theorem Does.refl (host : β → Option α) (hist : List β) : Does host hist hist [] :=
  ⟨[], (List.append_nil hist).symm, rfl⟩

theorem Does.trans (h : Does host hist hist' as) (h' : Does host hist' hist'' bs) :
    Does host hist hist'' (as ++ bs) := by
  obtain ⟨es, rfl, rfl⟩ := h
  obtain ⟨es', rfl, rfl⟩ := h'
  exact ⟨es ++ es', List.append_assoc _ _ _, List.filterMap_append⟩

/-- A loop of the driver, of which every round makes one action. -/
theorem does_foldl {τ γ : Type*} (log : τ → List β) (step : τ → γ → τ) (f : γ → α)
    (h : ∀ st x, Does host (log st) (log (step st x)) [f x]) (xs : List γ) (st : τ) :
    Does host (log st) (log (xs.foldl step st)) (xs.map f) := by
  induction xs generalizing st with
  | nil => exact .refl host _
  | cons x xs ih => exact (h st x).trans (ih (step st x))

/-- One event. -/
theorem does_snoc (host : β → Option α) (hist : List β) (e : β) :
    Does host hist (hist ++ [e]) (host e).toList := by
  refine ⟨[e], rfl, ?_⟩
  cases h : host e with
  | none => simp [h]
  | some a => simp [h]

/-- The actions since then are all of one kind. -/
def DoesOnly (host : β → Option α) (ok : α → Prop) (hist hist' : List β) : Prop :=
  ∃ as, Does host hist hist' as ∧ ∀ a ∈ as, ok a

variable {ok ok' : α → Prop}

theorem DoesOnly.refl (host : β → Option α) (ok : α → Prop) (hist : List β) :
    DoesOnly host ok hist hist := ⟨[], .refl host hist, by simp⟩

theorem DoesOnly.trans (h : DoesOnly host ok hist hist') (h' : DoesOnly host ok hist' hist'') :
    DoesOnly host ok hist hist'' := by
  obtain ⟨as, hdoes, hok⟩ := h
  obtain ⟨bs, hdoes', hok'⟩ := h'
  refine ⟨as ++ bs, hdoes.trans hdoes', fun a ha => ?_⟩
  exact (List.mem_append.mp ha).elim (hok a) (hok' a)

theorem DoesOnly.mono (h : DoesOnly host ok hist hist') (hle : ∀ a, ok a → ok' a) :
    DoesOnly host ok' hist hist' := by
  obtain ⟨as, hdoes, hok⟩ := h
  exact ⟨as, hdoes, fun a ha => hle a (hok a ha)⟩

theorem Does.only {o : Option α} (h : Does host hist hist' o.toList) (ho : ∀ a ∈ o, ok a) :
    DoesOnly host ok hist hist' := ⟨o.toList, h, fun a ha => ho a (Option.mem_toList.mp ha)⟩

end

/-- What an event does to the device. -/
def Device.next (D : Device α σ ω) (host : β → Option α) (s : σ) (e : β) : σ :=
  ((host e).map (D.does s)).getD s

/-- The device along a history: after each event it has moved by itself. -/
structure Course (D : Device α σ ω) (host : β → Option α) where
  state : List β → σ
  step : ∀ hist e, D.Drifts (D.next host (state hist) e) (state (hist ++ [e]))

namespace Course

variable {D : Device α σ ω} {host : β → Option α} (c : Course D host)

/-- What the device emits from `hist` on. -/
def emittedFrom (hist : List β) : List β → List ω
  | [] => []
  | e :: es => ((host e).bind (D.emits (c.state hist))).toList ++ emittedFrom (hist ++ [e]) es

/-- What the device has emitted. -/
def emitted (hist : List β) : List ω := c.emittedFrom [] hist

/-- The course with given own moves, each made after an event. -/
def ofMoves (D : Device α σ ω) (host : β → Option α) (s₀ : σ) (moves : β → σ → σ)
    (h : ∀ e s, D.Drifts s (moves e s)) : Course D host where
  state hist := hist.foldl (fun s e => moves e (D.next host s e)) s₀
  step hist e := by
    rw [List.foldl_append]
    exact h e _

/-- The device that does nothing by itself. -/
def quiet (D : Device α σ ω) (host : β → Option α) (s₀ : σ) : Course D host :=
  ofMoves D host s₀ (fun _ s => s) fun _ _ => .refl

variable {c}

theorem emittedFrom_append (hist es es' : List β) :
    c.emittedFrom hist (es ++ es') = c.emittedFrom hist es ++ c.emittedFrom (hist ++ es) es' := by
  induction es generalizing hist with
  | nil => rw [List.nil_append, List.append_nil, emittedFrom, List.nil_append]
  | cons e es ih =>
    have hhist : hist ++ e :: es = (hist ++ [e]) ++ es := by rw [List.append_assoc]; rfl
    rw [List.cons_append, emittedFrom, emittedFrom, ih, hhist]
    exact (List.append_assoc _ _ _).symm

/-- A course is a run of the actions in it. -/
theorem runs (hist es : List β) :
    D.Runs (c.state hist) (es.filterMap host) (c.state (hist ++ es)) (c.emittedFrom hist es) := by
  induction es generalizing hist with
  | nil =>
    rw [List.append_nil]
    exact .rest .refl
  | cons e es ih =>
    have hrest := ih (hist ++ [e])
    have hstep := c.step hist e
    rw [List.append_assoc, List.singleton_append] at hrest
    cases h : host e with
    | none =>
      rw [Device.next, h] at hstep
      rw [List.filterMap_cons_none h, emittedFrom, h]
      exact hrest.drifted hstep
    | some a =>
      rw [Device.next, h] at hstep
      rw [List.filterMap_cons_some h, emittedFrom, h]
      exact .act .refl (hrest.drifted hstep)

/-- **The rule for a piece of the course** that comes to the actions `as`. -/
theorem triple {P Q : σ → Prop} {as : List α} {os : List ω} (h : D.Triple P as os Q)
    {hist hist' : List β} (hdoes : Does host hist hist' as) (hs : P (c.state hist)) :
    c.emitted hist' = c.emitted hist ++ os ∧ Q (c.state hist') := by
  obtain ⟨es, rfl, rfl⟩ := hdoes
  obtain ⟨hout, hq⟩ := h _ _ _ hs (c.runs hist es)
  refine ⟨?_, hq⟩
  rw [emitted, emittedFrom_append, List.nil_append, hout]
  rfl

/-- **The rule for a piece that is all of one kind**: it keeps what each action of the kind
    keeps. -/
theorem keeps {P : σ → Prop} {ok : α → Prop} (hP : D.Stable P)
    (h : ∀ a, ok a → ∀ s, P s → D.emits s a = none ∧ P (D.does s a))
    {hist hist' : List β} (honly : DoesOnly host ok hist hist') (hs : P (c.state hist)) :
    P (c.state hist') := by
  obtain ⟨as, hdoes, hok⟩ := honly
  exact (c.triple (.keeps hP fun a ha => h a (hok a ha)) hdoes hs).2

/-- What an action brings about, whatever was before. -/
theorem after {P : σ → Prop} {a : α} (hP : D.Stable P) (h : ∀ s, P (D.does s a))
    {hist hist' : List β} (hdoes : Does host hist hist' [a]) : P (c.state hist') := by
  obtain ⟨es, rfl, heq⟩ := hdoes
  have hrun := c.runs hist es
  rw [heq] at hrun
  exact hrun.after hP h

end Course

end

end Interference
