import DtnHardware.Lib.Calls

/-!
# Tasks that share a device and a binary semaphore

A call of a task is a `Prog`: operations on the device, takes of the semaphore, a result. The
tasks take turns at any point, and the semaphore is given by edges that come at any point: one
that has been given stays given, and the first of the blocked tasks, in the order of their
priority, is woken. A woken task has not got the semaphore yet. It finds out when it runs, and
waits on if another task was quicker.

A `Device` is told everything that happens, so it may keep a history. `Moves` says what one
step can do; `alone_reaches`, that what a call does when nothing interferes is one of the runs.
The rules for runs are in `Lib.TaskRules`.
-/

set_option autoImplicit false

namespace SharedTasks

open GuardedCalls

/-- A call: `O` are the operations and `A` their answers, `W` says how long to wait. -/
inductive Prog (O A W R : Type) where
  | ret (r : R)
  | op (o : O) (next : A → Prog O A W R)
  | take (w : W) (next : Bool → Prog O A W R)

/-- What is shared, the semaphore apart; `C` says what an edge was about. -/
structure Device (D O A W C : Type) where
  act : D → O → A × D
  waits : D → W → D
  taken : D → D
  timedOut : D → D
  edge : D → C → D

/-- Where a task is. -/
inductive Phase (O A W R : Type) where
  | idle
  | running (p : Prog O A W R)
  | blocked (next : Bool → Prog O A W R)
  | woken (next : Bool → Prog O A W R)

namespace Phase
variable {O A W R : Type}

def isBlocked : Phase O A W R → Bool
  | blocked _ => true
  | idle | running _ | woken _ => false

def isWoken : Phase O A W R → Bool
  | woken _ => true
  | idle | running _ | blocked _ => false

def isIdle : Phase O A W R → Bool
  | idle => true
  | running _ | blocked _ | woken _ => false

theorem isIdle_iff {x : Phase O A W R} : x.isIdle = true ↔ x = .idle := by
  cases x <;> simp [isIdle]

instance (x : Phase O A W R) : Decidable (x = .idle) := decidable_of_iff _ isIdle_iff

def wake : Phase O A W R → Phase O A W R
  | blocked next => woken next
  | idle => idle
  | running p => running p
  | woken next => woken next

end Phase

/-- The device, the semaphore, the tasks, and what their calls have returned. -/
structure State (ι D O A W R : Type) where
  dev : D
  sem : Bool
  phase : ι → Phase O A W R
  answers : List (ι × R)

/-- What can happen next. -/
inductive Act (ι O A W R C : Type) where
  | call (i : ι) (p : Prog O A W R)
  | run (i : ι)
  | timeout (i : ι)
  | edge (c : C)

section
variable {ι D O A W R C : Type} [DecidableEq ι]

def State.put (s : State ι D O A W R) (i : ι) (x : Phase O A W R) : State ι D O A W R :=
  { s with phase := Function.update s.phase i x }

/-- The task `i` gets the semaphore. -/
def State.takes (dev : Device D O A W C) (s : State ι D O A W R) (i : ι)
    (next : Bool → Prog O A W R) : State ι D O A W R :=
  { s with dev := dev.taken s.dev, sem := false }.put i (.running (next true))

/-- The task `i` goes on. -/
def State.run (dev : Device D O A W C) (s : State ι D O A W R) (i : ι) :
    Option (State ι D O A W R) :=
  match s.phase i with
  | .idle => none
  | .blocked _ => none
  | .running (.ret r) => some ({ s with answers := s.answers ++ [(i, r)] }.put i .idle)
  | .running (.op o next) =>
      some ({ s with dev := (dev.act s.dev o).2 }.put i (.running (next (dev.act s.dev o).1)))
  | .running (.take w next) =>
      if s.sem then some (s.takes dev i next)
      else some ({ s with dev := dev.waits s.dev w }.put i (.blocked next))
  | .woken next => if s.sem then some (s.takes dev i next) else some (s.put i (.blocked next))

/-- The first blocked task is woken, if there is one. -/
def State.wakeFirst (order : List ι) (s : State ι D O A W R) : State ι D O A W R :=
  match order.find? fun i => (s.phase i).isBlocked with
  | some i => s.put i (s.phase i).wake
  | none => s

/-- One step; `order` lists the tasks by their priority. -/
def step (dev : Device D O A W C) (order : List ι) (s : State ι D O A W R) :
    Act ι O A W R C → Option (State ι D O A W R)
  | .call i p =>
      match s.phase i with
      | .idle => some (s.put i (.running p))
      | .running _ | .blocked _ | .woken _ => none
  | .run i => s.run dev i
  | .timeout i =>
      match s.phase i with
      | .blocked next =>
          some ({ s with dev := dev.timedOut s.dev }.put i (.running (next false)))
      | .idle | .running _ | .woken _ => none
  | .edge c =>
      if s.sem then some { s with dev := dev.edge s.dev c }
      else some { s.wakeFirst order with dev := dev.edge s.dev c, sem := true }

/-- The steps, one by one. -/
inductive Moves (dev : Device D O A W C) (order : List ι) (s : State ι D O A W R) :
    Act ι O A W R C → State ι D O A W R → Prop
  | calls (i : ι) (p : Prog O A W R) (idle : s.phase i = .idle) :
      Moves dev order s (.call i p) (s.put i (.running p))
  | returns (i : ι) (r : R) (here : s.phase i = .running (.ret r)) :
      Moves dev order s (.run i) ({ s with answers := s.answers ++ [(i, r)] }.put i .idle)
  | acts (i : ι) (o : O) (next : A → Prog O A W R) (here : s.phase i = .running (.op o next)) :
      Moves dev order s (.run i)
        ({ s with dev := (dev.act s.dev o).2 }.put i (.running (next (dev.act s.dev o).1)))
  | takes (i : ι) (next : Bool → Prog O A W R)
      (here : (∃ w, s.phase i = .running (.take w next)) ∨ s.phase i = .woken next)
      (given : s.sem = true) : Moves dev order s (.run i) (s.takes dev i next)
  | blocks (i : ι) (w : W) (next : Bool → Prog O A W R)
      (here : s.phase i = .running (.take w next)) (empty : s.sem = false) :
      Moves dev order s (.run i) ({ s with dev := dev.waits s.dev w }.put i (.blocked next))
  | missed (i : ι) (next : Bool → Prog O A W R) (here : s.phase i = .woken next)
      (empty : s.sem = false) : Moves dev order s (.run i) (s.put i (.blocked next))
  | timesOut (i : ι) (next : Bool → Prog O A W R) (here : s.phase i = .blocked next) :
      Moves dev order s (.timeout i)
        ({ s with dev := dev.timedOut s.dev }.put i (.running (next false)))
  | coalesces (c : C) (given : s.sem = true) :
      Moves dev order s (.edge c) { s with dev := dev.edge s.dev c }
  | gives (c : C) (empty : s.sem = false) :
      Moves dev order s (.edge c)
        { s.wakeFirst order with dev := dev.edge s.dev c, sem := true }

/-- **There are no others.** -/
theorem step_cases {dev : Device D O A W C} {order : List ι} {s s' : State ι D O A W R}
    {a : Act ι O A W R C} (h : step dev order s a = some s') : Moves dev order s a s' := by
  cases a with
  | call i p =>
    simp only [step] at h
    split at h
    · rename_i hidle
      cases h
      exact .calls i p hidle
    all_goals cases h
  | run i =>
    simp only [step, State.run] at h
    split at h
    · cases h
    · cases h
    · rename_i r here
      cases h
      exact .returns i r here
    · rename_i o next here
      cases h
      exact .acts i o next here
    · rename_i w next here
      split at h
      · rename_i hgiven
        cases h
        exact .takes i next (Or.inl ⟨w, here⟩) hgiven
      · rename_i hempty
        cases h
        exact .blocks i w next here (Bool.eq_false_iff.mpr hempty)
    · rename_i next here
      split at h
      · rename_i hgiven
        cases h
        exact .takes i next (Or.inr here) hgiven
      · rename_i hempty
        cases h
        exact .missed i next here (Bool.eq_false_iff.mpr hempty)
  | timeout i =>
    simp only [step] at h
    split at h
    · rename_i next here
      cases h
      exact .timesOut i next here
    all_goals cases h
  | edge c =>
    simp only [step] at h
    split at h
    · rename_i hgiven
      cases h
      exact .coalesces c hgiven
    · rename_i hempty
      cases h
      exact .gives c (Bool.eq_false_iff.mpr hempty)

/-! ## The phases after a step -/

@[simp] theorem State.put_self (s : State ι D O A W R) (i : ι) (x : Phase O A W R) :
    (s.put i x).phase i = x := by
  simp [State.put]

theorem State.put_ne (s : State ι D O A W R) {i j : ι} (h : j ≠ i) (x : Phase O A W R) :
    (s.put i x).phase j = s.phase j := by
  simp [State.put, h]

theorem State.forall_put {P : ι → Phase O A W R → Prop} {s : State ι D O A W R} {i : ι}
    {x : Phase O A W R} (h : ∀ j, P j (s.phase j)) (hx : P i x) :
    ∀ j, P j ((s.put i x).phase j) := by
  intro j
  by_cases hij : j = i
  · subst hij
    rw [State.put_self]
    exact hx
  · rw [State.put_ne s hij]
    exact h j

/-- Waking keeps what does not depend on having been woken. -/
theorem State.forall_wakeFirst {P : ι → Phase O A W R → Prop} {s : State ι D O A W R}
    (order : List ι) (hwake : ∀ i next, P i (.blocked next) → P i (.woken next))
    (h : ∀ i, P i (s.phase i)) : ∀ i, P i ((s.wakeFirst order).phase i) := by
  unfold State.wakeFirst
  split
  · rename_i i _
    apply State.forall_put h
    have hi := h i
    cases hphase : s.phase i with
    | blocked next =>
      rw [hphase] at hi
      exact hwake i next hi
    | idle | running p | woken next =>
      rw [hphase] at hi
      exact hi
  · exact h

@[simp] theorem State.answers_wakeFirst (order : List ι) (s : State ι D O A W R) :
    (s.wakeFirst order).answers = s.answers := by
  unfold State.wakeFirst
  split <;> rfl

end

/-! ## Alone -/

section
variable {ι D O A W R C : Type} [DecidableEq ι]

/-- The device and the semaphore once the edges have come that `env` sends now. -/
def settle (dev : Device D O A W C) (env : D → List C) (d : D) (sem : Bool) : D × Bool :=
  ((env d).foldl dev.edge d, sem || !(env d).isEmpty)

/-- A call with nothing but edges going on around it, and those that come before its next step
    given by what has happened. -/
def Prog.alone (dev : Device D O A W C) (env : D → List C) :
    Prog O A W R → D × Bool → R × D × Bool
  | .ret r, s => (r, s)
  | .op o next, s =>
      (next (dev.act s.1 o).1).alone dev env (settle dev env (dev.act s.1 o).2 s.2)
  | .take w next, s =>
      if s.2 then (next true).alone dev env (settle dev env (dev.taken s.1) false)
      else
        let s := settle dev env (dev.waits s.1 w) false
        if s.2 then (next true).alone dev env (settle dev env (dev.taken s.1) false)
        else (next false).alone dev env (settle dev env (dev.timedOut s.1) false)

variable {dev : Device D O A W C} {env : D → List C} {order : List ι} {s : State ι D O A W R}
  {i : ι}

/-- Nobody but `i` is in a call. -/
def Alone (i : ι) (s : State ι D O A W R) : Prop := ∀ j, j ≠ i → s.phase j = .idle

/-- Edges while nobody is blocked. -/
theorem reaches_edges {s₀ : State ι D O A W R} (hnone : ∀ j, (s.phase j).isBlocked = false)
    (h : Reaches (step dev order) (fun _ _ => True) s₀ s) (cs : List C) :
    Reaches (step dev order) (fun _ _ => True) s₀
      { s with dev := cs.foldl dev.edge s.dev, sem := s.sem || !cs.isEmpty } := by
  induction cs generalizing s with
  | nil => simpa using h
  | cons c cs ih =>
    have hfind : (order.find? fun j => (s.phase j).isBlocked) = none := by
      simp [hnone]
    have hedge : step dev order s (.edge c)
        = some { s with dev := dev.edge s.dev c, sem := true } := by
      simp only [step, State.wakeFirst, hfind]
      split
      · rename_i hgiven
        rw [← hgiven]
      · rfl
    have hrest := ih (s := { s with dev := dev.edge s.dev c, sem := true }) hnone
      (h.call _ trivial hedge)
    simpa using hrest

/-- What a call alone has come to, as a state of the system. -/
structure CameTo (order : List ι) (dev : Device D O A W C) (i : ι) (s₀ : State ι D O A W R)
    (x : Phase O A W R) (d : D × Bool) (s : State ι D O A W R) : Prop where
  reaches : Reaches (step dev order) (fun _ _ => True) s₀ s
  here : s.phase i = x
  others : Alone i s
  dev : s.dev = d.1
  sem : s.sem = d.2

/-- One step of `i`, and then the edges. -/
theorem CameTo.settle {s₀ t : State ι D O A W R} {x y : Phase O A W R} {d : D × Bool}
    (h : CameTo order dev i s₀ x d s) (env : D → List C)
    {a : Act ι O A W R C} (hstep : step dev order s a = some (t.put i y))
    (hphase : t.phase = s.phase) (hy : y.isBlocked = false) :
    ∃ s', CameTo order dev i s₀ y (settle dev env t.dev t.sem) s' := by
  have hothers : Alone i (t.put i y) := fun j hj => by
    rw [State.put_ne _ hj, hphase, h.others j hj]
  have hnone : ∀ j, ((t.put i y).phase j).isBlocked = false := by
    intro j
    by_cases hj : j = i
    · rw [hj, State.put_self, hy]
    · rw [hothers j hj]
      rfl
  exact ⟨_, reaches_edges hnone (h.reaches.call a trivial hstep) (env t.dev),
    State.put_self _ _ _, hothers, rfl, rfl⟩

/-- Edges while only `i` is blocked: the first wakes it. -/
theorem CameTo.wakes {s₀ : State ι D O A W R} {next : Bool → Prog O A W R} {d : D}
    (hi : i ∈ order) (h : CameTo order dev i s₀ (.blocked next) (d, false) s) (c : C)
    (cs : List C) :
    ∃ s', CameTo order dev i s₀ (.woken next) ((c :: cs).foldl dev.edge d, true) s' := by
  have hblocked : ∀ j, (s.phase j).isBlocked = decide (j = i) := by
    intro j
    by_cases hj : j = i
    · rw [hj, h.here]
      simp [Phase.isBlocked]
    · rw [h.others j hj]
      simp [Phase.isBlocked, hj]
  have hfind : (order.find? fun j => (s.phase j).isBlocked) = some i := by
    cases hf : order.find? fun j => (s.phase j).isBlocked with
    | none =>
      have hnot := List.find?_eq_none.mp hf i hi
      rw [hblocked] at hnot
      exact absurd (decide_eq_true rfl) hnot
    | some j =>
      have hj := List.find?_some hf
      rw [hblocked, decide_eq_true_eq] at hj
      rw [hj]
  have hempty : s.sem = false := h.sem
  have hstep : step dev order s (.edge c)
      = some { s.put i (.woken next) with dev := dev.edge s.dev c, sem := true } := by
    simp only [step, hempty, Bool.false_eq_true, if_false, State.wakeFirst, hfind, h.here]
    rfl
  have hothers : ∀ j, j ≠ i → (s.put i (.woken next)).phase j = .idle := by
    intro j hj
    rw [State.put_ne _ hj]
    exact h.others j hj
  have hnone : ∀ j, ((s.put i (.woken next)).phase j).isBlocked = false := by
    intro j
    by_cases hj : j = i
    · rw [hj, State.put_self]
      rfl
    · rw [hothers j hj]
      rfl
  have hdev : s.dev = d := h.dev
  refine ⟨_, reaches_edges (s := { s.put i (.woken next) with dev := _, sem := true }) hnone
    (h.reaches.call _ trivial hstep) cs, State.put_self _ _ _, hothers, ?_, rfl⟩
  rw [hdev]
  rfl

/-- **A call alone is one of the runs**: from where a call begins, with everybody else idle,
    the system can come to its result with the device and the semaphore it leaves. -/
theorem alone_reaches (hi : i ∈ order) (env : D → List C) {s₀ : State ι D O A W R}
    (p : Prog O A W R) (d : D × Bool) (h : CameTo order dev i s₀ (.running p) d s) :
    ∃ s', CameTo order dev i s₀ (.running (.ret (p.alone dev env d).1)) (p.alone dev env d).2 s' := by
  induction p generalizing s d with
  | ret r => exact ⟨s, h⟩
  | op o next ih =>
    have hstep : step dev order s (.run i)
        = some ({ s with dev := (dev.act s.dev o).2 }.put i
            (.running (next (dev.act s.dev o).1))) := by
      simp only [step, State.run, h.here]
    obtain ⟨s', hs'⟩ := h.settle env hstep rfl rfl
    rw [h.dev] at hs'
    rw [show s.sem = d.2 from h.sem] at hs'
    exact ih _ _ hs'
  | take w next ih =>
    obtain ⟨d, sem⟩ := d
    cases sem with
    | true =>
      have hgiven : s.sem = true := h.sem
      have hstep : step dev order s (.run i) = some (s.takes dev i next) := by
        simp only [step, State.run, h.here, hgiven, if_true]
      obtain ⟨s', hs'⟩ := h.settle env (t := { s with dev := dev.taken s.dev, sem := false })
        hstep rfl rfl
      rw [h.dev] at hs'
      exact ih true _ hs'
    | false =>
      have hempty : s.sem = false := h.sem
      have hstep : step dev order s (.run i)
          = some ({ s with dev := dev.waits s.dev w }.put i (.blocked next)) := by
        simp only [step, State.run, h.here, hempty, Bool.false_eq_true, if_false]
      have hblocks : CameTo order dev i s₀ (.blocked next) (dev.waits d w, false)
          ({ s with dev := dev.waits s.dev w }.put i (.blocked next)) := by
        refine ⟨h.reaches.call _ trivial hstep, State.put_self _ _ _, fun j hj => ?_, ?_, hempty⟩
        · rw [State.put_ne _ hj]
          exact h.others j hj
        · have hdev : s.dev = d := h.dev
          rw [← hdev]
          rfl
      generalize ({ s with dev := dev.waits s.dev w }.put i (.blocked next)) = s₁ at hblocks
      unfold Prog.alone settle
      dsimp only
      cases hedges : env (dev.waits d w) with
      | nil =>
        have hstep₁ : step dev order s₁ (.timeout i)
            = some ({ s₁ with dev := dev.timedOut s₁.dev }.put i (.running (next false))) := by
          simp only [step, hblocks.here]
        obtain ⟨s', hs'⟩ := hblocks.settle env hstep₁ rfl rfl
        rw [hblocks.dev, show s₁.sem = false from hblocks.sem] at hs'
        exact ih false _ hs'
      | cons c cs =>
        obtain ⟨s₂, hwoken⟩ := hblocks.wakes hi c cs
        have hgiven : s₂.sem = true := hwoken.sem
        have hstep₂ : step dev order s₂ (.run i) = some (s₂.takes dev i next) := by
          simp only [step, State.run, hwoken.here, hgiven, if_true]
        obtain ⟨s', hs'⟩ := hwoken.settle env
          (t := { s₂ with dev := dev.taken s₂.dev, sem := false }) hstep₂ rfl rfl
        rw [hwoken.dev] at hs'
        exact ih true _ hs'

end

end SharedTasks
