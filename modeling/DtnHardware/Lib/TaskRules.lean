import DtnHardware.Lib.Tasks

/-!
# Rules for tasks that share a device and a semaphore

For runs with any number of tasks, any calls and any order of steps:

* `Counts.balanced` — the calls that succeed are no more than the edges;
* `Resting.all_idle` — a condition that each call restores before it returns holds whenever no
  task is in a call, although the calls disturb it and each other;
* `Favoured.unserved` — if the task of the highest priority waits whenever an edge comes, the
  takes of the others all fail.

Each has a step lemma (`Counts.moves`, `Resting.moves`, `Starved.moves`), one case per kind of
step. What a call is known to do is said of its `Prog`, by recursion on it: `Unserved`,
`Settles`.
-/

set_option autoImplicit false

namespace SharedTasks

open GuardedCalls

/-! ## Every edge lets one take succeed at most -/

section
variable {ι D O A W R C : Type}

/-- Every way through the program on which no take succeeds ends in `P`. -/
def Prog.Unserved (P : R → Prop) : Prog O A W R → Prop
  | .ret r => P r
  | .op _ next => ∀ a, (next a).Unserved P
  | .take _ next => (next false).Unserved P

def Phase.Unserved (P : R → Prop) : Phase O A W R → Prop
  | idle => True
  | running p => p.Unserved P
  | blocked next => (next false).Unserved P
  | woken next => (next false).Unserved P

theorem Prog.Unserved.mono {P P' : R → Prop} (hP : ∀ r, P r → P' r) {p : Prog O A W R}
    (h : p.Unserved P) : p.Unserved P' := by
  induction p with
  | ret r => exact hP r h
  | op o next ih => exact fun a => ih a (h a)
  | take w next ih => exact ih false h

/-- What the device counts: the takes that have succeeded, and the edges. -/
structure Counts (dev : Device D O A W C) (takes edges : D → Nat) : Prop where
  act : ∀ d o, takes (dev.act d o).2 = takes d ∧ edges (dev.act d o).2 = edges d
  waits : ∀ d w, takes (dev.waits d w) = takes d ∧ edges (dev.waits d w) = edges d
  timedOut : ∀ d, takes (dev.timedOut d) = takes d ∧ edges (dev.timedOut d) = edges d
  taken : ∀ d, takes (dev.taken d) = takes d + 1 ∧ edges (dev.taken d) = edges d
  edge : ∀ d c, takes (dev.edge d c) = takes d ∧ edges (dev.edge d c) = edges d + 1

open Classical in
/-- The tasks that may still return something other than `P`: a take has succeeded for them. -/
noncomputable def holders [Fintype ι] (P : R → Prop) (s : State ι D O A W R) : Finset ι :=
  Finset.univ.filter fun i => ¬ (s.phase i).Unserved P

open Classical in
/-- How many calls have returned something other than `P`. -/
noncomputable def successes (P : R → Prop) (s : State ι D O A W R) : Nat :=
  s.answers.countP fun x => decide (¬ P x.2)

/-- The books of the semaphore: successes come from takes, takes from edges. -/
structure Balanced [Fintype ι] (takes edges : D → Nat) (P : R → Prop)
    (s : State ι D O A W R) : Prop where
  served : successes P s + (holders P s).card ≤ takes s.dev
  given : takes s.dev + (if s.sem then 1 else 0) ≤ edges s.dev

theorem mem_holders [Fintype ι] {P : R → Prop} {s : State ι D O A W R} {i : ι} :
    i ∈ holders P s ↔ ¬ (s.phase i).Unserved P := by
  simp [holders]

variable [Fintype ι] [DecidableEq ι] {dev : Device D O A W C} {order : List ι}
  {ok : State ι D O A W R → Act ι O A W R C → Prop} {s₀ s : State ι D O A W R}
  {P : R → Prop} {takes edges : D → Nat}

/-- A task that moves on without a take holds no more than before. -/
theorem card_holders_put {t : State ι D O A W R} {i : ι} {x : Phase O A W R}
    (hphase : t.phase = s.phase) (hx : (s.phase i).Unserved P → x.Unserved P) :
    (holders P (t.put i x)).card ≤ (holders P s).card := by
  apply Finset.card_le_card
  intro j hj
  rw [mem_holders] at hj ⊢
  by_cases hji : j = i
  · subst hji
    rw [State.put_self] at hj
    exact fun h => hj (hx h)
  · rwa [State.put_ne _ hji, hphase] at hj

theorem card_holders_put_succ {t : State ι D O A W R} (i : ι) (x : Phase O A W R)
    (hphase : t.phase = s.phase) : (holders P (t.put i x)).card ≤ (holders P s).card + 1 := by
  refine (Finset.card_le_card (t := insert i (holders P s)) fun j hj => ?_).trans
    (Finset.card_insert_le i _)
  by_cases hji : j = i
  · exact Finset.mem_insert.mpr (Or.inl hji)
  · rw [mem_holders, State.put_ne _ hji, hphase] at hj
    exact Finset.mem_insert_of_mem (mem_holders.mpr hj)

/-- A call that returns moves its success from the holders to the answers. -/
theorem successes_returns {i : ι} {r : R} (here : s.phase i = .running (.ret r)) :
    successes P ({ s with answers := s.answers ++ [(i, r)] }.put i .idle)
        + (holders P ({ s with answers := s.answers ++ [(i, r)] }.put i .idle)).card
      ≤ successes P s + (holders P s).card := by
  have hidle : i ∉ holders P ({ s with answers := s.answers ++ [(i, r)] }.put i .idle) := by
    rw [mem_holders, State.put_self]
    exact not_not.mpr trivial
  have hsub : holders P ({ s with answers := s.answers ++ [(i, r)] }.put i .idle)
      ⊆ (holders P s).erase i := by
    intro j hj
    have hji : j ≠ i := fun heq => hidle (heq ▸ hj)
    rw [mem_holders, State.put_ne _ hji] at hj
    exact Finset.mem_erase.mpr ⟨hji, mem_holders.mpr hj⟩
  have hcard := Finset.card_le_card hsub
  by_cases hP : P r
  · have hcount : successes P ({ s with answers := s.answers ++ [(i, r)] }.put i .idle)
        = successes P s := by
      unfold successes State.put
      simp [List.countP_append, hP]
    have := Finset.card_erase_le (s := holders P s) (a := i)
    omega
  · have hcount : successes P ({ s with answers := s.answers ++ [(i, r)] }.put i .idle)
        = successes P s + 1 := by
      unfold successes State.put
      simp [List.countP_append, hP]
    have hmem : i ∈ holders P s := by
      rw [mem_holders, here]
      exact hP
    have := Finset.card_erase_of_mem hmem
    have := Finset.card_pos.mpr ⟨i, hmem⟩
    omega

theorem Counts.moves (hc : Counts dev takes edges) {s' : State ι D O A W R}
    {a : Act ι O A W R C} (h : Moves dev order s a s')
    (hcall : ∀ i p, a = .call i p → p.Unserved P) (hs : Balanced takes edges P s) :
    Balanced takes edges P s' := by
  obtain ⟨hserved, hgiven⟩ := hs
  -- a step that neither takes nor returns
  have hquiet {t : State ι D O A W R} (i : ι) (x : Phase O A W R) (hphase : t.phase = s.phase)
      (hanswers : t.answers = s.answers) (hsem : t.sem = s.sem)
      (hdev : takes t.dev = takes s.dev ∧ edges t.dev = edges s.dev)
      (hx : (s.phase i).Unserved P → x.Unserved P) : Balanced takes edges P (t.put i x) := by
    have hcard := card_holders_put hphase hx
    refine ⟨?_, ?_⟩
    · show successes P t + _ ≤ takes t.dev
      rw [hdev.1, successes, hanswers]
      exact (Nat.add_le_add_left hcard _).trans hserved
    · show takes t.dev + (if t.sem = true then 1 else 0) ≤ edges t.dev
      rw [hdev.1, hdev.2, hsem]
      exact hgiven
  cases h with
  | calls i p _ => exact hquiet i _ rfl rfl rfl ⟨rfl, rfl⟩ fun _ => hcall i p rfl
  | returns i r here => exact ⟨(successes_returns here).trans hserved, hgiven⟩
  | acts i o next here =>
    refine hquiet (t := { s with dev := _ }) i _ rfl rfl rfl (hc.act _ o) fun hi => ?_
    rw [here] at hi
    exact hi _
  | takes i next here hsem =>
    rw [hsem, if_pos rfl] at hgiven
    have hcard := card_holders_put_succ (P := P) (s := s)
      (t := { s with dev := dev.taken s.dev, sem := false }) i (.running (next true)) rfl
    obtain ⟨htakes, hedges⟩ := hc.taken s.dev
    refine ⟨?_, ?_⟩
    · show successes P s + (holders P (s.takes dev i next)).card ≤ takes (dev.taken s.dev)
      rw [htakes]
      exact (Nat.add_le_add_left hcard _).trans (Nat.succ_le_succ hserved)
    · show takes (dev.taken s.dev) + (if false = true then 1 else 0) ≤ edges (dev.taken s.dev)
      rw [htakes, hedges]
      simpa using hgiven
  | blocks i w next here _ =>
    refine hquiet (t := { s with dev := _ }) i _ rfl rfl rfl (hc.waits _ w) fun hi => ?_
    rw [here] at hi
    exact hi
  | missed i next here _ =>
    refine hquiet i _ rfl rfl rfl ⟨rfl, rfl⟩ fun hi => ?_
    rw [here] at hi
    exact hi
  | timesOut i next here =>
    refine hquiet (t := { s with dev := _ }) i _ rfl rfl rfl (hc.timedOut _) fun hi => ?_
    rw [here] at hi
    exact hi
  | coalesces c hsem =>
    obtain ⟨htakes, hedges⟩ := hc.edge s.dev c
    refine ⟨?_, ?_⟩
    · show successes P s + (holders P s).card ≤ takes (dev.edge s.dev c)
      rw [htakes]
      exact hserved
    · show takes (dev.edge s.dev c) + (if s.sem = true then 1 else 0) ≤ edges (dev.edge s.dev c)
      rw [htakes, hedges]
      exact Nat.le_succ_of_le hgiven
  | gives c hsem =>
    obtain ⟨htakes, hedges⟩ := hc.edge s.dev c
    rw [hsem] at hgiven
    have hcard : (holders P (s.wakeFirst order)).card ≤ (holders P s).card := by
      unfold State.wakeFirst
      split
      · rename_i i _
        refine card_holders_put rfl fun hi => ?_
        cases hphase : s.phase i <;> rw [hphase] at hi <;> exact hi
      · exact le_refl _
    refine ⟨?_, ?_⟩
    · show successes P { s.wakeFirst order with dev := dev.edge s.dev c, sem := true } + _
        ≤ takes (dev.edge s.dev c)
      rw [htakes, successes]
      dsimp only
      rw [State.answers_wakeFirst]
      exact (Nat.add_le_add_left hcard _).trans hserved
    · show takes (dev.edge s.dev c) + (if true = true then 1 else 0) ≤ edges (dev.edge s.dev c)
      rw [htakes, hedges]
      simpa using hgiven

/-- **The books balance in every run**: the calls that had success, and those that still may
    have, are no more than the takes, and the takes no more than the edges. -/
theorem Counts.balanced (hc : Counts dev takes edges)
    (hcalls : ∀ s i p, ok s (.call i p) → p.Unserved P)
    (h : Reaches (step dev order) ok s₀ s) (h₀ : Balanced takes edges P s₀) :
    Balanced takes edges P s := by
  refine h.invariant (P := fun s => Balanced takes edges P s) h₀ fun s a s' _ hok hs hbal => ?_
  refine hc.moves (step_cases hs) (fun i p ha => ?_) hbal
  subst ha
  exact hcalls s i p hok

end

/-! ## A condition that every call restores -/

section
variable {ι D O A W R C : Type} [DecidableEq ι] {dev : Device D O A W C} {order : List ι}
  {ok : State ι D O A W R → Act ι O A W R C → Prop} {s₀ s : State ι D O A W R}

/-- What an operation does to a condition of the device. -/
inductive Effect where
  | none | restores | disturbs
deriving DecidableEq

/-- Whether a task owes it to the others to restore the condition, one operation later. -/
def Effect.owes (owed : Bool) : Effect → Bool
  | none => owed
  | restores => false
  | disturbs => true

/-- However the program goes, it returns with nothing owed. -/
def Prog.Settles (effect : O → Effect) : Bool → Prog O A W R → Prop
  | owed, .ret _ => owed = false
  | owed, .op o next => ∀ a, (next a).Settles effect ((effect o).owes owed)
  | owed, .take _ next => ∀ x, (next x).Settles effect owed

def Phase.Settles (effect : O → Effect) (owed : Bool) : Phase O A W R → Prop
  | idle => owed = false
  | running p => p.Settles effect owed
  | blocked next => ∀ x, (next x).Settles effect owed
  | woken next => ∀ x, (next x).Settles effect owed

/-- The operations have this effect on `Q`, and nothing else bears on it. -/
structure Resting (dev : Device D O A W C) (effect : O → Effect) (Q : D → Prop) : Prop where
  none : ∀ d o, effect o = .none → Q d → Q (dev.act d o).2
  restores : ∀ d o, effect o = .restores → Q (dev.act d o).2
  waits : ∀ d w, Q d → Q (dev.waits d w)
  taken : ∀ d, Q d → Q (dev.taken d)
  timedOut : ∀ d, Q d → Q (dev.timedOut d)
  edge : ∀ d c, Q d → Q (dev.edge d c)

/-- The condition holds, or some task owes it. -/
def Owing (effect : O → Effect) (Q : D → Prop) (s : State ι D O A W R) : Prop :=
  ∃ owed : ι → Bool, (∀ i, (s.phase i).Settles effect (owed i)) ∧
    (Q s.dev ∨ ∃ i, owed i = true)

/-- A step of one task that leaves the condition alone. -/
theorem Owing.put {effect : O → Effect} {Q : D → Prop} {owed : ι → Bool} {i : ι}
    {x : Phase O A W R} (hphase : ∀ j, (s.phase j).Settles effect (owed j))
    (hx : x.Settles effect (owed i)) (hQ : Q s.dev ∨ ∃ j, owed j = true) :
    Owing effect Q (s.put i x) :=
  ⟨owed, State.forall_put hphase hx, hQ⟩

/-- Operations: the task that acts may owe more or less than before. -/
theorem Resting.acts {effect : O → Effect} {Q : D → Prop} (hr : Resting dev effect Q)
    {owed : ι → Bool} {i : ι} {o : O} {next : A → Prog O A W R}
    (hphase : ∀ j, (s.phase j).Settles effect (owed j))
    (here : s.phase i = .running (.op o next)) (hQ : Q s.dev ∨ ∃ j, owed j = true) :
    Owing effect Q
      ({ s with dev := (dev.act s.dev o).2 }.put i (.running (next (dev.act s.dev o).1))) := by
  have hi := hphase i
  rw [here] at hi
  refine ⟨Function.update owed i ((effect o).owes (owed i)), ?_, ?_⟩
  · intro j
    by_cases hij : j = i
    · subst hij
      rw [State.put_self, Function.update_self]
      exact hi _
    · rw [State.put_ne _ hij, Function.update_of_ne hij]
      exact hphase j
  · cases heffect : effect o with
    | none =>
      rcases hQ with hQ | ⟨j, hj⟩
      · exact Or.inl (hr.none _ o heffect hQ)
      · refine Or.inr ⟨j, ?_⟩
        by_cases hij : j = i
        · subst hij
          rw [Function.update_self]
          exact hj
        · rw [Function.update_of_ne hij]
          exact hj
    | restores => exact Or.inl (hr.restores _ o heffect)
    | disturbs => exact Or.inr ⟨i, Function.update_self _ _ _⟩

theorem Resting.moves {effect : O → Effect} {Q : D → Prop} (hr : Resting dev effect Q)
    {s' : State ι D O A W R} {a : Act ι O A W R C} (h : Moves dev order s a s')
    (hcall : ∀ i p, a = .call i p → p.Settles effect false) (hs : Owing effect Q s) :
    Owing effect Q s' := by
  obtain ⟨owed, hphase, hQ⟩ := hs
  cases h with
  | calls i p hidle =>
    have hi := hphase i
    rw [hidle] at hi
    have hi : owed i = false := hi
    refine Owing.put hphase ?_ hQ
    rw [hi]
    exact hcall i p rfl
  | returns i r here =>
    have hi := hphase i
    rw [here] at hi
    exact Owing.put (s := { s with answers := _ }) hphase hi hQ
  | acts i o next here => exact hr.acts hphase here hQ
  | takes i next here _ =>
    have hi : ∀ x, (next x).Settles effect (owed i) := by
      have hi := hphase i
      rcases here with ⟨w, here⟩ | here <;> rw [here] at hi <;> exact hi
    exact Owing.put (s := { s with dev := dev.taken s.dev, sem := false }) hphase (hi true)
      (hQ.imp_left (hr.taken _))
  | blocks i w next here _ =>
    have hi := hphase i
    rw [here] at hi
    exact Owing.put (s := { s with dev := dev.waits s.dev w }) hphase hi
      (hQ.imp_left (hr.waits _ w))
  | missed i next here _ =>
    have hi := hphase i
    rw [here] at hi
    exact Owing.put hphase hi hQ
  | timesOut i next here =>
    have hi := hphase i
    rw [here] at hi
    exact Owing.put (s := { s with dev := dev.timedOut s.dev }) hphase (hi false)
      (hQ.imp_left (hr.timedOut _))
  | coalesces c _ => exact ⟨owed, hphase, hQ.imp_left (hr.edge _ c)⟩
  | gives c _ =>
    refine ⟨owed, ?_, hQ.imp_left (hr.edge _ c)⟩
    exact State.forall_wakeFirst (P := fun i x => x.Settles effect (owed i)) order
      (fun _ _ h => h) hphase

/-- **While no task is in a call the condition holds.** -/
theorem Resting.all_idle {effect : O → Effect} {Q : D → Prop} (hr : Resting dev effect Q)
    (hcalls : ∀ s i p, ok s (.call i p) → p.Settles effect false)
    (h : Reaches (step dev order) ok s₀ s) (h₀ : ∀ i, s₀.phase i = .idle) (hQ₀ : Q s₀.dev)
    (hidle : ∀ i, s.phase i = .idle) : Q s.dev := by
  have hstart : Owing effect Q s₀ := by
    refine ⟨fun _ => false, fun i => ?_, Or.inl hQ₀⟩
    rw [h₀ i]
    rfl
  obtain ⟨owed, hphase, hQ⟩ : Owing effect Q s := by
    refine h.invariant (P := fun s => Owing effect Q s) hstart fun s a s' _ hok hs howing => ?_
    refine hr.moves (step_cases hs) (fun i p ha => ?_) howing
    subst ha
    exact hcalls s i p hok
  refine hQ.resolve_right ?_
  rintro ⟨i, hi⟩
  have hnone := hphase i
  rw [hidle i] at hnone
  have hnone : owed i = false := hnone
  rw [hi] at hnone
  cases hnone

end

/-! ## A task that is always first -/

section
variable {ι D O A W R C : Type} [DecidableEq ι] {dev : Device D O A W C}
  {ok : State ι D O A W R → Act ι O A W R C → Prop} {s₀ s : State ι D O A W R}

/-- The task `i` waits whenever an edge comes, and once it has been woken it is the next to
    run. -/
structure Favoured (i : ι) (s : State ι D O A W R) (a : Act ι O A W R C) : Prop where
  waits : ∀ c, a = .edge c → (s.phase i).isBlocked = true
  next : (s.phase i).isWoken = true → a = .run i

/-- Only `i` is ever woken, the semaphore is given for no one else, and the others have had no
    success. -/
structure Starved (i : ι) (P : R → Prop) (s : State ι D O A W R) : Prop where
  given : s.sem = true → (s.phase i).isWoken = true
  phase : ∀ j, j ≠ i → (s.phase j).Unserved P
  answers : ∀ j r, j ≠ i → (j, r) ∈ s.answers → P r

/-- A step of `j` to the phase `x`, with the semaphore empty afterwards. -/
theorem Starved.put {i j : ι} {P : R → Prop} {t : State ι D O A W R} {x : Phase O A W R}
    (hs : Starved i P s) (hphase : t.phase = s.phase) (hsem : t.sem = false)
    (hanswers : ∀ k r, k ≠ i → (k, r) ∈ t.answers → P r) (hx : j ≠ i → x.Unserved P) :
    Starved i P (t.put j x) := by
  refine ⟨fun hgiven => ?_, fun k hk => ?_, hanswers⟩
  · have hgiven : t.sem = true := hgiven
    rw [hsem] at hgiven
    cases hgiven
  · by_cases hkj : k = j
    · subst hkj
      rw [State.put_self]
      exact hx hk
    · rw [State.put_ne _ hkj, hphase]
      exact hs.phase k hk

omit [DecidableEq ι] in
/-- While the semaphore is given, only `i` moves, and it takes it. -/
theorem Starved.empty {i j : ι} {P : R → Prop} {a : Act ι O A W R C} (hs : Starved i P s)
    (hfav : Favoured i s a) (ha : a = .run j ∨ a = .timeout j ∨ ∃ p, a = .call j p)
    (hnot : (s.phase j).isWoken = false) : s.sem = false := by
  by_contra hgiven
  have hwoken := hs.given (by simpa using hgiven)
  have hnext := hfav.next hwoken
  rcases ha with rfl | rfl | ⟨p, rfl⟩
  · cases hnext
    rw [hwoken] at hnot
    cases hnot
  · cases hnext
  · cases hnext

theorem Starved.moves {i : ι} {rest : List ι} {P : R → Prop} {s' : State ι D O A W R}
    {a : Act ι O A W R C} (h : Moves dev (i :: rest) s a s') (hfav : Favoured i s a)
    (hcall : ∀ j p, a = .call j p → j ≠ i → p.Unserved P) (hs : Starved i P s) :
    Starved i P s' := by
  cases h with
  | calls j p hidle =>
    have hsem := hs.empty hfav (Or.inr (Or.inr ⟨p, rfl⟩)) (by rw [hidle]; rfl)
    exact hs.put rfl hsem hs.answers fun hj => hcall j p rfl hj
  | returns j r here =>
    have hsem := hs.empty hfav (Or.inl rfl) (by rw [here]; rfl)
    refine hs.put rfl hsem (fun k x hk hmem => ?_) fun _ => trivial
    rcases List.mem_append.mp hmem with hmem | hmem
    · exact hs.answers k x hk hmem
    · obtain ⟨rfl, rfl⟩ := Prod.mk.inj (List.mem_singleton.mp hmem)
      have hp := hs.phase k hk
      rw [here] at hp
      exact hp
  | acts j o next here =>
    have hsem := hs.empty hfav (Or.inl rfl) (by rw [here]; rfl)
    refine hs.put rfl hsem hs.answers fun hj => ?_
    have hp := hs.phase j hj
    rw [here] at hp
    exact hp _
  | takes j next here hgiven =>
    have hnext := hfav.next (hs.given hgiven)
    cases hnext
    exact hs.put rfl rfl hs.answers fun hj => absurd rfl hj
  | blocks j w next here hsem =>
    refine hs.put rfl hsem hs.answers fun hj => ?_
    have hp := hs.phase j hj
    rw [here] at hp
    exact hp
  | missed j next here hsem =>
    refine hs.put rfl hsem hs.answers fun hj => ?_
    have hp := hs.phase j hj
    rw [here] at hp
    exact hp
  | timesOut j next here =>
    have hsem := hs.empty hfav (Or.inr (Or.inl rfl)) (by rw [here]; rfl)
    refine hs.put rfl hsem hs.answers fun hj => ?_
    have hp := hs.phase j hj
    rw [here] at hp
    exact hp
  | coalesces c hgiven => exact ⟨hs.given, hs.phase, hs.answers⟩
  | gives c hsem =>
    -- the first blocked task is `i`
    have hblocked := hfav.waits c rfl
    obtain ⟨next, hnext⟩ : ∃ next, s.phase i = .blocked next := by
      cases hphase : s.phase i with
      | blocked next => exact ⟨next, rfl⟩
      | idle | running p | woken next => rw [hphase] at hblocked; cases hblocked
    have hfind : ((i :: rest).find? fun j => (s.phase j).isBlocked) = some i := by
      simp [hblocked]
    have hwake : s.wakeFirst (i :: rest) = s.put i (.woken next) := by
      rw [State.wakeFirst, hfind]
      simp only [hnext]
      rfl
    rw [hwake]
    refine ⟨fun _ => ?_, fun j hj => ?_, hs.answers⟩
    · show ((s.put i (.woken next)).phase i).isWoken = true
      rw [State.put_self]
      rfl
    · show ((s.put i (.woken next)).phase j).Unserved P
      rw [State.put_ne _ hj]
      exact hs.phase j hj

/-- **The others are never served**: if the task of the highest priority waits whenever an edge
    comes, every call of another returns what it returns when no take succeeds. -/
theorem Favoured.unserved {i : ι} {rest : List ι} {P : R → Prop}
    (hok : ∀ s a, ok s a → Favoured i s a)
    (hcalls : ∀ s j p, ok s (.call j p) → j ≠ i → p.Unserved P)
    (h : Reaches (step dev (i :: rest)) ok s₀ s) (h₀ : Starved i P s₀) : Starved i P s := by
  refine h.invariant (P := fun s => Starved i P s) h₀ fun s a s' _ hallowed hs hstarved => ?_
  refine hstarved.moves (step_cases hs) (hok s a hallowed) fun j p ha hj => ?_
  subst ha
  exact hcalls s j p hallowed hj

end

end SharedTasks
