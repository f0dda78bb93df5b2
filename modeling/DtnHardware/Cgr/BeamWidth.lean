import DtnHardware.Cgr.Explored
import DtnHardware.Cgr.Soundness

/-!
# The beam width

`max_routes` is 64 on the Pi and 16 on the ESP32. The search never reads it: `searchMachine`
is the search without a beam, the same for every width, and a *candidate* is a route that it
offers. What a beam of any width does with the candidates is then one fact about
`beam_push`,

> **an entry only leaves for a cheaper one** (`beamPush_cheaper`),

so whatever was offered is matched in the beam from then on, and a call that returns picks
the cost of a cheapest candidate. Two calls that return therefore agree, although the routes
may differ: of two candidates with the same cost the wider beam may keep another one.
-/

set_option autoImplicit false

namespace DtnHardware

open StepMachine

/-- `q` with `cfg->max_routes` set to `m`. -/
def CgrCall.withMaxRoutes (q : CgrCall) (m : Int32) : CgrCall :=
  { q with cfg := { q.cfg with maxRoutes := m } }

/-! ## The search alone -/

/-- The search without its beam. -/
def searchMachine (q : CgrCall) : Machine Fault SearchState :=
  { step := fun st => (searchStep q st).map Prod.fst, done := searchDone q }

def searchStart : SearchState := { nextSeed := 0, stack := [], frontiers := [] }

/-- `r` is a route that the search offers. -/
def Candidate (q : CgrCall) (r : CgrRoute) : Prop :=
  ∃ st st', (searchMachine q).Reaches searchStart st ∧ searchDone q st = false ∧
    searchStep q st = .ok (st', some r)

/-- The candidates are the same for every width. -/
theorem candidate_withMaxRoutes {q : CgrCall} {m : Int32} {r : CgrRoute} :
    Candidate (q.withMaxRoutes m) r ↔ Candidate q r := Iff.rfl

/-- A call is its search with a beam on the side. -/
theorem cgrMachine_projects (q : CgrCall) :
    Machine.Projects (cgrMachine q) (searchMachine q) CgrState.search where
  done _ := rfl
  step s s' hs := by
    have hstep := hs.2
    change cgrStep q s = .ok s' at hstep
    change (searchStep q s.search).map Prod.fst = .ok s'.search
    unfold cgrStep at hstep
    obtain ⟨⟨search, o⟩, hsearch, hstep⟩ := bind_eq_ok.mp hstep
    rw [hsearch]
    cases o with
    | none =>
      cases hstep
      rfl
    | some r =>
      obtain ⟨beam, _, hstep⟩ := bind_eq_ok.mp hstep
      cases hstep
      rfl

/-! ## What a beam keeps -/

/-- The step that offers `r` leaves something no dearer in the beam. -/
theorem cgrStep_offers {q : CgrCall} {st st' : CgrState} {search : SearchState} {r : CgrRoute}
    (hs : (cgrMachine q).Steps st st') (ho : searchStep q st.search = .ok (search, some r)) :
    ∃ y ∈ st'.beam.routes, y.cost ≤ r.cost := by
  have hstep := hs.2
  change cgrStep q st = .ok st' at hstep
  unfold cgrStep at hstep
  rw [ho] at hstep
  obtain ⟨⟨search', o'⟩, heq, hstep⟩ := bind_eq_ok.mp hstep
  cases heq
  obtain ⟨beam, hpush, hstep⟩ := bind_eq_ok.mp hstep
  cases hstep
  exact beamPush_cheaper hpush (Or.inr rfl)

/-- What is matched in the beam stays matched. -/
theorem beam_keeps {q : CgrCall} {st st' : CgrState} (h : (cgrMachine q).Reaches st st')
    {c : ℚ} (hc : ∃ y ∈ st.beam.routes, y.cost ≤ c) : ∃ y ∈ st'.beam.routes, y.cost ≤ c := by
  refine h.induct (P := fun st => ∃ y ∈ st.beam.routes, y.cost ≤ c) hc ?_
  rintro s s' _ ⟨y, hy, hle⟩ hs
  obtain ⟨o, _, ⟨_, heq⟩ | ⟨r, _, hpush⟩⟩ := cgrStep_cases hs
  · exact ⟨y, heq ▸ hy, hle⟩
  · obtain ⟨z, hz, hzy⟩ := beamPush_cheaper hpush (Or.inl hy)
    exact ⟨z, hz, hzy.trans hle⟩

/-- Only candidates are ever in the beam. -/
theorem candidate_of_beam {q : CgrCall} {st : CgrState}
    (h : (cgrMachine q).Reaches (cgrStart q) st) : ∀ r ∈ st.beam.routes, Candidate q r := by
  refine h.induct (P := fun st => ∀ r ∈ st.beam.routes, Candidate q r) nofun ?_
  intro s s' hreach hold hs r hr
  have hstep := hs.2
  change cgrStep q s = .ok s' at hstep
  unfold cgrStep at hstep
  obtain ⟨⟨search, o⟩, hsearch, hstep⟩ := bind_eq_ok.mp hstep
  cases o with
  | none =>
    cases hstep
    exact hold r hr
  | some x =>
    obtain ⟨beam, hpush, hstep⟩ := bind_eq_ok.mp hstep
    cases hstep
    rcases beamPush_mem hpush hr with hmem | rfl
    · exact hold r hmem
    · exact ⟨s.search, search, (cgrMachine_projects q).reaches hreach, hs.1, hsearch⟩

/-- When the call is over, every candidate is matched in the beam. -/
theorem Candidate.matched {q : CgrCall} {st : CgrState} {r : CgrRoute} (h : Candidate q r)
    (hreach : (cgrMachine q).Reaches (cgrStart q) st) (hd : searchDone q st.search = true) :
    ∃ y ∈ st.beam.routes, y.cost ≤ r.cost := by
  obtain ⟨search, search', hsearch, hnd, ho⟩ := h
  obtain ⟨s, hs, rfl⟩ := (cgrMachine_projects q).lift hreach hd hsearch
  rcases Relation.ReflTransGen.cases_head (hreach.to_final hd hs) with rfl | ⟨s', hs', hrest⟩
  · rw [hnd] at hd
    cases hd
  · exact beam_keeps hrest (cgrStep_offers hs' ho)

/-! ## What a call returns -/

/-- Neither still searching nor stopped at an undefined access. -/
def CgrOutcome.returned : CgrOutcome → Bool
  | .running | .fault _ => false
  | .noRoute | .route _ => true

/-- The call returns, and this is what it returns. -/
def CgrReturns (q : CgrCall) (o : CgrOutcome) : Prop :=
  (∃ fuel, cgrSelectRoute q fuel = o) ∧ o.returned = true

/-- The costs of the candidates. -/
def candidateCosts (q : CgrCall) : Set ℚ := {c | ∃ r, Candidate q r ∧ r.cost = c}

/-- **A call returns the least cost of a candidate**, and `-1` only if there is none. -/
theorem CgrReturns.least {q : CgrCall} {o : CgrOutcome} (h : CgrReturns q o) :
    (o = .noRoute ∧ candidateCosts q = ∅) ∨
      ∃ r, o = .route r ∧ IsLeast (candidateCosts q) r.cost := by
  obtain ⟨⟨fuel, hrun⟩, hret⟩ := h
  cases o with
  | running | fault e => cases hret
  | noRoute =>
    obtain ⟨st, hreach, hd, hnil⟩ := cgrSelectRoute_noRoute hrun
    refine Or.inl ⟨rfl, Set.eq_empty_of_forall_notMem ?_⟩
    rintro c ⟨r, hr, _⟩
    obtain ⟨y, hy, _⟩ := hr.matched hreach hd
    rw [hnil] at hy
    cases hy
  | route r =>
    obtain ⟨st, hreach, hd, hmem, hmin⟩ := cgrSelectRoute_route hrun
    refine Or.inr ⟨r, rfl, ⟨r, candidate_of_beam hreach r hmem, rfl⟩, ?_⟩
    rintro c ⟨x, hx, rfl⟩
    obtain ⟨y, hy, hle⟩ := hx.matched hreach hd
    exact (hmin y hy).trans hle

/-- **The beam width does not change the cost of the answer.** -/
theorem cgrSelectRoute_width (q : CgrCall) (m₁ m₂ : Int32) (o₁ o₂ : CgrOutcome)
    (h₁ : CgrReturns (q.withMaxRoutes m₁) o₁) (h₂ : CgrReturns (q.withMaxRoutes m₂) o₂) :
    (o₁ = .noRoute ∧ o₂ = .noRoute) ∨
      ∃ r₁ r₂, o₁ = .route r₁ ∧ o₂ = .route r₂ ∧ r₁.cost = r₂.cost ∧
        IsLeast {c | ∃ r, Candidate q r ∧ r.cost = c} r₁.cost := by
  have hsame (m : Int32) :
      candidateCosts (q.withMaxRoutes m) = {c | ∃ r, Candidate q r ∧ r.cost = c} := by
    simp only [candidateCosts, candidate_withMaxRoutes]
  rcases h₁.least with ⟨ho₁, hnone₁⟩ | ⟨r₁, ho₁, hleast₁⟩ <;>
    rcases h₂.least with ⟨ho₂, hnone₂⟩ | ⟨r₂, ho₂, hleast₂⟩
  · exact Or.inl ⟨ho₁, ho₂⟩
  · rw [hsame, ← hsame m₁, hnone₁] at hleast₂
    exact absurd hleast₂.1 (Set.notMem_empty _)
  · rw [hsame, ← hsame m₂, hnone₂] at hleast₁
    exact absurd hleast₁.1 (Set.notMem_empty _)
  · exact Or.inr ⟨r₁, r₂, ho₁, ho₂, hleast₁.unique hleast₂, hleast₁⟩

/-- `A → C` directly over a poor link, and over `B` in two good ones. -/
def twoWays : CgrCall :=
  { testCgr with
    cp := .ofList [{ testLink nodeA nodeC 0 60 with conf := 1 / 2 },
      testLink nodeA nodeB 0 60, testLink nodeB nodeC 0 60] }

/-- A beam of one route and a beam of sixteen. -/
theorem cgrSelectRoute_width_twoWays : ∃ r₁ r₂,
    cgrSelectRoute (twoWays.withMaxRoutes 1) 12 = .route r₁ ∧
      cgrSelectRoute (twoWays.withMaxRoutes 16) 12 = .route r₂ ∧ r₁.cost = r₂.cost ∧
        IsLeast {c | ∃ r, Candidate twoWays r ∧ r.cost = c} r₁.cost := by
  have hret : (cgrSelectRoute (twoWays.withMaxRoutes 1) 12).returned = true := by decide +kernel
  have hret' : (cgrSelectRoute (twoWays.withMaxRoutes 16) 12).returned = true := by
    decide +kernel
  have hroute : cgrSelectRoute (twoWays.withMaxRoutes 1) 12 ≠ .noRoute := by decide +kernel
  rcases cgrSelectRoute_width twoWays 1 16 _ _ ⟨⟨12, rfl⟩, hret⟩ ⟨⟨12, rfl⟩, hret'⟩ with h | h
  · exact absurd h.1 hroute
  · exact h

end DtnHardware
