import DtnHardware.Core.Disruption

/-!
# Links that do not fail independently

What a link's probes return should depend on that link: on its model, and on when it is asked.
The comment at the roll says that the generator is *per-model*, *seeded from the peer id*, and
*reproducible*. Its state is one `static` for all models, seeded by whichever is probed first
and moved on by every roll since (`eartAfterErly_differs`).

> **A link is answered as it would be alone** if, whenever one of its probes rolls, either
> `rng_state` is what its own rolls alone would have made it, or no episode starts on either
> generator (`links_independent`).

A roll that meets this is, for instance, one before which no other link has rolled, one of a
link that never fails, or none at all because the link is down anyway.
-/

set_option autoImplicit false

namespace DtnHardware

open GuardedCalls

variable {ι : Type} [DecidableEq ι]

/-- A process in which nothing has been called. -/
def freshProc (models : ι → DisruptionModel) : DisruptionProc ι := { rng := 0, models }

/-- The calls on the link `i`. -/
def ownCall (i : ι) (c : ι × LinkCall) : Bool := decide (c.1 = i)

/-- The link `i` fails independently: among the calls of `cs` its own are answered as they are
    in a fresh process in which they are the only ones. -/
def FailsAlone (logf : ℚ → ℚ) (models : ι → DisruptionModel) (i : ι)
    (cs : List (ι × LinkCall)) : Prop :=
  answersTo (ownCall i) (linkCall logf) (freshProc models) cs
    = (answers (linkCall logf) (freshProc models) (cs.filter (ownCall i))).1

/-- In the process `s` a probe rolls as it does in the process `a`: on the same generator
    state, or without an episode on either. -/
def RollsAlike (s a : DisruptionProc ι) (c : ι × LinkCall) : Prop :=
  ∀ t, c.2 = .isDown t → linkHeld (s.models c.1) t = false →
    s.rng = a.rng ∨
      startsEpisode s.rng (s.models c.1) t = false ∧ startsEpisode a.rng (s.models c.1) t = false

/-- Each own roll is as it would be alone; the two processes go side by side. -/
def RollsAsAlone (logf : ℚ → ℚ) (models : ι → DisruptionModel) (i : ι)
    (cs : List (ι × LinkCall)) : Prop :=
  Alongside (ownCall i) (linkCall logf) (linkCall logf) RollsAlike (freshProc models)
    (freshProc models) cs

/-! ## When the generator does not matter -/

/-- Inside a window, or without an episode, a probe returns the same and leaves the same model
    whatever the generator. -/
theorem disruptionIsDown_agree (logf : ℚ → ℚ) {r r' : UInt32} {dm : DisruptionModel} {t : ℚ}
    (h : linkHeld dm t = true ∨ startsEpisode r dm t = false ∧ startsEpisode r' dm t = false) :
    (disruptionIsDown logf r dm t).1 = (disruptionIsDown logf r' dm t).1 ∧
      (disruptionIsDown logf r dm t).2.2 = (disruptionIsDown logf r' dm t).2.2 := by
  cases hheld : linkHeld dm t with
  | true =>
    rw [disruptionIsDown_of_held logf r hheld, disruptionIsDown_of_held logf r' hheld]
    exact ⟨rfl, rfl⟩
  | false =>
    obtain ⟨hworks, hworks'⟩ := h.resolve_left (by simp [hheld])
    obtain ⟨hup, hkept⟩ := disruptionIsDown_of_works logf r hheld hworks
    obtain ⟨hup', hkept'⟩ := disruptionIsDown_of_works logf r' hheld hworks'
    exact ⟨hup.trans hup'.symm, hkept.trans hkept'.symm⟩

/-- One call on the link, in two processes that agree on its model. -/
theorem linkCall_agree (logf : ℚ → ℚ) {s a : DisruptionProc ι} {c : ι × LinkCall}
    (hmodel : s.models c.1 = a.models c.1) (hrolls : RollsAlike s a c) :
    (linkCall logf s c).1 = (linkCall logf a c).1 ∧
      (linkCall logf s c).2.models c.1 = (linkCall logf a c).2.models c.1 := by
  obtain ⟨i, op⟩ := c
  cases op with
  | backoff t seconds =>
    rw [linkCall_models_backoff, linkCall_models_backoff, hmodel]
    exact ⟨rfl, rfl⟩
  | isDown t =>
    have hagree : (disruptionIsDown logf s.rng (s.models i) t).1
          = (disruptionIsDown logf a.rng (s.models i) t).1 ∧
        (disruptionIsDown logf s.rng (s.models i) t).2.2
          = (disruptionIsDown logf a.rng (s.models i) t).2.2 := by
      cases hheld : linkHeld (s.models i) t with
      | true => exact disruptionIsDown_agree logf (Or.inl hheld)
      | false =>
        rcases hrolls t rfl hheld with hrng | hworks
        · rw [hrng]
          exact ⟨rfl, rfl⟩
        · exact disruptionIsDown_agree logf (Or.inr hworks)
    rw [hmodel] at hagree
    rw [linkCall_models_isDown, linkCall_models_isDown]
    unfold linkCall
    dsimp only
    rw [hmodel]
    exact ⟨congrArg some hagree.1, hagree.2⟩

/-- **A link whose rolls are as they would be alone fails independently**, among any calls on
    any other links. -/
theorem links_independent (logf : ℚ → ℚ) (models : ι → DisruptionModel) (i : ι)
    (cs : List (ι × LinkCall)) (h : RollsAsAlone logf models i cs) :
    FailsAlone logf models i cs := by
  refine answersTo_alone (R := fun s a => s.models i = a.models i) ?_ ?_ cs _ _ rfl h
  · intro s a c hmodel hown hrolls
    obtain rfl := of_decide_eq_true hown
    exact linkCall_agree logf hmodel hrolls
  · intro s a c hmodel hother
    have hne : i ≠ c.1 := fun heq => of_decide_eq_false hother heq.symm
    rw [linkCall_models_of_ne logf s hne]
    exact hmodel

/-! ### Two neighbours -/

/-- A model for every neighbour: every other roll fails, for a minute on average. -/
def shakyLinks (peer : NodeId) : DisruptionModel := disruptionInit peer (1 / 2) 60

def eart : NodeId := 0x45415254
def erly : NodeId := 0x45524C59

/-- The relay's link is probed before the Earth's. -/
def eartAfterErly : List (NodeId × LinkCall) := [(erly, .isDown 0), (eart, .isDown 0)]

/-- The link to the Earth is down then, and alone it would be up. -/
theorem eartAfterErly_differs :
    answersTo (ownCall eart) (linkCall fun x => x - 1) (freshProc shakyLinks) eartAfterErly
        = [some true] ∧
      (answers (linkCall fun x => x - 1) (freshProc shakyLinks)
        (eartAfterErly.filter (ownCall eart))).1 = [some false] ∧
      ¬ FailsAlone (fun x => x - 1) shakyLinks eart eartAfterErly := by
  have hboth : answersTo (ownCall eart) (linkCall fun x => x - 1) (freshProc shakyLinks)
      eartAfterErly = [some true] := by decide +kernel
  have halone : (answers (linkCall fun x => x - 1) (freshProc shakyLinks)
      (eartAfterErly.filter (ownCall eart))).1 = [some false] := by decide +kernel
  refine ⟨hboth, halone, fun h => ?_⟩
  rw [FailsAlone, hboth, halone] at h
  cases h

/-- The other way round, and with the Earth's link backed off before it is asked again. -/
def eartBeforeErly : List (NodeId × LinkCall) :=
  [(eart, .isDown 0), (eart, .backoff 0 60), (erly, .isDown 1), (eart, .isDown 30)]

theorem links_independent_eartBeforeErly :
    FailsAlone (fun x => x - 1) shakyLinks eart eartBeforeErly := by
  refine links_independent (fun x => x - 1) shakyLinks eart eartBeforeErly ?_
  refine ⟨fun _ _ _ _ => Or.inl rfl, fun _ t ht => ?_, fun h => ?_, fun _ t ht hheld => ?_, trivial⟩
  · cases ht
  · cases h
  · -- inside the backoff
    cases ht
    exact absurd hheld (by decide +kernel)

end DtnHardware
