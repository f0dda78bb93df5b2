import DtnHardware.Core.Types
import DtnHardware.Lib.Calls

/-!
# `dtn_core/disruption` — links that fail

One `DisruptionModel` a neighbour. A link is forced down until `backoff_until`, or it is in a
failure episode until `fail_until`, or a probe rolls for a new episode with a linear
congruential generator.

The header says that each node owns one model per neighbour link, and the comment at the roll
speaks of a *per-model* generator; its state is a `static` of the function, and so there is one
of it in a process, for all the models. `DisruptionProc` is such a process.

> **A window that has been opened is honoured** (`links_downWindows`): until it ends every probe
> of its link says 1 and none starts an episode, however backoffs and episodes overlap.

A model keeps two ends, one of the backoffs and one of the last episode. What carries the result
is that they are enough: at any time that is not before a call already made, a window that has
not ended holds the link by one of the two (`WindowsHeld`).
-/

set_option autoImplicit false

namespace DtnHardware

open GuardedCalls

/-! ## The model of one link -/

/-- `disruption_model_t`. -/
structure DisruptionModel where
  peer : NodeId
  pFail : ℚ
  meanDuration : ℚ
  backoffUntil : ℚ
  failed : Bool
  failStarted : ℚ
  failUntil : ℚ
deriving DecidableEq

def disruptionInit (peer : NodeId) (pFail meanDuration : ℚ) : DisruptionModel :=
  { peer, pFail, meanDuration, backoffUntil := 0, failed := false, failStarted := 0,
    failUntil := 0 }

def lcgNext (state : UInt32) : UInt32 := state * 1664525 + 1013904223

/-- `lcg_uniform`: the draw, and the state it leaves. -/
def lcgUniform (state : UInt32) : ℚ × UInt32 :=
  let state := lcgNext state
  ((((state >>> 8) &&& 0xFFFFFF).toNat : ℚ) / 0x1000000, state)

/-- The state a roll at `t` starts from: `rng_state`, seeded if it is zero, with the
    milliseconds. -/
def rollState (rng : UInt32) (dm : DisruptionModel) (t : ℚ) : UInt32 :=
  (if rng = 0 then 0x12345678 ^^^ dm.peer else rng) ^^^ (⌊t * 1000⌋.toNat.toUInt32)

/-- `disruption_is_down`: the return value, `rng_state`, and the model. -/
def disruptionIsDown (logf : ℚ → ℚ) (rng : UInt32) (dm : DisruptionModel) (t : ℚ) :
    Bool × UInt32 × DisruptionModel :=
  if t < dm.backoffUntil then (true, rng, dm)
  else if dm.failed ∧ t < dm.failUntil then (true, rng, dm)
  else
    -- no episode, or one that has ended
    let dm := { dm with failed := false }
    let roll := lcgUniform (rollState rng dm t)
    if roll.1 < dm.pFail then
      let next := lcgUniform roll.2
      let u := if next.1 < 1 / 1000 then 1 / 1000 else next.1
      let dur := -logf u * dm.meanDuration
      (true, next.2, { dm with failed := true, failStarted := t, failUntil := t + dur })
    else (false, roll.2, dm)

def disruptionBackoff (dm : DisruptionModel) (t seconds : ℚ) : DisruptionModel :=
  if t + seconds > dm.backoffUntil then { dm with backoffUntil := t + seconds } else dm

/-! ## What a probe can come to -/

/-- The link is inside a backoff or an episode at `t`. -/
def linkHeld (dm : DisruptionModel) (t : ℚ) : Bool :=
  decide (t < dm.backoffUntil ∨ dm.failed = true ∧ t < dm.failUntil)

/-- A probe at `t` rolls, and the draw is below `p_fail`. -/
def startsEpisode (rng : UInt32) (dm : DisruptionModel) (t : ℚ) : Bool :=
  !linkHeld dm t && decide ((lcgUniform (rollState rng dm t)).1 < dm.pFail)

/-- The endings of a probe. -/
inductive Probed (rng : UInt32) (dm : DisruptionModel) (t : ℚ) :
    Bool × UInt32 × DisruptionModel → Prop
  | held (h : linkHeld dm t = true) : Probed rng dm t (true, rng, dm)
  | starts (h : linkHeld dm t = false) (fails : startsEpisode rng dm t = true) (rng' : UInt32)
      (failUntil : ℚ) :
      Probed rng dm t (true, rng', { dm with failed := true, failStarted := t, failUntil })
  | up (h : linkHeld dm t = false) (works : startsEpisode rng dm t = false) (rng' : UInt32) :
      Probed rng dm t (false, rng', { dm with failed := false })

theorem disruptionIsDown_cases (logf : ℚ → ℚ) (rng : UInt32) (dm : DisruptionModel) (t : ℚ) :
    Probed rng dm t (disruptionIsDown logf rng dm t) := by
  unfold disruptionIsDown
  split
  · rename_i hback
    exact .held (decide_eq_true (Or.inl hback))
  · rename_i hback
    split
    · rename_i hfail
      exact .held (decide_eq_true (Or.inr hfail))
    · rename_i hfail
      have hnot : linkHeld dm t = false :=
        decide_eq_false fun hor => hor.elim hback hfail
      dsimp only
      split
      · rename_i hdraw
        refine .starts hnot ?_ _ _
        rw [startsEpisode, hnot, Bool.not_false, Bool.true_and, decide_eq_true_iff]
        exact hdraw
      · rename_i hdraw
        refine .up hnot ?_ _
        rw [startsEpisode, hnot, Bool.not_false, Bool.true_and, decide_eq_false_iff_not]
        exact hdraw

/-- Inside a window a probe says 1, rolls nothing and changes nothing. -/
theorem disruptionIsDown_of_held (logf : ℚ → ℚ) (rng : UInt32) {dm : DisruptionModel} {t : ℚ}
    (h : linkHeld dm t = true) : disruptionIsDown logf rng dm t = (true, rng, dm) := by
  have hprobe := disruptionIsDown_cases logf rng dm t
  generalize disruptionIsDown logf rng dm t = res at hprobe ⊢
  cases hprobe with
  | held _ => rfl
  | starts hnot _ _ _ | up hnot _ _ =>
    rw [h] at hnot
    cases hnot

/-- Without a new episode a probe returns what the windows say, and forgets an episode that has
    ended. -/
theorem disruptionIsDown_of_works (logf : ℚ → ℚ) (rng : UInt32) {dm : DisruptionModel} {t : ℚ}
    (h : linkHeld dm t = false) (works : startsEpisode rng dm t = false) :
    (disruptionIsDown logf rng dm t).1 = false ∧
      (disruptionIsDown logf rng dm t).2.2 = { dm with failed := false } := by
  have hprobe := disruptionIsDown_cases logf rng dm t
  generalize disruptionIsDown logf rng dm t = res at hprobe ⊢
  cases hprobe with
  | held hheld =>
    rw [h] at hheld
    cases hheld
  | starts _ hfails _ _ =>
    rw [works] at hfails
    cases hfails
  | up _ _ _ => exact ⟨rfl, rfl⟩

/-- Backoffs only ever move the end of the backoff window, and only ever back. -/
theorem disruptionBackoff_eq (dm : DisruptionModel) (t seconds : ℚ) :
    disruptionBackoff dm t seconds
      = { dm with backoffUntil := max dm.backoffUntil (t + seconds) } := by
  unfold disruptionBackoff
  split
  · rename_i h
    rw [max_eq_right h.le]
  · rename_i h
    rw [max_eq_left (not_lt.mp h)]

/-! ## A process -/

/-- The models of a process, one a link, and the one `rng_state`. -/
structure DisruptionProc (ι : Type) where
  rng : UInt32
  models : ι → DisruptionModel

/-- A call on a link. -/
inductive LinkCall where
  | isDown (t : ℚ)
  | backoff (t seconds : ℚ)

def LinkCall.time : LinkCall → ℚ
  | isDown t => t
  | backoff t _ => t

variable {ι : Type} [DecidableEq ι]

/-- The call on the link `c.1`: what a probe returns, nothing for a backoff. -/
def linkCall (logf : ℚ → ℚ) (s : DisruptionProc ι) (c : ι × LinkCall) :
    Option Bool × DisruptionProc ι :=
  match c.2 with
  | .isDown t =>
      let probe := disruptionIsDown logf s.rng (s.models c.1) t
      (some probe.1, { rng := probe.2.1, models := Function.update s.models c.1 probe.2.2 })
  | .backoff t seconds =>
      (none, { s with
        models := Function.update s.models c.1 (disruptionBackoff (s.models c.1) t seconds) })

/-- The other links keep their models. -/
theorem linkCall_models_of_ne (logf : ℚ → ℚ) (s : DisruptionProc ι) {c : ι × LinkCall} {i : ι}
    (h : i ≠ c.1) : (linkCall logf s c).2.models i = s.models i := by
  unfold linkCall
  split
  · exact Function.update_of_ne h _ _
  · exact Function.update_of_ne h _ _

theorem linkCall_models_isDown (logf : ℚ → ℚ) (s : DisruptionProc ι) (i : ι) (t : ℚ) :
    (linkCall logf s (i, .isDown t)).2.models i
      = (disruptionIsDown logf s.rng (s.models i) t).2.2 :=
  Function.update_self _ _ _

theorem linkCall_models_backoff (logf : ℚ → ℚ) (s : DisruptionProc ι) (i : ι) (t seconds : ℚ) :
    (linkCall logf s (i, .backoff t seconds)).2.models i
      = { s.models i with backoffUntil := max (s.models i).backoffUntil (t + seconds) } :=
  (Function.update_self _ _ _).trans (disruptionBackoff_eq _ _ _)

/-! ## Windows -/

/-- A call on a link, as it was made. -/
abbrev LinkEvent (ι : Type) := Called (DisruptionProc ι) (ι × LinkCall) (Option Bool)

/-- The probe started an episode. -/
def LinkEvent.starts (e : LinkEvent ι) (t : ℚ) : Bool :=
  startsEpisode e.before.rng (e.before.models e.call.1) t

/-- The end of the window that the call opened on its link, if it opened one. -/
def LinkEvent.opens (e : LinkEvent ι) : Option ℚ :=
  match e.call.2 with
  | .isDown t => if e.starts t then some (e.after.models e.call.1).failUntil else none
  | .backoff t seconds => some (t + seconds)

/-- The later call `f` honours the window that `e` opened, if it did and if they are on one
    link: before its end a probe says 1 and starts no episode. -/
def Honours (e f : LinkEvent ι) : Prop :=
  e.call.1 = f.call.1 → ∀ w, e.opens = some w → ∀ t, f.call.2 = .isDown t → t < w →
    f.answer = some true ∧ f.starts t = false

/-- At a time that no call on a link is past, the link is held by what the model has kept if a
    window that has been opened on it has not ended. -/
def WindowsHeld (past : List (LinkEvent ι)) (s : DisruptionProc ι) : Prop :=
  ∀ e ∈ past, ∀ w, e.opens = some w → ∀ t, t < w →
    (∀ f ∈ past, f.call.1 = e.call.1 → f.call.2.time ≤ t) →
    linkHeld (s.models e.call.1) t = true

section
variable {logf : ℚ → ℚ} {s : DisruptionProc ι} {past : List (LinkEvent ι)}

/-- On a link the calls are in order of time. -/
def InOrder (c d : ι × LinkCall) : Prop := c.1 = d.1 → c.2.time ≤ d.2.time

omit [DecidableEq ι] in
/-- What holds the link of a window already open, at the time of the next call on it. -/
theorem WindowsHeld.now (h : WindowsHeld past s) {c : ι × LinkCall}
    (horder : ∀ e ∈ past, InOrder e.call c) {e : LinkEvent ι} (he : e ∈ past)
    (hlink : e.call.1 = c.1) {w : ℚ} (hw : e.opens = some w) (hlt : c.2.time < w) :
    linkHeld (s.models c.1) c.2.time = true := by
  rw [← hlink]
  exact h e he w hw _ hlt fun f hf hsame => horder f hf (hsame.trans hlink)

/-- **The next call honours every window open on its link.** -/
theorem WindowsHeld.honours (h : WindowsHeld past s) {c : ι × LinkCall}
    (horder : ∀ e ∈ past, InOrder e.call c) :
    ∀ e ∈ past, Honours e (called (linkCall logf) s c) := by
  rintro e he hlink w hw t hcall hlt
  obtain ⟨i, op⟩ := c
  change op = .isDown t at hcall
  subst hcall
  have hheld : linkHeld (s.models i) t = true := h.now horder he hlink hw hlt
  have hanswer : (disruptionIsDown logf s.rng (s.models i) t).1 = true := by
    rw [disruptionIsDown_of_held logf s.rng hheld]
  refine ⟨congrArg some hanswer, ?_⟩
  change startsEpisode s.rng (s.models i) t = false
  rw [startsEpisode, hheld]
  rfl

/-- A longer backoff holds the link wherever it was held. -/
theorem linkHeld_max {dm : DisruptionModel} {t : ℚ} (h : linkHeld dm t = true) (u : ℚ) :
    linkHeld { dm with backoffUntil := max dm.backoffUntil u } t = true := by
  rcases of_decide_eq_true h with hback | hfail
  · exact decide_eq_true (Or.inl (lt_max_of_lt_left hback))
  · exact decide_eq_true (Or.inr hfail)

/-- A call keeps what holds its own link. -/
theorem WindowsHeld.keeps (h : WindowsHeld past s) {c : ι × LinkCall}
    (horder : ∀ e ∈ past, InOrder e.call c) {e : LinkEvent ι} (he : e ∈ past)
    (hlink : e.call.1 = c.1) {w t : ℚ} (hw : e.opens = some w) (hlt : t < w)
    (hlate : c.2.time ≤ t) (hheld : linkHeld (s.models c.1) t = true) :
    linkHeld ((linkCall logf s c).2.models c.1) t = true := by
  have hnow := h.now horder he hlink hw (hlate.trans_lt hlt)
  obtain ⟨i, op⟩ := c
  cases op with
  | backoff t₀ seconds =>
    rw [linkCall_models_backoff]
    exact linkHeld_max hheld _
  | isDown t₀ =>
    change linkHeld (s.models i) t₀ = true at hnow
    rw [linkCall_models_isDown, disruptionIsDown_of_held logf s.rng hnow]
    exact hheld

/-- The window that a call opens is kept. -/
theorem linkHeld_of_opens (logf : ℚ → ℚ) (s : DisruptionProc ι) (c : ι × LinkCall) {w t : ℚ}
    (hw : LinkEvent.opens (called (linkCall logf) s c) = some w) (hlt : t < w) :
    linkHeld ((linkCall logf s c).2.models c.1) t = true := by
  obtain ⟨i, op⟩ := c
  cases op with
  | backoff t₀ seconds =>
    cases hw
    rw [linkCall_models_backoff]
    exact decide_eq_true (Or.inl (lt_max_of_lt_right hlt))
  | isDown t₀ =>
    have hopens : (if startsEpisode s.rng (s.models i) t₀ then
        some ((linkCall logf s (i, .isDown t₀)).2.models i).failUntil else none) = some w := hw
    rw [linkCall_models_isDown] at hopens ⊢
    have hprobe := disruptionIsDown_cases logf s.rng (s.models i) t₀
    generalize disruptionIsDown logf s.rng (s.models i) t₀ = res at hprobe hopens ⊢
    cases hprobe with
    | held hheld =>
      rw [startsEpisode, hheld] at hopens
      cases hopens
    | up _ hworks _ =>
      rw [hworks] at hopens
      cases hopens
    | starts _ hfails _ _ =>
      rw [hfails] at hopens
      cases hopens
      exact decide_eq_true (Or.inr ⟨rfl, hlt⟩)

/-- **A call keeps every window that has been opened**, and its own. -/
theorem WindowsHeld.step (h : WindowsHeld past s) {c : ι × LinkCall}
    (horder : ∀ e ∈ past, InOrder e.call c) :
    WindowsHeld (past ++ [called (linkCall logf) s c]) (linkCall logf s c).2 := by
  intro e he w hw t hlt hlate
  rcases List.mem_append.mp he with hold | hnew
  · have hheld : linkHeld (s.models e.call.1) t = true :=
      h e hold w hw t hlt fun f hf => hlate f (List.mem_append_left _ hf)
    by_cases hlink : e.call.1 = c.1
    · have htime : c.2.time ≤ t :=
        hlate (called (linkCall logf) s c) (List.mem_append_right _ List.mem_cons_self) hlink.symm
      rw [hlink] at hheld ⊢
      exact h.keeps horder hold hlink hw hlt htime hheld
    · rw [linkCall_models_of_ne logf s hlink]
      exact hheld
  · rw [List.mem_singleton.mp hnew] at hw ⊢
    exact linkHeld_of_opens logf s c hw hlt

end

/-- **Down windows are honoured**, in every process and whatever its links are asked in between,
    as long as the calls on each link come in order of time: before the end of a backoff or an
    episode every probe of the link says 1 and starts no episode; and a backoff changes nothing
    but the end of the backoff window, which it never brings forward. -/
theorem links_downWindows (logf : ℚ → ℚ) (s : DisruptionProc ι) (cs : List (ι × LinkCall))
    (horder : cs.Pairwise InOrder) :
    (log (linkCall logf) s cs).Pairwise Honours ∧
      ∀ e ∈ log (linkCall logf) s cs, ∀ t seconds, e.call.2 = .backoff t seconds →
        e.after.models e.call.1 = { e.before.models e.call.1 with
          backoffUntil := max (e.before.models e.call.1).backoffUntil (t + seconds) } := by
  constructor
  · refine log_pairwise (I := WindowsHeld) (fun past s c hI hpast => ?_) ?_ horder
    · exact ⟨hI.honours hpast, hI.step hpast⟩
    · intro e he
      exact absurd he List.not_mem_nil
  · refine forall_mem_log (fun s c t seconds hcall => ?_) cs s
    obtain ⟨i, op⟩ := c
    change op = .backoff t seconds at hcall
    subst hcall
    exact linkCall_models_backoff logf s i t seconds

/-- A link that always fails is backed off for a minute while it is in an episode; another link
    is asked in between. -/
def overlappingWindows : List (NodeId × LinkCall) :=
  [(1, .isDown 0), (1, .backoff 10 60), (2, .isDown 20), (1, .isDown 30), (1, .isDown 90)]

theorem links_downWindows_overlappingWindows : overlappingWindows.Pairwise InOrder ∧
    (log (linkCall fun x => x - 1) { rng := 0, models := fun peer => disruptionInit peer 1 60 }
      overlappingWindows).Pairwise Honours := by
  have horder : overlappingWindows.Pairwise InOrder := by
    norm_num [overlappingWindows, InOrder, LinkCall.time]
  exact ⟨horder, (links_downWindows (fun x => x - 1)
    { rng := 0, models := fun peer => disruptionInit peer 1 60 } overlappingWindows horder).1⟩

end DtnHardware
