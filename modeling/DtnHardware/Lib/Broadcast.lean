import DtnHardware.Lib.Calls

/-!
# Parties on a lossy, duplicating channel

Any number of parties run the same program and are called one at a time, in any order. What
a call sends goes on the air and stays there: a call may hear any message that is on the air,
at any party, any number of times or never. So the channel may lose, duplicate, delay and
misdeliver, and the one thing it cannot do is make a message up.

* `Program` — what a call does to a party, what it sends, what it hears;
* `Net` — the parties, the air, and the log of all calls so far, each with the state of its
  party before it;
* `Vouches` — a claim about parties and one about messages, both of which may refer to the
  log, such that a call that hears only good messages keeps the first and sends only good
  messages;
* `NetReaches.vouched` — then both hold everywhere in every run;
* `NetReaches.calls` — several calls of one party, with nothing between them.
-/

set_option autoImplicit false

namespace Broadcast

open GuardedCalls

/-- What one party does when it is called. -/
structure Program (σ α μ : Type*) where
  step : σ → α → Option σ
  sends : σ → α → List μ
  hears : α → Option μ

/-- A call that has been made. -/
structure Event (ι σ α : Type*) where
  party : ι
  before : σ
  call : α

/-- The parties, everything sent so far, and everything called so far. -/
structure Net (ι σ α μ : Type*) where
  parties : ι → σ
  air : List μ
  log : List (Event ι σ α)

section
variable {ι σ α μ : Type*}

/-- Nothing sent and nothing called yet. -/
def Net.start (parties : ι → σ) : Net ι σ α μ := ⟨parties, [], []⟩

/-- The channel: what is heard has been sent. -/
def Channel (P : Program σ α μ) (s : Net ι σ α μ) (c : ι × α) : Prop :=
  ∀ m, P.hears c.2 = some m → m ∈ s.air

/-- The claims `I` about parties and `M` about messages support each other. The log only
    grows, and a claim once true stays true. -/
structure Vouches (P : Program σ α μ) (I : List (Event ι σ α) → ι → σ → Prop)
    (M : List (Event ι σ α) → μ → Prop) : Prop where
  grows_party : ∀ log e i n, I log i n → I (log ++ [e]) i n
  grows_message : ∀ log e m, M log m → M (log ++ [e]) m
  step : ∀ log i n a n', I log i n → (∀ m, P.hears a = some m → M log m) →
    P.step n a = some n' → I (log ++ [⟨i, n, a⟩]) i n'
  sends : ∀ log i n a n', I log i n → (∀ m, P.hears a = some m → M log m) →
    P.step n a = some n' → ∀ m ∈ P.sends n a, M (log ++ [⟨i, n, a⟩]) m

/-- What holds in every reached net: of the parties, of what is on the air, and of every call
    that was made. -/
structure Vouched (P : Program σ α μ) (I : List (Event ι σ α) → ι → σ → Prop)
    (M : List (Event ι σ α) → μ → Prop) (s : Net ι σ α μ) : Prop where
  party : ∀ i, I s.log i (s.parties i)
  message : ∀ m ∈ s.air, M s.log m
  before : ∀ e ∈ s.log, I s.log e.party e.before
  heard : ∀ e ∈ s.log, ∀ m, P.hears e.call = some m → M s.log m

variable [DecidableEq ι]

/-- The call `a` at the party `i`. -/
def netStep (P : Program σ α μ) (s : Net ι σ α μ) (c : ι × α) : Option (Net ι σ α μ) :=
  (P.step (s.parties c.1) c.2).map fun n =>
    { parties := Function.update s.parties c.1 n
      air := s.air ++ P.sends (s.parties c.1) c.2
      log := s.log ++ [⟨c.1, s.parties c.1, c.2⟩] }

/-- The nets that calls over the channel lead to. -/
abbrev NetReaches (P : Program σ α μ) (s₀ : Net ι σ α μ) : Net ι σ α μ → Prop :=
  Reaches (netStep P) (Channel P) s₀

/-- **The rule.** Claims that support each other, and hold of the parties at the start, hold
    throughout. -/
theorem NetReaches.vouched {P : Program σ α μ} {I : List (Event ι σ α) → ι → σ → Prop}
    {M : List (Event ι σ α) → μ → Prop} (hv : Vouches P I M) {parties : ι → σ}
    (hstart : ∀ i, I [] i (parties i)) {s : Net ι σ α μ}
    (h : NetReaches P (.start parties) s) : Vouched P I M s := by
  refine h.invariant (P := Vouched P I M) ?_ fun s c s' _ hchannel hs hP => ?_
  · refine ⟨hstart, ?_, ?_, ?_⟩
    · intro m hm
      exact absurd hm List.not_mem_nil
    · intro e he
      exact absurd he List.not_mem_nil
    · intro e he
      exact absurd he List.not_mem_nil
  · obtain ⟨i, a⟩ := c
    obtain ⟨n, hn, rfl⟩ := Option.map_eq_some_iff.mp hs
    have hheard : ∀ m, P.hears a = some m → M s.log m :=
      fun m hm => hP.message m (hchannel m hm)
    refine ⟨fun j => ?_, fun m hm => ?_, fun e he => ?_, fun e he m hm => ?_⟩
    · -- the party that was called, and the others
      dsimp only
      by_cases hj : j = i
      · subst hj
        rw [Function.update_self]
        exact hv.step _ _ _ _ _ (hP.party j) hheard hn
      · rw [Function.update_of_ne hj]
        exact hv.grows_party _ _ _ _ (hP.party j)
    · rcases List.mem_append.mp hm with hm | hm
      · exact hv.grows_message _ _ _ (hP.message m hm)
      · exact hv.sends _ _ _ _ _ (hP.party i) hheard hn m hm
    · rcases List.mem_append.mp he with he | he
      · exact hv.grows_party _ _ _ _ (hP.before e he)
      · rw [List.mem_singleton.mp he]
        exact hv.grows_party _ _ _ _ (hP.party i)
    · rcases List.mem_append.mp he with he | he
      · exact hv.grows_message _ _ _ (hP.heard e he m hm)
      · rw [List.mem_singleton.mp he] at hm
        exact hv.grows_message _ _ _ (hheard m hm)

/-- What calls of one party send, one after the other. -/
def sendsOf (P : Program σ α μ) (n : σ) : List α → List μ
  | [] => []
  | a :: as => P.sends n a ++ ((P.step n a).map fun n' => sendsOf P n' as).getD []

/-- Each of them is sent by one of the calls. -/
theorem mem_sendsOf {P : Program σ α μ} {as : List α} {n : σ} {m : μ} (h : m ∈ sendsOf P n as) :
    ∃ before, ∃ a ∈ as, ∃ n', run P.step n before = some n' ∧ m ∈ P.sends n' a := by
  induction as generalizing n with
  | nil => exact absurd h List.not_mem_nil
  | cons a as ih =>
    rcases List.mem_append.mp h with h | h
    · exact ⟨[], a, List.mem_cons_self, n, rfl, h⟩
    · cases hn : P.step n a with
      | none =>
        rw [hn] at h
        exact absurd h List.not_mem_nil
      | some n' =>
        rw [hn] at h
        obtain ⟨before, b, hb, n'', hrun, hm⟩ := ih h
        refine ⟨a :: before, b, List.mem_cons_of_mem a hb, n'', ?_, hm⟩
        rw [run, hn]
        exact hrun

theorem sendsOf_eq_nil {P : Program σ α μ} {as : List α} (h : ∀ a ∈ as, ∀ n, P.sends n a = [])
    (n : σ) : sendsOf P n as = [] := by
  refine List.eq_nil_iff_forall_not_mem.mpr fun m hm => ?_
  obtain ⟨_, a, ha, n', _, hm⟩ := mem_sendsOf hm
  rw [h a ha n'] at hm
  exact absurd hm List.not_mem_nil

/-- **Calls of one party**, all of which hear what is already on the air. -/
theorem NetReaches.calls {P : Program σ α μ} {s₀ : Net ι σ α μ} (i : ι) {as : List α} {n' : σ} :
    ∀ {s : Net ι σ α μ}, NetReaches P s₀ s → run P.step (s.parties i) as = some n' →
      (∀ a ∈ as, ∀ m, P.hears a = some m → m ∈ s.air) →
      ∃ es : List (Event ι σ α), (∀ e ∈ es, e.party = i ∧ e.call ∈ as) ∧
        NetReaches P s₀ ⟨Function.update s.parties i n', s.air ++ sendsOf P (s.parties i) as,
          s.log ++ es⟩ := by
  induction as with
  | nil =>
    intro s h hrun _
    cases hrun
    refine ⟨[], by simp, ?_⟩
    rw [Function.update_eq_self, sendsOf, List.append_nil, List.append_nil]
    exact h
  | cons a as ih =>
    intro s h hrun hheard
    obtain ⟨n, hn, hrest⟩ := Option.bind_eq_some_iff.mp hrun
    have hfirst : NetReaches P s₀ ⟨Function.update s.parties i n,
        s.air ++ P.sends (s.parties i) a, s.log ++ [⟨i, s.parties i, a⟩]⟩ :=
      h.call (i, a) (hheard a List.mem_cons_self) (congrArg (Option.map _) hn)
    have hnext : run P.step (Function.update s.parties i n i) as = some n' := by
      rwa [Function.update_self]
    obtain ⟨es, hes, hreach⟩ := ih hfirst hnext fun b hb m hm =>
      List.mem_append_left _ (hheard b (List.mem_cons_of_mem a hb) m hm)
    refine ⟨⟨i, s.parties i, a⟩ :: es, fun e he => ?_, ?_⟩
    · rcases List.mem_cons.mp he with rfl | he
      · exact ⟨rfl, List.mem_cons_self⟩
      · exact ⟨(hes e he).1, List.mem_cons_of_mem a (hes e he).2⟩
    · dsimp only at hreach
      rw [Function.update_idem, Function.update_self, List.append_assoc, List.append_assoc] at hreach
      rw [sendsOf, hn]
      exact hreach

end

end Broadcast
