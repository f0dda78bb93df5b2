import Mathlib.Tactic

/-!
# Graphs in time

An edge leads from one node to another, and whether it can be taken, and when it gets there,
depends on when it is asked: `ride e a` is the time of arrival for whoever is at the source at
time `a`, and `none` if the edge cannot be taken then. Times are any preorder and nothing here
knows what the edges are.

* `Trip v a es w b` — the edges `es`, taken as soon as possible one after the other, lead from
  `v` at time `a` to `w` at time `b`;
* `Fifo` — first in, first out: who comes earlier can take the edge too and is there no later,
  and no edge goes back in time;
* `Trip.earlier`, `Trip.simple` — in such a graph an earlier start is no worse, and a trip that
  visits a node twice can be cut short;
* `Offers` — an edge of one graph for each edge of a list that is no worse; `Trip.transfer`
  takes a trip over.
-/

set_option autoImplicit false

namespace TimedGraph

/-- Edges `E` between nodes `V`, at times `T`. -/
structure Graph (V E T : Type*) where
  src : E → V
  dst : E → V
  ride : E → T → Option T

namespace Graph

section
variable {V E T : Type*}

/-- From `v` at time `a` along `es` to `w` at time `b`. -/
def Trip (G : Graph V E T) : V → T → List E → V → T → Prop
  | v, a, [], w, b => v = w ∧ a = b
  | v, a, e :: es, w, b => G.src e = v ∧ ∃ a', G.ride e a = some a' ∧ G.Trip (G.dst e) a' es w b

/-- First in, first out. -/
structure Fifo [Preorder T] (G : Graph V E T) : Prop where
  earlier : ∀ e a a' b, a' ≤ a → G.ride e a = some b → ∃ b' ≤ b, G.ride e a' = some b'
  forward : ∀ e a b, G.ride e a = some b → a ≤ b

/-- `G'` has for each edge of `es` one between the same nodes that is no worse. -/
def Offers {E' : Type*} [Preorder T] (G : Graph V E T) (G' : Graph V E' T) (es : List E) : Prop :=
  ∀ e ∈ es, ∃ e', G'.src e' = G.src e ∧ G'.dst e' = G.dst e ∧
    ∀ a b, G.ride e a = some b → ∃ b' ≤ b, G'.ride e' a = some b'

end

section
variable {V E T : Type*} {G : Graph V E T} {v w : V} {a a' b : T} {es ds : List E}

/-- A trip goes through the end of each of its parts. -/
theorem trip_append : G.Trip v a (es ++ ds) w b ↔
    ∃ u c, G.Trip v a es u c ∧ G.Trip u c ds w b := by
  induction es generalizing v a with
  | nil =>
    constructor
    · exact fun h => ⟨v, a, ⟨rfl, rfl⟩, h⟩
    · rintro ⟨u, c, ⟨rfl, rfl⟩, h⟩
      exact h
  | cons e es ih =>
    constructor
    · rintro ⟨hsrc, c, hride, hrest⟩
      obtain ⟨u, d, hes, hds⟩ := ih.mp hrest
      exact ⟨u, d, ⟨hsrc, c, hride, hes⟩, hds⟩
    · rintro ⟨u, d, ⟨hsrc, c, hride, hes⟩, hds⟩
      exact ⟨hsrc, c, hride, ih.mpr ⟨u, d, hes, hds⟩⟩

/-- The end of a trip is the receiver of its last edge. -/
theorem Trip.end_concat {e : E} (h : G.Trip v a (es ++ [e]) w b) : G.dst e = w := by
  obtain ⟨u, c, _, _, d, _, hend, _⟩ := trip_append.mp h
  exact hend

variable [Preorder T]

theorem Trip.forward (hG : G.Fifo) (h : G.Trip v a es w b) : a ≤ b := by
  induction es generalizing v a with
  | nil => exact h.2.le
  | cons e es ih =>
    obtain ⟨_, c, hride, hrest⟩ := h
    exact (hG.forward e a c hride).trans (ih hrest)

/-- **Who starts earlier is there no later.** -/
theorem Trip.earlier (hG : G.Fifo) (ha : a' ≤ a) (h : G.Trip v a es w b) :
    ∃ b' ≤ b, G.Trip v a' es w b' := by
  induction es generalizing v a a' with
  | nil =>
    obtain ⟨rfl, rfl⟩ := h
    exact ⟨a', ha, rfl, rfl⟩
  | cons e es ih =>
    obtain ⟨hsrc, c, hride, hrest⟩ := h
    obtain ⟨c', hc, hride'⟩ := hG.earlier e a a' c ha hride
    obtain ⟨b', hb, hrest'⟩ := ih hc hrest
    exact ⟨b', hb, hsrc, c', hride', hrest'⟩

/-- **Loops can be cut out of a trip**: some of its edges lead to the same end without a node
    twice, and no later. -/
theorem Trip.simple (hG : G.Fifo) (h : G.Trip v a es w b) :
    ∃ ds, ds.Sublist es ∧ (v :: ds.map G.dst).Nodup ∧ ∃ b' ≤ b, G.Trip v a ds w b' := by
  -- on the number of edges, as a cut may leave any end of the trip
  induction hn : es.length using Nat.strong_induction_on generalizing v a es b with
  | _ n ih =>
    cases es with
    | nil => exact ⟨[], .slnil, List.nodup_singleton v, b, le_refl b, h⟩
    | cons e es =>
      by_cases hback : v ∈ (e :: es).map G.dst
      · -- the trip comes back to `v`: only what follows is needed
        obtain ⟨x, hx, hxv⟩ := List.mem_map.mp hback
        obtain ⟨us, ds, heq⟩ := List.append_of_mem hx
        rw [heq, List.append_cons] at h
        obtain ⟨u, c, hloop, hrest⟩ := trip_append.mp h
        have hu : u = v := hloop.end_concat.symm.trans hxv
        rw [hu] at hrest
        obtain ⟨b', hb, hrest'⟩ := hrest.earlier hG (hloop.forward hG)
        have hlen : ds.length < n := by
          rw [← hn, heq, List.length_append, List.length_cons]
          omega
        obtain ⟨ds', hsub, hnodup, b'', hb', htrip⟩ := ih ds.length hlen hrest' rfl
        have hds : ds.Sublist (e :: es) := by
          rw [heq]
          exact ((List.sublist_cons_self x ds).trans (List.sublist_append_right us _))
        exact ⟨ds', hsub.trans hds, hnodup, b'', hb'.trans hb, htrip⟩
      · obtain ⟨hsrc, c, hride, hrest⟩ := h
        have hlen : es.length < n := by rw [← hn, List.length_cons]; omega
        obtain ⟨ds, hsub, hnodup, b', hb, htrip⟩ := ih es.length hlen hrest rfl
        refine ⟨e :: ds, hsub.cons_cons e, ?_, b', hb, hsrc, c, hride, htrip⟩
        rw [List.map_cons, List.nodup_cons]
        refine ⟨fun hv => hback ?_, hnodup⟩
        rcases List.mem_cons.mp hv with rfl | hv
        · exact List.mem_map_of_mem List.mem_cons_self
        · obtain ⟨x, hx, hxv⟩ := List.mem_map.mp hv
          exact List.mem_map.mpr ⟨x, List.mem_cons_of_mem e (hsub.subset hx), hxv⟩

/-- **A trip can be made wherever its edges are offered.** -/
theorem Trip.transfer {E' : Type*} {G' : Graph V E' T} (hG' : G'.Fifo) (ha : a' ≤ a)
    (hoffers : G.Offers G' es) (h : G.Trip v a es w b) :
    ∃ es', ∃ b' ≤ b, G'.Trip v a' es' w b' := by
  induction es generalizing v a a' with
  | nil =>
    obtain ⟨rfl, rfl⟩ := h
    exact ⟨[], a', ha, rfl, rfl⟩
  | cons e es ih =>
    obtain ⟨hsrc, c, hride, hrest⟩ := h
    obtain ⟨e', hsrc', hdst', hbetter⟩ := hoffers e List.mem_cons_self
    obtain ⟨c', hc, hride'⟩ := hbetter a c hride
    obtain ⟨c'', hc', hride''⟩ := hG'.earlier e' a a' c' ha hride'
    obtain ⟨es', b', hb, hrest'⟩ :=
      ih (hc'.trans hc) (fun x hx => hoffers x (List.mem_cons_of_mem e hx)) hrest
    rw [← hdst'] at hrest'
    exact ⟨e' :: es', b', hb, hsrc'.trans hsrc, c'', hride'', hrest'⟩

end

end Graph

end TimedGraph
