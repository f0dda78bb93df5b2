import DtnHardware.Cgr.Bounds

/-!
# The hop limit, and candidates that keep all their hops

`max_hops` is tested when a frame is popped, not when a hop is added: a frame whose path
has exactly `max_hops` hops still looks at its contacts, and one that ends at the
destination is offered with one hop more. At `max_hops = 10` that hop is the eleventh,
the hop array has room for ten, and the route loses its last hop — the one at the
destination — while its arrival time still counts it.

`AtLimit` is that moment. Without it every candidate is whole, and with it none offered
there is.
-/

set_option autoImplicit false

namespace DtnHardware

open StepMachine Dominance ArrayLoops

/-- A candidate within the limit that ends at the destination, with the arrival time of
    the hops it holds. -/
structure RouteWhole (q : CgrCall) (r : CgrRoute) : Prop where
  limit : (r.hops.length : Int) ≤ q.cfg.maxHops.toInt
  atDst : ∃ p, r.hops.getLast? = some p ∧ p.contact.toNode = q.b.dst
  arrival : r.arrivalTime = walkArrival q r.hops

/-- Every route offered to the beam, and every route returned, is whole. -/
structure CandidatesWhole (q : CgrCall) : Prop where
  offered : ∀ st, (cgrMachine q).Reaches (cgrStart q) st → searchDone q st.search = false →
    ∀ s' r, searchStep q st.search = .ok (s', some r) → RouteWhole q r
  returned : ∀ fuel r, cgrSelectRoute q fuel = .route r → RouteWhole q r

/-- The branch that goes wrong: a frame whose path already has `max_hops` hops is about to
    offer one more, to the destination. -/
def AtLimit (q : CgrCall) (st : SearchState) : Prop :=
  ∃ f below nc fs', Examines q st f below nc ∧ Passes q f nc ∧
    FrontierStep st.frontiers nc.contact.toNode (examinedSig q st f nc) fs' ∧
    nc.contact.toNode = q.b.dst ∧ f.pathLen = sizeT q.cfg.maxHops

/-- A limit between one and the length of the hop array. -/
structure LimitOk (cfg : CgrConfig) : Prop where
  pos : 1 ≤ sizeT cfg.maxHops
  le : sizeT cfg.maxHops ≤ cgrRouteMaxHops
  toInt_eq : (sizeT cfg.maxHops : Int) = cfg.maxHops.toInt

theorem limitOk_of_range {cfg : CgrConfig} (hlo : 1 ≤ cfg.maxHops)
    (hhi : cfg.maxHops ≤ .ofNat bundleMaxHops) : LimitOk cfg := by
  have hlo' : 1 ≤ cfg.maxHops.toInt := Int32.le_iff_toInt_le.mp hlo
  have hhi' : cfg.maxHops.toInt ≤ 10 := Int32.le_iff_toInt_le.mp hhi
  have heq := sizeT_of_nonneg (x := cfg.maxHops) (by omega)
  exact ⟨by omega, by unfold cgrRouteMaxHops; omega, heq⟩

/-- A walk that fits the hop array is stored whole. -/
theorem routeOf_whole {q : CgrCall} {ps : List ContactPtr} (hlim : LimitOk q.cfg)
    (hlen : ps.length ≤ sizeT q.cfg.maxHops) {p : ContactPtr} (hlast : ps.getLast? = some p)
    (hdst : p.contact.toNode = q.b.dst) : RouteWhole q (routeOf q ps (walkArrival q ps)) := by
  have hhops : (routeOf q ps (walkArrival q ps)).hops = ps :=
    List.take_of_length_le (hlen.trans hlim.le)
  refine ⟨?_, ⟨p, ?_, hdst⟩, ?_⟩
  · rw [hhops, ← hlim.toInt_eq]
    exact_mod_cast hlen
  · rw [hhops, hlast]
  · rw [hhops]
    rfl

/-- **Away from the limit, whatever a step offers is whole.** -/
theorem SearchStep.routeWhole {q : CgrCall} {st st' : SearchState} {r : CgrRoute}
    (hok : SearchOk q st) (hlim : LimitOk q.cfg) (hs : SearchStep q st (some r) st')
    (hbelow : ¬ AtLimit q st) : RouteWhole q r := by
  cases hs with
  | seedDirect seed _ _ _ hdst =>
    have harr : hopArrival q seed.contact q.t = walkArrival q [seed] := rfl
    rw [harr]
    exact routeOf_whole hlim hlim.pos rfl hdst
  | offer f below nc hex hp fs' hfs hdst =>
    have hne : f.pathLen ≠ sizeT q.cfg.maxHops :=
      fun heq => hbelow ⟨f, below, nc, fs', hex, hp, hfs, hdst, heq⟩
    have hlt : f.pathLen < sizeT q.cfg.maxHops := lt_of_le_of_ne hex.within hne
    have hpath : f.pathLen = (stackPath st.stack).length := by
      have hstack := hok.stack
      rw [hex.stack_eq] at hstack ⊢
      exact hstack.2.1.pathLen_eq
    rw [← (hok.extend hex hp).2]
    refine routeOf_whole hlim ?_ List.getLast?_concat hdst
    rw [List.length_append, List.length_singleton, ← hpath]
    exact hlt

/-- **At the limit the step succeeds and what it offers is not whole**: one hop too many,
    or, when the array is too short for it, the wrong last hop. -/
theorem AtLimit.offers {q : CgrCall} {st : SearchState} (hok : SearchOk q st)
    (hfs : FrontiersOk st.frontiers) (hlim : LimitOk q.cfg) (h : AtLimit q st) :
    searchDone q st = false ∧
      ∃ s' r, searchStep q st = .ok (s', some r) ∧ ¬ RouteWhole q r := by
  obtain ⟨f, below, nc, fs', hex, hp, hstep, hdst, hlen⟩ := h
  have hd : searchDone q st = false := by simp [searchDone, hex.stack_eq]
  refine ⟨hd, ?_⟩
  have hnotfull : ¬ FrontierFull q st := by
    rintro ⟨f', below', nc', sigs, hex', _, hsigs, _, hkept⟩
    obtain ⟨rfl, rfl, rfl⟩ := hex.unique hex'
    have hroom := (hstep.of_slot hsigs).2.1
    rw [insertMin, List.length_append, List.length_singleton] at hroom
    omega
  have hnotdom : ¬ Dominated q st f nc := by
    rintro ⟨sigs, hsigs, hcov⟩
    exact (hstep.of_slot hsigs).1 hcov
  rcases searchStep_progress hok hfs hd with ⟨⟨s', o⟩, hs⟩ | ⟨hfull, _⟩
  · cases searchStep_cases hd hs with
    | seedSkip _ hempty _ _ | seedDirect _ hempty _ _ _ | seedPush _ hempty _ _ _ =>
      rw [hex.stack_eq] at hempty; cases hempty
    | popLimit f' below' hst hbeyond =>
      obtain ⟨rfl, rfl⟩ := List.cons.inj (hex.stack_eq.symm.trans hst)
      exact absurd hex.within (not_le.mpr hbeyond)
    | popEnd f' below' hst _ hend =>
      obtain ⟨rfl, rfl⟩ := List.cons.inj (hex.stack_eq.symm.trans hst)
      rw [hex.next_eq] at hend; cases hend
    | skip f' below' nc' hex' why =>
      obtain ⟨rfl, rfl, rfl⟩ := hex.unique hex'
      exact absurd (why hp) hnotdom
    | full f' below' nc' hex' _ _ _ hdst' _ | push f' below' nc' hex' _ _ _ hdst' _ =>
      obtain ⟨rfl, rfl, rfl⟩ := hex.unique hex'
      exact absurd hdst hdst'
    | offer f' below' nc' hex' _ fs'' _ _ =>
      obtain ⟨rfl, rfl, rfl⟩ := hex.unique hex'
      refine ⟨_, _, hs, fun hwhole => ?_⟩
      have hstack := hok.stack
      rw [hex.stack_eq] at hstack hwhole
      have hpath := hstack.2.1.pathLen_eq
      have hhops : (routeOf q (stackPath (f :: below) ++ [nc])
          (hopArrival q nc.contact f.tArrive)).hops
            = (stackPath (f :: below) ++ [nc]).take cgrRouteMaxHops := rfl
      have hlimit := hwhole.limit
      rw [hhops, List.length_take, List.length_append, List.length_singleton, ← hpath, hlen,
        ← hlim.toInt_eq] at hlimit
      -- so the array was too short, and it ends with the frame's own contact
      have hten : sizeT q.cfg.maxHops = cgrRouteMaxHops := by
        have := hlim.le
        omega
      obtain ⟨p, hlast, hp'⟩ := hwhole.atDst
      rw [hhops, List.take_left' (by rw [← hpath, hlen, hten]), stackPath_cons,
        List.getLast?_concat] at hlast
      cases hlast
      exact hstack.2.1.notDst hp'
  · exact absurd hfull hnotfull

/-- What the beam holds was offered at some step. -/
theorem mem_beam_offered {q : CgrCall} {st : CgrState}
    (h : (cgrMachine q).Reaches (cgrStart q) st) : ∀ r ∈ st.beam.routes,
      ∃ s s', (cgrMachine q).Reaches (cgrStart q) s ∧ SearchStep q s.search (some r) s' := by
  refine h.induct (P := fun st => ∀ r ∈ st.beam.routes, ∃ s s', (cgrMachine q).Reaches
    (cgrStart q) s ∧ SearchStep q s.search (some r) s') (fun r hr => nomatch hr) ?_
  intro s s' hreach ih hs r hr
  obtain ⟨o, hstep, hbeam⟩ := cgrStep_cases hs
  rcases hbeam with ⟨_, heq⟩ | ⟨x, rfl, hpush⟩
  · exact ih r (heq ▸ hr)
  · rcases beamPush_mem hpush hr with hold | rfl
    · exact ih r hold
    · exact ⟨s, s'.search, hreach, hstep⟩

/-- **The candidates are whole exactly when none is offered at the limit.** -/
theorem cgrSelectRoute_candidatesWhole_iff (q : CgrCall) (hroutes : 1 ≤ q.cfg.maxRoutes)
    (hlo : 1 ≤ q.cfg.maxHops) (hhi : q.cfg.maxHops ≤ .ofNat bundleMaxHops) :
    CandidatesWhole q ↔
      ∀ st, (cgrMachine q).Reaches (cgrStart q) st → ¬ AtLimit q st.search := by
  have hcap : 0 < beamCap q := beamCap_pos (Int32.lt_iff_toInt_lt.mpr
    (Int.lt_of_lt_of_le (by decide) (Int32.le_iff_toInt_le.mp hroutes)))
  have hlim := limitOk_of_range hlo hhi
  constructor
  · intro hwhole st hreach hat
    have hin := cgrInBounds_reaches hcap hreach
    obtain ⟨hd, s', r, hs, hnot⟩ := hat.offers hin.ok.search hin.frontiers hlim
    exact hnot (hwhole.offered st hreach hd s' r hs)
  · intro hnever
    refine ⟨fun st hreach hd s' r hs => ?_, fun fuel r hr => ?_⟩
    · exact (searchStep_cases hd hs).routeWhole (cgrOk_reaches hreach).search hlim
        (hnever st hreach)
    · obtain ⟨st, hreach, _, hmem, _⟩ := cgrSelectRoute_route hr
      obtain ⟨s, s', hreach', hstep⟩ := mem_beam_offered hreach r hmem
      exact hstep.routeWhole (cgrOk_reaches hreach').search hlim (hnever s hreach')

theorem cgrSelectRoute_candidatesWhole_iff_testCgr :
    CandidatesWhole testCgr ↔
      ∀ st, (cgrMachine testCgr).Reaches (cgrStart testCgr) st → ¬ AtLimit testCgr st.search :=
  cgrSelectRoute_candidatesWhole_iff testCgr (by decide) (by decide) (by decide)

/-! ### One hop too many -/

/-- The call of `test_cgr`, limited to one hop. -/
def oneHop : CgrCall := { testCgr with cfg := { testCgr.cfg with maxHops := 1 } }

theorem oneHop_not_whole : ¬ CandidatesWhole oneHop := by
  intro h
  have hrun : cgrSelectRoute oneHop 10 = .route
      { hops := [⟨0, testLink nodeA nodeB 0 60⟩, ⟨1, testLink nodeB nodeC 0 60⟩]
        cost := -(88199 / 5)
        arrivalTime := 6 / 5 } := by decide +kernel
  exact absurd (h.returned 10 _ hrun).limit (by decide)

end DtnHardware
