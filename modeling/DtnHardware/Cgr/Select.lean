import DtnHardware.Core.Bundle
import DtnHardware.Core.Contact
import DtnHardware.Lib.Machine
import DtnHardware.Lib.Dominance
import DtnHardware.Lib.ArrayLoops

/-!
# `dtn_core/cgr` — the route search

`cgr_select_route` is a depth-first search driven by an explicit stack. The embedding
is a `StepMachine.Machine`: one step is one trip between loop heads — a seed of the
outer `for`, one body of the inner `for` over the next contacts, or the pop that ends a
frame. The state is what the C function keeps between two trips, minus the beam, which
the search only ever writes: a step reports the route it offers, and `cgrStep` pushes it.

Numbers are exact rationals and `logf` is a parameter. Every array access is checked
(`access`, `accessBelow`) and an index outside its array stops the machine with a
`Fault`, because past that point the C program has no meaning.

The stack is a list with the top frame first; `nextIdx` of a frame is not advanced when
a child is pushed, so the parent meets the same contact again — as in the source.
-/

set_option autoImplicit false

namespace DtnHardware

open StepMachine Dominance ArrayLoops

/-! ## Configuration -/

def cgrMaxRoutesPi : Nat := 64
def cgrMaxRoutesEsp : Nat := 16
def cgrRouteMaxHops : Nat := 10
def maxParetoPerNode : Nat := 8
def frontierMax : Nat := 8
def dfsStackMax : Nat := bundleMaxHops + 1
def visitedMax : Nat := bundleMaxHops + 1

/-- `cgr_config_t`. -/
structure CgrConfig where
  maxHops : Int32
  maxRoutes : Int32
  w1 : ℚ
  w2 : ℚ
  w3 : ℚ
  berAware : Bool
deriving DecidableEq

def cgrConfigDefault (maxRoutes : Int32) : CgrConfig :=
  { maxHops := .ofNat bundleMaxHops
    maxRoutes := if maxRoutes > 0 then maxRoutes else .ofNat cgrMaxRoutesPi
    w1 := 1
    w2 := 1 / 2
    w3 := 3 / 10
    berAware := true }

/-- The arguments of one call of `cgr_select_route`, with the C library's `logf`. -/
structure CgrCall where
  logf : ℚ → ℚ
  cp : ContactPlan
  b : Bundle
  t : ℚ
  cfg : CgrConfig

/-- A call with the configuration of `cgr_config_default(&cfg, max_routes)`. -/
def CgrCall.default (logf : ℚ → ℚ) (cp : ContactPlan) (b : Bundle) (t : ℚ)
    (maxRoutes : Int32) : CgrCall :=
  { logf, cp, b, t, cfg := cgrConfigDefault maxRoutes }

/-- `cgr_contact_ber_feasible`. -/
def cgrContactBerFeasible (logf : ℚ → ℚ) (c : Contact) (bundleSizeBytes : ℚ) : Bool :=
  if c.ber ≤ 0 then true
  else
    let p := 1 - c.ber
    if p ≤ 0 then false
    else
      let exponent := 8 * bundleSizeBytes
      decide (exponent * logf p ≥ logf (1 / 2))

/-! ## What a contact is asked -/

/-- The two tests made first: not `DOWN`, and active or future at the arrival time. -/
def contactOpen (c : Contact) (a : ℚ) : Bool :=
  decide (c.status ≠ .down) && (contactIsActive c a || contactIsFuture c a)

/-- `T_n`, `A_n` and `margin_here` of the source, from the arrival time `a`. -/
def hopStart (c : Contact) (a : ℚ) : ℚ := contactEarliestStart c a

def hopArrival (q : CgrCall) (c : Contact) (a : ℚ) : ℚ :=
  contactArrivalAtReceiver c q.b.bytes (hopStart c a)

def hopMargin (q : CgrCall) (c : Contact) (a : ℚ) : ℚ :=
  contactCapUse c (hopStart c a) - q.b.bytes

/-- The timing, expiry, capacity and bit-error tests, the same for a seed and for a next
    contact. -/
def hopFits (q : CgrCall) (c : Contact) (a : ℚ) : Bool :=
  !decide (hopStart c a ≥ c.tEnd)
    && !decide (hopStart c a + contactTxDuration c q.b.bytes > c.tEnd)
    && !(bundleTExp q.b).le (.fin (hopArrival q c a))
    && !decide (contactCapUse c (hopStart c a) < q.b.bytes)
    && !(q.cfg.berAware && !cgrContactBerFeasible q.logf c q.b.bytes)

/-! ## The Pareto frontiers -/

/-- `pareto_sig_t`. -/
structure ParetoSig where
  tArrive : ℚ
  conf : ℚ
  margin : ℚ
deriving DecidableEq

/-- `s ≤ s'`: earlier, at least as reliable, at least as spare. -/
instance : Preorder ParetoSig where
  le s s' := s.tArrive ≤ s'.tArrive ∧ s.conf ≥ s'.conf ∧ s.margin ≥ s'.margin
  le_refl s := ⟨le_refl _, le_refl _, le_refl _⟩
  le_trans _ _ _ h h' := ⟨h.1.trans h'.1, h'.2.1.trans h.2.1, h'.2.2.trans h.2.2⟩

instance : DecidableLE ParetoSig := fun s s' =>
  inferInstanceAs (Decidable (s.tArrive ≤ s'.tArrive ∧ s.conf ≥ s'.conf ∧ s.margin ≥ s'.margin))

/-- `frontier_nodes[i]` with `frontiers[i]`. -/
structure Frontier where
  node : NodeId
  sigs : List ParetoSig
deriving DecidableEq

/-- One `i` of the exchange sort: the running minimum against the rest. -/
def exchangePass (x : ParetoSig) : List ParetoSig → ParetoSig × List ParetoSig
  | [] => (x, [])
  | y :: ys =>
      if y.tArrive < x.tArrive then
        let (m, r) := exchangePass y ys
        (m, x :: r)
      else
        let (m, r) := exchangePass x ys
        (m, y :: r)

/-- The exchange sort by `t_arrive`, `n` passes. -/
def exchangeSort : Nat → List ParetoSig → List ParetoSig
  | n + 1, x :: xs =>
      let (m, r) := exchangePass x xs
      m :: exchangeSort n r
  | _, l => l

/-- Look up `fr`, creating an empty frontier while the table has room; `none` is a null
    `fr`. -/
def frontierLookup (fs : List Frontier) (v : NodeId) :
    Except Fault (Option (List ParetoSig)) := do
  accessBelow .frontiers frontierMax fs.length
  match fs.find? fun fr => decide (fr.node = v) with
  | some fr => return some fr.sigs
  | none =>
      if fs.length < frontierMax then
        access .frontiers frontierMax fs.length
        return some []
      else return none

/-- Write `v`'s signatures back, into the slot just created if there was none. -/
def frontierStore (fs : List Frontier) (v : NodeId) (sigs : List ParetoSig) :
    List Frontier :=
  match fs with
  | [] => [⟨v, sigs⟩]
  | fr :: rest =>
      if fr.node = v then ⟨v, sigs⟩ :: rest else fr :: frontierStore rest v sigs

/-- Insert + prune dominated. The new signature is stored before the count is trimmed,
    so with eight survivors it goes to `sigs[8]`; the trim below it is what the source
    does afterwards. -/
def frontierInsert (sigs : List ParetoSig) (s : ParetoSig) :
    Except Fault (List ParetoSig) := do
  let kept := sigs.filter fun x => !decide (s ≤ x)
  access .sigs maxParetoPerNode kept.length
  let stored := kept ++ [s]
  if stored.length > maxParetoPerNode then
    return (exchangeSort stored.length stored).take maxParetoPerNode
  else return stored

/-- Pruning 2 at the node `v`: `none` when the signature is dominated, otherwise the table
    afterwards — the same table when `v` has no slot and none is left. -/
def frontierUpdate (fs : List Frontier) (v : NodeId) (s : ParetoSig) :
    Except Fault (Option (List Frontier)) := do
  match ← frontierLookup fs v with
  | none => return some fs
  | some sigs =>
      accessBelow .sigs maxParetoPerNode sigs.length
      if sigs.any fun x => decide (x ≤ s) then return none
      let sigs' ← frontierInsert sigs s
      return some (frontierStore fs v sigs')

/-! ## Routes and the beam -/

/-- `cgr_route_t`; `hop_count` is the length of `hops`. -/
structure CgrRoute where
  hops : List ContactPtr
  cost : ℚ
  arrivalTime : ℚ
deriving DecidableEq

/-- `beam_t`. -/
structure Beam where
  routes : List CgrRoute
  cap : Nat
deriving DecidableEq

def beamInit (cap : Nat) : Beam := ⟨[], cap⟩

/-- `beam_push`. With capacity zero the source compares against an entry that was never
    written. -/
def beamPush (bm : Beam) (r : CgrRoute) : Except Fault Beam := do
  if bm.routes.length < bm.cap then
    access .routes cgrMaxRoutesPi bm.routes.length
    return { bm with routes := bm.routes ++ [r] }
  else
    accessBelow .routes cgrMaxRoutesPi bm.routes.length
    match scanMax CgrRoute.cost bm.routes with
    | none => throw (.uninit .routes)
    | some (worst, x) =>
        if r.cost < x.cost then return { bm with routes := bm.routes.set worst r }
        else return bm

/-- The confidence product of a path. -/
def pathConf (route : List Contact) : ℚ := route.foldl (fun x c => x * c.conf) 1

/-- One round of the margin loop of `compute_cost`: the least margin so far and `t_arr`. -/
def marginStep (q : CgrCall) (s : ℚ × ℚ) (c : Contact) : ℚ × ℚ :=
  let m := hopMargin q c s.2
  (if m < s.1 then m else s.1, hopArrival q c s.2)

/-- The least `cap_use - size` over the hops, from the code's `1e30f` down. -/
def pathMargin (q : CgrCall) (route : List Contact) : ℚ :=
  (route.foldl (marginStep q) (10 ^ 30, q.t)).1

/-- `compute_cost`. An exact margin is always finite. -/
def computeCost (q : CgrCall) (route : List Contact) (aM : ℚ) : ℚ :=
  let delay := aM - q.t
  let conf := pathConf route
  let logConf := q.logf (if conf > 1 / 10 ^ 12 then conf else 1 / 10 ^ 12)
  q.cfg.w1 * delay - q.cfg.w2 * logConf - q.cfg.w3 * pathMargin q route

/-! ## The search -/

/-- `dfs_frame_t`; `visited_count` is the length of `visited`. -/
structure DfsFrame where
  contact : ContactPtr
  pathLen : Nat
  tArrive : ℚ
  visited : List NodeId
  nextIdx : Nat
deriving DecidableEq

/-- What the search keeps between two loop heads, the beam aside. -/
structure SearchState where
  nextSeed : Nat
  stack : List DfsFrame
  frontiers : List Frontier
deriving DecidableEq

/-- The contacts on the stack, bottom first. -/
def stackPath (stack : List DfsFrame) : List ContactPtr :=
  (stack.map DfsFrame.contact).reverse

/-- The signature of the path on the stack extended by `nc`. -/
def extensionSig (q : CgrCall) (stack : List DfsFrame) (a : ℚ) (nc : Contact) : ParetoSig :=
  { tArrive := hopArrival q nc a
    conf := pathConf ((stackPath stack).map ContactPtr.contact) * nc.conf
    margin := hopMargin q nc a }

/-- Append a hop if the route has room for it. -/
def pushHop (hops : List ContactPtr) (c : ContactPtr) : Except Fault (List ContactPtr) := do
  if hops.length < cgrRouteMaxHops then
    access .hops cgrRouteMaxHops hops.length
    return hops ++ [c]
  else return hops

/-- The route from the stack and `nc`, with its arrival time `aN`. -/
def rebuildRoute (q : CgrCall) (stack : List DfsFrame) (nc : ContactPtr) (aN : ℚ) :
    Except Fault CgrRoute := do
  let hops ← (stackPath stack ++ [nc]).foldlM pushHop []
  return { hops, arrivalTime := aN, cost := computeCost q (hops.map ContactPtr.contact) aN }

/-- The child's visited array: at most `BUNDLE_MAX_HOPS` entries are copied, a missing one
    stays zero, and the new node goes behind them if there is room. -/
def childVisited (visited : List NodeId) (v : NodeId) : List NodeId :=
  let copied := visited.take bundleMaxHops
    ++ List.replicate (visited.length - bundleMaxHops) 0
  if visited.length < visitedMax then copied ++ [v] else copied

/-- The body of the inner loop for the contact `nc` under the top frame `f`. -/
def expandContact (q : CgrCall) (st : SearchState) (f : DfsFrame) (below : List DfsFrame)
    (nc : ContactPtr) : Except Fault (SearchState × Option CgrRoute) := do
  let skip : SearchState := { st with stack := { f with nextIdx := f.nextIdx + 1 } :: below }
  if !contactOpen nc.contact f.tArrive then return (skip, none)
  accessBelow .visited visitedMax f.visited.length
  if f.visited.contains nc.contact.toNode then return (skip, none)
  if !hopFits q nc.contact f.tArrive then return (skip, none)
  let aN := hopArrival q nc.contact f.tArrive
  accessBelow .stack dfsStackMax st.stack.length
  match ← frontierUpdate st.frontiers nc.contact.toNode
      (extensionSig q st.stack f.tArrive nc.contact) with
  | none => return (skip, none)
  | some frontiers =>
      if nc.contact.toNode = q.b.dst then
        let r ← rebuildRoute q st.stack nc aN
        return ({ skip with frontiers }, some r)
      else if st.stack.length ≥ dfsStackMax then return ({ skip with frontiers }, none)
      else
        access .stack dfsStackMax st.stack.length
        let visited := childVisited f.visited nc.contact.toNode
        accessBelow .visited visitedMax visited.length
        let child : DfsFrame :=
          { contact := nc, pathLen := f.pathLen + 1, tArrive := aN, visited, nextIdx := 0 }
        return ({ st with stack := child :: st.stack, frontiers }, none)

/-- One trip of the `while` loop's top frame. -/
def expandStep (q : CgrCall) (st : SearchState) (f : DfsFrame) (below : List DfsFrame) :
    Except Fault (SearchState × Option CgrRoute) := do
  let pop : SearchState := { st with stack := below }
  if f.pathLen > sizeT q.cfg.maxHops then return (pop, none)
  let nxt := contactPlanFromNode q.cp f.contact.contact.toNode
  accessBelow .nxt contactPlanMax nxt.length
  match nxt[f.nextIdx]? with
  | none => return (pop, none)
  | some nc => expandContact q st f below nc

/-- The contacts the search starts from. -/
def seedsOf (q : CgrCall) : List ContactPtr := contactPlanFromNode q.cp q.b.curr

/-- One round of the seed loop. -/
def seedStep (q : CgrCall) (st : SearchState) :
    Except Fault (SearchState × Option CgrRoute) := do
  access .seeds contactPlanMax st.nextSeed
  let next : SearchState := { st with nextSeed := st.nextSeed + 1 }
  match (seedsOf q)[st.nextSeed]? with
  | none => return (st, none)
  | some seed =>
      if !contactOpen seed.contact q.t then return (next, none)
      access .stack dfsStackMax 0
      access .visited visitedMax 0
      if !hopFits q seed.contact q.t then return (next, none)
      let aI := hopArrival q seed.contact q.t
      if seed.contact.toNode = q.b.dst then
        access .hops cgrRouteMaxHops 0
        return (next, some { hops := [seed], arrivalTime := aI,
                             cost := computeCost q [seed.contact] aI })
      else
        let f : DfsFrame :=
          { contact := seed, pathLen := 1, tArrive := aI, visited := [q.b.curr], nextIdx := 0 }
        return ({ next with stack := [f] }, none)

/-- One step of the search: the next state, and the route it offers to the beam. -/
def searchStep (q : CgrCall) (st : SearchState) :
    Except Fault (SearchState × Option CgrRoute) :=
  match st.stack with
  | [] => seedStep q st
  | f :: below => expandStep q st f below

/-- The search is over: no frame left and no seed left. -/
def searchDone (q : CgrCall) (st : SearchState) : Bool :=
  st.stack.isEmpty && decide ((seedsOf q).length ≤ st.nextSeed)

/-- The whole state of a call: the search and its beam. -/
structure CgrState where
  search : SearchState
  beam : Beam
deriving DecidableEq

def cgrStep (q : CgrCall) (st : CgrState) : Except Fault CgrState := do
  let (search, offered) ← searchStep q st.search
  match offered with
  | none => return { st with search }
  | some r =>
      let beam ← beamPush st.beam r
      return { search, beam }

def cgrMachine (q : CgrCall) : Machine Fault CgrState :=
  { step := cgrStep q, done := fun st => searchDone q st.search }

/-- `max_routes` capped at the compile-time array bound. -/
def beamCap (q : CgrCall) : Nat := min (sizeT q.cfg.maxRoutes) cgrMaxRoutesPi

def cgrStart (q : CgrCall) : CgrState :=
  { search := { nextSeed := 0, stack := [], frontiers := [] }, beam := beamInit (beamCap q) }

/-- What a call of `cgr_select_route` comes to within a number of steps. -/
inductive CgrOutcome where
  /-- still searching -/
  | running
  /-- stopped at an undefined access -/
  | fault (e : Fault)
  /-- returned `-1` -/
  | noRoute
  /-- returned `0` with this route -/
  | route (r : CgrRoute)
deriving DecidableEq

/-- The final pick: the first cheapest route of the beam. -/
def cgrPick (bm : Beam) : CgrOutcome :=
  match scanMin CgrRoute.cost bm.routes with
  | none => .noRoute
  | some (_, r) => .route r

/-- `cgr_select_route`, `fuel` steps of it. -/
def cgrSelectRoute (q : CgrCall) (fuel : Nat) : CgrOutcome :=
  match (cgrMachine q).run fuel (cgrStart q) with
  | .error e => .fault e
  | .ok st => if searchDone q st.search then cgrPick st.beam else .running

end DtnHardware
