import DtnHardware.Node.Forwarding
import DtnHardware.Transport.Pi

/-!
# `main_pi` — the Pi's event loop

One `poll` on three fds: the 100 ms timer, the command line, and the radio's DIO0. A round of
the loop is what happens between two calls of it (`PiRound`): the tick, the time-sync
broadcast of a ground station, the fallback receive where there is no event fd, the commands,
and the receive where there is one. Every call of `lora_send` and `lora_recv` in it is one of
`pi_send` and `pi_recv` on the board.

A received time-sync frame may carry a NaN, and from then on the engine's clock is one. The
engine is only modelled at a clock that is a number; a round at any other clock may do to the
node whatever it likes and send any frame it likes (`PiTick.offClock`), which is more than
the code can.

> **At every `poll` the radio is in standby** (`piPoll_standby`), so no frame that arrives
> while the node waits raises DIO0. `node_tick` leaves receiving to the event loop, and the
> event loop waits for an edge that only a receive mode produces.
-/

set_option autoImplicit false

namespace DtnHardware

/-- What `main` keeps between two calls of `poll`. -/
structure PiMain where
  node : NodeState
  radio : PiLora
  nextTimeSync : Flt

/-- The loop's clock: `wall_clock_seconds() - boot_time + time_offset`. -/
def PiMain.clock (s : PiMain) (wall : ℚ) : Flt := s.node.dtnTime wall

/-- The clock is not a number the engine can compute with. -/
def OffClock (t : Flt) : Prop := ∀ q, t ≠ .fin q

/-! ## What a round does -/

/-- `node_tick`: the frame it sends, if any, goes through `pi_send`. -/
inductive PiTick (logf : ℚ → ℚ) (board : Board) (s : PiMain) : Flt → PiMain → Prop
  | quiet (t : ℚ) (fuel : Nat) (sent : Int) (r : TickResult)
      (tick : nodeTick logf s.node t fuel sent = some r) (silent : r.frame = none) :
      PiTick logf board s (.fin t) { s with node := r.state }
  | sends (t : ℚ) (fuel : Nat) (r : TickResult) (frame : List UInt8)
      (tick : nodeTick logf s.node t fuel (piSend board s.radio frame).1 = some r)
      (sent : r.frame = some frame) :
      PiTick logf board s (.fin t)
        { s with node := r.state, radio := (piSend board s.radio frame).2 }
  | offClock (t : Flt) (off : OffClock t) (node : NodeState) (frame : Option (List UInt8)) :
      PiTick logf board s t
        { s with
          node
          radio := (frame.map fun x => (piSend board s.radio x).2).getD s.radio }

/-- The ground station's broadcast, every five seconds; `p` is the clock as it is stored. -/
inductive PiTimeSync (board : Board) (isGround : Bool) (s : PiMain) (t : Flt) : PiMain → Prop
  | notDue (h : isGround = false ∨ s.nextTimeSync.le t = false) :
      PiTimeSync board isGround s t s
  | broadcast (p : F32) (ground : isGround = true) (due : s.nextTimeSync.le t = true) :
      PiTimeSync board isGround s t
        { node := (nodeSendTimeSync s.node p (piSend board s.radio (timeSyncFrame p)).1).2
          radio := (piSend board s.radio (timeSyncFrame p)).2
          nextTimeSync := t.add (.fin 5) }

/-- `uint8_t rbuf[256]` of `node_try_recv`. -/
def rbufSize : Nat := 256

/-- `node_try_recv`: time sync first, then the engine, which asks for the RSSI of a bundle. -/
inductive NodeTryRecv (board : Board) (s : PiMain) (t : Flt) : PiMain → Prop
  | nothing (h : (piRecv board s.radio rbufSize 0).ret ≤ 0) :
      NodeTryRecv board s t { s with radio := (piRecv board s.radio rbufSize 0).state }
  | timeSync (h : 0 < (piRecv board s.radio rbufSize 0).ret) (node : NodeState)
      (handled : nodeTryHandleTimeSync s.node t (piRecv board s.radio rbufSize 0).bytes
        = .ok (1, node)) :
      NodeTryRecv board s t { s with node, radio := (piRecv board s.radio rbufSize 0).state }
  | badFrame (q : ℚ) (number : t = .fin q) (h : 0 < (piRecv board s.radio rbufSize 0).ret)
      (other : nodeTryHandleTimeSync s.node t (piRecv board s.radio rbufSize 0).bytes
        = .ok (0, s.node))
      (bad : bundleDeserialize (piRecv board s.radio rbufSize 0).bytes = .ok none)
      (ret : Int) (node : NodeState)
      (handled : nodeHandleReceivedFrame s.node q (piRecv board s.radio rbufSize 0).bytes 0
        = .ok (ret, node)) :
      NodeTryRecv board s t { s with node, radio := (piRecv board s.radio rbufSize 0).state }
  | bundle (q : ℚ) (number : t = .fin q) (h : 0 < (piRecv board s.radio rbufSize 0).ret)
      (other : nodeTryHandleTimeSync s.node t (piRecv board s.radio rbufSize 0).bytes
        = .ok (0, s.node))
      (b : Bundle) (good : bundleDeserialize (piRecv board s.radio rbufSize 0).bytes = .ok (some b))
      (ret : Int) (node : NodeState)
      (handled : nodeHandleReceivedFrame s.node q (piRecv board s.radio rbufSize 0).bytes
        (piRssi board (piRecv board s.radio rbufSize 0).state).1 = .ok (ret, node)) :
      NodeTryRecv board s t
        { s with node, radio := (piRssi board (piRecv board s.radio rbufSize 0).state).2 }
  | offClock (off : OffClock t) (node : NodeState) (rssi : Bool) :
      NodeTryRecv board s t
        { s with
          node
          radio :=
            if rssi then (piRssi board (piRecv board s.radio rbufSize 0).state).2
            else (piRecv board s.radio rbufSize 0).state }

/-- A `send` on the command line. -/
structure CliSend where
  dst : NodeId
  cls : BundleClass
  msg : List UInt8
  t : F32

/-- The `send` lines of a read from the terminal, one `node_generate_bundle` each. -/
def cliHandle (node : NodeState) (lines : List CliSend) : NodeState :=
  lines.foldl (fun node c => (nodeGenerateBundle node c.dst c.cls c.msg c.t).2) node

/-- The timer's share of a round; `irqFd` is `lora_irq_fd`. -/
inductive OnTimer (logf : ℚ → ℚ) (board : Board) (isGround : Bool) (irqFd : Int) (s : PiMain)
    (t : Flt) : PiMain → Prop
  | idle : OnTimer logf board isGround irqFd s t s
  | event (s₁ s₂ : PiMain) (tick : PiTick logf board s t s₁)
      (sync : PiTimeSync board isGround s₁ t s₂) (h : 0 ≤ irqFd) :
      OnTimer logf board isGround irqFd s t s₂
  | fallback (s₁ s₂ s₃ : PiMain) (tick : PiTick logf board s t s₁)
      (sync : PiTimeSync board isGround s₁ t s₂) (h : irqFd < 0)
      (recv : NodeTryRecv board s₂ t s₃) : OnTimer logf board isGround irqFd s t s₃

/-- The radio's share. -/
inductive OnIrq (board : Board) (irqFd : Int) (s : PiMain) (t : Flt) : PiMain → Prop
  | idle : OnIrq board irqFd s t s
  | edge (s' : PiMain) (h : 0 ≤ irqFd) (recv : NodeTryRecv board s t s') :
      OnIrq board irqFd s t s'

/-- From one `poll` to the next. An interrupted `poll` is a round in which nothing happens. -/
inductive PiRound (logf : ℚ → ℚ) (board : Board) (isGround : Bool) (irqFd : Int) (s : PiMain) :
    PiMain → Prop
  | mk (wall : ℚ) (s₁ s₂ : PiMain) (lines : List CliSend)
      (timer : OnTimer logf board isGround irqFd s (s.clock wall) s₁)
      (irq : OnIrq board irqFd { s₁ with node := cliHandle s₁.node lines } (s.clock wall) s₂) :
      PiRound logf board isGround irqFd s s₂

/-! ## Runs -/

/-- The radio after `lora_init` with the pins of the Pi. -/
def piRadio (board : Board) : Int × PiLora :=
  piInit board loraTransportInitPi (loraConfigDefault868 8 22 25 24)

/-- `main` at the first `poll`. -/
def piStart (board : Board) (selfId : NodeId) (bufCap : ℚ) (plan : ContactPlan)
    (isGround : Bool) : PiMain :=
  { node := { nodeStart selfId bufCap (some "accept") plan with timeSynced := isGround }
    radio := (piRadio board).2
    nextTimeSync := .fin 0 }

/-- The states of `main` at a `poll`. -/
def PiPolls (logf : ℚ → ℚ) (board : Board) (isGround : Bool) (s₀ s : PiMain) : Prop :=
  Relation.ReflTransGen (PiRound logf board isGround (piGetIrqFd (piRadio board).2)) s₀ s

/-- `pi_init` succeeds and yields an event fd. -/
structure PiReady (board : Board) : Prop where
  init : (piRadio board).1 = 0
  event : 0 ≤ piGetIrqFd (piRadio board).2

/-! ## The mode at a poll -/

section
variable {logf : ℚ → ℚ} {board : Board} {isGround : Bool} {irqFd : Int} {s s' : PiMain} {t : Flt}

theorem PiTick.standby (h : PiTick logf board s t s') (hs : Standby s.radio) :
    Standby s'.radio := by
  cases h with
  | quiet _ _ _ _ _ _ => exact hs
  | sends _ _ _ frame _ _ => exact hs.piSend board frame
  | offClock _ _ node frame =>
    cases frame with
    | none => exact hs
    | some frame => exact hs.piSend board frame

theorem PiTimeSync.standby (h : PiTimeSync board isGround s t s') (hs : Standby s.radio) :
    Standby s'.radio := by
  cases h with
  | notDue _ => exact hs
  | broadcast p _ _ => exact hs.piSend board (timeSyncFrame p)

/-- Whatever the mode was before: `pi_recv` sets it on every path. -/
theorem NodeTryRecv.standby (h : NodeTryRecv board s t s') : Standby s'.radio := by
  have hrecv := standby_piRecv board s.radio rbufSize 0
  cases h with
  | nothing _ | timeSync _ _ _ | badFrame _ _ _ _ _ _ _ _ => exact hrecv
  | bundle _ _ _ _ _ _ _ _ _ => exact hrecv.piRssi board
  | offClock _ node rssi =>
    cases rssi with
    | false => exact hrecv
    | true => exact hrecv.piRssi board

theorem OnTimer.standby (h : OnTimer logf board isGround irqFd s t s') (hs : Standby s.radio) :
    Standby s'.radio := by
  cases h with
  | idle => exact hs
  | event s₁ s₂ tick sync _ => exact sync.standby (tick.standby hs)
  | fallback _ _ _ _ _ _ recv => exact recv.standby

/-- **A round keeps the radio in standby.** -/
theorem PiRound.standby (h : PiRound logf board isGround irqFd s s') (hs : Standby s.radio) :
    Standby s'.radio := by
  obtain ⟨wall, s₁, _, lines, timer, irq⟩ := h
  have h₁ := timer.standby hs
  cases irq with
  | idle => exact h₁
  | edge _ _ recv => exact recv.standby

end

/-- The node listens while it waits: at every `poll` of the run the radio receives. -/
def ListensWhileWaiting (logf : ℚ → ℚ) (board : Board) (isGround : Bool) (s₀ : PiMain) : Prop :=
  ∀ s, PiPolls logf board isGround s₀ s → receiving s.radio.opMode = true

/-- **The node never listens while it waits**: at every `poll` the radio is in standby, by
    what the driver records and by what it has told the radio, and standby receives
    nothing. -/
theorem piPoll_standby (logf : ℚ → ℚ) (board : Board) (selfId : NodeId) (bufCap : ℚ)
    (plan : ContactPlan) (isGround : Bool) (hready : PiReady board) :
    (∀ s, PiPolls logf board isGround (piStart board selfId bufCap plan isGround) s →
      s.radio.opMode = modeLora ||| modeStdby ∧
        lastMode s.radio.bus = some (modeLora ||| modeStdby) ∧
        receiving s.radio.opMode = false) ∧
      ¬ ListensWhileWaiting logf board isGround
        (piStart board selfId bufCap plan isGround) := by
  have hstart : Standby (piStart board selfId bufCap plan isGround).radio :=
    standby_piInit hready.init
  refine ⟨fun s h => ?_, fun hlistens => ?_⟩
  · have hstandby : Standby s.radio := by
      induction h with
      | refl => exact hstart
      | tail _ round ih => exact round.standby ih
    exact ⟨hstandby.opMode, hstandby.told, hstandby.not_receiving⟩
  · have hfirst := hlistens _ Relation.ReflTransGen.refl
    rw [hstart.not_receiving] at hfirst
    cases hfirst

/-- A board on which everything opens, and which stays silent. -/
def silentBoard : Board :=
  { spidev := 3, gpiochip := 4, lineEvent := some 5, reg := fun _ _ => 0, edge := fun _ => false }

theorem silentBoard_ready : PiReady silentBoard := ⟨by decide, by decide⟩

/-- A ground station on it, at its first `poll`. -/
theorem piPoll_standby_silentBoard : PiReady silentBoard ∧
    receiving (piStart silentBoard 0 4096 .empty true).radio.opMode = false :=
  ⟨silentBoard_ready, ((piPoll_standby (fun x => x - 1) silentBoard 0 4096 .empty true
    silentBoard_ready).1 _ Relation.ReflTransGen.refl).2.2⟩

/-- The same node does not listen. -/
theorem silentBoard_not_listens : PiReady silentBoard ∧
    ¬ ListensWhileWaiting (fun x => x - 1) silentBoard true
      (piStart silentBoard 0 4096 .empty true) := by
  refine ⟨silentBoard_ready, fun hlistens => ?_⟩
  have hfirst : receiving (piStart silentBoard 0 4096 .empty true).radio.opMode = true :=
    hlistens _ Relation.ReflTransGen.refl
  revert hfirst
  decide

end DtnHardware
