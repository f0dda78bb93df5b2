import DtnHardware.Node.Network
import DtnHardware.Node.MainPi
import DtnHardware.Transport.LoraCommon

/-!
# Nodes on their radios

A host is a node with the state of its driver. The event loops of `main_pi` and `main_esp32`
differ in what wakes them; the calls they make are the same (`HostCall`), and each of them runs
down to the registers of a radio (`hostStep`). A round of `main_pi` is such calls
(`PiRound.calls`); the two tasks of `main_esp32` are taken one call at a time.

> **Hosts whose radios share the air are a network** in the sense of `Node.Network`
> (`hosts_refine`): their nodes go through a run of it in which every transmission that a radio
> has begun is on the channel.

Two things are asked of the air (`Hears`): what a radio hears with a good CRC during a receive,
some radio with the same settings has begun to transmit; and when a receive begins, `RX_DONE` is
down. Calls are ordered by when their frame is loaded, or else by when they end, so that what a
receive returns has been sent before.
-/

set_option autoImplicit false

namespace DtnHardware

open Broadcast GuardedCalls Interference

/-! ## A host -/

/-- `node_state_t` and the driver behind its `radio`. -/
structure Host (τ : Type) where
  node : NodeState
  radio : τ

/-- A call from an event loop. -/
inductive HostCall where
  | generate (dst : NodeId) (cls : BundleClass) (msg : List UInt8) (t : F32)
  | tick (t : ℚ) (fuel : Nat)
  | sendTimeSync (t : F32)
  | receive (t : ℚ) (timeoutMs : UInt32)

section
variable {τ : Type} (logf : ℚ → ℚ) (v : LoraVtable τ) (h : Host τ)

/-- The frame that a tick hands to `lora_send`: none of what it returns is needed for that. -/
def tickFrame (t : ℚ) (fuel : Nat) : Option (List UInt8) :=
  (nodeTick logf h.node t fuel 0).bind TickResult.frame

/-- `lora_send`, if there is a frame. -/
def sendFrame (frame : Option (List UInt8)) : Int × τ :=
  match frame with
  | some frame => loraSend v h.radio frame
  | none => (0, h.radio)

/-- `node_tick`. -/
def hostTick (t : ℚ) (fuel : Nat) : Option (Host τ) :=
  let (sent, radio) := sendFrame v h (tickFrame logf h t fuel)
  (nodeTick logf h.node t fuel sent).map fun r => { node := r.state, radio }

/-- `node_send_time_sync`. -/
def hostSendTimeSync (t : F32) : Host τ :=
  let (sent, radio) := loraSend v h.radio (timeSyncFrame t)
  { node := (nodeSendTimeSync h.node t sent).2, radio }

/-- `node_handle_received_frame`, which asks for the RSSI if the frame is a bundle. -/
def hostHandleFrame (t : ℚ) (frame : List UInt8) : Option (Host τ) :=
  let (rssi, radio) :=
    if (bundleDeserialize frame).toOption.join.isSome then loraRssi v h.radio else (0, h.radio)
  (nodeHandleReceivedFrame h.node t frame rssi).toOption.map fun res => { node := res.2, radio }

/-- `node_try_recv` on the Pi, and a round of `radio_rx_task` on the ESP32: the one has a timeout
    of 0, the other of 5000. -/
def hostReceive (t : ℚ) (timeoutMs : UInt32) : Option (Host τ) :=
  let r := loraRecv v h.radio rbufSize timeoutMs
  if r.ret > 0 then
    (nodeTryHandleTimeSync h.node (.fin t) r.bytes).toOption.bind fun res =>
      if res.1 = 0 then hostHandleFrame v { node := res.2, radio := r.state } t r.bytes
      else some { node := res.2, radio := r.state }
  else some { h with radio := r.state }

def hostStep : HostCall → Option (Host τ)
  | .generate dst cls msg t => some { h with node := (nodeGenerateBundle h.node dst cls msg t).2 }
  | .tick t fuel => hostTick logf v h t fuel
  | .sendTimeSync t => some (hostSendTimeSync v h t)
  | .receive t timeoutMs => hostReceive v h t timeoutMs

end

/-! ## What a send returns -/

/-- **A tick up to the send**: with another answer of `lora_send` it hands over the same frame, and
    does the same if it hands over none. -/
theorem nodeTick_sent {logf : ℚ → ℚ} {ns : NodeState} {t : ℚ} {fuel : Nat} {sent : Int}
    {r : TickResult} (h : nodeTick logf ns t fuel sent = some r) (sent' : Int) :
    ∃ r', nodeTick logf ns t fuel sent' = some r' ∧ r'.frame = r.frame ∧
      (r.frame = none → r' = r) := by
  obtain ⟨r₁, hr, rfl⟩ := Option.map_eq_some_iff.mp h
  suffices hsend : ∃ r₂, trySendOne logf (ns.sweep t) t fuel sent' = some r₂ ∧
      r₂.frame = r₁.frame ∧ (r₁.frame = none → r₂ = r₁) by
    obtain ⟨r₂, hr₂, hframe, hsame⟩ := hsend
    refine ⟨{ r₂ with ret := 0 }, ?_, hframe, fun hnone => ?_⟩
    · rw [nodeTick, hr₂]
      rfl
    · rw [hsame hnone]
  unfold trySendOne at hr ⊢
  cases hpop : queuePopNext (ns.sweep t).queue t with
  | none =>
    rw [hpop] at hr
    exact ⟨r₁, hr, rfl, fun _ => rfl⟩
  | some popped =>
    obtain ⟨b, q'⟩ := popped
    rw [hpop] at hr
    dsimp only at hr ⊢
    split at hr
    · rename_i hdead
      rw [if_pos hdead]
      exact ⟨r₁, hr, rfl, fun _ => rfl⟩
    · rename_i halive
      rw [if_neg halive]
      split at hr
      · cases hr
      · cases hr
      · exact ⟨r₁, hr, rfl, fun _ => rfl⟩
      · split at hr
        · cases hr
        · split at hr
          · rename_i hclosed
            rw [if_pos hclosed]
            exact ⟨r₁, hr, rfl, fun _ => rfl⟩
          · rename_i hopen
            rw [if_neg hopen]
            split at hr
            · exact ⟨r₁, hr, rfl, fun _ => rfl⟩
            · -- `lora_send` is called: only here does `sent` matter
              rename_i frame _
              have hframe : r₁.frame = some frame := by
                split at hr
                · cases hr
                  rfl
                · cases hr
                  rfl
              rw [hframe]
              split
              · exact ⟨_, rfl, rfl, fun hnone => nomatch hnone⟩
              · exact ⟨_, rfl, rfl, fun hnone => nomatch hnone⟩

/-! ## The Pi's event loop -/

section
variable {logf : ℚ → ℚ} {board : Board} {isGround : Bool} {irqFd : Int} {s s' : PiMain} {q : ℚ}

/-- The Pi as a host. -/
def PiMain.host (s : PiMain) : Host PiLora := { node := s.node, radio := s.radio }

/-- The Pi's host goes from `s` to `s'` by calls from the event loop. -/
def PiCalls (logf : ℚ → ℚ) (board : Board) (s s' : PiMain) : Prop :=
  ∃ calls, run (hostStep logf (piVtable board)) s.host calls = some s'.host

theorem piCalls_single {c : HostCall} (h : hostStep logf (piVtable board) s.host c = some s'.host) :
    PiCalls logf board s s' := by
  refine ⟨[c], ?_⟩
  rw [run, h]
  rfl

theorem PiCalls.trans {s'' : PiMain} (h : PiCalls logf board s s')
    (h' : PiCalls logf board s' s'') : PiCalls logf board s s'' := by
  obtain ⟨calls, hrun⟩ := h
  obtain ⟨calls', hrun'⟩ := h'
  exact ⟨calls ++ calls', run_append hrun hrun'⟩

theorem PiTick.calls (h : PiTick logf board s (.fin q) s') : PiCalls logf board s s' := by
  cases h with
  | quiet t fuel sent r tick silent =>
    obtain ⟨r', hr', _, hsame⟩ := nodeTick_sent tick 0
    rw [hsame silent] at hr'
    have hnothing : tickFrame logf s.host q fuel = none := by
      change (nodeTick logf s.node q fuel 0).bind _ = none
      rw [hr']
      exact silent
    refine piCalls_single (c := .tick q fuel) ?_
    change hostTick logf (piVtable board) s.host q fuel = _
    rw [hostTick, hnothing]
    exact congrArg (Option.map _) hr'
  | sends t fuel r frame tick sent =>
    obtain ⟨r', hr', hframe, _⟩ := nodeTick_sent tick 0
    have hhands : tickFrame logf s.host q fuel = some frame := by
      change (nodeTick logf s.node q fuel 0).bind _ = some frame
      rw [hr']
      exact hframe.trans sent
    refine piCalls_single (c := .tick q fuel) ?_
    change hostTick logf (piVtable board) s.host q fuel = _
    rw [hostTick, hhands]
    exact congrArg (Option.map _) tick
  | offClock t off node frame => exact absurd rfl (off q)

theorem PiTimeSync.calls {t : Flt} (h : PiTimeSync board isGround s t s') :
    PiCalls logf board s s' := by
  cases h with
  | notDue _ => exact ⟨[], rfl⟩
  | broadcast p _ _ => exact piCalls_single (c := .sendTimeSync p) rfl

theorem NodeTryRecv.calls (h : NodeTryRecv board s (.fin q) s') : PiCalls logf board s s' := by
  refine piCalls_single (c := .receive q 0) ?_
  change hostReceive (piVtable board) s.host q 0 = _
  unfold hostReceive
  cases h with
  | nothing h => exact if_neg (not_lt.mpr h)
  | timeSync h node handled =>
    refine (if_pos h).trans ?_
    change (nodeTryHandleTimeSync s.node (.fin q) (piRecv board s.radio rbufSize 0).bytes
      ).toOption.bind _ = _
    rw [handled]
    rfl
  | badFrame t number h other bad ret node handled =>
    cases number
    refine (if_pos h).trans ?_
    change (nodeTryHandleTimeSync s.node (.fin q) (piRecv board s.radio rbufSize 0).bytes
      ).toOption.bind _ = _
    rw [other]
    change hostHandleFrame (piVtable board) _ q (piRecv board s.radio rbufSize 0).bytes = _
    unfold hostHandleFrame
    rw [bad]
    exact congrArg (fun x => (Except.toOption x).map _) handled
  | bundle t number h other b good ret node handled =>
    cases number
    refine (if_pos h).trans ?_
    change (nodeTryHandleTimeSync s.node (.fin q) (piRecv board s.radio rbufSize 0).bytes
      ).toOption.bind _ = _
    rw [other]
    change hostHandleFrame (piVtable board) _ q (piRecv board s.radio rbufSize 0).bytes = _
    unfold hostHandleFrame
    rw [good]
    exact congrArg (fun x => (Except.toOption x).map _) handled
  | offClock off node rssi => exact absurd rfl (off q)

theorem cliHandle_calls (lines : List CliSend) (s : PiMain) :
    PiCalls logf board s { s with node := cliHandle s.node lines } := by
  induction lines generalizing s with
  | nil => exact ⟨[], rfl⟩
  | cons c lines ih =>
    have hfirst : PiCalls logf board s
        { s with node := (nodeGenerateBundle s.node c.dst c.cls c.msg c.t).2 } :=
      piCalls_single (c := .generate c.dst c.cls c.msg c.t) rfl
    exact hfirst.trans (ih _)

/-- **A round of `main_pi` is calls of its host**, if its clock is a number. -/
theorem PiRound.calls (h : PiRound logf board isGround irqFd s s')
    (hclock : ∀ wall, ¬ OffClock (s.clock wall)) : PiCalls logf board s s' := by
  obtain ⟨wall, s₁, _, lines, timer, irq⟩ := h
  obtain ⟨q, hq⟩ := not_forall.mp (hclock wall)
  rw [not_not.mp hq] at timer irq
  have htimer : PiCalls logf board s s₁ := by
    cases timer with
    | idle => exact ⟨[], rfl⟩
    | event s₀ _ tick sync _ => exact tick.calls.trans sync.calls
    | fallback s₀ s₂ _ tick sync _ recv => exact (tick.calls.trans sync.calls).trans recv.calls
  have hlines := htimer.trans (cliHandle_calls lines s₁)
  cases irq with
  | idle => exact hlines
  | edge _ _ recv => exact hlines.trans recv.calls

end

/-! ## The calls of the engine -/

/-- A call from the event loop is the calls `ops` of the engine; what they are to send the radio
    begins to transmit, and what they have heard it has received. -/
structure EngineRun {τ : Type} (logf : ℚ → ℚ) (L : LoraLink τ) (h : Host τ) (c : HostCall)
    (ops : List NodeOp) (h' : Host τ) : Prop where
  runs : run (nodeStep logf) h.node ops = some h'.node
  up : L.Up h'.radio
  begun : L.begun h'.radio = L.begun h.radio ++
    (sendsOf (nodeProgram logf) h.node ops).map fun frame => ⟨writtenSettings L.cfg, frame⟩
  heard : ∀ op ∈ ops, ∀ frame, frameHeard op = some frame →
    ∃ t timeoutMs, c = .receive t timeoutMs ∧
      0 < (loraRecv L.vtable h.radio rbufSize timeoutMs).ret ∧
      frame = (loraRecv L.vtable h.radio rbufSize timeoutMs).bytes
  built : ∀ dst cls msg t, NodeOp.generate dst cls msg t ∈ ops → c = .generate dst cls msg t

/-- No frame of a node is too long for a radio. -/
theorem framesSent_short {logf : ℚ → ℚ} {ns : NodeState} {op : NodeOp} {frame : List UInt8}
    (h : frame ∈ framesSent logf ns op) : frame.length ≤ 222 := by
  cases op with
  | generate | receive | handleTimeSync => exact absurd h List.not_mem_nil
  | sendTimeSync t sent =>
    rw [List.mem_singleton.mp h]
    exact (by decide : 6 ≤ 222)
  | tick t fuel sent =>
    obtain ⟨res, hres, hsent⟩ := Option.bind_eq_some_iff.mp (Option.mem_toList.mp h)
    cases nodeTick_cases hres with
    | idle | expired | putBack => cases hsent
    | txFailed b q' first frame' hands _ | transmitted b q' first frame' hands _ =>
      cases hsent
      obtain ⟨hpay, _, rfl⟩ := bundleSerialize_eq_some.mp hands.framed
      rw [length_wireFrame]
      unfold bundleMaxPayload at hpay
      unfold wireHdrLen
      omega

theorem begins_short {cfg : LoraConfig} {buf : List UInt8} (h : buf.length ≤ 222) :
    begins cfg buf = [⟨writtenSettings cfg, buf⟩] := if_neg (by omega)

section
variable {τ : Type} {logf : ℚ → ℚ} {L : LoraLink τ} {h h' : Host τ}

theorem run_single {ns ns' : NodeState} {op : NodeOp} (hs : nodeStep logf ns op = some ns') :
    run (nodeStep logf) ns [op] = some ns' := by
  rw [run, hs]
  rfl

theorem sendsOf_single {ns ns' : NodeState} {op : NodeOp} (hs : nodeStep logf ns op = some ns') :
    sendsOf (nodeProgram logf) ns [op] = framesSent logf ns op := by
  have hstep : (nodeProgram logf).step ns op = some ns' := hs
  rw [sendsOf, hstep]
  exact List.append_nil _

/-- Calls that send nothing. -/
theorem EngineRun.silent {c : HostCall} {ops : List NodeOp}
    (runs : run (nodeStep logf) h.node ops = some h'.node) (up : L.Up h'.radio)
    (begun : L.begun h'.radio = L.begun h.radio)
    (quiet : ∀ op ∈ ops, ∀ ns, framesSent logf ns op = [])
    (heard : ∀ op ∈ ops, ∀ frame, frameHeard op = some frame →
      ∃ t timeoutMs, c = .receive t timeoutMs ∧
        0 < (loraRecv L.vtable h.radio rbufSize timeoutMs).ret ∧
        frame = (loraRecv L.vtable h.radio rbufSize timeoutMs).bytes)
    (built : ∀ dst cls msg t, NodeOp.generate dst cls msg t ∈ ops → c = .generate dst cls msg t) :
    EngineRun logf L h c ops h' where
  runs := runs
  up := up
  begun := by
    rw [begun, sendsOf_eq_nil quiet]
    exact (List.append_nil _).symm
  heard := heard
  built := built

/-- One call that only sends. -/
theorem EngineRun.sends {c : HostCall} {op : NodeOp}
    (step : nodeStep logf h.node op = some h'.node) (up : L.Up h'.radio)
    (begun : L.begun h'.radio =
      L.begun h.radio ++ (framesSent logf h.node op).flatMap (begins L.cfg))
    (deaf : frameHeard op = none) (built : ∀ dst cls msg t, op ≠ .generate dst cls msg t) :
    EngineRun logf L h c [op] h' where
  runs := run_single step
  up := up
  begun := by
    have hwhole : ∀ frame ∈ framesSent logf h.node op,
        begins L.cfg frame = [⟨writtenSettings L.cfg, frame⟩] := fun frame hframe =>
      begins_short (framesSent_short hframe)
    rw [begun, sendsOf_single step, List.flatMap_congr hwhole, ← List.map_eq_flatMap]
  heard op' hop frame hheard := by
    rw [List.mem_singleton.mp hop, deaf] at hheard
    cases hheard
  built dst cls msg t hop := absurd (List.mem_singleton.mp hop).symm (built dst cls msg t)

theorem sendFrame_link (hup : L.Up h.radio) (frame : Option (List UInt8)) :
    L.Up (sendFrame L.vtable h frame).2 ∧
      L.begun (sendFrame L.vtable h frame).2 = L.begun h.radio ++ frame.toList.flatMap (begins L.cfg) := by
  cases frame with
  | none => exact ⟨hup, (List.append_nil _).symm⟩
  | some frame =>
    obtain ⟨hafter, hbegun⟩ := L.send h.radio frame hup
    refine ⟨hafter, hbegun.trans ?_⟩
    rw [Option.toList_some, List.flatMap_singleton]

/-- The tick, with what `lora_send` returned for its frame. -/
theorem hostTick_calls {t : ℚ} {fuel : Nat} (hup : L.Up h.radio)
    (hs : hostTick logf L.vtable h t fuel = some h') :
    ∃ sent, EngineRun logf L h (.tick t fuel) [.tick t fuel sent] h' := by
  obtain ⟨r, hr, rfl⟩ := Option.map_eq_some_iff.mp hs
  change nodeTick logf h.node t fuel (sendFrame L.vtable h (tickFrame logf h t fuel)).1 = some r
    at hr
  obtain ⟨r₀, hr₀, hframe, _⟩ := nodeTick_sent hr 0
  have hhands : tickFrame logf h t fuel = r.frame := by
    rw [tickFrame, hr₀]
    exact hframe
  have hframes : framesSent logf h.node
      (.tick t fuel (sendFrame L.vtable h (tickFrame logf h t fuel)).1)
        = (tickFrame logf h t fuel).toList := by
    rw [framesSent, hr, hhands]
    rfl
  obtain ⟨hafter, hbegun⟩ := sendFrame_link hup (tickFrame logf h t fuel)
  refine ⟨_, .sends (congrArg (Option.map TickResult.state) hr) hafter ?_ rfl ?_⟩
  · rw [hframes]
    exact hbegun
  · intro dst cls msg t' hop
    cases hop

theorem hostSendTimeSync_calls (hup : L.Up h.radio) (t : F32) :
    ∃ sent, EngineRun logf L h (.sendTimeSync t) [.sendTimeSync t sent]
      (hostSendTimeSync L.vtable h t) := by
  obtain ⟨hafter, hbegun⟩ := L.send h.radio (timeSyncFrame t) hup
  refine ⟨_, .sends rfl hafter ?_ rfl ?_⟩
  · rw [framesSent, List.flatMap_singleton]
    exact hbegun
  · intro dst cls msg t' hop
    cases hop

theorem hostHandleFrame_calls {t : ℚ} {frame : List UInt8} (hup : L.Up h.radio)
    (hs : hostHandleFrame L.vtable h t frame = some h') :
    ∃ rssi, nodeStep logf h.node (.receive t frame rssi) = some h'.node ∧ L.Up h'.radio ∧
      L.begun h'.radio = L.begun h.radio := by
  unfold hostHandleFrame at hs
  dsimp only at hs
  split at hs
  · obtain ⟨res, hres, rfl⟩ := Option.map_eq_some_iff.mp hs
    obtain ⟨hafter, hbegun⟩ := L.rssi h.radio hup
    exact ⟨_, congrArg (Option.map Prod.snd) hres, hafter, hbegun⟩
  · obtain ⟨res, hres, rfl⟩ := Option.map_eq_some_iff.mp hs
    exact ⟨0, congrArg (Option.map Prod.snd) hres, hup, rfl⟩

/-- A frame is tried as a time sync, and then as a bundle. -/
theorem hostReceive_calls {t : ℚ} {timeoutMs : UInt32} (hup : L.Up h.radio)
    (hs : hostReceive L.vtable h t timeoutMs = some h') :
    ∃ ops, EngineRun logf L h (.receive t timeoutMs) ops h' := by
  obtain ⟨hafter, hbegun⟩ := L.recv h.radio rbufSize timeoutMs hup
  unfold hostReceive at hs
  dsimp only at hs
  split at hs
  · rename_i hpos
    obtain ⟨res, hres, hs⟩ := Option.bind_eq_some_iff.mp hs
    have hsync : nodeStep logf h.node (.handleTimeSync (.fin t)
        (loraRecv L.vtable h.radio rbufSize timeoutMs).bytes) = some res.2 :=
      congrArg (Option.map Prod.snd) hres
    split at hs
    · obtain ⟨rssi, hrecv, hup', hbegun'⟩ := hostHandleFrame_calls hafter hs
      have hboth : run (nodeStep logf) h.node
          [.handleTimeSync (.fin t) (loraRecv L.vtable h.radio rbufSize timeoutMs).bytes,
            .receive t (loraRecv L.vtable h.radio rbufSize timeoutMs).bytes rssi]
          = some h'.node := by
        rw [run, hsync]
        exact run_single hrecv
      refine ⟨_, .silent hboth hup' (hbegun'.trans hbegun) (by simp [framesSent]) ?_ ?_⟩
      · intro op hop frame hheard
        simp only [List.mem_cons, List.not_mem_nil, or_false] at hop
        rcases hop with rfl | rfl
        · exact ⟨t, timeoutMs, rfl, hpos, (Option.some.inj hheard).symm⟩
        · exact ⟨t, timeoutMs, rfl, hpos, (Option.some.inj hheard).symm⟩
      · intro dst cls msg t' hop
        simp at hop
    · cases hs
      refine ⟨_, .silent (run_single hsync) hafter hbegun (by simp [framesSent]) ?_ ?_⟩
      · intro op hop frame hheard
        rw [List.mem_singleton.mp hop] at hheard
        exact ⟨t, timeoutMs, rfl, hpos, (Option.some.inj hheard).symm⟩
      · intro dst cls msg t' hop
        cases List.mem_singleton.mp hop
  · cases hs
    exact ⟨[], .silent rfl hafter hbegun (by simp) (by simp) (by simp)⟩

/-- **A call from the event loop is calls of the engine.** -/
theorem hostStep_calls {c : HostCall} (hup : L.Up h.radio)
    (hs : hostStep logf L.vtable h c = some h') : ∃ ops, EngineRun logf L h c ops h' := by
  cases c with
  | generate dst cls msg t =>
    cases hs
    refine ⟨[.generate dst cls msg t], .silent (run_single rfl) hup rfl (by simp [framesSent]) ?_ ?_⟩
    · intro op hop frame hheard
      rw [List.mem_singleton.mp hop] at hheard
      cases hheard
    · intro dst' cls' msg' t' hop
      cases List.mem_singleton.mp hop
      rfl
  | tick t fuel =>
    obtain ⟨sent, hrun⟩ := hostTick_calls hup hs
    exact ⟨_, hrun⟩
  | sendTimeSync t =>
    cases hs
    have hsync : ∃ sent, EngineRun logf L h (.sendTimeSync t) [.sendTimeSync t sent]
        (hostSendTimeSync L.vtable h t) := hostSendTimeSync_calls hup t
    obtain ⟨sent, hrun⟩ := hsync
    exact ⟨_, hrun⟩
  | receive t timeoutMs => exact hostReceive_calls hup hs

/-! ## One host -/

end

/-! ## Hosts on one air -/

/-- The hosts, and the calls of their event loops so far. -/
structure Hosts (ι : Type) (τ : ι → Type) where
  host : ∀ i, Host (τ i)
  calls : List (ι × HostCall)

/-- What is asked of the air when a receive is called; `sent` are the transmissions so far. -/
structure Hears {τ : Type} (L : LoraLink τ) (st : τ) (timeoutMs : UInt32)
    (sent : Transmission → Prop) : Prop where
  down : (L.radio st).reg regIrqFlags &&& irqRxDoneMask = 0
  sent : ∀ f ∈ (L.radio (loraRecv L.vtable st rbufSize timeoutMs).state).heard.drop
    (L.radio st).heard.length, f.crcOk = true → sent ⟨writtenSettings L.cfg, f.bytes⟩

section
variable {ι : Type} {τ : ι → Type}

/-- The radios share the air: what one hears, one of them has begun to transmit. -/
def SharedAir (link : ∀ i, LoraLink (τ i)) (s : Hosts ι τ) (c : ι × HostCall) : Prop :=
  ∀ t timeoutMs, c.2 = .receive t timeoutMs →
    Hears (link c.1) (s.host c.1).radio timeoutMs fun f =>
      ∃ j, f ∈ (link j).begun (s.host j).radio

instance {τ : Type} (L : LoraLink τ) (st : τ) (timeoutMs : UInt32) (sent : Transmission → Prop)
    [DecidablePred sent] : Decidable (Hears L st timeoutMs sent) :=
  decidable_of_iff
    ((L.radio st).reg regIrqFlags &&& irqRxDoneMask = 0 ∧
      ∀ f ∈ (L.radio (loraRecv L.vtable st rbufSize timeoutMs).state).heard.drop
        (L.radio st).heard.length, f.crcOk = true → sent ⟨writtenSettings L.cfg, f.bytes⟩)
    ⟨fun h => ⟨h.1, h.2⟩, fun h => ⟨h.down, h.sent⟩⟩

instance [Fintype ι] (link : ∀ i, LoraLink (τ i)) (s : Hosts ι τ) :
    ∀ c, Decidable (SharedAir link s c)
  | (i, .receive t timeoutMs) =>
    decidable_of_iff (Hears (link i) (s.host i).radio timeoutMs fun f =>
        ∃ j, f ∈ (link j).begun (s.host j).radio)
      ⟨fun h _ _ heq => by cases heq; exact h, fun h => h t timeoutMs rfl⟩
  | (_, .generate _ _ _ _) => .isTrue fun _ _ heq => nomatch heq
  | (_, .tick _ _) => .isTrue fun _ _ heq => nomatch heq
  | (_, .sendTimeSync _) => .isTrue fun _ _ heq => nomatch heq

/-- The nodes, and `lora_init` called for each of them. -/
def Hosts.start (link : ∀ i, LoraLink (τ i)) (nodes : ι → NodeState) : Hosts ι τ where
  host i := { node := nodes i, radio := (loraInit (link i).vtable (link i).start (link i).cfg).2 }
  calls := []

/-- The hosts `s` as the network `n`. -/
structure Refines (link : ∀ i, LoraLink (τ i)) (s : Hosts ι τ) (n : NodeNet ι) : Prop where
  node : ∀ i, n.parties i = (s.host i).node
  up : ∀ i, (link i).Up (s.host i).radio
  begun : ∀ i, ∀ f ∈ (link i).begun (s.host i).radio,
    f.payload ∈ n.air ∧ f.payload.length ≤ 222
  built : ∀ e ∈ n.log, ∀ dst cls msg t, e.call = .generate dst cls msg t →
    (e.party, .generate dst cls msg t) ∈ s.calls

variable {logf : ℚ → ℚ} {link : ∀ i, LoraLink (τ i)} {nodes : ι → NodeState}
  {s s' : Hosts ι τ} {n : NodeNet ι}

theorem refines_start (hinit : ∀ i, (loraInit (link i).vtable (link i).start (link i).cfg).1 = 0) :
    Refines link (.start link nodes) (.start nodes) := by
  refine ⟨fun i => rfl, fun i => ((link i).init (hinit i)).1, fun i f hf => ?_, fun e he => ?_⟩
  · have hnothing : (link i).begun ((Hosts.start link nodes).host i).radio = [] :=
      ((link i).init (hinit i)).2
    rw [hnothing] at hf
    exact absurd hf List.not_mem_nil
  · exact absurd he List.not_mem_nil

/-- **What a receive returns is on the channel.** -/
theorem Refines.heard (h : Refines link s n) {i : ι} {timeoutMs : UInt32}
    (hhears : Hears (link i) (s.host i).radio timeoutMs fun f =>
      ∃ j, f ∈ (link j).begun (s.host j).radio)
    (hpos : 0 < (loraRecv (link i).vtable (s.host i).radio rbufSize timeoutMs).ret) :
    (loraRecv (link i).vtable (s.host i).radio rbufSize timeoutMs).bytes ∈ n.air := by
  obtain ⟨f, hf, hok, hbytes⟩ :=
    (link i).recv_whole _ rbufSize timeoutMs (h.up i) hhears.down hpos
  obtain ⟨j, hsent⟩ := hhears.sent f hf hok
  obtain ⟨hair, hshort⟩ := h.begun j _ hsent
  have hwhole : f.bytes.take rbufSize = f.bytes :=
    List.take_of_length_le (hshort.trans (by decide))
  rw [hbytes, hwhole]
  exact hair

variable [DecidableEq ι]

def hostsStep (logf : ℚ → ℚ) (link : ∀ i, LoraLink (τ i)) (s : Hosts ι τ) (c : ι × HostCall) :
    Option (Hosts ι τ) :=
  (hostStep logf (link c.1).vtable (s.host c.1) c.2).map fun h =>
    { host := Function.update s.host c.1 h, calls := s.calls ++ [c] }

/-- The states that calls of the event loops lead to. -/
abbrev HostsReach (logf : ℚ → ℚ) (link : ∀ i, LoraLink (τ i)) (nodes : ι → NodeState) :
    Hosts ι τ → Prop :=
  Reaches (hostsStep logf link) (SharedAir link) (.start link nodes)

/-- What the calls of the engine leave behind. -/
theorem Refines.called (h : Refines link s n) {i : ι} {c : HostCall} {ops : List NodeOp}
    {h' : Host (τ i)} (hcalls : EngineRun logf (link i) (s.host i) c ops h')
    {es : List (Event ι NodeState NodeOp)} (hes : ∀ e ∈ es, e.party = i ∧ e.call ∈ ops) :
    Refines link ⟨Function.update s.host i h', s.calls ++ [(i, c)]⟩
      ⟨Function.update n.parties i h'.node,
        n.air ++ sendsOf (nodeProgram logf) (n.parties i) ops, n.log ++ es⟩ := by
  refine ⟨fun j => ?_, fun j => ?_, fun j f hf => ?_, fun e he dst cls msg t hgen => ?_⟩
  · dsimp only
    by_cases hj : j = i
    · subst hj
      rw [Function.update_self, Function.update_self]
    · rw [Function.update_of_ne hj, Function.update_of_ne hj]
      exact h.node j
  · dsimp only
    by_cases hj : j = i
    · subst hj
      rw [Function.update_self]
      exact hcalls.up
    · rw [Function.update_of_ne hj]
      exact h.up j
  · dsimp only at hf ⊢
    have hold : f ∈ (link j).begun (s.host j).radio →
        f.payload ∈ n.air ++ sendsOf (nodeProgram logf) (n.parties i) ops ∧
          f.payload.length ≤ 222 := fun hmem =>
      ⟨List.mem_append_left _ (h.begun j f hmem).1, (h.begun j f hmem).2⟩
    by_cases hj : j = i
    · subst hj
      rw [Function.update_self, hcalls.begun] at hf
      rcases List.mem_append.mp hf with hf | hf
      · exact hold hf
      · obtain ⟨frame, hframe, rfl⟩ := List.mem_map.mp hf
        obtain ⟨_, op, _, ns, _, hsent⟩ := mem_sendsOf hframe
        rw [← h.node j] at hframe
        exact ⟨List.mem_append_right _ hframe, framesSent_short hsent⟩
    · rw [Function.update_of_ne hj] at hf
      exact hold hf
  · rcases List.mem_append.mp he with hold | hnew
    · exact List.mem_append_left _ (h.built e hold dst cls msg t hgen)
    · obtain ⟨hparty, hcall⟩ := hes e hnew
      rw [hgen] at hcall
      rw [hparty, hcalls.built dst cls msg t hcall]
      exact List.mem_append_right _ (List.mem_singleton_self _)

/-- **A step of the hosts is a run of the network.** -/
theorem Refines.step {n₀ : NodeNet ι} (hreach : NetReaches (nodeProgram logf) n₀ n)
    (h : Refines link s n) {c : ι × HostCall} (hair : SharedAir link s c)
    (hs : hostsStep logf link s c = some s') :
    ∃ n', NetReaches (nodeProgram logf) n₀ n' ∧ Refines link s' n' := by
  obtain ⟨i, c⟩ := c
  obtain ⟨h', hstep, rfl⟩ := Option.map_eq_some_iff.mp hs
  obtain ⟨ops, hcalls⟩ := hostStep_calls (h.up i) hstep
  have hruns : run (nodeProgram logf).step (n.parties i) ops = some h'.node := by
    rw [h.node i]
    exact hcalls.runs
  have hheard : ∀ op ∈ ops, ∀ frame, (nodeProgram logf).hears op = some frame →
      frame ∈ n.air := by
    intro op hop frame hframe
    obtain ⟨t, timeoutMs, hrecv, hpos, rfl⟩ := hcalls.heard op hop frame hframe
    exact h.heard (hair t timeoutMs hrecv) hpos
  obtain ⟨es, hes, hreach'⟩ := hreach.calls i hruns hheard
  exact ⟨_, hreach', h.called hcalls hes⟩

/-- A run of the hosts is one of the network. -/
theorem HostsReach.refines
    (hinit : ∀ i, (loraInit (link i).vtable (link i).start (link i).cfg).1 = 0)
    (h : HostsReach logf link nodes s) :
    ∃ n, NetReaches (nodeProgram logf) (.start nodes) n ∧ Refines link s n := by
  induction h with
  | start => exact ⟨_, .start, refines_start hinit⟩
  | call _ c hair hs ih =>
    obtain ⟨n, hreach, hrefines⟩ := ih
    exact hrefines.step hreach hair hs

/-- **Hosts whose radios share the air are a network**: what their nodes do is a run of it, and
    what their radios transmit is on its channel. -/
theorem hosts_refine (logf : ℚ → ℚ) (link : ∀ i, LoraLink (τ i)) (nodes : ι → NodeState)
    (hinit : ∀ i, (loraInit (link i).vtable (link i).start (link i).cfg).1 = 0)
    (s : Hosts ι τ) (h : HostsReach logf link nodes s) :
    ∃ n, NetReaches (nodeProgram logf) (.start nodes) n ∧
      (∀ i, n.parties i = (s.host i).node) ∧
      ∀ i, ∀ f ∈ (link i).begun (s.host i).radio, f.payload ∈ n.air := by
  obtain ⟨n, hreach, hrefines⟩ := h.refines hinit
  exact ⟨n, hreach, hrefines.node, fun i f hf => (hrefines.begun i f hf).1⟩

end

/-! ### A Pi and an ESP32 -/

/-- A node after `node_state_init`; a ground station counts as synchronised. -/
def freshNode (selfId : NodeId) (bufCap : ℚ) (policy : Option String) (plan : ContactPlan)
    (timeSynced : Bool) : NodeState :=
  { nodeStart selfId bufCap policy plan with timeSynced }

/-- `AAAA` is a Pi and `BBBB` an ESP32, with a link from the one to the other. -/
def pairNode (i : Bool) : NodeState :=
  freshNode (testIds i) 10000 none (.ofList [testLink nodeA nodeB 0 60]) false

/-- The bundle that `AAAA` generates first. -/
def pairBundle : Bundle := generatedBundle (pairNode false) nodeB .science [0x68, 0x69] F32.zero

/-- The radio of the Pi does nothing by itself, not even raise `TX_DONE`. -/
def pairSender : Course radio BusOp.host := .quiet radio BusOp.host deadRadio

/-- That of the ESP32 hears the bundle when it listens. -/
def pairReceiver : Course radio EspEvent.host :=
  catching EspEvent.host ⟨wireFrame pairBundle, true⟩ (by decide +kernel)

def pairSenderBoard : Board :=
  { silentBoard with reg := fun bus addr => (pairSender.state bus).answer addr }

def pairReceiverBoard : EspBoard :=
  { espCatchingBoard with reg := fun events addr => (pairReceiver.state events).answer addr }

def PairDriver : Bool → Type
  | false => PiLora
  | true => EspLora

def pairLink : ∀ i, LoraLink (PairDriver i)
  | false => piLink pairSenderBoard mainPiConfig pairSender fun _ _ => rfl
  | true => espLink pairReceiverBoard mainEspConfig pairReceiver fun _ _ => rfl

theorem pairLink_init (i : Bool) :
    (loraInit (pairLink i).vtable (pairLink i).start (pairLink i).cfg).1 = 0 := by
  cases i with
  | false => rfl
  | true => rfl

/-- A message is typed at `AAAA`, sent at time 1, and received at time 2. -/
def pairCalls : List (Bool × HostCall) :=
  [(false, .generate nodeB .science [0x68, 0x69] F32.zero), (false, .tick 1 10),
    (true, .receive 2 5000)]

/-- The Pi is not told that its frame has been sent; it has been, and is delivered. -/
theorem pairCalls_deliver :
    (runAllowed (hostsStep testLog pairLink) (SharedAir pairLink) (.start pairLink pairNode)
      pairCalls).any (fun s => (s.host true).node.trace.any fun r =>
        decide (r.event = .bundleDelivered)) = true := by
  decide +kernel

theorem hosts_refine_pair : ∃ s n, HostsReach testLog pairLink pairNode s ∧
    NetReaches (nodeProgram testLog) (.start pairNode) n ∧
      (∀ i, n.parties i = (s.host i).node) ∧
      ∀ i, ∀ f ∈ (pairLink i).begun (s.host i).radio, f.payload ∈ n.air := by
  obtain ⟨s, hs, _⟩ := (Option.any_eq_true _ _).mp pairCalls_deliver
  have hreach : HostsReach testLog pairLink pairNode s := reaches_of_runAllowed .start hs
  obtain ⟨n, hn⟩ := hosts_refine testLog pairLink pairNode pairLink_init s hreach
  exact ⟨s, n, hreach, hn⟩

end DtnHardware
