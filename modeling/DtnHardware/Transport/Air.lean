import DtnHardware.Transport.Esp32
import DtnHardware.Transport.PiPaths
import DtnHardware.Transport.Radio

/-!
# What the drivers begin to transmit

The two drivers are different programs: one polls a file descriptor, the other waits for a
semaphore that an interrupt gives. For the radio they are the same. A call that sends is a load
(`loadOps`) and what follows it, any other call is a list of operations that neither send nor
change a setting (`CallOps`); so

> **the transmissions that the radio begins are of what `send` was called with**, one for each
> buffer, in order, with all of its bytes in the FIFO and the settings that `init` has written,
> and there are no others (`piCalls_begin`, `espCalls_begin`).

Buffers of more than 222 bytes are refused, and the radio is not told of them. Whether a
transmission comes to its end is another matter: both drivers go back to standby after two
seconds, or at an edge left over from something else, whether or not `TX_DONE` has come. Nor are
the settings all that `lora_config_t` asks for: the bandwidth is 125 kHz whatever it says.
-/

set_option autoImplicit false

namespace DtnHardware

open Interference

/-! ## Calls -/

/-- The steps of a load. -/
theorem loadOps_eq (buf : List UInt8) :
    loadOps buf = [modeOp modeStdby] ++ [.write regFifoAddrPtr 0x00] ++
      buf.map (.write regFifo) ++ [.write regPayloadLength buf.length.toUInt8] ++
      [.write regIrqMask 0x00] ++ [modeOp modeTx] := by simp [loadOps]

/-- What a call does to the radio, if it sends `some buf` or nothing. -/
inductive CallOps : Option (List UInt8) → List HostOp → Prop
  | sends (buf : List UInt8) (short : buf.length ≤ 222) (rest : List HostOp)
      (quiet : ∀ a ∈ rest, a.Quiet) : CallOps (some buf) (loadOps buf ++ rest)
  | quiet (as : List HostOp) (quiet : ∀ a ∈ as, a.Quiet) : CallOps none as

theorem triple_callOps {cfg : LoraConfig} {sent : Option (List UInt8)} {as : List HostOp}
    (h : CallOps sent as) : radio.Triple (Configured cfg) as
      (sent.toList.map fun buf => ⟨writtenSettings cfg, buf⟩) (Configured cfg) := by
  have hquiet : ∀ bs : List HostOp, (∀ a ∈ bs, a.Quiet) →
      radio.Triple (Configured cfg) bs [] (Configured cfg) := fun bs hbs =>
    .keeps (stable_hasSet _) fun a ha c hc => Configured.quiet hc (hbs a ha)
  cases h with
  | sends buf short rest hrest => exact (triple_loadOps buf (by omega)).append (hquiet rest hrest)
  | quiet as has => exact hquiet as has

/-- Calls, one after the other. -/
theorem emitted_calls {τ ο β : Type} {host : β → Option HostOp} (c : Course radio host)
    {cfg : LoraConfig} (hist : τ → List β) (call : τ → ο → τ) (sends : ο → Option (List UInt8))
    (h : ∀ st op, ∃ as, Does host (hist st) (hist (call st op)) as ∧ CallOps (sends op) as)
    (ops : List ο) (st : τ) (hconf : Configured cfg (c.state (hist st))) :
    c.emitted (hist (ops.foldl call st)) = c.emitted (hist st) ++
      (ops.filterMap sends).map fun buf => ⟨writtenSettings cfg, buf⟩ := by
  induction ops generalizing st with
  | nil => simp
  | cons op ops ih =>
    obtain ⟨as, hdoes, hops⟩ := h st op
    obtain ⟨hout, hnext⟩ := c.triple (triple_callOps hops) hdoes hconf
    rw [List.foldl_cons, ih (call st op) hnext, hout]
    cases hsent : sends op with
    | none => simp [hsent]
    | some buf => simp [hsent]

/-- `init`: the registers, written asleep. -/
def initOps (rs : List (UInt8 × UInt8)) : List HostOp :=
  [modeOp modeSleep] ++ rs.map (fun r => .write r.1 r.2) ++ [modeOp modeStdby]

theorem triple_initOps {rs : List (UInt8 × UInt8)}
    (h : (rs.map Prod.fst ++ accessRegisters).Nodup) :
    radio.Triple (fun _ => True) (initOps rs) [] (HasSet rs) := by
  have hany : radio.Stable fun _ => True := fun _ _ _ _ => trivial
  have hsleep : radio.Triple (fun _ => True) [modeOp modeSleep] (none : Option Transmission).toList
      (HasSet []) :=
    .act hany (stable_hasSet []) fun c _ => ⟨rfl, fun r hr => absurd hr List.not_mem_nil⟩
  have hplain : ∀ r ∈ rs, r.1 ∉ accessRegisters := fun r hr =>
    List.disjoint_of_nodup_append h (List.mem_map_of_mem hr)
  have hstandby : radio.Triple (HasSet rs) [modeOp modeStdby] (none : Option Transmission).toList
      (HasSet rs) :=
    .act (stable_hasSet rs) (stable_hasSet rs) fun c hc =>
      ⟨rfl, HasSet.mode hc hplain _⟩
  exact (hsleep.append (triple_hasSet [] rs h)).append hstandby

theorem quiet_pointer (val : UInt8) : (HostOp.write regFifoAddrPtr val).Quiet :=
  ⟨by decide, fun h => absurd h.1 (by decide)⟩

/-- Since `hist` nothing has been sent and no setting changed. -/
abbrev QuietSince {β : Type} (host : β → Option HostOp) : List β → List β → Prop :=
  DoesOnly host HostOp.Quiet

/-- An operation that only asks. -/
def HostOp.Asks : HostOp → Prop
  | .write _ _ => False
  | .read _ => True

theorem HostOp.Asks.quiet {a : HostOp} (h : a.Asks) : a.Quiet := by
  cases a with
  | write addr val => exact h.elim
  | read addr => trivial

/-! ## The Pi -/

def BusOp.host : BusOp → Option HostOp
  | .write addr val => some (.write addr val)
  | .read addr => some (.read addr)
  | .poll _ | .drain | .sleep => none

inductive PiOp where
  | send (buf : List UInt8)
  | recv (cap : Nat) (timeoutMs : UInt32)
  | rssi

/-- The state after a call. -/
def piCall (board : Board) (st : PiLora) : PiOp → PiLora
  | .send buf => (piSend board st buf).2
  | .recv cap timeoutMs => (piRecv board st cap timeoutMs).state
  | .rssi => (piRssi board st).2

/-- What a call sends. -/
def PiOp.sends : PiOp → Option (List UInt8)
  | .send buf => if buf.length > 222 then none else some buf
  | .recv _ _ | .rssi => none

/-- The driver has gone from `st` to `st'`, with `as`. -/
abbrev PiDoes (st st' : PiLora) (as : List HostOp) : Prop := Does BusOp.host st.bus st'.bus as

abbrev PiQuiet (st st' : PiLora) : Prop := QuietSince BusOp.host st.bus st'.bus

abbrev PiAsks (st st' : PiLora) : Prop := DoesOnly BusOp.host HostOp.Asks st.bus st'.bus

theorem piDoes_push (st : PiLora) (op : BusOp) : PiDoes st (st.push op) op.host.toList :=
  does_snoc BusOp.host st.bus op

theorem piDoes_regWrite (st : PiLora) (addr val : UInt8) :
    PiDoes st (regWrite st addr val) [.write addr val] := piDoes_push st _

theorem piDoes_setMode (st : PiLora) (mode : UInt8) : PiDoes st (setMode st mode) [modeOp mode] :=
  piDoes_push st _

theorem piAsks_wait (st : PiLora) (op : BusOp) (h : op.host = none) : PiAsks st (st.push op) :=
  (piDoes_push st op).only (by simp [h])

theorem piAsks_regRead (board : Board) (st : PiLora) (addr : UInt8) :
    PiAsks st (regRead board st addr).2 :=
  (piDoes_push st (.read addr)).only (by simp [BusOp.host, HostOp.Asks])

theorem piQuiet_regRead (board : Board) (st : PiLora) (addr : UInt8) :
    PiQuiet st (regRead board st addr).2 :=
  (piAsks_regRead board st addr).mono fun _ => HostOp.Asks.quiet

theorem piQuiet_regWrite (st : PiLora) (addr val : UInt8) (h : (HostOp.write addr val).Quiet) :
    PiQuiet st (regWrite st addr val) :=
  (piDoes_push st (.write addr val)).only (by simpa [BusOp.host] using h)

theorem piQuiet_setMode (st : PiLora) (mode : UInt8) (h : (modeOp mode).Quiet) :
    PiQuiet st (setMode st mode) := piQuiet_regWrite st _ _ h

theorem piAsks_pollIrqFlags (board : Board) (mask : UInt8) (n : Nat) (irq : UInt8)
    (st : PiLora) : PiAsks st (pollIrqFlags board mask n (irq, st)).2 := by
  induction n generalizing irq st with
  | zero => exact .refl _ _ _
  | succ n ih =>
    rw [pollIrqFlags]
    split
    · exact .refl _ _ _
    · have hread := piAsks_regRead board st regIrqFlags
      have hsleep := piAsks_wait (regRead board st regIrqFlags).2 .sleep rfl
      exact (hread.trans hsleep).trans (ih _ _)

/-- While it waits the driver only asks. -/
theorem piAsks_awaitIrq (board : Board) (st : PiLora) (mask : UInt8) (timeoutMs : UInt32) :
    PiAsks st (awaitIrq board st mask timeoutMs).2.2 := by
  have hpoll : PiAsks st (st.push (.poll timeoutMs)) := piAsks_wait st _ rfl
  unfold awaitIrq
  split
  · unfold pollEdge
    dsimp only
    split
    · exact hpoll.trans (piAsks_wait _ .drain rfl)
    · exact hpoll
  · exact piAsks_pollIrqFlags board mask _ 0 st

theorem piQuiet_awaitIrq (board : Board) (st : PiLora) (mask : UInt8) (timeoutMs : UInt32) :
    PiQuiet st (awaitIrq board st mask timeoutMs).2.2 :=
  (piAsks_awaitIrq board st mask timeoutMs).mono fun _ => HostOp.Asks.quiet

theorem piQuiet_readFifo (board : Board) (n : Nat) (st : PiLora) :
    PiQuiet st (readFifo board n st).2 := by
  induction n generalizing st with
  | zero => exact .refl _ _ _
  | succ n ih => exact (piQuiet_regRead board st regFifo).trans (ih _)

theorem piQuiet_tailPointed (board : Board) (st : PiLora) : PiQuiet st (tailPointed board st) := by
  have hclear : PiQuiet st (tailCleared st) := piQuiet_regWrite st _ _ (by decide)
  have hasked := (hclear.trans (piQuiet_regRead board _ regRxNbBytes)).trans
    (piQuiet_regRead board _ regFifoRxCurr)
  exact hasked.trans (piQuiet_regWrite _ _ _ (quiet_pointer _))

theorem piQuiet_takeFrame (board : Board) (st : PiLora) (irq : UInt8) (cap : Nat) :
    PiQuiet st (takeFrame board st irq cap).state := by
  have hclear : PiQuiet st (regWrite st regIrqFlags 0xFF) :=
    piQuiet_regWrite st _ _ (by decide)
  unfold takeFrame
  split
  · exact hclear.trans (piQuiet_setMode _ modeStdby (by decide))
  · split
    · exact piQuiet_setMode st modeStdby (by decide)
    · exact ((piQuiet_tailPointed board st).trans (piQuiet_readFifo board _ _)).trans
        (piQuiet_setMode _ modeStdby (by decide))

theorem piQuiet_piRecv (board : Board) (st : PiLora) (cap : Nat) (timeoutMs : UInt32) :
    PiQuiet st (piRecv board st cap timeoutMs).state := by
  have hstandby := piQuiet_setMode st modeStdby (by decide)
  have hmask := hstandby.trans (piQuiet_regWrite _ regIrqMask 0x00 (by decide))
  have harmed := hmask.trans (piQuiet_setMode _ modeRxSingle (by decide))
  have hwaited := harmed.trans (piQuiet_awaitIrq board _ irqRxDoneMask timeoutMs)
  unfold piRecv
  dsimp only
  split
  · exact hwaited.trans (piQuiet_setMode _ modeStdby (by decide))
  · split
    · exact (hwaited.trans (piQuiet_regRead board _ regIrqFlags)).trans
        (piQuiet_takeFrame board _ _ cap)
    · exact hwaited.trans (piQuiet_takeFrame board _ _ cap)

/-- `pi_send` at the point where it begins to wait. -/
def txArmed (st : PiLora) (buf : List UInt8) : PiLora :=
  let st := setMode st modeStdby
  let st := regWrite st regFifoAddrPtr 0x00
  let st := buf.foldl (fun st x => regWrite st regFifo x) st
  let st := regWrite st regPayloadLength buf.length.toUInt8
  let st := regWrite st regIrqMask 0x00
  setMode st modeTx

theorem piDoes_txArmed (st : PiLora) (buf : List UInt8) :
    PiDoes st (txArmed st buf) (loadOps buf) := by
  have hstandby := piDoes_setMode st modeStdby
  have hpointed := hstandby.trans (piDoes_regWrite _ regFifoAddrPtr 0x00)
  have hfilled := hpointed.trans (does_foldl PiLora.bus (fun st x => regWrite st regFifo x)
    (.write regFifo) (fun st x => piDoes_regWrite st regFifo x) buf _)
  have hlength := hfilled.trans (piDoes_regWrite _ regPayloadLength buf.length.toUInt8)
  have hmask := hlength.trans (piDoes_regWrite _ regIrqMask 0x00)
  have hloaded := hmask.trans (piDoes_setMode _ modeTx)
  rw [loadOps_eq]
  exact hloaded

theorem piQuiet_txArmed (board : Board) (st : PiLora) {buf : List UInt8}
    (h : buf.length ≤ 222) : PiQuiet (txArmed st buf) (piSend board st buf).2 := by
  have hwaited := piQuiet_awaitIrq board (txArmed st buf) irqTxDoneMask 2000
  have hend (st' : PiLora) : PiQuiet st' (setMode (regWrite st' regIrqFlags 0xFF) modeStdby) :=
    (piQuiet_regWrite st' _ _ (by decide)).trans (piQuiet_setMode _ modeStdby (by decide))
  unfold piSend
  rw [if_neg (by omega)]
  dsimp only
  split
  · exact (hwaited.trans (piQuiet_regRead board _ regIrqFlags)).trans (hend _)
  · exact hwaited.trans (hend _)

/-- Every call is a load or quiet. -/
theorem piCall_ops (board : Board) (st : PiLora) (op : PiOp) :
    ∃ as, PiDoes st (piCall board st op) as ∧ CallOps op.sends as := by
  cases op with
  | send buf =>
    by_cases hlong : buf.length > 222
    · have hrefused : piCall board st (.send buf) = st := by
        rw [piCall, piSend, if_pos hlong]
      rw [hrefused, PiOp.sends, if_pos hlong]
      exact ⟨[], .refl _ _, .quiet [] (by simp)⟩
    · rw [PiOp.sends, if_neg hlong]
      obtain ⟨as, hdoes, hquiet⟩ := piQuiet_txArmed board st (not_lt.mp hlong)
      exact ⟨loadOps buf ++ as, (piDoes_txArmed st buf).trans hdoes,
        .sends buf (not_lt.mp hlong) as hquiet⟩
  | recv cap timeoutMs =>
    obtain ⟨as, hdoes, hquiet⟩ := piQuiet_piRecv board st cap timeoutMs
    exact ⟨as, hdoes, .quiet as hquiet⟩
  | rssi =>
    obtain ⟨as, hdoes, hquiet⟩ := piQuiet_regRead board st regPktRssiValue
    exact ⟨as, hdoes, .quiet as hquiet⟩

theorem initRegisters_nodup (cfg : LoraConfig) :
    ((initRegisters cfg).map Prod.fst ++ accessRegisters).Nodup := by
  have haddr : (initRegisters cfg).map Prod.fst = initAddresses := rfl
  rw [haddr]
  decide

theorem piDoes_piInit {board : Board} {st : PiLora} {cfg : LoraConfig}
    (h : (piInit board st cfg).1 = 0) :
    PiDoes st (piInit board st cfg).2 (initOps (initRegisters cfg)) := by
  unfold piInit at h ⊢
  dsimp only at h ⊢
  split at h
  · cases h
  · rename_i hopen
    rw [if_neg hopen]
    have hsleep := piDoes_setMode { st with spiFd := board.spidev } modeSleep
    have hset := hsleep.trans (does_foldl PiLora.bus (fun st r => regWrite st r.1 r.2)
      (fun r => .write r.1 r.2) (fun st r => piDoes_regWrite st r.1 r.2) (initRegisters cfg) _)
    have hbus (st : PiLora) : (openDio0 board st).bus = st.bus := by
      unfold openDio0
      split <;> rfl
    refine hset.trans ?_
    have hstandby := piDoes_setMode
      (openDio0 board ((initRegisters cfg).foldl (fun st r => regWrite st r.1 r.2)
        (setMode { st with spiFd := board.spidev } modeSleep))) modeStdby
    rw [PiDoes, hbus] at hstandby
    exact hstandby

/-- The driver after some calls. -/
def piAfter (board : Board) (cfg : LoraConfig) (ops : List PiOp) : PiLora :=
  ops.foldl (piCall board) (piInit board loraTransportInitPi cfg).2

theorem configured_piInit {board : Board} {st : PiLora} {cfg : LoraConfig}
    (c : Course radio BusOp.host) (h : (piInit board st cfg).1 = 0) :
    c.emitted (piInit board st cfg).2.bus = c.emitted st.bus ∧
      Configured cfg (c.state (piInit board st cfg).2.bus) := by
  obtain ⟨hout, hset⟩ := c.triple (triple_initOps (initRegisters_nodup cfg)) (piDoes_piInit h)
    trivial
  exact ⟨by rw [hout, List.append_nil], hset⟩

/-- **What the Pi begins to transmit**, in any sequence of calls and whatever the radio and the
    kernel do meanwhile. -/
theorem piCalls_begin (board : Board) (cfg : LoraConfig) (c : Course radio BusOp.host)
    (hinit : (piInit board loraTransportInitPi cfg).1 = 0) (ops : List PiOp) :
    c.emitted (piAfter board cfg ops).bus =
      (ops.filterMap PiOp.sends).map fun buf => ⟨writtenSettings cfg, buf⟩ := by
  obtain ⟨hnothing, hconf⟩ := configured_piInit c hinit
  rw [piAfter, emitted_calls c PiLora.bus (piCall board) PiOp.sends (piCall_ops board) ops _ hconf,
    hnothing]
  rfl

/-- Two frames, a receive between them, and a buffer that is refused. -/
def testCalls : List PiOp :=
  [.send [1, 2, 3], .recv 256 0, .send (List.replicate 223 0), .send [4]]

/-- A radio that never moves by itself, with nothing in it. -/
def deadRadio : Sx1276 := ⟨fun _ => 0, fun _ => 0, []⟩

theorem piCalls_begin_testCalls :
    (Course.quiet radio BusOp.host deadRadio).emitted
      (piAfter (holdingBoard threeBytes) (loraConfigDefault868 8 22 25 24) testCalls).bus
      = [⟨writtenSettings (loraConfigDefault868 8 22 25 24), [1, 2, 3]⟩,
        ⟨writtenSettings (loraConfigDefault868 8 22 25 24), [4]⟩] := by
  rw [piCalls_begin _ _ _ rfl testCalls]
  simp only [testCalls, List.filterMap_cons, List.filterMap_nil, PiOp.sends, List.length_replicate,
    List.length_cons, List.length_nil]
  rfl

/-! ## The ESP32 -/

def EspEvent.host : EspEvent → Option HostOp
  | .write addr val => some (.write addr val)
  | .read addr => some (.read addr)
  | .level _ _ | .delay _ | .wait _ | .taken | .timedOut | .edge _ => none

/-- What a call sends. -/
def EspOp.sends : EspOp → Option (List UInt8)
  | .send buf => if buf.length > 222 then none else some buf
  | .recv _ _ => none

abbrev EspDoes (st st' : EspLora) (as : List HostOp) : Prop := Does EspEvent.host st.log st'.log as

abbrev EspQuiet (st st' : EspLora) : Prop := QuietSince EspEvent.host st.log st'.log

/-- The edges between two steps do nothing to the radio. -/
theorem espDoes_step (board : EspBoard) (st : EspLora) (e : EspEvent) :
    EspDoes st (st.step board e) e.host.toList := by
  have hedges : Does EspEvent.host (st.log ++ [e]) (st.step board e).log [] := by
    refine ⟨(board.edges (st.log ++ [e])).map .edge, step_log board st e, ?_⟩
    rw [List.filterMap_map, List.filterMap_eq_nil_iff]
    exact fun _ _ => rfl
  have hboth := (does_snoc EspEvent.host st.log e).trans hedges
  rwa [List.append_nil] at hboth

theorem espDoes_push (st : EspLora) (e : EspEvent) : EspDoes st (st.push e) e.host.toList :=
  does_snoc EspEvent.host st.log e

theorem espDoes_regWrite (board : EspBoard) (st : EspLora) (addr val : UInt8) :
    EspDoes st (espRegWrite board st addr val) [.write addr val] := espDoes_step board st _

theorem espDoes_setMode (board : EspBoard) (st : EspLora) (mode : UInt8) :
    EspDoes st (espSetMode board st mode) [modeOp mode] := espDoes_step board st _

theorem espQuiet_regRead (board : EspBoard) (st : EspLora) (addr : UInt8) :
    EspQuiet st (espRegRead board st addr).2 :=
  (espDoes_step board st (.read addr)).only (by simp [EspEvent.host, HostOp.Quiet])

theorem espQuiet_regWrite (board : EspBoard) (st : EspLora) (addr val : UInt8)
    (h : (HostOp.write addr val).Quiet) : EspQuiet st (espRegWrite board st addr val) :=
  (espDoes_step board st (.write addr val)).only (by simpa [EspEvent.host] using h)

theorem espQuiet_setMode (board : EspBoard) (st : EspLora) (mode : UInt8)
    (h : (modeOp mode).Quiet) : EspQuiet st (espSetMode board st mode) :=
  espQuiet_regWrite board st _ _ h

/-- Taking the semaphore does nothing to the radio. -/
theorem espDoes_take (board : EspBoard) (st : EspLora) (timeoutMs : UInt32) :
    EspDoes st (xSemaphoreTake board st timeoutMs).2 [] := by
  have htaken (st : EspLora) : EspDoes st ({ st with sem := false }.step board .taken) [] :=
    espDoes_step board { st with sem := false } .taken
  have hwait : EspDoes st (st.step board (.wait timeoutMs)) [] := espDoes_step board st _
  unfold xSemaphoreTake
  split
  · exact htaken st
  · dsimp only
    split
    · exact hwait.trans (htaken _)
    · exact hwait.trans (espDoes_step board _ .timedOut)

theorem espQuiet_readFifo (board : EspBoard) (n : Nat) (st : EspLora) :
    EspQuiet st (espReadFifo board n st).2 := by
  induction n generalizing st with
  | zero => exact .refl _ _ _
  | succ n ih => exact (espQuiet_regRead board st regFifo).trans (ih _)

theorem espQuiet_take (board : EspBoard) (st : EspLora) (timeoutMs : UInt32) :
    EspQuiet st (xSemaphoreTake board st timeoutMs).2 :=
  ⟨[], espDoes_take board st timeoutMs, by simp⟩

theorem espQuiet_espRecv (board : EspBoard) (st : EspLora) (cap : Nat) (timeoutMs : UInt32) :
    EspQuiet st (espRecv board st cap timeoutMs).state := by
  have hrest (st : EspLora) : EspQuiet st (espSetMode board st modeStdby) :=
    espQuiet_setMode board st modeStdby (by decide)
  have hmask := (hrest st).trans (espQuiet_regWrite board _ regIrqMask 0x00 (by decide))
  have harmed := hmask.trans (espQuiet_setMode board _ modeRxSingle (by decide))
  have htaken := harmed.trans (espQuiet_take board _ timeoutMs)
  have hread := htaken.trans (espQuiet_regRead board _ regIrqFlags)
  have hcleared := hread.trans (espQuiet_regWrite board _ regIrqFlags 0xFF (by decide))
  unfold espRecv
  dsimp only
  split
  · exact htaken.trans (hrest _)
  · split
    · exact hcleared.trans (hrest _)
    · split
      · exact hcleared.trans (hrest _)
      · have hasked := (hcleared.trans (espQuiet_regRead board _ regRxNbBytes)).trans
          (espQuiet_regRead board _ regFifoRxCurr)
        refine (hasked.trans ?_).trans (hrest _)
        exact (espQuiet_regWrite board _ _ _ (quiet_pointer _)).trans (espQuiet_readFifo board _ _)

theorem espDoes_espLoad (board : EspBoard) (st : EspLora) (buf : List UInt8) :
    EspDoes st (espSetMode board (espLoad board st buf) modeTx) (loadOps buf) := by
  have hstandby := espDoes_setMode board st modeStdby
  have hpointed := hstandby.trans (espDoes_regWrite board _ regFifoAddrPtr 0x00)
  have hfilled := hpointed.trans (does_foldl EspLora.log
    (fun st x => espRegWrite board st regFifo x) (.write regFifo)
    (fun st x => espDoes_regWrite board st regFifo x) buf _)
  have hlength := hfilled.trans (espDoes_regWrite board _ regPayloadLength buf.length.toUInt8)
  have hmask := hlength.trans (espDoes_regWrite board _ regIrqMask 0x00)
  have hloaded := hmask.trans (espDoes_setMode board _ modeTx)
  rw [loadOps_eq]
  exact hloaded

theorem espQuiet_sent (board : EspBoard) (st : EspLora) {buf : List UInt8}
    (h : buf.length ≤ 222) :
    EspQuiet (espSetMode board (espLoad board st buf) modeTx) (espSend board st buf).2 := by
  have hrest (st : EspLora) : EspQuiet st (espSetMode board st modeStdby) :=
    espQuiet_setMode board st modeStdby (by decide)
  have htaken := espQuiet_take board (espSetMode board (espLoad board st buf) modeTx) 2000
  unfold espSend
  rw [if_neg (by omega)]
  dsimp only
  split
  · exact (htaken.trans (espQuiet_regWrite board _ regIrqFlags 0xFF (by decide))).trans (hrest _)
  · exact htaken.trans (hrest _)

theorem espCall_ops (board : EspBoard) (st : EspLora) (op : EspOp) :
    ∃ as, EspDoes st (espCall board st op).2 as ∧ CallOps op.sends as := by
  cases op with
  | send buf =>
    by_cases hlong : buf.length > 222
    · have hrefused : (espCall board st (.send buf)).2 = st := by
        rw [espCall, espSend, if_pos hlong]
      rw [hrefused, EspOp.sends, if_pos hlong]
      exact ⟨[], .refl _ _, .quiet [] (by simp)⟩
    · rw [EspOp.sends, if_neg hlong]
      obtain ⟨as, hdoes, hquiet⟩ := espQuiet_sent board st (not_lt.mp hlong)
      exact ⟨loadOps buf ++ as, (espDoes_espLoad board st buf).trans hdoes,
        .sends buf (not_lt.mp hlong) as hquiet⟩
  | recv cap timeoutMs =>
    obtain ⟨as, hdoes, hquiet⟩ := espQuiet_espRecv board st cap timeoutMs
    exact ⟨as, hdoes, .quiet as hquiet⟩

theorem espInitRegisters_nodup (cfg : LoraConfig) :
    ((espInitRegisters cfg).map Prod.fst ++ accessRegisters).Nodup := by
  have haddr : (espInitRegisters cfg).map Prod.fst = [regFrfMsb, regFrfMid, regFrfLsb,
      regPaConfig, 0x0C, regModemConfig1, regModemConfig2, 0x1F, 0x26, regPreambleMsb,
      regPreambleLsb, regSyncWord, regFifoTxBase, regFifoRxBase] := rfl
  rw [haddr]
  decide

/-- What `esp_init` writes is what `pi_init` writes, and `REG_MODEM_CONFIG_3`. -/
theorem configured_of_espInit {cfg : LoraConfig} {c : Sx1276}
    (h : HasSet (espInitRegisters cfg) c) : Configured cfg c := by
  refine fun r hr => h r ?_
  simp only [initRegisters, espInitRegisters, List.mem_cons, List.not_mem_nil, or_false] at hr ⊢
  tauto

theorem espDoes_espInit {board : EspBoard} {cfg : LoraConfig} (h : (espInit board cfg).1 = 0) :
    Does EspEvent.host [] (espInit board cfg).2.log (initOps (espInitRegisters cfg)) := by
  unfold espInit at h ⊢
  split at h
  · cases h
  · rename_i hbus
    rw [if_neg hbus]
    split at h
    · cases h
    · rename_i hdevice
      rw [if_neg hdevice]
      have hreset : Does EspEvent.host [] (espReset (espPins cfg)).log [] :=
        ((espDoes_push (espPins cfg) _).trans (espDoes_push _ (.delay 10))).trans
          (espDoes_push _ (.level (espPins cfg).resetPin true))
      have hslept := (hreset.trans (espDoes_step board _ (.delay 10))).trans
        (espDoes_setMode board _ modeSleep)
      have hset := (hslept.trans (espDoes_step board _ (.delay 10))).trans
        (does_foldl EspLora.log (fun st r => espRegWrite board st r.1 r.2)
          (fun r => .write r.1 r.2) (fun st r => espDoes_regWrite board st r.1 r.2)
          (espInitRegisters cfg) _)
      exact hset.trans (espDoes_setMode board _ modeStdby)

def espAfter (board : EspBoard) (cfg : LoraConfig) (ops : List EspOp) : EspLora :=
  ops.foldl (fun st op => (espCall board st op).2) (espInit board cfg).2

theorem configured_espInit {board : EspBoard} {cfg : LoraConfig} (c : Course radio EspEvent.host)
    (h : (espInit board cfg).1 = 0) :
    c.emitted (espInit board cfg).2.log = [] ∧
      Configured cfg (c.state (espInit board cfg).2.log) := by
  obtain ⟨hout, hset⟩ := c.triple (triple_initOps (espInitRegisters_nodup cfg))
    (espDoes_espInit h) trivial
  exact ⟨hout, configured_of_espInit hset⟩

/-- **What the ESP32 begins to transmit**, in any sequence of calls and whatever the radio does
    and whichever edges come meanwhile: with the same configuration, what the Pi would. -/
theorem espCalls_begin (board : EspBoard) (cfg : LoraConfig) (c : Course radio EspEvent.host)
    (hinit : (espInit board cfg).1 = 0) (ops : List EspOp) :
    c.emitted (espAfter board cfg ops).log =
      (ops.filterMap EspOp.sends).map fun buf => ⟨writtenSettings cfg, buf⟩ := by
  obtain ⟨hnothing, hconf⟩ := configured_espInit c hinit
  rw [espAfter, emitted_calls c EspLora.log (fun st op => (espCall board st op).2) EspOp.sends
    (espCall_ops board) ops _ hconf, hnothing]
  rfl

/-- The radio begins to transmit, although the edge that the send returns for is another's. -/
theorem espCalls_begin_lateFrame :
    (Course.quiet radio EspEvent.host deadRadio).emitted
      (espAfter lateFrameBoard mainEspConfig lateFrameOps).log =
      [⟨writtenSettings mainEspConfig, [1, 2, 3]⟩] :=
  espCalls_begin lateFrameBoard mainEspConfig _ (by decide) lateFrameOps

end DtnHardware
