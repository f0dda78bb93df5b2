import DtnHardware.Lib.Calls
import DtnHardware.Transport.Pi

/-!
# `transport/lora_esp32` — the SX1276 on the ESP32

The registers are those of the Pi. DIO0 is an interrupt here: its handler gives a binary
semaphore, `esp_send` and `esp_recv` wait for it, and what the edge was about is nowhere kept.
`log` is everything that has happened so far, edges included. An `EspBoard` says what the
registers hold and which edges come after what has happened and before the driver's next step,
so that any edges may come between any two steps.

`pi_send` returns a length only if `IRQ_TX_DONE_MASK` is up. `esp_send` does not look:

> **A send that is reported was sent if the send is clean** (`CleanSend`): when it switches to
> `MODE_TX` every edge so far has been taken, and the first edge from there on is that of
> `TX_DONE`. **One that is not clean is reported in any case** (`espSend_reports`).

An edge that comes when a receive has just timed out is enough (`lateFrame_reported`).
-/

set_option autoImplicit false

namespace DtnHardware

open GuardedCalls

/-! ## The board -/

/-- What raises DIO0. -/
inductive IrqCause where
  | rxDone | txDone
deriving DecidableEq

inductive EspEvent where
  | write (addr val : UInt8)
  | read (addr : UInt8)
  /-- `gpio_set_level` -/
  | level (pin : Int32) (high : Bool)
  /-- `vTaskDelay` -/
  | delay (ms : Nat)
  /-- `xSemaphoreTake` finds the semaphore empty and waits -/
  | wait (timeoutMs : UInt32)
  | taken
  | timedOut
  | edge (cause : IrqCause)
deriving DecidableEq

structure EspBoard where
  /-- `spi_bus_initialize` returns `ESP_OK` -/
  spiBus : Bool
  /-- `spi_bus_add_device` does -/
  spiDevice : Bool
  reg : List EspEvent → UInt8 → UInt8
  edges : List EspEvent → List IrqCause

/-- `esp_lora_state_t`, with what has happened; `sem` is the binary semaphore. -/
structure EspLora where
  csPin : Int32
  resetPin : Int32
  dio0Pin : Int32
  sem : Bool
  log : List EspEvent

/-- `dio0_isr`: a semaphore that has been given stays given. -/
def dio0Isr (st : EspLora) (cause : IrqCause) : EspLora :=
  { st with sem := true, log := st.log ++ [.edge cause] }

/-- A step of the driver before the handler is installed. -/
def EspLora.push (st : EspLora) (e : EspEvent) : EspLora := { st with log := st.log ++ [e] }

/-- A step of the driver, and the edges that come before the next. -/
def EspLora.step (board : EspBoard) (st : EspLora) (e : EspEvent) : EspLora :=
  (board.edges (st.push e).log).foldl dio0Isr (st.push e)

def espRegWrite (board : EspBoard) (st : EspLora) (addr val : UInt8) : EspLora :=
  st.step board (.write addr val)

def espRegRead (board : EspBoard) (st : EspLora) (addr : UInt8) : UInt8 × EspLora :=
  (board.reg st.log addr, st.step board (.read addr))

def espSetMode (board : EspBoard) (st : EspLora) (mode : UInt8) : EspLora :=
  espRegWrite board st regOpMode (modeLora ||| mode)

/-- `xSemaphoreTake`: at once if the semaphore has been given, else as soon as an edge gives it
    before the timeout. -/
def xSemaphoreTake (board : EspBoard) (st : EspLora) (timeoutMs : UInt32) : Bool × EspLora :=
  if st.sem then (true, { st with sem := false }.step board .taken)
  else
    let st := st.step board (.wait timeoutMs)
    if st.sem then (true, { st with sem := false }.step board .taken)
    else (false, st.step board .timedOut)

/-! ## Opening -/

def pinNumCs : Int32 := 10

/-- The registers `esp_init` sets while the radio sleeps, in order; `0x0C` is `REG_LNA`, `0x1F`
    `REG_SYMBOL_TIMEOUT_MSB`, `0x26` `REG_MODEM_CONFIG_3`. -/
def espInitRegisters (cfg : LoraConfig) : List (UInt8 × UInt8) :=
  [(regFrfMsb, (frfOf cfg >>> 16).toUInt8), (regFrfMid, (frfOf cfg >>> 8).toUInt8),
    (regFrfLsb, (frfOf cfg).toUInt8),
    (regPaConfig, 0x80 ||| (cfg.txPowerDbm &&& 0x0F)),
    (0x0C, 0x23),
    (regModemConfig1, ((0x07 : UInt8) <<< 4) ||| (((cfg.codingRate - 4) &&& 0x07).toUInt8 <<< 1)),
    (regModemConfig2, (cfg.sf <<< 4) ||| 0x04),
    (0x1F, 0x00),
    (0x26, 0x04),
    (regPreambleMsb, ((cfg.preambleLen >>> 8) &&& 0xFF).toUInt8),
    (regPreambleLsb, (cfg.preambleLen &&& 0xFF).toUInt8),
    (regSyncWord, cfg.syncWord.toUInt32.toUInt8),
    (regFifoTxBase, 0x00), (regFifoRxBase, 0x00)]

/-- The pins, and nothing done yet. -/
def espPins (cfg : LoraConfig) : EspLora :=
  { csPin := if cfg.csPin > 0 then cfg.csPin else pinNumCs
    resetPin := if cfg.resetPin > 0 then cfg.resetPin else 5
    dio0Pin := if cfg.dio0Pin > 0 then cfg.dio0Pin else 6
    sem := false
    log := [] }

def espReset (st : EspLora) : EspLora :=
  ((st.push (.level st.resetPin false)).push (.delay 10)).push (.level st.resetPin true)

/-- `esp_init`: the return value and the state. -/
def espInit (board : EspBoard) (cfg : LoraConfig) : Int × EspLora :=
  let st := espPins cfg
  if !board.spiBus then (-1, st)
  else if !board.spiDevice then (-1, st)
  else
    -- the handler is installed after the reset pulse
    let st := (espReset st).step board (.delay 10)
    let st := espSetMode board st modeSleep
    let st := st.step board (.delay 10)
    let st := (espInitRegisters cfg).foldl (fun st r => espRegWrite board st r.1 r.2) st
    (0, espSetMode board st modeStdby)

/-! ## Sending -/

/-- `esp_send` before it switches to `MODE_TX`. -/
def espLoad (board : EspBoard) (st : EspLora) (buf : List UInt8) : EspLora :=
  let st := espSetMode board st modeStdby
  let st := espRegWrite board st regFifoAddrPtr 0x00
  let st := buf.foldl (fun st x => espRegWrite board st regFifo x) st
  let st := espRegWrite board st regPayloadLength buf.length.toUInt8
  espRegWrite board st regIrqMask 0x00

/-- `esp_send`: the return value and the state. -/
def espSend (board : EspBoard) (st : EspLora) (buf : List UInt8) : Int × EspLora :=
  if buf.length > 222 then (-1, st)
  else
    let st := espLoad board st buf
    let st := espSetMode board st modeTx
    let take := xSemaphoreTake board st 2000
    if take.1 then
      let st := espRegWrite board take.2 regIrqFlags 0xFF
      (buf.length, espSetMode board st modeStdby)
    else (-1, espSetMode board take.2 modeStdby)

/-! ## Receiving -/

/-- What `esp_recv` returns, what it wrote to `buf`, and the state. -/
structure EspRecv where
  ret : Int
  bytes : List UInt8
  state : EspLora

/-- `n` reads of the FIFO. -/
def espReadFifo (board : EspBoard) : Nat → EspLora → List UInt8 × EspLora
  | 0, st => ([], st)
  | n + 1, st =>
      let (x, st) := espRegRead board st regFifo
      let (xs, st) := espReadFifo board n st
      (x :: xs, st)

/-- `esp_recv`. -/
def espRecv (board : EspBoard) (st : EspLora) (cap : Nat) (timeoutMs : UInt32) : EspRecv :=
  let st := espSetMode board st modeStdby
  let st := espRegWrite board st regIrqMask 0x00
  let st := espSetMode board st modeRxSingle
  let take := xSemaphoreTake board st timeoutMs
  if !take.1 then ⟨0, [], espSetMode board take.2 modeStdby⟩
  else
    let (irq, st) := espRegRead board take.2 regIrqFlags
    let st := espRegWrite board st regIrqFlags 0xFF
    if irq &&& irqPayloadCrcErr ≠ 0 then ⟨-1, [], espSetMode board st modeStdby⟩
    else if irq &&& irqRxDoneMask = 0 then ⟨0, [], espSetMode board st modeStdby⟩
    else
      let (rxLen, st) := espRegRead board st regRxNbBytes
      let rxLen := min rxLen.toNat cap
      let (fifoAddr, st) := espRegRead board st regFifoRxCurr
      let st := espRegWrite board st regFifoAddrPtr fifoAddr
      let (bytes, st) := espReadFifo board rxLen st
      ⟨rxLen, bytes, espSetMode board st modeStdby⟩

/-! ## Calls, one at a time -/

inductive EspOp where
  | send (buf : List UInt8)
  | recv (cap : Nat) (timeoutMs : UInt32)

/-- A call, and what it returns. -/
def espCall (board : EspBoard) (st : EspLora) : EspOp → Int × EspLora
  | .send buf => espSend board st buf
  | .recv cap timeoutMs =>
      let r := espRecv board st cap timeoutMs
      (r.ret, r.state)

/-- The calls after `esp_init`; if it fails there is no semaphore to take. -/
def espLog (board : EspBoard) (cfg : LoraConfig) (ops : List EspOp) :
    List (Called EspLora EspOp Int) :=
  if (espInit board cfg).1 = 0 then log (espCall board) (espInit board cfg).2 ops else []

/-- Whether `TX_DONE` has come since the last switch to `MODE_TX`, one event later. -/
def sentAfter (sent : Bool) : EspEvent → Bool
  | .write addr val => if addr = regOpMode ∧ val = modeLora ||| modeTx then false else sent
  | .edge .txDone => true
  | .edge .rxDone | .read _ | .level _ _ | .delay _ | .wait _ | .taken | .timedOut => sent

/-- The radio has set `TX_DONE` since it was last told to send. -/
def radioSent (events : List EspEvent) : Bool := events.foldl sentAfter false

/-- A positive length means that the frame was sent. -/
def ReportsASend (e : Called EspLora EspOp Int) : Prop :=
  ∀ buf, e.call = .send buf → 0 < e.answer → radioSent e.after.log = true

/-! ## What is left of an edge -/

/-- Whether an edge has given the semaphore and none has taken it, one event later. -/
def pendingAfter (pending : Bool) : EspEvent → Bool
  | .edge _ => true
  | .taken => false
  | .write _ _ | .read _ | .level _ _ | .delay _ | .wait _ | .timedOut => pending

/-- There is an edge that nobody has taken. -/
def edgePending (events : List EspEvent) : Bool := events.foldl pendingAfter false

/-- What has happened once `esp_send` has switched to `MODE_TX`. -/
def switchedLog (board : EspBoard) (st : EspLora) (buf : List UInt8) : List EspEvent :=
  (espLoad board st buf).log ++ [.write regOpMode (modeLora ||| modeTx)]

/-- The edges that come before `esp_send` waits; if there are none, those that come while it
    does. -/
def wakingEdges (board : EspBoard) (st : EspLora) (buf : List UInt8) : List IrqCause :=
  if board.edges (switchedLog board st buf) ≠ [] then board.edges (switchedLog board st buf)
  else board.edges (switchedLog board st buf ++ [.wait 2000])

/-- At the switch every edge so far has been taken, and the next one, if any, says that the
    frame is out. -/
def CleanSend (board : EspBoard) (st : EspLora) (buf : List UInt8) : Prop :=
  edgePending (switchedLog board st buf) = false ∧
    (wakingEdges board st buf).head? ≠ some .rxDone

instance (board : EspBoard) (st : EspLora) (buf : List UInt8) :
    Decidable (CleanSend board st buf) :=
  inferInstanceAs (Decidable (_ ∧ _))

/-- The semaphore holds what is left, whatever it was for. -/
def SemOk (st : EspLora) : Prop := st.sem = edgePending st.log

section
variable {board : EspBoard} {st : EspLora}

/-! ### A step -/

theorem foldl_dio0Isr (cs : List IrqCause) (st : EspLora) : cs.foldl dio0Isr st =
    { st with sem := st.sem || !cs.isEmpty, log := st.log ++ cs.map .edge } := by
  induction cs generalizing st with
  | nil => rw [List.foldl_nil, List.isEmpty_nil, Bool.not_true, Bool.or_false, List.map_nil,
      List.append_nil]
  | cons c cs ih =>
    rw [List.foldl_cons, ih]
    simp [dio0Isr]

theorem step_log (board : EspBoard) (st : EspLora) (e : EspEvent) :
    (st.step board e).log = st.log ++ [e] ++ (board.edges (st.log ++ [e])).map .edge := by
  rw [EspLora.step, foldl_dio0Isr]
  rfl

theorem step_sem (board : EspBoard) (st : EspLora) (e : EspEvent) :
    (st.step board e).sem = (st.sem || !(board.edges (st.log ++ [e])).isEmpty) := by
  rw [EspLora.step, foldl_dio0Isr]
  rfl

theorem edgePending_snoc (events : List EspEvent) (e : EspEvent) :
    edgePending (events ++ [e]) = pendingAfter (edgePending events) e :=
  List.foldl_append

theorem edgePending_edges (events : List EspEvent) (cs : List IrqCause) :
    edgePending (events ++ cs.map .edge) = (edgePending events || !cs.isEmpty) := by
  induction cs generalizing events with
  | nil => simp
  | cons c cs ih =>
    rw [List.map_cons, List.append_cons, ih, edgePending_snoc]
    simp [pendingAfter]

/-- Afterwards the semaphore holds what the step leaves, and the edges that follow it. -/
theorem semOk_step (board : EspBoard) {e : EspEvent}
    (h : st.sem = pendingAfter (edgePending st.log) e) : SemOk (st.step board e) := by
  rw [SemOk, step_sem, step_log, edgePending_edges, edgePending_snoc, h]

theorem SemOk.write (h : SemOk st) (board : EspBoard) (addr val : UInt8) :
    SemOk (espRegWrite board st addr val) :=
  semOk_step board h

theorem SemOk.read (h : SemOk st) (board : EspBoard) (addr : UInt8) :
    SemOk (espRegRead board st addr).2 :=
  semOk_step board h

theorem SemOk.taken (board : EspBoard) (st : EspLora) :
    SemOk ({ st with sem := false }.step board .taken) :=
  semOk_step board rfl

theorem SemOk.take (h : SemOk st) (board : EspBoard) (timeoutMs : UInt32) :
    SemOk (xSemaphoreTake board st timeoutMs).2 := by
  unfold xSemaphoreTake
  split
  · exact SemOk.taken board st
  · dsimp only
    split
    · exact SemOk.taken board _
    · have hwait : SemOk (st.step board (.wait timeoutMs)) := semOk_step board h
      exact semOk_step board hwait

/-! ### The calls -/

theorem SemOk.foldl_write {α : Type} (board : EspBoard) (f : α → UInt8 × UInt8) (xs : List α)
    (h : SemOk st) : SemOk (xs.foldl (fun st x => espRegWrite board st (f x).1 (f x).2) st) := by
  induction xs generalizing st with
  | nil => exact h
  | cons x xs ih => exact ih (h.write board _ _)

theorem SemOk.readFifo (board : EspBoard) (n : Nat) (h : SemOk st) :
    SemOk (espReadFifo board n st).2 := by
  induction n generalizing st with
  | zero => exact h
  | succ n ih => exact ih (h.read board regFifo)

theorem SemOk.init (board : EspBoard) (cfg : LoraConfig) (h : (espInit board cfg).1 = 0) :
    SemOk (espInit board cfg).2 := by
  unfold espInit at h ⊢
  split at h
  · cases h
  · rename_i hbus
    rw [if_neg hbus]
    split at h
    · cases h
    · rename_i hdevice
      rw [if_neg hdevice]
      have hreset : SemOk ((espReset (espPins cfg)).step board (.delay 10)) :=
        semOk_step board rfl
      have hsleep := hreset.write board regOpMode (modeLora ||| modeSleep)
      have hslept := semOk_step (e := .delay 10) board hsleep
      exact (hslept.foldl_write board id (espInitRegisters cfg)).write board _ _

theorem SemOk.load (h : SemOk st) (board : EspBoard) (buf : List UInt8) :
    SemOk (espLoad board st buf) := by
  have hstdby := h.write board regOpMode (modeLora ||| modeStdby)
  have hpointed := hstdby.write board regFifoAddrPtr 0x00
  have hfilled := hpointed.foldl_write board (fun x => (regFifo, x)) buf
  exact (hfilled.write board _ _).write board _ _

/-- `esp_send` at the point where it begins to wait, and after the wait. -/
def txSwitched (board : EspBoard) (st : EspLora) (buf : List UInt8) : EspLora :=
  espSetMode board (espLoad board st buf) modeTx

theorem espSend_waits (board : EspBoard) (st : EspLora) {buf : List UInt8}
    (hlen : buf.length ≤ 222) :
    let take := xSemaphoreTake board (txSwitched board st buf) 2000
    espSend board st buf =
      if take.1 then
        ((buf.length : Int),
          espSetMode board (espRegWrite board take.2 regIrqFlags 0xFF) modeStdby)
      else (-1, espSetMode board take.2 modeStdby) :=
  if_neg (Nat.not_lt.mpr hlen)

theorem SemOk.send (h : SemOk st) (board : EspBoard) (buf : List UInt8) :
    SemOk (espSend board st buf).2 := by
  by_cases hlen : buf.length ≤ 222
  · have hswitched : SemOk (txSwitched board st buf) := (h.load board buf).write board _ _
    have htake := hswitched.take board 2000
    rw [espSend_waits board st hlen]
    split
    · exact (htake.write board _ _).write board _ _
    · exact htake.write board _ _
  · rw [espSend, if_pos (not_le.mp hlen)]
    exact h

/-- `esp_recv` at the point where it begins to wait. -/
def espRxArmed (board : EspBoard) (st : EspLora) : EspLora :=
  espSetMode board (espRegWrite board (espSetMode board st modeStdby) regIrqMask 0x00) modeRxSingle

theorem SemOk.recv (h : SemOk st) (board : EspBoard) (cap : Nat) (timeoutMs : UInt32) :
    SemOk (espRecv board st cap timeoutMs).state := by
  have harmed : SemOk (espRxArmed board st) :=
    ((h.write board _ _).write board _ _).write board _ _
  have htake := harmed.take board timeoutMs
  unfold espRecv
  dsimp only
  split
  · exact htake.write board _ _
  · have hcleared := (htake.read board regIrqFlags).write board regIrqFlags 0xFF
    split
    · exact hcleared.write board _ _
    · split
      · exact hcleared.write board _ _
      · have hpointed := ((hcleared.read board regRxNbBytes).read board regFifoRxCurr).write board
          regFifoAddrPtr
        exact (SemOk.readFifo board _ (hpointed _)).write board _ _

/-! ### Waiting for `TX_DONE` -/

theorem radioSent_snoc (events : List EspEvent) (e : EspEvent) :
    radioSent (events ++ [e]) = sentAfter (radioSent events) e :=
  List.foldl_append

theorem radioSent_edges (events : List EspEvent) (cs : List IrqCause) :
    radioSent (events ++ cs.map .edge) = (radioSent events || decide (.txDone ∈ cs)) := by
  induction cs generalizing events with
  | nil => simp
  | cons c cs ih =>
    rw [List.map_cons, List.append_cons, ih, radioSent_snoc]
    cases c <;> simp [sentAfter]

/-- Whatever the driver does but a new switch to `MODE_TX`, a frame that is out stays so. -/
theorem radioSent_step (board : EspBoard) {e : EspEvent} (h : radioSent st.log = true)
    (he : sentAfter true e = true) : radioSent (st.step board e).log = true := by
  rw [step_log, radioSent_edges, radioSent_snoc, h, he, Bool.true_or]

theorem switched_log (board : EspBoard) (st : EspLora) (buf : List UInt8) :
    (txSwitched board st buf).log
      = switchedLog board st buf ++ (board.edges (switchedLog board st buf)).map .edge :=
  step_log board _ _

theorem switched_sem (board : EspBoard) (h : SemOk st) (buf : List UInt8) :
    (txSwitched board st buf).sem = (edgePending (switchedLog board st buf)
      || !(board.edges (switchedLog board st buf)).isEmpty) := by
  have hload : (espLoad board st buf).sem = edgePending (switchedLog board st buf) := by
    rw [switchedLog, edgePending_snoc]
    exact h.load board buf
  rw [← hload]
  exact step_sem board _ _

/-- `esp_send` waits with success if an edge is left over or one comes. -/
theorem take_fst (board : EspBoard) (h : SemOk st) (buf : List UInt8) :
    (xSemaphoreTake board (txSwitched board st buf) 2000).1
      = (edgePending (switchedLog board st buf) || !(wakingEdges board st buf).isEmpty) := by
  have hsem := switched_sem board h buf
  have hlog := switched_log board st buf
  unfold wakingEdges
  by_cases hnone : board.edges (switchedLog board st buf) = []
  · rw [hnone, List.isEmpty_nil, Bool.not_true, Bool.or_false] at hsem
    rw [hnone, List.map_nil, List.append_nil] at hlog
    rw [if_neg (not_not.mpr hnone)]
    have hwait := step_sem board (txSwitched board st buf) (.wait 2000)
    rw [hlog, hsem] at hwait
    unfold xSemaphoreTake
    rw [hsem]
    dsimp only
    rw [hwait]
    split
    · rename_i hpending
      rw [hpending, Bool.true_or]
    · split
      · rename_i hcame
        rw [hcame]
      · rename_i hcame
        rw [Bool.eq_false_iff.mpr hcame]
  · rw [if_pos hnone]
    rw [List.isEmpty_eq_false_iff.mpr hnone, Bool.not_false, Bool.or_true] at hsem ⊢
    unfold xSemaphoreTake
    rw [if_pos hsem]

/-- With nothing left over, an edge of `TX_DONE` among those that wake it says that the frame is
    out. -/
theorem take_sent (board : EspBoard) (h : SemOk st) (buf : List UInt8)
    (hnone : edgePending (switchedLog board st buf) = false)
    (hdone : .txDone ∈ wakingEdges board st buf) :
    radioSent (xSemaphoreTake board (txSwitched board st buf) 2000).2.log = true := by
  have hsem := switched_sem board h buf
  have hlog := switched_log board st buf
  rw [hnone, Bool.false_or] at hsem
  unfold wakingEdges at hdone
  split at hdone
  · rename_i hcame
    have hsent : radioSent (txSwitched board st buf).log = true := by
      rw [hlog, radioSent_edges, decide_eq_true hdone, Bool.or_true]
    rw [List.isEmpty_eq_false_iff.mpr hcame, Bool.not_false] at hsem
    unfold xSemaphoreTake
    rw [if_pos hsem]
    exact radioSent_step board hsent rfl
  · rename_i hquiet
    rw [not_not.mp hquiet, List.isEmpty_nil, Bool.not_true] at hsem
    rw [not_not.mp hquiet, List.map_nil, List.append_nil] at hlog
    have hsent : radioSent ((txSwitched board st buf).step board (.wait 2000)).log = true := by
      rw [step_log, hlog, radioSent_edges, decide_eq_true hdone, Bool.or_true]
    unfold xSemaphoreTake
    rw [hsem, if_neg Bool.false_ne_true]
    dsimp only
    split
    · exact radioSent_step board hsent rfl
    · exact radioSent_step board hsent rfl

/-! ### A send -/

/-- A send that is too long is refused and needs no condition. -/
theorem espSend_sent (h : SemOk st) {buf : List UInt8}
    (hclean : buf.length ≤ 222 → CleanSend board st buf)
    (hpos : 0 < (espSend board st buf).1) : radioSent (espSend board st buf).2.log = true := by
  by_cases hlen : buf.length ≤ 222
  · obtain ⟨hnone, hhead⟩ := hclean hlen
    rw [espSend_waits board st hlen] at hpos ⊢
    by_cases htake : (xSemaphoreTake board (txSwitched board st buf) 2000).1 = true
    · have hdone : .txDone ∈ wakingEdges board st buf := by
        rw [take_fst board h, hnone, Bool.false_or] at htake
        cases hwaking : wakingEdges board st buf with
        | nil =>
          rw [hwaking] at htake
          cases htake
        | cons c cs =>
          cases c with
          | rxDone =>
            rw [hwaking] at hhead
            exact absurd rfl hhead
          | txDone => exact List.mem_cons_self
      have hsent := take_sent board h buf hnone hdone
      rw [if_pos htake]
      exact radioSent_step board (radioSent_step board hsent (by decide)) (by decide)
    · rw [if_neg htake] at hpos
      have hneg : (0 : Int) < -1 := hpos
      exact absurd hneg (by decide)
  · have hrefused : (espSend board st buf).1 = -1 := by rw [espSend, if_pos (not_le.mp hlen)]
    rw [hrefused] at hpos
    exact absurd hpos (by decide)

theorem espSend_unclean (h : SemOk st) {buf : List UInt8} (hunclean : ¬ CleanSend board st buf)
    (hlen : buf.length ≤ 222) : (espSend board st buf).1 = buf.length := by
  have htake : (xSemaphoreTake board (txSwitched board st buf) 2000).1 = true := by
    rw [take_fst board h]
    cases hpending : edgePending (switchedLog board st buf) with
    | true => rfl
    | false =>
      have hhead : (wakingEdges board st buf).head? = some .rxDone :=
        not_not.mp fun hother => hunclean ⟨hpending, hother⟩
      cases hwaking : wakingEdges board st buf with
      | nil =>
        rw [hwaking] at hhead
        cases hhead
      | cons c cs => rfl
  rw [espSend_waits board st hlen, if_pos htake]

end

/-- **In a run whose sends are all clean every send that is reported was sent**; those of more
    than 222 bytes, which are refused, need not be. And in any run a send that is not clean is
    reported, whether it was sent or not. -/
theorem espSend_reports (board : EspBoard) (cfg : LoraConfig) (ops : List EspOp) :
    ((∀ e ∈ espLog board cfg ops, ∀ buf, e.call = .send buf → buf.length ≤ 222 →
        CleanSend board e.before buf) →
      ∀ e ∈ espLog board cfg ops, ReportsASend e) ∧
    ∀ e ∈ espLog board cfg ops, ∀ buf, e.call = .send buf → ¬ CleanSend board e.before buf →
      buf.length ≤ 222 → e.answer = buf.length := by
  have hcalls : ∀ e ∈ espLog board cfg ops, ∀ buf, e.call = .send buf →
      ((buf.length ≤ 222 → CleanSend board e.before buf) → 0 < e.answer →
        radioSent e.after.log = true) ∧
      (¬ CleanSend board e.before buf → buf.length ≤ 222 → e.answer = buf.length) := by
    unfold espLog
    split
    · rename_i hinit
      refine forall_mem_log_of_invariant (fun st op hsem => ?_) ops _ (SemOk.init board cfg hinit)
      cases op with
      | send buf =>
        refine ⟨?_, hsem.send board buf⟩
        rintro _ ⟨⟩
        exact ⟨fun hclean => espSend_sent hsem hclean, fun hunclean => espSend_unclean hsem hunclean⟩
      | recv cap timeoutMs =>
        refine ⟨?_, hsem.recv board cap timeoutMs⟩
        rintro _ ⟨⟩
    · exact fun e he => absurd he List.not_mem_nil
  exact ⟨fun hclean e he buf hcall => (hcalls e he buf hcall).1 (hclean e he buf hcall),
    fun e he buf hcall => (hcalls e he buf hcall).2⟩

/-- The configuration `main_esp32` opens the radio with, and the radio once it has. -/
def mainEspConfig : LoraConfig := loraConfigDefault868 10 5 6 7

def mainEspStart (board : EspBoard) : EspLora := (espInit board mainEspConfig).2

/-- A radio that says `TX_DONE` whenever the driver waits. -/
def promptBoard : EspBoard :=
  { spiBus := true
    spiDevice := true
    reg := fun _ _ => 0
    edges := fun events => if events.getLast? = some (.wait 2000) then [.txDone] else [] }

theorem promptBoard_log : espLog promptBoard mainEspConfig [.send [1, 2, 3]]
    = [called (espCall promptBoard) (mainEspStart promptBoard) (.send [1, 2, 3])] := by
  have hinit : (espInit promptBoard mainEspConfig).1 = 0 := by decide
  rw [espLog, if_pos hinit]
  rfl

theorem espSend_reports_promptBoard :
    (espSend promptBoard (mainEspStart promptBoard) [1, 2, 3]).1 = 3 ∧
    ReportsASend (called (espCall promptBoard) (mainEspStart promptBoard) (.send [1, 2, 3])) := by
  have hrun : ((espSend promptBoard (mainEspStart promptBoard) [1, 2, 3]).1,
      decide (CleanSend promptBoard (mainEspStart promptBoard) [1, 2, 3])) = (3, true) := by
    decide +kernel
  obtain ⟨hanswer, hclean⟩ := Prod.mk.inj hrun
  refine ⟨hanswer, ?_⟩
  refine (espSend_reports promptBoard mainEspConfig [.send [1, 2, 3]]).1 ?_ _ ?_
  · rw [promptBoard_log]
    intro e he buf hcall _
    rw [List.mem_singleton.mp he] at hcall ⊢
    cases hcall
    exact of_decide_eq_true hclean
  · rw [promptBoard_log]
    exact List.mem_singleton_self _

/-! ### A frame that comes too late -/

/-- A radio that says `RX_DONE` right after a receive has timed out, and nothing else ever. -/
def lateFrameBoard : EspBoard :=
  { spiBus := true
    spiDevice := true
    reg := fun _ _ => 0
    edges := fun events => if events.getLast? = some .timedOut then [.rxDone] else [] }

/-- A receive, and then a send. -/
def lateFrameOps : List EspOp := [.recv 256 5000, .send [1, 2, 3]]

def lateFrameLog : List (Called EspLora EspOp Int) :=
  espLog lateFrameBoard mainEspConfig lateFrameOps

/-- The send among them. -/
def lateFrameSend : Called EspLora EspOp Int :=
  called (espCall lateFrameBoard)
    (espCall lateFrameBoard (mainEspStart lateFrameBoard) (.recv 256 5000)).2 (.send [1, 2, 3])

theorem mem_lateFrameLog : lateFrameSend ∈ lateFrameLog := by
  have hinit : (espInit lateFrameBoard mainEspConfig).1 = 0 := by decide
  rw [lateFrameLog, espLog, if_pos hinit]
  exact List.mem_cons_of_mem _ List.mem_cons_self

/-- It is reported, and nothing has been sent. -/
theorem lateFrame_reported :
    lateFrameLog.map (fun e => (e.answer, radioSent e.after.log)) = [(0, false), (3, false)] ∧
    ¬ ∀ e ∈ lateFrameLog, ReportsASend e := by
  refine ⟨by decide, fun hreports => ?_⟩
  have hrun : (lateFrameSend.answer, radioSent lateFrameSend.after.log) = (3, false) := by decide
  obtain ⟨hanswer, hnotsent⟩ := Prod.mk.inj hrun
  have hsent := hreports _ mem_lateFrameLog [1, 2, 3] rfl (by rw [hanswer]; decide)
  rw [hnotsent] at hsent
  cases hsent

end DtnHardware
