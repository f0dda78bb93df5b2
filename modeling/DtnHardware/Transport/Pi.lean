import DtnHardware.Core.Types

/-!
# `transport/lora_pi` — the SX1276 on the Pi

The driver talks to the radio over SPI and hears from it through one line, DIO0. Everything
it says is kept: `bus` is the list of what went over the wires so far, reads and waits
included. What the world answers is a `Board`, and its answers may depend on all of `bus`;
so a board is any radio, any frame arriving at any moment, and any kernel.

> **`init`, `send` and `recv` leave the radio in standby**, on every one of their paths
> (`Standby`).

There is no call that leaves it in a receive mode: `pi_recv` enters `MODE_RX_SINGLE`, waits,
and takes the mode back before it returns.
-/

set_option autoImplicit false

namespace DtnHardware

/-! ## The SX1276 -/

def regFifo : UInt8 := 0x00
def regOpMode : UInt8 := 0x01
def regFrfMsb : UInt8 := 0x06
def regFrfMid : UInt8 := 0x07
def regFrfLsb : UInt8 := 0x08
def regPaConfig : UInt8 := 0x09
def regFifoAddrPtr : UInt8 := 0x0D
def regFifoTxBase : UInt8 := 0x0E
def regFifoRxBase : UInt8 := 0x0F
def regFifoRxCurr : UInt8 := 0x10
def regIrqMask : UInt8 := 0x11
def regIrqFlags : UInt8 := 0x12
def regRxNbBytes : UInt8 := 0x13
def regPktRssiValue : UInt8 := 0x1A
def regModemConfig1 : UInt8 := 0x1D
def regModemConfig2 : UInt8 := 0x1E
def regPreambleMsb : UInt8 := 0x20
def regPreambleLsb : UInt8 := 0x21
def regPayloadLength : UInt8 := 0x22
def regSyncWord : UInt8 := 0x39

def modeSleep : UInt8 := 0x00
def modeStdby : UInt8 := 0x01
def modeTx : UInt8 := 0x03
def modeRxCont : UInt8 := 0x05
def modeRxSingle : UInt8 := 0x06
def modeLora : UInt8 := 0x80

def irqTxDoneMask : UInt8 := 0x08
def irqRxDoneMask : UInt8 := 0x40
def irqPayloadCrcErr : UInt8 := 0x20

/-! ## The board -/

/-- What the driver does to the outside. -/
inductive BusOp where
  | write (addr val : UInt8)
  | read (addr : UInt8)
  /-- `poll` on the event fd, with its timeout -/
  | poll (timeoutMs : UInt32)
  /-- `read` of one event from the event fd -/
  | drain
  /-- `usleep(1000)` -/
  | sleep
deriving DecidableEq

/-- Everything outside the driver: what `open` and the line-event `ioctl` return, what a
    register holds and whether `poll` finds an edge after what has happened so far. -/
structure Board where
  spidev : Int
  gpiochip : Int
  /-- `req.fd`; `none` when the kernel offers no edge events -/
  lineEvent : Option Int
  reg : List BusOp → UInt8 → UInt8
  edge : List BusOp → Bool

/-- `lora_config_t`. -/
structure LoraConfig where
  freqMhz : ℚ
  sf : UInt8
  bwHz : UInt32
  txPowerDbm : UInt8
  codingRate : UInt32
  preambleLen : UInt32
  syncWord : Int32
  csPin : Int32
  resetPin : Int32
  dio0Pin : Int32
  dio1Pin : Int32

def loraConfigDefault868 (cs reset dio0 dio1 : Int32) : LoraConfig :=
  { freqMhz := 868, sf := 12, bwHz := 125000, txPowerDbm := 14, codingRate := 5,
    preambleLen := 8, syncWord := 0x34, csPin := cs, resetPin := reset, dio0Pin := dio0,
    dio1Pin := dio1 }

/-- `pi_lora_state_t`, with what went over the bus. -/
structure PiLora where
  spiFd : Int
  gpiochipFd : Int
  dio0Fd : Int
  opMode : UInt8
  bus : List BusOp

/-- The state after `lora_transport_init_pi`: `memset` to zero, two of the fds closed. -/
def loraTransportInitPi : PiLora :=
  { spiFd := -1, gpiochipFd := -1, dio0Fd := 0, opMode := 0, bus := [] }

/-! ## Registers -/

def PiLora.push (st : PiLora) (op : BusOp) : PiLora := { st with bus := st.bus ++ [op] }

def regWrite (st : PiLora) (addr val : UInt8) : PiLora := st.push (.write addr val)

def regRead (board : Board) (st : PiLora) (addr : UInt8) : UInt8 × PiLora :=
  (board.reg st.bus addr, st.push (.read addr))

def setMode (st : PiLora) (mode : UInt8) : PiLora :=
  { regWrite st regOpMode (modeLora ||| mode) with opMode := modeLora ||| mode }

/-! ## Opening -/

/-- The FRF registers: `(uint32_t)(freq * 2^19 / 32)`. -/
def frfOf (cfg : LoraConfig) : UInt32 := (⌊cfg.freqMhz * 2 ^ 19 / 32⌋).toNat.toUInt32

/-- The registers `pi_init` sets while the radio sleeps, in order. -/
def initRegisters (cfg : LoraConfig) : List (UInt8 × UInt8) :=
  [(regFrfMsb, (frfOf cfg >>> 16).toUInt8), (regFrfMid, (frfOf cfg >>> 8).toUInt8),
    (regFrfLsb, (frfOf cfg).toUInt8),
    (regPaConfig, 0x80 ||| (cfg.txPowerDbm &&& 0x0F)),
    -- the source names neither `0x0C`, the LNA, nor `0x1F`, the symbol timeout
    (0x0C, 0x23),
    (regModemConfig1, ((0x07 : UInt8) <<< 4) ||| (((cfg.codingRate - 4) &&& 0x07).toUInt8 <<< 1)),
    (regModemConfig2, (cfg.sf <<< 4) ||| 0x04),
    (0x1F, 0x00),
    (regPreambleMsb, ((cfg.preambleLen >>> 8) &&& 0xFF).toUInt8),
    (regPreambleLsb, (cfg.preambleLen &&& 0xFF).toUInt8),
    (regSyncWord, cfg.syncWord.toUInt32.toUInt8),
    (regFifoTxBase, 0x00), (regFifoRxBase, 0x00)]

/-- The GPIO half of `pi_init`: an event fd if the chip opens and offers line events. -/
def openDio0 (board : Board) (st : PiLora) : PiLora :=
  if board.gpiochip < 0 then { st with gpiochipFd := -1, dio0Fd := -1 }
  else { st with gpiochipFd := board.gpiochip, dio0Fd := board.lineEvent.getD (-1) }

/-- `pi_init`: the return value and the state. -/
def piInit (board : Board) (st : PiLora) (cfg : LoraConfig) : Int × PiLora :=
  let st := { st with spiFd := board.spidev }
  if st.spiFd < 0 then (-1, st)
  else
    let st := setMode st modeSleep
    let st := (initRegisters cfg).foldl (fun st r => regWrite st r.1 r.2) st
    let st := openDio0 board st
    (0, setMode st modeStdby)

/-! ## Waiting for DIO0 -/

/-- `poll` on the event fd, and the event drained if there is one. -/
def pollEdge (board : Board) (st : PiLora) (timeoutMs : UInt32) : Bool × PiLora :=
  let polled := st.push (.poll timeoutMs)
  if board.edge polled.bus then (true, polled.push .drain) else (false, polled)

/-- The fallback loop with `n` rounds left: read `REG_IRQ_FLAGS` until a flag of `mask`
    is up. -/
def pollIrqFlags (board : Board) (mask : UInt8) : Nat → UInt8 × PiLora → UInt8 × PiLora
  | 0, r => r
  | n + 1, (irq, st) =>
      if irq &&& mask ≠ 0 then (irq, st)
      else
        let (irq, st) := regRead board st regIrqFlags
        pollIrqFlags board mask n (irq, st.push .sleep)

/-- Both ways to wait: `irq`, `got_irq` and the state. With an event fd the flags are not
    read yet. -/
def awaitIrq (board : Board) (st : PiLora) (mask : UInt8) (timeoutMs : UInt32) :
    UInt8 × Bool × PiLora :=
  if st.dio0Fd ≥ 0 then
    let (got, st) := pollEdge board st timeoutMs
    (0, got, st)
  else
    let (irq, st) := pollIrqFlags board mask timeoutMs.toNat (0, st)
    (irq, decide (irq &&& mask ≠ 0), st)

/-! ## Sending -/

/-- `pi_send`: the return value and the state. -/
def piSend (board : Board) (st : PiLora) (buf : List UInt8) : Int × PiLora :=
  if buf.length > 222 then (-1, st)
  else
    let st := setMode st modeStdby
    let st := regWrite st regFifoAddrPtr 0x00
    let st := buf.foldl (fun st x => regWrite st regFifo x) st
    let st := regWrite st regPayloadLength buf.length.toUInt8
    let st := regWrite st regIrqMask 0x00
    let st := setMode st modeTx
    let (irq, gotIrq, st) := awaitIrq board st irqTxDoneMask 2000
    let (irq, st) :=
      if gotIrq ∧ st.dio0Fd ≥ 0 then regRead board st regIrqFlags else (irq, st)
    let st := regWrite st regIrqFlags 0xFF
    let st := setMode st modeStdby
    (if irq &&& irqTxDoneMask ≠ 0 then buf.length else -1, st)

/-! ## Receiving -/

/-- What `pi_recv` returns, what it wrote to `buf`, and the state. -/
structure PiRecv where
  ret : Int
  bytes : List UInt8
  state : PiLora

/-- `n` reads of the FIFO. -/
def readFifo (board : Board) : Nat → PiLora → List UInt8 × PiLora
  | 0, st => ([], st)
  | n + 1, st =>
      let (x, st) := regRead board st regFifo
      let (xs, st) := readFifo board n st
      (x :: xs, st)

/-- The tail of `pi_recv` once something has happened and `irq` is known. -/
def takeFrame (board : Board) (st : PiLora) (irq : UInt8) (cap : Nat) : PiRecv :=
  if irq &&& irqPayloadCrcErr ≠ 0 then
    ⟨-1, [], setMode (regWrite st regIrqFlags 0xFF) modeStdby⟩
  else if irq &&& irqRxDoneMask = 0 then ⟨0, [], setMode st modeStdby⟩
  else
    let st := regWrite st regIrqFlags 0xFF
    let (rxLen, st) := regRead board st regRxNbBytes
    let rxLen := min rxLen.toNat cap
    let (fifoAddr, st) := regRead board st regFifoRxCurr
    let st := regWrite st regFifoAddrPtr fifoAddr
    let (bytes, st) := readFifo board rxLen st
    ⟨rxLen, bytes, setMode st modeStdby⟩

/-- `pi_recv`. -/
def piRecv (board : Board) (st : PiLora) (cap : Nat) (timeoutMs : UInt32) : PiRecv :=
  let st := setMode st modeStdby
  let st := regWrite st regIrqMask 0x00
  let st := setMode st modeRxSingle
  let (irq, gotIrq, st) := awaitIrq board st irqRxDoneMask timeoutMs
  if !gotIrq then ⟨0, [], setMode st modeStdby⟩
  else
    let (irq, st) := if st.dio0Fd ≥ 0 then regRead board st regIrqFlags else (irq, st)
    takeFrame board st irq cap

/-- `pi_rssi`. -/
def piRssi (board : Board) (st : PiLora) : Int32 × PiLora :=
  let (r, st) := regRead board st regPktRssiValue
  (r.toUInt32.toInt32 - 157, st)

/-- `pi_get_irq_fd`. -/
def piGetIrqFd (st : PiLora) : Int := st.dio0Fd

/-! ## Standby -/

/-- The mode the radio has been told, one operation later. -/
def modeAfter (mode : Option UInt8) : BusOp → Option UInt8
  | .write addr val => if addr = regOpMode then some val else mode
  | .read _ | .poll _ | .drain | .sleep => mode

/-- The value of the last write to `REG_OP_MODE`. -/
def lastMode (bus : List BusOp) : Option UInt8 := bus.foldl modeAfter none

theorem lastMode_push (st : PiLora) (op : BusOp) :
    lastMode (st.push op).bus = modeAfter (lastMode st.bus) op := by
  unfold lastMode PiLora.push
  rw [List.foldl_append]
  rfl

/-- The driver believes that the radio is in standby, and has told it so. -/
structure Standby (st : PiLora) : Prop where
  opMode : st.opMode = modeLora ||| modeStdby
  told : lastMode st.bus = some (modeLora ||| modeStdby)

theorem standby_setMode (st : PiLora) : Standby (setMode st modeStdby) :=
  ⟨rfl, by rw [setMode, regWrite]; exact lastMode_push st _⟩

theorem Standby.regRead {st : PiLora} (h : Standby st) (board : Board) (addr : UInt8) :
    Standby (regRead board st addr).2 :=
  ⟨h.opMode, (lastMode_push st _).trans h.told⟩

/-- A successful `pi_init` ends in standby. -/
theorem standby_piInit {board : Board} {st : PiLora} {cfg : LoraConfig}
    (h : (piInit board st cfg).1 = 0) : Standby (piInit board st cfg).2 := by
  unfold piInit at h ⊢
  dsimp only at h ⊢
  split at h
  · cases h
  · rename_i hopen
    rw [if_neg hopen]
    exact standby_setMode _

/-- So does every `pi_send`: one that is too long does not touch the radio. -/
theorem Standby.piSend {st : PiLora} (h : Standby st) (board : Board) (buf : List UInt8) :
    Standby (piSend board st buf).2 := by
  unfold DtnHardware.piSend
  split
  · exact h
  · exact standby_setMode _

theorem standby_takeFrame (board : Board) (st : PiLora) (irq : UInt8) (cap : Nat) :
    Standby (takeFrame board st irq cap).state := by
  unfold takeFrame
  split
  · exact standby_setMode _
  · split
    · exact standby_setMode _
    · exact standby_setMode _

/-- And every `pi_recv`: timeout, CRC error, spurious wake or frame. -/
theorem standby_piRecv (board : Board) (st : PiLora) (cap : Nat) (timeoutMs : UInt32) :
    Standby (piRecv board st cap timeoutMs).state := by
  unfold piRecv
  dsimp only
  split
  · exact standby_setMode _
  · exact standby_takeFrame board _ _ cap

theorem Standby.piRssi {st : PiLora} (h : Standby st) (board : Board) :
    Standby (piRssi board st).2 := h.regRead board regPktRssiValue

/-- The modes in which the SX1276 receives. -/
def receiving (opMode : UInt8) : Bool :=
  decide (opMode &&& 0x07 = modeRxCont) || decide (opMode &&& 0x07 = modeRxSingle)

theorem Standby.not_receiving {st : PiLora} (h : Standby st) : receiving st.opMode = false := by
  rw [h.opMode]
  decide

end DtnHardware
