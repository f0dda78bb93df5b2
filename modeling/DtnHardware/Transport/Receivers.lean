import DtnHardware.Transport.Reception

/-!
# What the drivers receive

> **What a call returns is a frame that came in during the call, whole but for the buffer's
> length, with a good CRC**, if `RX_DONE` is down when the call begins (`piRecv_whole`,
> `espRecv_whole`).

It is after a send: `pi_send` clears the flags whatever has happened, `esp_send` does if it
reports the frame as sent. The drivers do not clear them when a receive times out. If a frame
comes just then, the next call begins with the flag up, and takes what is in the FIFO for a frame
while the radio is still filling it.
-/

set_option autoImplicit false

namespace DtnHardware

open Interference

/-! ## The Pi -/

section
variable {board : Board} {c : Course radio BusOp.host} {n : Nat}

def piPort (hreads : Reads c board.reg) : Port c PiLora where
  hist := PiLora.bus
  read := regRead board
  write := regWrite
  reads st addr := hreads st.bus addr
  does_read st addr := piDoes_push st (.read addr)
  does_write := piDoes_regWrite

theorem readFifo_eq (hreads : Reads c board.reg) (m : Nat) (st : PiLora) :
    readFifo board m st = (piPort hreads).bytes m st := by
  induction m generalizing st with
  | zero => rfl
  | succ m ih =>
    have hstep : readFifo board (m + 1) st = ((regRead board st regFifo).1 ::
        (readFifo board m (regRead board st regFifo).2).1,
        (readFifo board m (regRead board st regFifo).2).2) := rfl
    rw [hstep, ih]
    rfl

theorem piDoes_rxArmed (st : PiLora) : PiDoes st (rxArmed st) armOps :=
  ((piDoes_setMode st modeStdby).trans (piDoes_regWrite _ regIrqMask 0x00)).trans
    (piDoes_setMode _ modeRxSingle)

/-- What does not touch the radio keeps what is known of it. -/
theorem PiDoes.keeps {Q : Sx1276 → Prop} (hQ : radio.Stable Q) {st st' : PiLora}
    (h : PiDoes st st' []) (hs : Q (c.state st.bus)) : Q (c.state st'.bus) :=
  (c.triple (.nil hQ) h hs).2

/-- The loop, from any round on. -/
theorem seen_pollIrqFlags (hreads : Reads c board.reg) (mask : UInt8) (m : Nat) (irq : UInt8)
    (st : PiLora) (h : Waiting n (c.state st.bus)) (hseen : Seen n irq (c.state st.bus)) :
    Seen n (pollIrqFlags board mask m (irq, st)).1
      (c.state (pollIrqFlags board mask m (irq, st)).2.bus) := by
  induction m generalizing irq st with
  | zero => exact hseen
  | succ m ih =>
    rw [pollIrqFlags]
    split
    · exact hseen
    · obtain ⟨hwait, hread⟩ := (piPort hreads).seen_read st h
      have hsleep := piDoes_push (regRead board st regIrqFlags).2 .sleep
      exact ih _ _ (PiDoes.keeps (stable_waiting n) hsleep hwait)
        (PiDoes.keeps (stable_seen n _) hsleep hread)

/-- The tail, once the flags have been seen. -/
theorem takeFrame_whole (hreads : Reads c board.reg) {st : PiLora} {irq : UInt8}
    (h : Seen n irq (c.state st.bus)) (cap : Nat)
    (hpos : 0 < (takeFrame board st irq cap).ret) :
    Whole n cap (takeFrame board st irq cap).bytes
      (c.state (takeFrame board st irq cap).state.bus) := by
  by_cases hcrc : irq &&& irqPayloadCrcErr = 0
  · by_cases hrx : irq &&& irqRxDoneMask = 0
    · rw [takeFrame, if_neg (not_not.mpr hcrc), if_pos hrx] at hpos
      cases hpos
    · obtain ⟨f, hheld, hok⟩ := h hcrc hrx
      have hclear : radio.Triple (Held n f) [.write regIrqFlags 0xFF]
          (none : Option Transmission).toList (Held n f) :=
        .act (stable_held n f) (stable_held n f) fun c h => ⟨rfl, h.cleared⟩
      have hcleared := (c.triple hclear (piDoes_regWrite st regIrqFlags 0xFF) hheld).2
      obtain ⟨hbytes, hend⟩ := (piPort hreads).frame_held (tailCleared st) cap hcleared
      have hrest : radio.Triple (Held n f) [modeOp modeStdby] (none : Option Transmission).toList
          (Held n f) :=
        .act (stable_held n f) (stable_held n f) fun c h => ⟨rfl, h.standby⟩
      have htail : takeFrame board st irq cap = ⟨tailLength board st cap,
          ((piPort hreads).frame (tailCleared st) cap).1,
          setMode ((piPort hreads).frame (tailCleared st) cap).2 modeStdby⟩ := by
        rw [takeFrame, if_neg (not_not.mpr hcrc), if_neg hrx]
        simp only [readFifo_eq hreads]
        rfl
      rw [htail]
      have hdone := (c.triple hrest (piDoes_setMode _ modeStdby) hend).2
      exact ⟨f, hdone.recent, hok, hbytes⟩
  · rw [takeFrame, if_pos hcrc] at hpos
    cases hpos

/-- **A receive that begins without a frame.** -/
theorem piRecv_whole_of_idle (hreads : Reads c board.reg) {st : PiLora}
    (h : Idle n (c.state st.bus)) (cap : Nat) (timeoutMs : UInt32)
    (hpos : 0 < (piRecv board st cap timeoutMs).ret) :
    Whole n cap (piRecv board st cap timeoutMs).bytes
      (c.state (piRecv board st cap timeoutMs).state.bus) := by
  have harmed := (c.triple (triple_armOps n) (piDoes_rxArmed st) h).2
  by_cases hfd : 0 ≤ st.dio0Fd
  · have hpolled := PiDoes.keeps (stable_waiting n) (piDoes_push (rxArmed st) (.poll timeoutMs))
      harmed
    have hdrained := PiDoes.keeps (stable_waiting n) (piDoes_push _ .drain) hpolled
    have hevent := piRecv_event board hfd cap timeoutMs
    dsimp only at hevent
    rw [hevent] at hpos ⊢
    split
    · rename_i hedge
      rw [if_pos hedge] at hpos
      exact takeFrame_whole hreads ((piPort hreads).seen_read _ hdrained).2 cap hpos
    · rename_i hedge
      rw [if_neg hedge] at hpos
      cases hpos
  · have hpolling := piRecv_polling board (not_le.mp hfd) cap timeoutMs
    dsimp only at hpolling
    rw [hpolling] at hpos ⊢
    split
    · rename_i hup
      rw [if_pos hup] at hpos
      have hnothing : Seen n 0 (c.state (rxArmed st).bus) := fun _ hdone =>
        absurd hdone (by decide)
      exact takeFrame_whole hreads (seen_pollIrqFlags hreads _ _ 0 _ harmed hnothing) cap hpos
    · rename_i hup
      rw [if_neg hup] at hpos
      cases hpos

theorem atRest_setMode (c : Course radio BusOp.host) (st : PiLora) :
    AtRest (c.state (setMode st modeStdby).bus) :=
  c.after (a := modeOp modeStdby) stable_atRest (fun s => reg_mode s modeStdby)
    (piDoes_setMode st modeStdby)

theorem atRest_piInit {st : PiLora} {cfg : LoraConfig} (c : Course radio BusOp.host)
    (h : (piInit board st cfg).1 = 0) : AtRest (c.state (piInit board st cfg).2.bus) := by
  unfold piInit at h ⊢
  dsimp only at h ⊢
  split at h
  · cases h
  · rename_i hopen
    rw [if_neg hopen]
    exact atRest_setMode c _

theorem atRest_takeFrame (c : Course radio BusOp.host) (st : PiLora) (irq : UInt8) (cap : Nat) :
    AtRest (c.state (takeFrame board st irq cap).state.bus) := by
  unfold takeFrame
  split
  · exact atRest_setMode c _
  · split
    · exact atRest_setMode c _
    · exact atRest_setMode c _

/-- **Between the calls the radio rests**, not only as far as it has been told. -/
theorem atRest_piCall {st : PiLora} (h : AtRest (c.state st.bus)) (op : PiOp) :
    AtRest (c.state (piCall board st op).bus) := by
  cases op with
  | send buf =>
    rw [piCall, piSend]
    split
    · exact h
    · exact atRest_setMode c _
  | recv cap timeoutMs =>
    rw [piCall, piRecv]
    dsimp only
    split
    · exact atRest_setMode c _
    · exact atRest_takeFrame c _ _ cap
  | rssi =>
    refine c.keeps stable_atRest (fun a ha s hs => ?_) (piAsks_regRead board st regPktRssiValue) h
    exact hs.asks ha

theorem atRest_piAfter {cfg : LoraConfig} (c : Course radio BusOp.host)
    (hinit : (piInit board loraTransportInitPi cfg).1 = 0) (ops : List PiOp) :
    AtRest (c.state (piAfter board cfg ops).bus) := by
  induction ops using List.reverseRecOn with
  | nil => exact atRest_piInit c hinit
  | append_singleton ops op ih =>
    rw [piAfter, List.foldl_append]
    exact atRest_piCall ih op

/-- **A send clears the flags**, whatever has come meanwhile. -/
theorem clear_piSend (c : Course radio BusOp.host) (board : Board) (st : PiLora)
    {buf : List UInt8} (hshort : buf.length ≤ 222) :
    Clear (c.state (piSend board st buf).2.bus) := by
  have hsending : Deaf (c.state (txArmed st buf).bus) :=
    c.after (a := modeOp modeTx) stable_deaf deaf_modeTx (piDoes_setMode _ modeTx)
  have hasks (st st' : PiLora) (h : PiAsks st st') (hdeaf : Deaf (c.state st.bus)) :
      Deaf (c.state st'.bus) :=
    c.keeps stable_deaf (fun a ha s hs => hs.asks ha) h hdeaf
  have hend (st : PiLora) (hdeaf : Deaf (c.state st.bus)) :
      Clear (c.state (setMode (regWrite st regIrqFlags 0xFF) modeStdby).bus) :=
    (c.triple triple_clear
      ((piDoes_regWrite st regIrqFlags 0xFF).trans (piDoes_setMode _ modeStdby)) hdeaf).2
  have hwaited := hasks _ _ (piAsks_awaitIrq board (txArmed st buf) irqTxDoneMask 2000) hsending
  rw [piSend, if_neg (by omega)]
  dsimp only
  split
  · exact hend _ (hasks _ _ (piAsks_regRead board _ regIrqFlags) hwaited)
  · exact hend _ hwaited

/-- **What a receive of the Pi returns**, in any sequence of calls and whenever the frame
    comes. -/
theorem piRecv_whole (board : Board) (cfg : LoraConfig) (c : Course radio BusOp.host)
    (hreads : Reads c board.reg) (hinit : (piInit board loraTransportInitPi cfg).1 = 0)
    (ops : List PiOp) (cap : Nat) (timeoutMs : UInt32)
    (hdown : (c.state (piAfter board cfg ops).bus).reg regIrqFlags &&& irqRxDoneMask = 0)
    (hpos : 0 < (piRecv board (piAfter board cfg ops) cap timeoutMs).ret) :
    Whole (c.state (piAfter board cfg ops).bus).heard.length cap
      (piRecv board (piAfter board cfg ops) cap timeoutMs).bytes
      (c.state (piRecv board (piAfter board cfg ops) cap timeoutMs).state.bus) :=
  piRecv_whole_of_idle hreads ((atRest_piAfter c hinit ops).idle hdown) cap timeoutMs hpos

/-- **A receive after a send** returns whole frames only, whatever was before. -/
theorem piRecv_after_send (board : Board) (c : Course radio BusOp.host)
    (hreads : Reads c board.reg) (st : PiLora) (buf : List UInt8) (hshort : buf.length ≤ 222)
    (cap : Nat) (timeoutMs : UInt32)
    (hpos : 0 < (piRecv board (piSend board st buf).2 cap timeoutMs).ret) :
    Whole (c.state (piSend board st buf).2.bus).heard.length cap
      (piRecv board (piSend board st buf).2 cap timeoutMs).bytes
      (c.state (piRecv board (piSend board st buf).2 cap timeoutMs).state.bus) :=
  piRecv_whole_of_idle hreads (clear_piSend c board st hshort) cap timeoutMs hpos

end

/-! ## The ESP32 -/

section
variable {board : EspBoard} {c : Course radio EspEvent.host} {n : Nat}

def espPort (hreads : Reads c board.reg) : Port c EspLora where
  hist := EspLora.log
  read := espRegRead board
  write := espRegWrite board
  reads st addr := hreads st.log addr
  does_read st addr := espDoes_step board st (.read addr)
  does_write := espDoes_regWrite board

theorem espReadFifo_eq (hreads : Reads c board.reg) (m : Nat) (st : EspLora) :
    espReadFifo board m st = (espPort hreads).bytes m st := by
  induction m generalizing st with
  | zero => rfl
  | succ m ih =>
    have hstep : espReadFifo board (m + 1) st = ((espRegRead board st regFifo).1 ::
        (espReadFifo board m (espRegRead board st regFifo).2).1,
        (espReadFifo board m (espRegRead board st regFifo).2).2) := rfl
    rw [hstep, ih]
    rfl

theorem espDoes_rxArmed (board : EspBoard) (st : EspLora) :
    EspDoes st (espRxArmed board st) armOps :=
  ((espDoes_setMode board st modeStdby).trans (espDoes_regWrite board _ regIrqMask 0x00)).trans
    (espDoes_setMode board _ modeRxSingle)

theorem espRecv_whole_of_idle (hreads : Reads c board.reg) {st : EspLora}
    (h : Idle n (c.state st.log)) (cap : Nat) (timeoutMs : UInt32)
    (hpos : 0 < (espRecv board st cap timeoutMs).ret) :
    Whole n cap (espRecv board st cap timeoutMs).bytes
      (c.state (espRecv board st cap timeoutMs).state.log) := by
  let taken := (xSemaphoreTake board (espRxArmed board st) timeoutMs).2
  let asked := espRegRead board taken regIrqFlags
  have harmed := (c.triple (triple_armOps n) (espDoes_rxArmed board st) h).2
  have htaken : Waiting n (c.state taken.log) :=
    (c.triple (.nil (stable_waiting n)) (espDoes_take board _ timeoutMs) harmed).2
  have hseen : Seen n asked.1 (c.state asked.2.log) := ((espPort hreads).seen_read taken htaken).2
  have hclear : radio.Triple (Seen n asked.1) [.write regIrqFlags 0xFF]
      (none : Option Transmission).toList (Seen n asked.1) :=
    .act (stable_seen n _) (stable_seen n _) fun c h => ⟨rfl, h.cleared⟩
  have hcleared := (c.triple hclear (espDoes_regWrite board asked.2 regIrqFlags 0xFF) hseen).2
  have hrecv : espRecv board st cap timeoutMs =
      if !(xSemaphoreTake board (espRxArmed board st) timeoutMs).1 then
        ⟨0, [], espSetMode board taken modeStdby⟩
      else if asked.1 &&& irqPayloadCrcErr ≠ 0 then
        ⟨-1, [], espSetMode board (espRegWrite board asked.2 regIrqFlags 0xFF) modeStdby⟩
      else if asked.1 &&& irqRxDoneMask = 0 then
        ⟨0, [], espSetMode board (espRegWrite board asked.2 regIrqFlags 0xFF) modeStdby⟩
      else
        ⟨(min (espRegRead board (espRegWrite board asked.2 regIrqFlags 0xFF) regRxNbBytes).1.toNat
            cap : Nat),
          ((espPort hreads).frame (espRegWrite board asked.2 regIrqFlags 0xFF) cap).1,
          espSetMode board
            ((espPort hreads).frame (espRegWrite board asked.2 regIrqFlags 0xFF) cap).2
            modeStdby⟩ := by
    unfold espRecv
    simp only [espReadFifo_eq hreads]
    rfl
  rw [hrecv] at hpos ⊢
  split at hpos
  · cases hpos
  · rename_i hsem
    rw [if_neg hsem]
    split at hpos
    · cases hpos
    · rename_i hcrc
      rw [if_neg hcrc]
      split at hpos
      · cases hpos
      · rename_i hrx
        rw [if_neg hrx]
        obtain ⟨f, hheld, hok⟩ := hcleared (not_not.mp hcrc) hrx
        obtain ⟨hbytes, hend⟩ := (espPort hreads).frame_held _ cap hheld
        have hrest : radio.Triple (Held n f) [modeOp modeStdby] (none : Option Transmission).toList
            (Held n f) :=
          .act (stable_held n f) (stable_held n f) fun c h => ⟨rfl, h.standby⟩
        have hdone := (c.triple hrest (espDoes_setMode board _ modeStdby) hend).2
        exact ⟨f, hdone.recent, hok, hbytes⟩

theorem atRest_espSetMode (c : Course radio EspEvent.host) (st : EspLora) :
    AtRest (c.state (espSetMode board st modeStdby).log) :=
  c.after (a := modeOp modeStdby) stable_atRest (fun s => reg_mode s modeStdby)
    (espDoes_setMode board st modeStdby)

theorem atRest_espInit {cfg : LoraConfig} (c : Course radio EspEvent.host)
    (h : (espInit board cfg).1 = 0) : AtRest (c.state (espInit board cfg).2.log) := by
  unfold espInit at h ⊢
  split at h
  · cases h
  · rename_i hbus
    rw [if_neg hbus]
    split at h
    · cases h
    · rename_i hdevice
      rw [if_neg hdevice]
      exact atRest_espSetMode c _

theorem atRest_espCall {st : EspLora} (h : AtRest (c.state st.log)) (op : EspOp) :
    AtRest (c.state (espCall board st op).2.log) := by
  cases op with
  | send buf =>
    rw [espCall, espSend]
    split
    · exact h
    · dsimp only
      split
      · exact atRest_espSetMode c _
      · exact atRest_espSetMode c _
  | recv cap timeoutMs =>
    rw [espCall, espRecv]
    dsimp only
    split
    · exact atRest_espSetMode c _
    · split
      · exact atRest_espSetMode c _
      · split
        · exact atRest_espSetMode c _
        · exact atRest_espSetMode c _

theorem atRest_espAfter {cfg : LoraConfig} (c : Course radio EspEvent.host)
    (hinit : (espInit board cfg).1 = 0) (ops : List EspOp) :
    AtRest (c.state (espAfter board cfg ops).log) := by
  induction ops using List.reverseRecOn with
  | nil => exact atRest_espInit c hinit
  | append_singleton ops op ih =>
    rw [espAfter, List.foldl_append]
    exact atRest_espCall ih op

/-- **A send that is reported clears the flags.** -/
theorem clear_espSend (c : Course radio EspEvent.host) (board : EspBoard) (st : EspLora)
    {buf : List UInt8} (hsent : 0 < (espSend board st buf).1) :
    Clear (c.state (espSend board st buf).2.log) := by
  have hsending : Deaf (c.state (espSetMode board (espLoad board st buf) modeTx).log) :=
    c.after (a := modeOp modeTx) stable_deaf deaf_modeTx (espDoes_setMode board _ modeTx)
  have htaken := (c.triple (.nil stable_deaf) (espDoes_take board _ 2000) hsending).2
  rw [espSend] at hsent ⊢
  split at hsent
  · cases hsent
  · rename_i hshort
    rw [if_neg hshort]
    dsimp only at hsent ⊢
    split at hsent
    · rename_i htake
      rw [if_pos htake]
      exact (c.triple triple_clear ((espDoes_regWrite board _ regIrqFlags 0xFF).trans
        (espDoes_setMode board _ modeStdby)) htaken).2
    · cases hsent

/-- **What a receive of the ESP32 returns**, in any sequence of calls, whenever the frame comes
    and whichever edges do. -/
theorem espRecv_whole (board : EspBoard) (cfg : LoraConfig) (c : Course radio EspEvent.host)
    (hreads : Reads c board.reg) (hinit : (espInit board cfg).1 = 0) (ops : List EspOp)
    (cap : Nat) (timeoutMs : UInt32)
    (hdown : (c.state (espAfter board cfg ops).log).reg regIrqFlags &&& irqRxDoneMask = 0)
    (hpos : 0 < (espRecv board (espAfter board cfg ops) cap timeoutMs).ret) :
    Whole (c.state (espAfter board cfg ops).log).heard.length cap
      (espRecv board (espAfter board cfg ops) cap timeoutMs).bytes
      (c.state (espRecv board (espAfter board cfg ops) cap timeoutMs).state.log) :=
  espRecv_whole_of_idle hreads ((atRest_espAfter c hinit ops).idle hdown) cap timeoutMs hpos

/-- **A receive after a reported send.** -/
theorem espRecv_after_send (board : EspBoard) (c : Course radio EspEvent.host)
    (hreads : Reads c board.reg) (st : EspLora) (buf : List UInt8)
    (hsent : 0 < (espSend board st buf).1) (cap : Nat) (timeoutMs : UInt32)
    (hpos : 0 < (espRecv board (espSend board st buf).2 cap timeoutMs).ret) :
    Whole (c.state (espSend board st buf).2.log).heard.length cap
      (espRecv board (espSend board st buf).2 cap timeoutMs).bytes
      (c.state (espRecv board (espSend board st buf).2 cap timeoutMs).state.log) :=
  espRecv_whole_of_idle hreads (clear_espSend c board st hsent) cap timeoutMs hpos

end

/-! ## From one to the other -/

/-- Whatever the radio has heard with a good CRC since it had heard `n` frames is among the
    transmissions that have begun, with the settings of the one who hears. -/
def HeardOver (cfg : LoraConfig) (begun : List Transmission) (n : Nat) (c : Sx1276) : Prop :=
  ∀ f ∈ c.heard.drop n, f.crcOk = true → ⟨writtenSettings cfg, f.bytes⟩ ∈ begun

theorem Whole.of_heardOver {n cap : Nat} {bytes : List UInt8} {c : Sx1276}
    (h : Whole n cap bytes c) {cfg cfg' : LoraConfig} {bufs : List (List UInt8)}
    (hair : HeardOver cfg' (bufs.map fun buf => ⟨writtenSettings cfg, buf⟩) n c) :
    ∃ buf ∈ bufs, bytes = buf.take cap := by
  obtain ⟨f, hf, hok, rfl⟩ := h
  obtain ⟨buf, hbuf, heq⟩ := List.mem_map.mp (hair f hf hok)
  obtain ⟨_, rfl⟩ := Transmission.mk.inj heq
  exact ⟨_, hbuf, rfl⟩

theorem PiOp.mem_sends {ops : List PiOp} {buf : List UInt8} (h : buf ∈ ops.filterMap PiOp.sends) :
    .send buf ∈ ops ∧ buf.length ≤ 222 := by
  obtain ⟨op, hop, hsends⟩ := List.mem_filterMap.mp h
  cases op with
  | send buf' =>
    obtain ⟨hshort, hbuf⟩ := Option.ite_none_left_eq_some.mp hsends
    cases hbuf
    exact ⟨hop, not_lt.mp hshort⟩
  | recv _ _ | rssi => cases hsends

theorem EspOp.mem_sends {ops : List EspOp} {buf : List UInt8}
    (h : buf ∈ ops.filterMap EspOp.sends) : .send buf ∈ ops ∧ buf.length ≤ 222 := by
  obtain ⟨op, hop, hsends⟩ := List.mem_filterMap.mp h
  cases op with
  | send buf' =>
    obtain ⟨hshort, hbuf⟩ := Option.ite_none_left_eq_some.mp hsends
    cases hbuf
    exact ⟨hop, not_lt.mp hshort⟩
  | recv _ _ => cases hsends

/-- **From the Pi to the ESP32**: what a receive of the ESP32 returns that begins with `RX_DONE`
    down is the beginning of a buffer that the Pi was to send. -/
theorem espRecv_of_piSend (board : Board) (cfg : LoraConfig) (c : Course radio BusOp.host)
    (hinit : (piInit board loraTransportInitPi cfg).1 = 0) (ops : List PiOp)
    (board' : EspBoard) (cfg' : LoraConfig) (c' : Course radio EspEvent.host)
    (hreads : Reads c' board'.reg) (hinit' : (espInit board' cfg').1 = 0) (ops' : List EspOp)
    (cap : Nat) (timeoutMs : UInt32)
    (hdown : (c'.state (espAfter board' cfg' ops').log).reg regIrqFlags &&& irqRxDoneMask = 0)
    (hair : HeardOver cfg' (c.emitted (piAfter board cfg ops).bus)
      (c'.state (espAfter board' cfg' ops').log).heard.length
      (c'.state (espRecv board' (espAfter board' cfg' ops') cap timeoutMs).state.log))
    (hpos : 0 < (espRecv board' (espAfter board' cfg' ops') cap timeoutMs).ret) :
    ∃ buf, .send buf ∈ ops ∧ buf.length ≤ 222 ∧
      (espRecv board' (espAfter board' cfg' ops') cap timeoutMs).bytes = buf.take cap := by
  obtain ⟨hnothing, hconf⟩ := configured_piInit c hinit
  rw [piAfter, emitted_calls c PiLora.bus (piCall board) PiOp.sends (piCall_ops board) ops _ hconf,
    hnothing] at hair
  have hidle := (atRest_espAfter c' hinit' ops').idle hdown
  obtain ⟨buf, hbuf, hbytes⟩ :=
    (espRecv_whole_of_idle hreads hidle cap timeoutMs hpos).of_heardOver hair
  obtain ⟨hsent, hshort⟩ := PiOp.mem_sends hbuf
  exact ⟨buf, hsent, hshort, hbytes⟩

/-- **From the ESP32 to the Pi.** -/
theorem piRecv_of_espSend (board : EspBoard) (cfg : LoraConfig) (c : Course radio EspEvent.host)
    (hinit : (espInit board cfg).1 = 0) (ops : List EspOp)
    (board' : Board) (cfg' : LoraConfig) (c' : Course radio BusOp.host)
    (hreads : Reads c' board'.reg) (hinit' : (piInit board' loraTransportInitPi cfg').1 = 0)
    (ops' : List PiOp) (cap : Nat) (timeoutMs : UInt32)
    (hdown : (c'.state (piAfter board' cfg' ops').bus).reg regIrqFlags &&& irqRxDoneMask = 0)
    (hair : HeardOver cfg' (c.emitted (espAfter board cfg ops).log)
      (c'.state (piAfter board' cfg' ops').bus).heard.length
      (c'.state (piRecv board' (piAfter board' cfg' ops') cap timeoutMs).state.bus))
    (hpos : 0 < (piRecv board' (piAfter board' cfg' ops') cap timeoutMs).ret) :
    ∃ buf, .send buf ∈ ops ∧ buf.length ≤ 222 ∧
      (piRecv board' (piAfter board' cfg' ops') cap timeoutMs).bytes = buf.take cap := by
  obtain ⟨hnothing, hconf⟩ := configured_espInit c hinit
  rw [espAfter, emitted_calls c EspLora.log (fun st op => (espCall board st op).2) EspOp.sends
    (espCall_ops board) ops _ hconf, hnothing] at hair
  have hidle := (atRest_piAfter c' hinit' ops').idle hdown
  obtain ⟨buf, hbuf, hbytes⟩ :=
    (piRecv_whole_of_idle hreads hidle cap timeoutMs hpos).of_heardOver hair
  obtain ⟨hsent, hshort⟩ := EspOp.mem_sends hbuf
  exact ⟨buf, hsent, hshort, hbytes⟩

/-! ### A frame, caught -/

/-- The radio once it has received `f`. -/
def Sx1276.caught (c : Sx1276) (f : Heard) : Sx1276 where
  reg := fun a =>
    if a = regOpMode then modeLora ||| modeStdby
    else if a = regRxNbBytes then f.bytes.length.toUInt8
    else if a = regFifoRxCurr then 0
    else if a = regIrqFlags then
      if f.crcOk then irqRxDoneMask else irqRxDoneMask ||| irqPayloadCrcErr
    else c.reg a
  fifo := fun i => f.bytes.getD i.toNat 0
  heard := c.heard ++ [f]

theorem own_caught {c : Sx1276} {f : Heard} (hmode : c.reg regOpMode = modeLora ||| modeRxSingle)
    (hshort : f.bytes.length < 256) : Own c (c.caught f) := by
  refine .takes c f _ _ ?_ hshort (fun a ha => ?_) ?_ rfl ?_ (fun hbad => ?_) (fun i x hx => ?_)
  · rw [hmode]
    decide
  · rw [if_neg (ne_of_mem_of_not_mem ha (by decide)),
      if_neg (ne_of_mem_of_not_mem ha (by decide)), if_neg (ne_of_mem_of_not_mem ha (by decide)),
      if_neg (ne_of_mem_of_not_mem ha (by decide))]
  · rw [hmode]
    rfl
  · change (if f.crcOk then irqRxDoneMask else irqRxDoneMask ||| irqPayloadCrcErr) &&& _ ≠ 0
    cases f.crcOk <;> decide
  · change (if f.crcOk then irqRxDoneMask else irqRxDoneMask ||| irqPayloadCrcErr) &&& _ ≠ 0
    rw [hbad]
    decide
  · obtain ⟨hi, hget⟩ := List.getElem?_eq_some_iff.mp hx
    have hindex : (0 + i.toUInt8).toNat = i := by
      rw [UInt8.zero_add, Nat.toUInt8_eq, UInt8.toNat_ofNat', Nat.mod_eq_of_lt (by omega)]
    change f.bytes.getD (0 + i.toUInt8).toNat 0 = x
    rw [hindex, List.getD_eq_getElem?_getD, hx]
    rfl

/-- It receives `f` whenever it begins to listen. -/
def catching {β : Type} (host : β → Option HostOp) (f : Heard) (hshort : f.bytes.length < 256) :
    Course radio host :=
  .ofMoves radio host deadRadio
    (fun e s => if host e = some (modeOp modeRxSingle) ∧
      s.reg regOpMode = modeLora ||| modeRxSingle then s.caught f else s)
    (fun e s => by
      split
      · rename_i h
        exact .single (own_caught h.2 hshort)
      · exact .refl)

def goodFrame : Heard := ⟨[1, 2, 3], true⟩

def piCatching : Course radio BusOp.host := catching BusOp.host goodFrame (by decide)

/-- The Pi with that radio. -/
def catchingBoard : Board :=
  { spidev := 3
    gpiochip := 4
    lineEvent := some 5
    reg := fun bus addr => (piCatching.state bus).answer addr
    edge := fun bus => decide ((piCatching.state bus).reg regIrqFlags ≠ 0) }

def mainPiConfig : LoraConfig := loraConfigDefault868 8 22 25 24

/-- What it returns in a second call, after init and with none. -/
theorem catchingBoard_runs :
    (piRecv catchingBoard (piAfter catchingBoard mainPiConfig [.send [4]]) 256 0).ret = 3 ∧
      (piRecv catchingBoard (piSend catchingBoard loraTransportInitPi [4]).2 256 0).ret = 3 ∧
      (piCatching.state (piAfter catchingBoard mainPiConfig [.send [4]]).bus).reg regIrqFlags
        &&& irqRxDoneMask = 0 := by
  decide +kernel

/-- It is received in the second call. -/
theorem piRecv_whole_catching :
    (piRecv catchingBoard (piAfter catchingBoard mainPiConfig [.send [4]]) 256 0).ret = 3 ∧
      Whole (piCatching.state (piAfter catchingBoard mainPiConfig [.send [4]]).bus).heard.length 256
        (piRecv catchingBoard (piAfter catchingBoard mainPiConfig [.send [4]]) 256 0).bytes
        (piCatching.state (piRecv catchingBoard
          (piAfter catchingBoard mainPiConfig [.send [4]]) 256 0).state.bus) := by
  obtain ⟨hrun, -, hdown⟩ := catchingBoard_runs
  exact ⟨hrun, piRecv_whole catchingBoard mainPiConfig piCatching (fun _ _ => rfl) rfl [.send [4]]
    256 0 hdown (by rw [hrun]; decide)⟩

/-- A receive after the send. -/
theorem piRecv_after_send_catching :
    (piRecv catchingBoard (piSend catchingBoard loraTransportInitPi [4]).2 256 0).ret = 3 ∧
      Whole (piCatching.state (piSend catchingBoard loraTransportInitPi [4]).2.bus).heard.length 256
        (piRecv catchingBoard (piSend catchingBoard loraTransportInitPi [4]).2 256 0).bytes
        (piCatching.state
          (piRecv catchingBoard (piSend catchingBoard loraTransportInitPi [4]).2 256 0).state.bus) := by
  obtain ⟨-, hrun, -⟩ := catchingBoard_runs
  exact ⟨hrun, piRecv_after_send catchingBoard piCatching (fun _ _ => rfl) loraTransportInitPi [4]
    (by decide) 256 0 (by rw [hrun]; decide)⟩

def espCatching : Course radio EspEvent.host := catching EspEvent.host goodFrame (by decide)

/-- The ESP32 with such a radio: the edge comes with the frame. -/
def espCatchingBoard : EspBoard :=
  { spiBus := true
    spiDevice := true
    reg := fun events addr => (espCatching.state events).answer addr
    edges := fun events =>
      if events.getLast? = some (.write regOpMode (modeLora ||| modeRxSingle)) then [.rxDone]
      else [] }

def espCatchingStart : EspLora := espAfter espCatchingBoard mainEspConfig []

theorem espCatchingBoard_runs :
    (espRecv espCatchingBoard espCatchingStart 256 5000).ret = 3 ∧
      (espCatching.state (espRecv espCatchingBoard espCatchingStart 256 5000).state.log).heard
        = [goodFrame] ∧
      (espCatching.state espCatchingStart.log).reg regIrqFlags &&& irqRxDoneMask = 0 ∧
      (Course.quiet radio BusOp.host deadRadio).emitted
        (piAfter (holdingBoard threeBytes) mainPiConfig [.send [1, 2, 3]]).bus
          = [⟨writtenSettings mainEspConfig, [1, 2, 3]⟩] := by
  decide +kernel

theorem espRecv_whole_catching :
    (espRecv espCatchingBoard espCatchingStart 256 5000).ret = 3 ∧
      Whole (espCatching.state espCatchingStart.log).heard.length 256
        (espRecv espCatchingBoard espCatchingStart 256 5000).bytes
        (espCatching.state (espRecv espCatchingBoard espCatchingStart 256 5000).state.log) := by
  obtain ⟨hrun, -, hdown, -⟩ := espCatchingBoard_runs
  exact ⟨hrun, espRecv_whole espCatchingBoard mainEspConfig espCatching (fun _ _ => rfl) rfl [] 256
    5000 hdown (by rw [← espCatchingStart, hrun]; decide)⟩

/-- The Pi sends what the ESP32 receives. -/
theorem espRecv_of_piSend_catching : ∃ buf, .send buf ∈ [PiOp.send [1, 2, 3]] ∧
    buf.length ≤ 222 ∧ (espRecv espCatchingBoard espCatchingStart 256 5000).bytes = buf.take 256 := by
  obtain ⟨hrun, hheard, hdown, hsent⟩ := espCatchingBoard_runs
  refine espRecv_of_piSend (holdingBoard threeBytes) mainPiConfig
    (Course.quiet radio BusOp.host deadRadio) rfl [.send [1, 2, 3]] espCatchingBoard mainEspConfig
    espCatching (fun _ _ => rfl) rfl [] 256 5000 hdown ?_ (by rw [← espCatchingStart, hrun]; decide)
  intro f hf _
  rw [← espCatchingStart, hheard] at hf
  rw [hsent, List.mem_singleton.mp (List.mem_of_mem_drop hf)]
  exact List.mem_singleton_self _

/-! ### A frame, torn -/

/-- A radio that receives a frame when a poll has just given up, and the first byte of another as
    soon as it listens again. -/
def tearing : Course radio BusOp.host :=
  .ofMoves radio BusOp.host deadRadio
    (fun e s =>
      if s.reg regOpMode = modeLora ||| modeRxSingle then
        if e = .poll 0 ∧ s.heard = [] then s.caught goodFrame
        else { s with fifo := Function.update s.fifo 0 9 }
      else s)
    (fun e s => by
      split
      · rename_i hmode
        split
        · exact .single (own_caught hmode (by decide))
        · exact .single (.fills s _ (Or.inl (by rw [hmode]; decide)))
      · exact .refl)

def tearingBoard : Board :=
  { spidev := 3
    gpiochip := 4
    lineEvent := some 5
    reg := fun bus addr => (tearing.state bus).answer addr
    edge := fun bus => decide (bus.count (.poll 0) = 2) }

/-- **The condition is needed.** The first receive times out, the frame comes, and the second
    receive returns a mixture of it and of the one that is coming in. -/
theorem piRecv_torn :
    let st := piAfter tearingBoard mainPiConfig [.recv 256 0]
    (piRecv tearingBoard st 256 0).ret = 3 ∧ (piRecv tearingBoard st 256 0).bytes = [9, 2, 3] ∧
      (tearing.state (piRecv tearingBoard st 256 0).state.bus).heard = [goodFrame] := by
  decide +kernel

end DtnHardware
