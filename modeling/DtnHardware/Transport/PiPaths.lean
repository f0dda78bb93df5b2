import DtnHardware.Transport.Pi

/-!
# The two ways `pi_recv` waits

With an event fd `pi_recv` polls it for an edge of DIO0; without one it reads `REG_IRQ_FLAGS` in
a loop. What happens afterwards is the same code. `pi_init` calls the second way *slower, higher
CPU, but functional*, and the Pi's event loop uses it as its only receive where the kernel has no
line events, with the timeout 0 that `node_try_recv` passes.

`Holds` is the situation of both ways at once: the flags were up when `pi_recv` was called, the
frame is in the FIFO, and an edge is waiting if one of the two flags that raise DIO0 is up.

> **The two agree exactly where `PathsAgree` says** (`piRecv_paths_agree`). With the timeout 0
> the loop does not read the flags even once, so that a frame which is there is not found.

Two more cases tell them apart. DIO0 rises for a `TX_DONE` as well, and then the event path looks
at the CRC flag, which the loop would not have left for. And `poll` takes its timeout as an `int`,
so that from 2^31 ms on it waits for an edge and nothing else.
-/

set_option autoImplicit false

namespace DtnHardware

/-! ## When `poll` does not return -/

/-- `pi_recv` at the point where it begins to wait. -/
def rxArmed (st : PiLora) : PiLora :=
  setMode (regWrite (setMode st modeStdby) regIrqMask 0x00) modeRxSingle

/-- The call comes back: `(int)timeout_ms` is not negative, or there is an edge, or there is no
    fd to poll. -/
def piRecvReturns (board : Board) (st : PiLora) (timeoutMs : UInt32) : Bool :=
  decide (timeoutMs.toNat < 2 ^ 31) || decide (st.dio0Fd < 0) ||
    board.edge ((rxArmed st).push (.poll timeoutMs)).bus

/-- What the caller of `pi_recv` gets, `none` for nothing ever: the return value, and the bytes
    in `buf`. -/
def piRecvCall (board : Board) (st : PiLora) (cap : Nat) (timeoutMs : UInt32) :
    Option (Int × List UInt8) :=
  if piRecvReturns board st timeoutMs then
    some ((piRecv board st cap timeoutMs).ret, (piRecv board st cap timeoutMs).bytes)
  else none

/-! ## A frame that is there -/

/-- What the radio holds: the flags, and a frame in the FIFO at `addr`. -/
structure HeldFrame where
  flags : UInt8
  bytes : List UInt8
  addr : UInt8
  short : bytes.length < 256

/-- One of the flags of `mask` is up. -/
def HeldFrame.up (f : HeldFrame) (mask : UInt8) : Prop := f.flags &&& mask ≠ 0

instance (f : HeldFrame) (mask : UInt8) : Decidable (f.up mask) :=
  inferInstanceAs (Decidable (f.flags &&& mask ≠ 0))

/-- What `pi_recv` does to the radio. -/
def recvOp : BusOp → Bool
  | .write addr val =>
      decide (addr = regOpMode ∧ (val = modeLora ||| modeStdby ∨ val = modeLora ||| modeRxSingle) ∨
        addr = regIrqMask ∨ addr = regIrqFlags ∨ addr = regFifoAddrPtr)
  | .read _ | .poll _ | .drain | .sleep => true

/-- What it does until it clears the flags. -/
def waitOp : BusOp → Bool
  | .write addr val => recvOp (.write addr val) && decide (addr ≠ regIrqFlags)
  | .read _ | .poll _ | .drain | .sleep => true

/-- What it does until it has drained an event. -/
def armOp (op : BusOp) : Bool := waitOp op && decide (op ≠ .drain)

/-- Since `bus` only such operations have gone over the wires. -/
def Since (ok : BusOp → Bool) (bus bus' : List BusOp) : Prop :=
  ∃ ops, bus' = bus ++ ops ∧ ∀ op ∈ ops, ok op = true

/-- From `bus` on the radio holds `f`: mode writes and waiting change nothing of it. -/
structure Holds (board : Board) (bus : List BusOp) (f : HeldFrame) : Prop where
  flags : ∀ bus', Since waitOp bus bus' → board.reg bus' regIrqFlags = f.flags
  edge : ∀ bus', Since armOp bus bus' →
    board.edge bus' = decide (f.up irqRxDoneMask ∨ f.up irqTxDoneMask)
  nbBytes : ∀ bus', Since recvOp bus bus' → board.reg bus' regRxNbBytes = f.bytes.length.toUInt8
  rxCurr : ∀ bus', Since recvOp bus bus' → board.reg bus' regFifoRxCurr = f.addr
  fifo : ∀ bus', Since recvOp bus bus' → ∀ k x, f.bytes[k]? = some x →
    board.reg (bus' ++ .write regFifoAddrPtr f.addr :: List.replicate k (.read regFifo)) regFifo
      = x

/-- What the tail of `pi_recv` makes of it. -/
def HeldFrame.taken (f : HeldFrame) (cap : Nat) : Int × List UInt8 :=
  if f.up irqPayloadCrcErr then (-1, [])
  else if f.up irqRxDoneMask then ((min f.bytes.length cap : Nat), f.bytes.take cap)
  else (0, [])

section
variable {ok ok' : BusOp → Bool} {board : Board} {bus bus' : List BusOp} {f : HeldFrame}

theorem Since.refl (ok : BusOp → Bool) (bus : List BusOp) : Since ok bus bus :=
  ⟨[], (List.append_nil bus).symm, fun _ h => absurd h List.not_mem_nil⟩

theorem Since.snoc (h : Since ok bus bus') {op : BusOp} (hop : ok op = true) :
    Since ok bus (bus' ++ [op]) := by
  obtain ⟨ops, rfl, hops⟩ := h
  refine ⟨ops ++ [op], List.append_assoc bus ops [op], fun o ho => ?_⟩
  rcases List.mem_append.mp ho with ho | ho
  · exact hops o ho
  · rw [List.mem_singleton.mp ho]
    exact hop

theorem Since.mono (h : Since ok bus bus') (hle : ∀ op, ok op = true → ok' op = true) :
    Since ok' bus bus' := by
  obtain ⟨ops, rfl, hops⟩ := h
  exact ⟨ops, rfl, fun op hop => hle op (hops op hop)⟩

theorem recvOp_of_waitOp (op : BusOp) (h : waitOp op = true) : recvOp op = true := by
  cases op with
  | write addr val => exact (Bool.and_eq_true_iff.mp h).1
  | read _ | poll _ | drain | sleep => rfl

theorem waitOp_of_armOp (op : BusOp) (h : armOp op = true) : waitOp op = true :=
  (Bool.and_eq_true_iff.mp h).1

/-! ## The tail -/

/-- `n` reads once `k` bytes have been read. -/
theorem Holds.readFifo (h : Holds board bus f) (hsince : Since recvOp bus bus') (n k : Nat)
    (st : PiLora)
    (hbus : st.bus = bus' ++ .write regFifoAddrPtr f.addr :: List.replicate k (.read regFifo))
    (hk : k + n ≤ f.bytes.length) :
    (readFifo board n st).1 = (f.bytes.drop k).take n := by
  induction n generalizing k st with
  | zero => rfl
  | succ n ih =>
    have hlt : k < f.bytes.length := by omega
    have hread := h.fifo bus' hsince k _ (List.getElem?_eq_getElem hlt)
    rw [← hbus] at hread
    have hnext : (regRead board st regFifo).2.bus
        = bus' ++ .write regFifoAddrPtr f.addr :: List.replicate (k + 1) (.read regFifo) := by
      change st.bus ++ [BusOp.read regFifo] = _
      rw [hbus, List.replicate_succ', List.append_assoc, List.cons_append]
    have hrest := ih (k + 1) _ hnext (by omega)
    rw [List.drop_eq_getElem_cons hlt, List.take_succ_cons, ← hrest, ← hread]
    rfl

/-- The radio once the tail has cleared the flags, asked for the length and for the address. -/
def tailCleared (st : PiLora) : PiLora := regWrite st regIrqFlags 0xFF

def tailPointed (board : Board) (st : PiLora) : PiLora :=
  let asked := (regRead board (tailCleared st) regRxNbBytes).2
  regWrite (regRead board asked regFifoRxCurr).2 regFifoAddrPtr
    (board.reg asked.bus regFifoRxCurr)

/-- The length it reads, cut to the buffer. -/
def tailLength (board : Board) (st : PiLora) (cap : Nat) : Nat :=
  min (board.reg (tailCleared st).bus regRxNbBytes).toNat cap

theorem takeFrame_frame (board : Board) (st : PiLora) {irq : UInt8} (cap : Nat)
    (hcrc : irq &&& irqPayloadCrcErr = 0) (hrx : irq &&& irqRxDoneMask ≠ 0) :
    ((takeFrame board st irq cap).ret, (takeFrame board st irq cap).bytes)
      = (((tailLength board st cap : Nat) : Int),
        (readFifo board (tailLength board st cap) (tailPointed board st)).1) := by
  unfold takeFrame
  rw [if_neg (not_not.mpr hcrc), if_neg hrx]
  rfl

/-- **The tail**, reached with the flags still up. -/
theorem Holds.takeFrame (h : Holds board bus f) {st : PiLora} (hsince : Since waitOp bus st.bus)
    (cap : Nat) :
    ((takeFrame board st f.flags cap).ret, (takeFrame board st f.flags cap).bytes)
      = f.taken cap := by
  unfold HeldFrame.taken
  by_cases hcrc : f.up irqPayloadCrcErr
  · have htail : DtnHardware.takeFrame board st f.flags cap
        = ⟨-1, [], setMode (regWrite st regIrqFlags 0xFF) modeStdby⟩ := if_pos hcrc
    rw [htail, if_pos hcrc]
  · rw [if_neg hcrc]
    by_cases hrx : f.up irqRxDoneMask
    · rw [if_pos hrx, takeFrame_frame board st cap (not_not.mp hcrc) hrx]
      have hcleared : Since recvOp bus (tailCleared st).bus :=
        (hsince.mono recvOp_of_waitOp).snoc (by decide)
      have hlen : tailLength board st cap = min f.bytes.length cap := by
        rw [tailLength, h.nbBytes _ hcleared, Nat.toUInt8_eq, UInt8.toNat_ofNat',
          Nat.mod_eq_of_lt f.short]
      have hasked : Since recvOp bus ((tailCleared st).bus ++ [.read regRxNbBytes]) :=
        hcleared.snoc rfl
      have hpointed : (tailPointed board st).bus
          = ((tailCleared st).bus ++ [.read regRxNbBytes] ++ [.read regFifoRxCurr])
            ++ .write regFifoAddrPtr f.addr :: List.replicate 0 (.read regFifo) := by
        rw [← h.rxCurr _ hasked]
        rfl
      have hbytes := h.readFifo (hasked.snoc rfl) (min f.bytes.length cap) 0 _ hpointed (by omega)
      have hcut : f.bytes.take (min f.bytes.length cap) = f.bytes.take cap := by
        rw [List.take_eq_take_iff]
        omega
      rw [hlen, hbytes, List.drop_zero, hcut]
    · have htail : DtnHardware.takeFrame board st f.flags cap
          = ⟨0, [], setMode st modeStdby⟩ := (if_neg hcrc).trans (if_pos (not_not.mp hrx))
      rw [htail, if_neg hrx]

/-! ## The waits -/

theorem rxArmed_since (st : PiLora) : Since armOp st.bus (rxArmed st).bus :=
  (((Since.refl armOp st.bus).snoc (by decide)).snoc (by decide)).snoc (by decide)

/-- With an event fd: an edge, or none before the timeout. -/
theorem piRecv_event (board : Board) {st : PiLora} (hfd : 0 ≤ st.dio0Fd) (cap : Nat)
    (timeoutMs : UInt32) :
    let polled := (rxArmed st).push (.poll timeoutMs)
    let drained := polled.push .drain
    piRecv board st cap timeoutMs =
      if board.edge polled.bus then
        takeFrame board (regRead board drained regIrqFlags).2
          (board.reg drained.bus regIrqFlags) cap
      else ⟨0, [], setMode polled modeStdby⟩ := by
  intro polled drained
  have harmed : (rxArmed st).dio0Fd ≥ 0 := hfd
  have hdrained : drained.dio0Fd ≥ 0 := hfd
  have hwait : awaitIrq board (rxArmed st) irqRxDoneMask timeoutMs
      = (0, if board.edge polled.bus then (true, drained) else (false, polled)) :=
    if_pos harmed
  rw [rxArmed] at hwait
  unfold piRecv
  dsimp only
  rw [hwait]
  cases board.edge polled.bus with
  | false => rfl
  | true =>
    rw [if_pos rfl, if_pos rfl]
    dsimp only
    rw [if_neg (by decide), if_pos hdrained]
    rfl

/-- Reading the flags goes on as long as they are the same, and leaves them as they are. -/
theorem Holds.pollIrqFlags (h : Holds board bus f) (mask : UInt8) (n : Nat) (st : PiLora)
    (hsince : Since waitOp bus st.bus) :
    (pollIrqFlags board mask n (f.flags, st)).1 = f.flags ∧
      Since waitOp bus (pollIrqFlags board mask n (f.flags, st)).2.bus := by
  induction n generalizing st with
  | zero => exact ⟨rfl, hsince⟩
  | succ n ih =>
    unfold DtnHardware.pollIrqFlags
    split
    · exact ⟨rfl, hsince⟩
    · have hread : regRead board st regIrqFlags = (f.flags, st.push (.read regIrqFlags)) := by
        rw [regRead, h.flags st.bus hsince]
      rw [hread]
      exact ih _ ((hsince.snoc rfl).snoc rfl)

theorem pollIrqFlags_dio0Fd (board : Board) (mask : UInt8) (n : Nat) (irq : UInt8)
    (st : PiLora) : (pollIrqFlags board mask n (irq, st)).2.dio0Fd = st.dio0Fd := by
  induction n generalizing irq st with
  | zero => rfl
  | succ n ih =>
    unfold pollIrqFlags
    split
    · rfl
    · exact ih _ _

/-- Without one: a flag, or none in as many rounds as milliseconds. -/
theorem piRecv_polling (board : Board) {st : PiLora} (hfd : st.dio0Fd < 0) (cap : Nat)
    (timeoutMs : UInt32) :
    let polled := pollIrqFlags board irqRxDoneMask timeoutMs.toNat (0, rxArmed st)
    piRecv board st cap timeoutMs =
      if polled.1 &&& irqRxDoneMask ≠ 0 then takeFrame board polled.2 polled.1 cap
      else ⟨0, [], setMode polled.2 modeStdby⟩ := by
  intro polled
  have harmed : ¬ (rxArmed st).dio0Fd ≥ 0 := not_le.mpr hfd
  have hpolled : ¬ polled.2.dio0Fd ≥ 0 := by
    rw [pollIrqFlags_dio0Fd]
    exact harmed
  have hwait : awaitIrq board (rxArmed st) irqRxDoneMask timeoutMs
      = (polled.1, decide (polled.1 &&& irqRxDoneMask ≠ 0), polled.2) := if_neg harmed
  rw [rxArmed] at hwait
  unfold piRecv
  dsimp only
  rw [hwait]
  by_cases hrx : polled.1 &&& irqRxDoneMask ≠ 0
  · rw [decide_eq_true hrx, if_pos hrx]
    dsimp only
    rw [if_neg (by decide), if_neg hpolled]
  · rw [decide_eq_false hrx, if_neg hrx]
    rfl

/-! ## What the caller gets -/

/-- **With an event fd** an edge leads to the tail, whichever flag raised it. -/
theorem Holds.call_event (st : PiLora) (h : Holds board st.bus f) (hfd : 0 ≤ st.dio0Fd)
    (cap : Nat) (timeoutMs : UInt32) :
    piRecvCall board st cap timeoutMs =
      if f.up irqRxDoneMask ∨ f.up irqTxDoneMask then some (f.taken cap)
      else if timeoutMs.toNat < 2 ^ 31 then some (0, []) else none := by
  have hpolled : Since armOp st.bus ((rxArmed st).push (.poll timeoutMs)).bus :=
    (rxArmed_since st).snoc rfl
  have hdrained : Since waitOp st.bus (((rxArmed st).push (.poll timeoutMs)).push .drain).bus :=
    (hpolled.mono waitOp_of_armOp).snoc rfl
  have hreturns : piRecvReturns board st timeoutMs
      = (decide (timeoutMs.toNat < 2 ^ 31)
        || decide (f.up irqRxDoneMask ∨ f.up irqTxDoneMask)) := by
    rw [piRecvReturns, decide_eq_false (not_lt.mpr hfd), Bool.or_false, h.edge _ hpolled]
  rw [piRecvCall, hreturns, piRecv_event board hfd]
  rw [h.edge _ hpolled, h.flags _ hdrained]
  by_cases hraised : f.up irqRxDoneMask ∨ f.up irqTxDoneMask
  · rw [decide_eq_true hraised, if_pos hraised, if_pos rfl, Bool.or_true, if_pos rfl]
    exact congrArg some (h.takeFrame (hdrained.snoc rfl) cap)
  · rw [decide_eq_false hraised, if_neg hraised, Bool.or_false, if_neg Bool.false_ne_true]
    by_cases htime : timeoutMs.toNat < 2 ^ 31
    · rw [if_pos (decide_eq_true htime), if_pos htime]
    · rw [if_neg (by simpa using htime), if_neg htime]

/-- **Without one** `RX_DONE` does, if the flags are read at all. -/
theorem Holds.call_polling (st : PiLora) (h : Holds board st.bus f) (hfd : st.dio0Fd < 0)
    (cap : Nat) (timeoutMs : UInt32) :
    piRecvCall board st cap timeoutMs =
      if timeoutMs ≠ 0 ∧ f.up irqRxDoneMask then some (f.taken cap) else some (0, []) := by
  have hreturns : piRecvReturns board st timeoutMs = true := by
    rw [piRecvReturns, decide_eq_true hfd, Bool.or_true, Bool.true_or]
  rw [piRecvCall, hreturns, if_pos rfl, piRecv_polling board hfd]
  cases hn : timeoutMs.toNat with
  | zero =>
    have hzero : timeoutMs = 0 := UInt32.toNat_inj.mp hn
    have hunread : ¬ (0 : UInt8) &&& irqRxDoneMask ≠ 0 := by decide
    rw [DtnHardware.pollIrqFlags, if_neg hunread,
      if_neg (fun hor : timeoutMs ≠ 0 ∧ f.up irqRxDoneMask => hor.1 hzero)]
  | succ n =>
    have hpos : timeoutMs ≠ 0 := by
      rintro rfl
      cases hn
    -- the first round reads the flags
    have harmed : Since waitOp st.bus (rxArmed st).bus := (rxArmed_since st).mono waitOp_of_armOp
    have hfirst : DtnHardware.pollIrqFlags board irqRxDoneMask (n + 1) (0, rxArmed st)
        = DtnHardware.pollIrqFlags board irqRxDoneMask n
          (f.flags, ((rxArmed st).push (.read regIrqFlags)).push .sleep) := by
      rw [DtnHardware.pollIrqFlags, if_neg (by decide), regRead, h.flags _ harmed]
    obtain ⟨hflags, hsince⟩ := h.pollIrqFlags irqRxDoneMask n
      (((rxArmed st).push (.read regIrqFlags)).push .sleep) ((harmed.snoc rfl).snoc rfl)
    rw [hfirst, hflags]
    by_cases hrx : f.up irqRxDoneMask
    · have hraised : f.flags &&& irqRxDoneMask ≠ 0 := hrx
      have htail := h.takeFrame hsince cap
      rw [if_pos hraised, if_pos ⟨hpos, hrx⟩, htail]
    · have hraised : ¬ f.flags &&& irqRxDoneMask ≠ 0 := hrx
      rw [if_neg hraised, if_neg fun hor : timeoutMs ≠ 0 ∧ f.up irqRxDoneMask => hrx hor.2]

/-- The tail comes to nothing if there is no CRC error and no frame, or none that fits. -/
theorem taken_eq_nothing (f : HeldFrame) (cap : Nat) : f.taken cap = (0, []) ↔
    ¬ f.up irqPayloadCrcErr ∧ (f.up irqRxDoneMask → f.bytes = [] ∨ cap = 0) := by
  unfold HeldFrame.taken
  by_cases hcrc : f.up irqPayloadCrcErr
  · rw [if_pos hcrc]
    exact ⟨fun heq => absurd (congrArg Prod.fst heq) (by decide), fun hor => absurd hcrc hor.1⟩
  · rw [if_neg hcrc]
    by_cases hrx : f.up irqRxDoneMask
    · rw [if_pos hrx]
      constructor
      · intro heq
        have hlen : ((min f.bytes.length cap : Nat) : Int) = 0 := congrArg Prod.fst heq
        refine ⟨hcrc, fun _ => ?_⟩
        rw [← List.length_eq_zero_iff]
        omega
      · rintro ⟨_, hnone⟩
        rcases hnone hrx with hnil | hcap
        · rw [hnil, List.length_nil, Nat.zero_min, List.take_nil]
          rfl
        · rw [hcap, Nat.min_zero, List.take_zero]
          rfl
    · rw [if_neg hrx]
      exact ⟨fun _ => ⟨hcrc, fun h => absurd h hrx⟩, fun _ => rfl⟩

/-- The flags, the frame, the buffer and the timeout for which both ways do the same. -/
def PathsAgree (f : HeldFrame) (cap : Nat) (timeoutMs : UInt32) : Prop :=
  if f.up irqRxDoneMask then
    timeoutMs ≠ 0 ∨ ¬ f.up irqPayloadCrcErr ∧ (f.bytes = [] ∨ cap = 0)
  else if f.up irqTxDoneMask then ¬ f.up irqPayloadCrcErr
  else timeoutMs.toNat < 2 ^ 31

/-- **The event path and the polling path of `pi_recv` agree** for a frame that is there, and
    whatever the flags are, exactly where `PathsAgree` says. -/
theorem piRecv_paths_agree (board : Board) (st : PiLora) (f : HeldFrame)
    (h : Holds board st.bus f) (fd nofd : Int) (hfd : 0 ≤ fd) (hnofd : nofd < 0) (cap : Nat)
    (timeoutMs : UInt32) :
    piRecvCall board { st with dio0Fd := fd } cap timeoutMs
        = piRecvCall board { st with dio0Fd := nofd } cap timeoutMs ↔
      PathsAgree f cap timeoutMs := by
  have hevent := Holds.call_event { st with dio0Fd := fd } h hfd cap timeoutMs
  have hpolling := Holds.call_polling { st with dio0Fd := nofd } h hnofd cap timeoutMs
  rw [hevent, hpolling]
  unfold PathsAgree
  by_cases hrx : f.up irqRxDoneMask
  · rw [if_pos (Or.inl hrx), if_pos hrx]
    by_cases htime : timeoutMs = 0
    · rw [if_neg (fun hor => hor.1 htime), Option.some_inj, taken_eq_nothing]
      constructor
      · exact fun hnone => Or.inr ⟨hnone.1, hnone.2 hrx⟩
      · exact fun hor => (hor.resolve_left (not_not.mpr htime)).imp_right fun hnone _ => hnone
    · rw [if_pos ⟨htime, hrx⟩]
      exact ⟨fun _ => Or.inl htime, fun _ => rfl⟩
  · rw [if_neg (fun hor : timeoutMs ≠ 0 ∧ f.up irqRxDoneMask => hrx hor.2), if_neg hrx]
    by_cases htx : f.up irqTxDoneMask
    · rw [if_pos (Or.inr htx), if_pos htx, Option.some_inj, taken_eq_nothing]
      exact ⟨fun hnone => hnone.1, fun hcrc => ⟨hcrc, fun h => absurd h hrx⟩⟩
    · rw [if_neg (not_or.mpr ⟨hrx, htx⟩), if_neg htx]
      by_cases htime : timeoutMs.toNat < 2 ^ 31
      · rw [if_pos htime]
        exact ⟨fun _ => htime, fun _ => rfl⟩
      · rw [if_neg htime]
        exact ⟨fun heq => absurd heq.symm (Option.some_ne_none _), fun h => absurd h htime⟩

end

/-! ### A radio with a frame in it -/

/-- A radio that holds `f` and does nothing else: a write to `REG_IRQ_FLAGS` clears the flags,
    reads of the FIFO go on from where `REG_FIFO_ADDR_PTR` was last set, and an edge can be
    drained once. -/
def holdingBoard (f : HeldFrame) : Board :=
  { spidev := 3
    gpiochip := 4
    lineEvent := some 5
    reg := fun bus addr =>
      if addr = regIrqFlags then
        if bus.all waitOp then f.flags else 0
      else if addr = regRxNbBytes then f.bytes.length.toUInt8
      else if addr = regFifoRxCurr then f.addr
      else f.bytes.getD (bus.reverse.takeWhile fun op => decide (op = .read regFifo)).length 0
    edge := fun bus => bus.all armOp && decide (f.up irqRxDoneMask ∨ f.up irqTxDoneMask) }

theorem Since.all {ok : BusOp → Bool} {bus : List BusOp} (h : Since ok [] bus) :
    bus.all ok = true := by
  obtain ⟨ops, rfl, hops⟩ := h
  exact List.all_eq_true.mpr hops

theorem holdingBoard_holds (f : HeldFrame) : Holds (holdingBoard f) [] f where
  flags bus h := by
    change (if bus.all waitOp = true then f.flags else 0) = f.flags
    rw [if_pos h.all]
  edge bus h := by
    change (bus.all armOp && _) = _
    rw [h.all, Bool.true_and]
  nbBytes _ _ := rfl
  rxCurr _ _ := rfl
  fifo bus _ k x hx := by
    have hstop : (BusOp.write regFifoAddrPtr f.addr :: bus.reverse).takeWhile
        (fun op => decide (op = .read regFifo)) = [] := List.takeWhile_cons_of_neg (by simp)
    have hreads : (bus ++ BusOp.write regFifoAddrPtr f.addr
        :: List.replicate k (.read regFifo)).reverse.takeWhile
          (fun op => decide (op = .read regFifo)) = List.replicate k (.read regFifo) := by
      rw [List.reverse_append, List.reverse_cons, List.reverse_replicate, List.append_assoc,
        List.takeWhile_append_of_pos (by simp), List.singleton_append, hstop, List.append_nil]
    change f.bytes.getD (List.takeWhile _ _).length 0 = x
    rw [hreads, List.length_replicate, List.getD_eq_getElem?_getD, hx]
    rfl

theorem threeBytes_short : ([1, 2, 3] : List UInt8).length < 256 := by decide

/-- Three bytes have been received. -/
def threeBytes : HeldFrame :=
  { flags := irqRxDoneMask, bytes := [1, 2, 3], addr := 0, short := threeBytes_short }

/-- With an event fd `node_try_recv` finds them; without one it does not, however often it is
    called. -/
theorem threeBytes_unseen : Holds (holdingBoard threeBytes) [] threeBytes ∧
    piRecvCall (holdingBoard threeBytes) { loraTransportInitPi with dio0Fd := 5 } 256 0
      = some (3, [1, 2, 3]) ∧
    piRecvCall (holdingBoard threeBytes) { loraTransportInitPi with dio0Fd := -1 } 256 0
      = some (0, []) := by
  refine ⟨holdingBoard_holds threeBytes, ?_, ?_⟩
  · decide
  · decide

/-- With a timeout of a second both do. -/
theorem piRecv_paths_agree_threeBytes :
    piRecvCall (holdingBoard threeBytes) { loraTransportInitPi with dio0Fd := 5 } 256 1000
      = piRecvCall (holdingBoard threeBytes) { loraTransportInitPi with dio0Fd := -1 } 256 1000 :=
  (piRecv_paths_agree (holdingBoard threeBytes) loraTransportInitPi threeBytes
    (holdingBoard_holds threeBytes) 5 (-1) (by decide) (by decide) 256 1000).mpr (by
      rw [PathsAgree, if_pos (by decide)]
      exact Or.inl (by decide))

end DtnHardware
