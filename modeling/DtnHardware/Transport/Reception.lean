import DtnHardware.Transport.Air

/-!
# How a frame is received

A frame comes in while a driver waits, the radio goes back to standby, and the driver reads the
flags, the length, the address, and byte by byte the frame. The frame may come at any moment of
the call; what makes the reading safe is that a receive lasts for one frame only
(`MODE_RX_SINGLE`) and that `RX_DONE` is not up before the frame is there. The stages are
conditions on the radio that it keeps by itself: `Idle` before the receive begins, `Waiting` from
then on, `Held` once a frame is there.

> **What is read after that is the frame** (`Port.frame_held`), through either driver's `Port`.
-/

set_option autoImplicit false

namespace DtnHardware

open Interference

/-! ## The stages of a receive -/

/-- The radio does not listen. -/
def Deaf (c : Sx1276) : Prop := receiving (c.reg regOpMode) = false

/-- No frame is there, and none can come. -/
structure Idle (n : Nat) (c : Sx1276) : Prop where
  down : c.reg regIrqFlags &&& irqRxDoneMask = 0
  deaf : Deaf c
  count : c.heard.length = n

/-- No frame is there, whatever has been heard. -/
def Clear (c : Sx1276) : Prop := Idle c.heard.length c

/-- None has come yet; the first one that does ends the receive. -/
structure Unheard (n : Nat) (c : Sx1276) : Prop where
  down : c.reg regIrqFlags &&& irqRxDoneMask = 0
  single : receiving (c.reg regOpMode) = true → c.reg regOpMode &&& 0x07 = modeRxSingle
  count : c.heard.length = n

/-- `f` is there, and has come since the radio had heard `n` frames. -/
structure Held (n : Nat) (f : Heard) (c : Sx1276) : Prop where
  rest : AtRest c
  recent : f ∈ c.heard.drop n
  short : f.bytes.length < 256
  nbBytes : c.reg regRxNbBytes = f.bytes.length.toUInt8
  bytes : ∀ (i : Nat) x, f.bytes[i]? = some x → c.fifo (c.reg regFifoRxCurr + i.toUInt8) = x

/-- While the driver waits. A frame with a bad CRC has its flag up. -/
def Waiting (n : Nat) (c : Sx1276) : Prop :=
  Unheard n c ∨
    ∃ f, Held n f c ∧ (f.crcOk = false → c.reg regIrqFlags &&& irqPayloadCrcErr ≠ 0)

/-- What the flags `irq`, once read, tell about the radio. -/
def Seen (n : Nat) (irq : UInt8) (c : Sx1276) : Prop :=
  irq &&& irqPayloadCrcErr = 0 → irq &&& irqRxDoneMask ≠ 0 → ∃ f, Held n f c ∧ f.crcOk = true

/-- `k` bytes of `f` have been read. -/
def Reading (n : Nat) (f : Heard) (k : Nat) (c : Sx1276) : Prop :=
  Held n f c ∧ c.reg regFifoAddrPtr = c.reg regFifoRxCurr + k.toUInt8

section
variable {c c' : Sx1276} {n : Nat} {f : Heard}

/-! ## What the radio keeps by itself -/

theorem rxDone_of_frameFlags {x y : UInt8} (h : x &&& frameFlags = y &&& frameFlags) :
    x &&& irqRxDoneMask = y &&& irqRxDoneMask := by
  have hmask : frameFlags &&& irqRxDoneMask = irqRxDoneMask := by decide
  rw [← hmask, ← UInt8.and_assoc, ← UInt8.and_assoc, h]

theorem crcErr_of_frameFlags {x y : UInt8} (h : x &&& frameFlags = y &&& frameFlags) :
    x &&& irqPayloadCrcErr = y &&& irqPayloadCrcErr := by
  have hmask : frameFlags &&& irqPayloadCrcErr = irqPayloadCrcErr := by decide
  rw [← hmask, ← UInt8.and_assoc, ← UInt8.and_assoc, h]

/-- In standby nothing happens to what is about a frame. -/
theorem AtRest.own_frame (hrest : AtRest c) (h : Own c c') :
    c'.heard = c.heard ∧ c'.reg regRxNbBytes = c.reg regRxNbBytes ∧
      c'.reg regFifoRxCurr = c.reg regFifoRxCurr ∧
      c'.reg regIrqFlags &&& frameFlags = c.reg regIrqFlags &&& frameFlags := by
  cases h with
  | notices reg kept flags => exact ⟨rfl, kept _ (by decide), kept _ (by decide), flags⟩
  | rests =>
    refine ⟨rfl, reg_rested (by decide), reg_rested (by decide), ?_⟩
    rw [reg_rested (by decide)]
  | fills fifo _ => exact ⟨rfl, rfl, rfl, rfl⟩
  | takes f reg fifo mode _ _ _ _ _ _ _ =>
    rw [hrest.not_receiving] at mode
    cases mode

theorem Held.own (h : Held n f c) (hown : Own c c') : Held n f c' := by
  obtain ⟨hrest, hfifo⟩ := h.rest.own hown
  obtain ⟨hheard, hlen, haddr, _⟩ := h.rest.own_frame hown
  refine ⟨hrest, ?_, h.short, hlen.trans h.nbBytes, fun i x hx => ?_⟩
  · rw [hheard]
    exact h.recent
  · rw [hfifo, haddr]
    exact h.bytes i x hx

theorem stable_held (n : Nat) (f : Heard) : radio.Stable (Held n f) := fun _ _ h hown => h.own hown

theorem stable_deaf : radio.Stable Deaf := by
  intro c c' h hown
  cases hown with
  | notices reg kept _ =>
    have hmode : reg regOpMode = c.reg regOpMode := kept _ (by decide)
    exact (congrArg receiving hmode).trans h
  | rests => exact (atRest_rested c).not_receiving
  | fills fifo _ => exact h
  | takes f reg fifo mode _ _ _ _ _ _ _ =>
    rw [show receiving (c.reg regOpMode) = false from h] at mode
    cases mode

theorem stable_idle (n : Nat) : radio.Stable (Idle n) := by
  intro c c' h hown
  have hdeaf := stable_deaf c c' h.deaf hown
  cases hown with
  | notices reg kept flags => exact ⟨(rxDone_of_frameFlags flags).trans h.down, hdeaf, h.count⟩
  | rests =>
    refine ⟨?_, hdeaf, h.count⟩
    rw [reg_rested (by decide)]
    exact h.down
  | fills fifo _ => exact ⟨h.down, h.deaf, h.count⟩
  | takes f reg fifo mode _ _ _ _ _ _ _ =>
    rw [show receiving (c.reg regOpMode) = false from h.deaf] at mode
    cases mode

theorem stable_clear : radio.Stable Clear := by
  intro c c' h hown
  have hidle := stable_idle _ c c' h hown
  rw [Clear, hidle.count]
  exact hidle

/-- **A frame that comes ends the receive.** -/
theorem Unheard.own (h : Unheard n c) (hown : Own c c') : Waiting n c' := by
  cases hown with
  | notices reg kept flags =>
    have hmode : reg regOpMode = c.reg regOpMode := kept _ (by decide)
    refine Or.inl ⟨(rxDone_of_frameFlags flags).trans h.down, ?_, h.count⟩
    intro hreceiving
    exact (congrArg (· &&& 0x07) hmode).trans
      (h.single ((congrArg receiving hmode).symm.trans hreceiving))
  | rests =>
    refine Or.inl ⟨?_, fun hreceiving => ?_, h.count⟩
    · rw [reg_rested (by decide)]
      exact h.down
    · rw [(atRest_rested c).not_receiving] at hreceiving
      cases hreceiving
  | fills fifo _ => exact Or.inl ⟨h.down, h.single, h.count⟩
  | takes f reg fifo mode short kept after nbBytes done crc bytes =>
    refine Or.inr ⟨f, ⟨?_, ?_, short, nbBytes, bytes⟩, crc⟩
    · rw [if_pos (h.single mode)] at after
      exact after
    · have hdrop : (c.heard ++ [f]).drop n = [f] := by
        rw [← h.count, List.drop_left]
      rw [hdrop]
      exact List.mem_singleton_self f

theorem stable_waiting (n : Nat) : radio.Stable (Waiting n) := by
  rintro c c' (h | ⟨f, hheld, hcrc⟩) hown
  · exact h.own hown
  · refine Or.inr ⟨f, hheld.own hown, fun hbad => ?_⟩
    rw [crcErr_of_frameFlags (hheld.rest.own_frame hown).2.2.2]
    exact hcrc hbad

theorem stable_seen (n : Nat) (irq : UInt8) : radio.Stable (Seen n irq) := by
  intro c c' h hown hcrc hdone
  obtain ⟨f, hheld, hok⟩ := h hcrc hdone
  exact ⟨f, hheld.own hown, hok⟩

theorem stable_located (n : Nat) (f : Heard) (addr : UInt8) :
    radio.Stable fun c => Held n f c ∧ c.reg regFifoRxCurr = addr := by
  intro c c' h hown
  exact ⟨h.1.own hown, (h.1.rest.own_frame hown).2.2.1.trans h.2⟩

theorem stable_reading (n : Nat) (f : Heard) (k : Nat) : radio.Stable (Reading n f k) := by
  intro c c' h hown
  refine ⟨h.1.own hown, ?_⟩
  rw [(h.1.rest.own_frame hown).2.2.1]
  exact (hown.reg_host (by decide)).trans h.2

/-! ## What the host does to it -/

theorem heard_write (addr val : UInt8) : (c.write addr val).heard = c.heard := by
  unfold Sx1276.write
  split
  · rfl
  · split <;> rfl

theorem read_of_ne {addr : UInt8} (h : addr ≠ regFifo) : c.read addr = c := if_neg h

theorem Idle.masked (h : Idle n c) : Idle n (c.write regIrqMask 0x00) := by
  have hreg : ∀ a ≠ regIrqMask, (c.write regIrqMask 0x00).reg a = c.reg a := fun a ha =>
    reg_write_of_ne ha fun heq => absurd heq (by decide)
  refine ⟨?_, ?_, (congrArg List.length (heard_write _ _)).trans h.count⟩
  · rw [hreg _ (by decide)]
    exact h.down
  · exact (congrArg receiving (hreg regOpMode (by decide))).trans h.deaf

theorem AtRest.idle (h : AtRest c) (hdown : c.reg regIrqFlags &&& irqRxDoneMask = 0) :
    Idle c.heard.length c := ⟨hdown, h.not_receiving, rfl⟩

/-- Asking changes no mode. -/
theorem AtRest.asks (h : AtRest c) {a : HostOp} (ha : a.Asks) :
    radio.emits c a = none ∧ AtRest (radio.does c a) := by
  cases a with
  | write addr val => exact ha.elim
  | read addr => exact ⟨rfl, (reg_read_of_ne (by decide)).trans h⟩

theorem Deaf.asks (h : Deaf c) {a : HostOp} (ha : a.Asks) :
    radio.emits c a = none ∧ Deaf (radio.does c a) := by
  cases a with
  | write addr val => exact ha.elim
  | read addr =>
    have hmode : (c.read addr).reg regOpMode = c.reg regOpMode := reg_read_of_ne (by decide)
    exact ⟨rfl, (congrArg receiving hmode).trans h⟩

/-- All flags are cleared. -/
theorem Deaf.cleared (h : Deaf c) : Clear (c.write regIrqFlags 0xFF) := by
  have hmode : (c.write regIrqFlags 0xFF).reg regOpMode = c.reg regOpMode :=
    reg_write_of_ne (by decide) fun _ => by decide
  refine ⟨?_, (congrArg receiving hmode).trans h, rfl⟩
  have hflags : (c.write regIrqFlags 0xFF).reg regIrqFlags = c.reg regIrqFlags &&& ~~~0xFF := by
    rw [Sx1276.write, if_neg (by decide), if_pos rfl]
    exact Function.update_self regIrqFlags _ c.reg
  have hnone : ~~~(0xFF : UInt8) = 0 := by decide
  rw [hflags, hnone, UInt8.and_zero, UInt8.zero_and]

theorem down_mode (h : c.reg regIrqFlags &&& irqRxDoneMask = 0) (val : UInt8) :
    (c.write regOpMode val).reg regIrqFlags &&& irqRxDoneMask = 0 := by
  rw [reg_write_of_ne (by decide) fun _ => by decide]
  exact h

theorem Idle.standby (h : Idle n c) : Idle n (c.write regOpMode (modeLora ||| modeStdby)) :=
  ⟨down_mode h.down _, AtRest.not_receiving (reg_mode c modeStdby),
    (congrArg List.length (heard_write _ _)).trans h.count⟩

theorem Clear.standby (h : Clear c) : Clear (c.write regOpMode (modeLora ||| modeStdby)) := by
  have hidle := Idle.standby h
  rw [Clear, hidle.count]
  exact hidle

theorem Idle.arm (h : Idle n c) : Unheard n (c.write regOpMode (modeLora ||| modeRxSingle)) := by
  refine ⟨down_mode h.down _, fun _ => ?_, (congrArg List.length (heard_write _ _)).trans h.count⟩
  rw [reg_mode]
  decide

/-- A write to a register that is not about a frame. -/
theorem Held.write (h : Held n f c) {addr : UInt8}
    (haddr : addr ∉ [regFifo, regOpMode, regRxNbBytes, regFifoRxCurr]) (val : UInt8) :
    Held n f (c.write addr val) := by
  simp only [List.mem_cons, List.not_mem_nil, or_false, not_or] at haddr
  obtain ⟨hfifo, hmode, hlen, hcurr⟩ := haddr
  refine ⟨?_, ?_, h.short, ?_, fun i x hx => ?_⟩
  · exact (reg_write_of_ne (Ne.symm hmode) fun _ => by decide).trans h.rest
  · rw [heard_write]
    exact h.recent
  · exact (reg_write_of_ne (Ne.symm hlen) fun _ => by decide).trans h.nbBytes
  · rw [fifo_write hfifo, reg_write_of_ne (Ne.symm hcurr) fun _ => by decide]
    exact h.bytes i x hx

theorem Held.cleared (h : Held n f c) : Held n f (c.write regIrqFlags 0xFF) :=
  h.write (by decide) _

theorem Held.standby (h : Held n f c) : Held n f (c.write regOpMode (modeLora ||| modeStdby)) := by
  refine ⟨reg_mode c modeStdby, ?_, h.short, ?_, fun i x hx => ?_⟩
  · rw [heard_write]
    exact h.recent
  · exact (reg_write_of_ne (by decide) fun _ => by decide).trans h.nbBytes
  · rw [fifo_write (by decide), reg_write_of_ne (by decide) fun _ => by decide]
    exact h.bytes i x hx

theorem Held.read (h : Held n f c) (addr : UInt8) : Held n f (c.read addr) := by
  have hreg : ∀ a ≠ regFifoAddrPtr, (c.read addr).reg a = c.reg a := fun a ha => reg_read_of_ne ha
  refine ⟨(hreg _ (by decide)).trans h.rest, ?_, h.short, (hreg _ (by decide)).trans h.nbBytes,
    fun i x hx => ?_⟩
  · have hheard : (c.read addr).heard = c.heard := by
      unfold Sx1276.read
      split <;> rfl
    rw [hheard]
    exact h.recent
  · rw [fifo_read, hreg _ (by decide)]
    exact h.bytes i x hx

/-- The flags, read while the driver waits. -/
theorem Waiting.seen (h : Waiting n c) : Seen n (c.reg regIrqFlags) c := by
  intro hcrc hdone
  rcases h with h | ⟨f, hheld, hbad⟩
  · exact absurd h.down hdone
  · refine ⟨f, hheld, ?_⟩
    cases hok : f.crcOk with
    | true => rfl
    | false => exact absurd hcrc (hbad hok)

theorem Seen.cleared {irq : UInt8} (h : Seen n irq c) : Seen n irq (c.write regIrqFlags 0xFF) := by
  intro hcrc hdone
  obtain ⟨f, hheld, hok⟩ := h hcrc hdone
  exact ⟨f, hheld.cleared, hok⟩

/-- The byte at the pointer, and the pointer behind it. -/
theorem Reading.step {k : Nat} (h : Reading n f k c) :
    Reading n f (k + 1) (c.read regFifo) := by
  refine ⟨h.1.read regFifo, ?_⟩
  have hpointer : (c.read regFifo).reg regFifoAddrPtr = c.reg regFifoAddrPtr + 1 := by
    rw [Sx1276.read, if_pos rfl]
    exact Function.update_self regFifoAddrPtr _ c.reg
  rw [hpointer, reg_read_of_ne (by decide), h.2]
  simp [UInt8.add_assoc]

/-- The pointer, set to where the frame begins. -/
theorem Held.point (h : Held n f c) {addr : UInt8} (haddr : c.reg regFifoRxCurr = addr) :
    Reading n f 0 (c.write regFifoAddrPtr addr) := by
  refine ⟨h.write (by decide) addr, ?_⟩
  rw [reg_write_self (by decide) (by decide), reg_write_of_ne (by decide) fun _ => by decide, haddr]
  simp

theorem Reading.answer {k : Nat} (h : Reading n f k c) {x : UInt8} (hx : f.bytes[k]? = some x) :
    c.answer regFifo = x := by
  rw [Sx1276.answer, if_pos rfl, h.2]
  exact h.1.bytes k x hx

end

/-! ## Arming -/

/-- What `pi_recv` and `esp_recv` begin with. -/
def armOps : List HostOp := [modeOp modeStdby, .write regIrqMask 0x00, modeOp modeRxSingle]

theorem triple_armOps (n : Nat) : radio.Triple (Idle n) armOps [] (Waiting n) := by
  have hstandby : radio.Triple (Idle n) [modeOp modeStdby] (none : Option Transmission).toList
      (Idle n) := .act (stable_idle n) (stable_idle n) fun c h => ⟨rfl, h.standby⟩
  have hmask : radio.Triple (Idle n) [.write regIrqMask 0x00] (none : Option Transmission).toList
      (Idle n) := .act (stable_idle n) (stable_idle n) fun c h => ⟨rfl, h.masked⟩
  have harm : radio.Triple (Idle n) [modeOp modeRxSingle] (none : Option Transmission).toList
      (Waiting n) := .act (stable_idle n) (stable_waiting n) fun c h => ⟨rfl, Or.inl h.arm⟩
  exact hstandby.append (hmask.append harm)

/-- The flags are cleared while nothing can come. -/
theorem triple_clear : radio.Triple Deaf [.write regIrqFlags 0xFF, modeOp modeStdby] [] Clear := by
  have hclear : radio.Triple Deaf [.write regIrqFlags 0xFF] (none : Option Transmission).toList
      Clear := .act stable_deaf stable_clear fun c h => ⟨rfl, h.cleared⟩
  have hrest : radio.Triple Clear [modeOp modeStdby] (none : Option Transmission).toList Clear :=
    .act stable_clear stable_clear fun c h => ⟨rfl, h.standby⟩
  exact hclear.append hrest

/-- The radio sends, and so does not listen. -/
theorem deaf_modeTx (c : Sx1276) : Deaf (c.write regOpMode (modeLora ||| modeTx)) :=
  (congrArg receiving (reg_mode c modeTx)).trans (by decide)

/-! ## Reading a frame -/

section
variable {β τ : Type} {host : β → Option HostOp}

/-- What the board says is what the radio says. -/
def Reads (c : Course radio host) (reg : List β → UInt8 → UInt8) : Prop :=
  ∀ hist addr, reg hist addr = (c.state hist).answer addr

/-- A driver's way to the registers. -/
structure Port (c : Course radio host) (τ : Type) where
  hist : τ → List β
  read : τ → UInt8 → UInt8 × τ
  write : τ → UInt8 → UInt8 → τ
  reads : ∀ st addr, (read st addr).1 = (c.state (hist st)).answer addr
  does_read : ∀ st addr, Does host (hist st) (hist (read st addr).2) [.read addr]
  does_write : ∀ st addr val, Does host (hist st) (hist (write st addr val)) [.write addr val]

variable {c : Course radio host} (P : Port c τ)

/-- `n` reads of the FIFO. -/
def Port.bytes : Nat → τ → List UInt8 × τ
  | 0, st => ([], st)
  | n + 1, st =>
      let (x, st) := P.read st regFifo
      let (xs, st) := bytes n st
      (x :: xs, st)

/-- The length, the address, and the bytes. -/
def Port.frame (st : τ) (cap : Nat) : List UInt8 × τ :=
  let (rxLen, st) := P.read st regRxNbBytes
  let (fifoAddr, st) := P.read st regFifoRxCurr
  P.bytes (min rxLen.toNat cap) (P.write st regFifoAddrPtr fifoAddr)

variable {P} {n : Nat} {f : Heard}

theorem Port.bytes_reading (m k : Nat) (st : τ) (h : Reading n f k (c.state (P.hist st)))
    (hm : k + m ≤ f.bytes.length) :
    (P.bytes m st).1 = (f.bytes.drop k).take m ∧
      Reading n f (k + m) (c.state (P.hist (P.bytes m st).2)) := by
  induction m generalizing k st with
  | zero => exact ⟨rfl, h⟩
  | succ m ih =>
    have hlt : k < f.bytes.length := by omega
    have hread : (P.read st regFifo).1 = f.bytes[k] :=
      (P.reads st regFifo).trans (h.answer (List.getElem?_eq_getElem hlt))
    have hone : radio.Triple (Reading n f k) [.read regFifo] (none : Option Transmission).toList
        (Reading n f (k + 1)) :=
      .act (stable_reading n f k) (stable_reading n f _) fun c h => ⟨rfl, h.step⟩
    have hnext := (c.triple hone (P.does_read st regFifo) h).2
    obtain ⟨hrest, hend⟩ := ih (k + 1) (P.read st regFifo).2 hnext (by omega)
    refine ⟨?_, ?_⟩
    · rw [List.drop_eq_getElem_cons hlt, List.take_succ_cons, ← hrest, ← hread]
      rfl
    · rw [← Nat.add_assoc, Nat.add_right_comm]
      exact hend

/-- The flags, read while the driver waits. -/
theorem Port.seen_read (st : τ) (h : Waiting n (c.state (P.hist st))) :
    Waiting n (c.state (P.hist (P.read st regIrqFlags).2)) ∧
      Seen n (P.read st regIrqFlags).1 (c.state (P.hist (P.read st regIrqFlags).2)) := by
  let irq := (P.read st regIrqFlags).1
  have hirq : (c.state (P.hist st)).reg regIrqFlags = irq :=
    ((P.reads st regIrqFlags).trans (if_neg (by decide))).symm
  have hstable := (stable_waiting n).and (stable_seen n irq)
  have hread : radio.Triple (fun c => Waiting n c ∧ Seen n irq c) [.read regIrqFlags]
      (none : Option Transmission).toList (fun c => Waiting n c ∧ Seen n irq c) := by
    refine .act hstable hstable fun c h => ⟨rfl, ?_⟩
    have hsame : c.read regIrqFlags = c := read_of_ne (by decide)
    exact hsame.symm ▸ h
  have hseen := h.seen
  rw [hirq] at hseen
  exact (c.triple hread (P.does_read st regIrqFlags) ⟨h, hseen⟩).2

/-- **The frame that is there is the frame that is read.** -/
theorem Port.frame_held (st : τ) (cap : Nat) (h : Held n f (c.state (P.hist st))) :
    (P.frame st cap).1 = f.bytes.take cap ∧ Held n f (c.state (P.hist (P.frame st cap).2)) := by
  let asked := (P.read st regRxNbBytes).2
  let addr := (P.read asked regFifoRxCurr).1
  have hask : radio.Triple (Held n f) [.read regRxNbBytes] (none : Option Transmission).toList
      (Held n f) :=
    .act (stable_held n f) (stable_held n f) fun c h => ⟨rfl, h.read regRxNbBytes⟩
  have hlocate : radio.Triple (fun c => Held n f c ∧ c.reg regFifoRxCurr = addr)
      [.read regFifoRxCurr] (none : Option Transmission).toList
      (fun c => Held n f c ∧ c.reg regFifoRxCurr = addr) :=
    .act (stable_located n f addr) (stable_located n f addr) fun c h =>
      ⟨rfl, h.1.read regFifoRxCurr, (reg_read_of_ne (by decide)).trans h.2⟩
  have hpoint : radio.Triple (fun c => Held n f c ∧ c.reg regFifoRxCurr = addr)
      [.write regFifoAddrPtr addr] (none : Option Transmission).toList (Reading n f 0) :=
    .act (stable_located n f addr) (stable_reading n f 0) fun c h => ⟨rfl, h.1.point h.2⟩
  have hlen : (P.read st regRxNbBytes).1.toNat = f.bytes.length := by
    rw [P.reads, Sx1276.answer, if_neg (by decide), h.nbBytes, Nat.toUInt8_eq,
      UInt8.toNat_ofNat', Nat.mod_eq_of_lt h.short]
  have hasked := (c.triple hask (P.does_read st regRxNbBytes) h).2
  have haddr : (c.state (P.hist asked)).reg regFifoRxCurr = addr :=
    ((P.reads asked regFifoRxCurr).trans (if_neg (by decide))).symm
  have hlocated := (c.triple hlocate (P.does_read asked regFifoRxCurr) ⟨hasked, haddr⟩).2
  have hpointed := (c.triple hpoint (P.does_write _ regFifoAddrPtr addr) hlocated).2
  obtain ⟨hbytes, hend⟩ := P.bytes_reading (min f.bytes.length cap) 0 _ hpointed (by omega)
  have hframe : P.frame st cap = P.bytes (min f.bytes.length cap)
      (P.write (P.read asked regFifoRxCurr).2 regFifoAddrPtr addr) := by
    rw [← hlen]
    rfl
  have hcut : f.bytes.take (min f.bytes.length cap) = f.bytes.take cap := by
    rw [List.take_eq_take_iff]
    omega
  rw [hframe]
  exact ⟨by rw [hbytes, List.drop_zero, hcut], hend.1⟩

end

/-- `bytes` is a frame that has come since the radio had heard `n`, cut to `cap` bytes. -/
def Whole (n cap : Nat) (bytes : List UInt8) (c : Sx1276) : Prop :=
  ∃ f ∈ c.heard.drop n, f.crcOk = true ∧ bytes = f.bytes.take cap

end DtnHardware
