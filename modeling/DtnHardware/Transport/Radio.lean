import DtnHardware.Lib.Interference
import DtnHardware.Transport.Pi

/-!
# The radio behind the drivers

`Board` and `EspBoard` answer a driver with whatever they like. Here is what an SX1276 does, as
far as the two drivers rely on it: registers, a FIFO that is reached through one register and a
pointer that moves on with every access, flags that a written one clears, and a transmission
that begins with the switch to `MODE_TX`. The chip is not part of the program: `Sx1276`, `Own` and
`radio` are assumptions, and say what its documentation says.

The radio also moves by itself (`Own`): it measures, it goes back to standby when it has sent or
its time is over, and while it receives the bytes of a frame fall into the FIFO wherever it
likes. So what a driver has put into the FIFO is safe only because it has gone to standby first:

> **What is loaded in standby is what the radio begins to transmit** (`triple_loadOps`), with the
> settings of the registers that `init` has written.

Whether a transmission ends is not told here. Both drivers take the mode back after two seconds,
or at an edge that was for something else, and a frame may be longer on the air than that.
-/

set_option autoImplicit false

namespace DtnHardware

open Interference

/-! ## The SX1276 -/

/-- What goes over SPI. -/
inductive HostOp where
  | write (addr val : UInt8)
  | read (addr : UInt8)
deriving DecidableEq

/-- A frame that has been received, and whether its CRC was right. -/
structure Heard where
  bytes : List UInt8
  crcOk : Bool
deriving DecidableEq

/-- The chip, as it is assumed to be. `heard` is what has been received so far; nothing in the
    radio tells. -/
structure Sx1276 where
  reg : UInt8 → UInt8
  fifo : UInt8 → UInt8
  heard : List Heard

/-- The registers that say how a frame is sent: carrier, bandwidth and coding rate, spreading
    factor, preamble and sync word. -/
def settingRegisters : List UInt8 :=
  [regFrfMsb, regFrfMid, regFrfLsb, regModemConfig1, regModemConfig2, regPreambleMsb,
    regPreambleLsb, regSyncWord]

/-- The registers that the radio leaves alone. -/
def hostRegisters : List UInt8 :=
  settingRegisters ++ [regPaConfig, regFifoAddrPtr, regFifoTxBase, regFifoRxBase, regIrqMask,
    regPayloadLength]

/-- The registers that do more than hold what is written to them, and the pointer. -/
def accessRegisters : List UInt8 := [regFifo, regIrqFlags, regOpMode, regFifoAddrPtr]

/-- The flags that say that a frame is there. -/
def frameFlags : UInt8 := irqRxDoneMask ||| irqPayloadCrcErr

def Sx1276.write (c : Sx1276) (addr val : UInt8) : Sx1276 :=
  if addr = regFifo then
    { c with
      fifo := Function.update c.fifo (c.reg regFifoAddrPtr) val
      reg := Function.update c.reg regFifoAddrPtr (c.reg regFifoAddrPtr + 1) }
  else if addr = regIrqFlags then
    { c with reg := Function.update c.reg regIrqFlags (c.reg regIrqFlags &&& ~~~val) }
  else { c with reg := Function.update c.reg addr val }

def Sx1276.read (c : Sx1276) (addr : UInt8) : Sx1276 :=
  if addr = regFifo then
    { c with reg := Function.update c.reg regFifoAddrPtr (c.reg regFifoAddrPtr + 1) }
  else c

/-- What a read returns. -/
def Sx1276.answer (c : Sx1276) (addr : UInt8) : UInt8 :=
  if addr = regFifo then c.fifo (c.reg regFifoAddrPtr) else c.reg addr

/-- A transmission: the settings and the bytes it begins with. -/
structure Transmission where
  settings : List UInt8
  payload : List UInt8
deriving DecidableEq

/-- The transmission that a switch to `MODE_TX` begins. -/
def Sx1276.frame (c : Sx1276) : Transmission where
  settings := settingRegisters.map c.reg
  payload := (List.range (c.reg regPayloadLength).toNat).map fun i =>
    c.fifo (c.reg regFifoTxBase + i.toUInt8)

/-- The radio, back in standby. -/
def Sx1276.rested (c : Sx1276) : Sx1276 :=
  { c with reg := Function.update c.reg regOpMode (modeLora ||| modeStdby) }

/-- What the radio is assumed to do by itself. -/
inductive Own : Sx1276 → Sx1276 → Prop
  /-- it measures, and raises a flag that is not about a frame -/
  | notices (c : Sx1276) (reg : UInt8 → UInt8)
      (kept : ∀ a ∈ hostRegisters ++ [regOpMode, regFifoRxCurr, regRxNbBytes], reg a = c.reg a)
      (flags : reg regIrqFlags &&& frameFlags = c.reg regIrqFlags &&& frameFlags) :
      Own c { c with reg }
  /-- `MODE_TX` and `MODE_RX_SINGLE` end in standby -/
  | rests (c : Sx1276) : Own c c.rested
  /-- the bytes of a frame come in; asleep it may lose what is there -/
  | fills (c : Sx1276) (fifo : UInt8 → UInt8)
      (mode : receiving (c.reg regOpMode) = true ∨ c.reg regOpMode &&& 0x07 = modeSleep) :
      Own c { c with fifo }
  /-- the frame is complete -/
  | takes (c : Sx1276) (f : Heard) (reg fifo : UInt8 → UInt8)
      (mode : receiving (c.reg regOpMode) = true) (short : f.bytes.length < 256)
      (kept : ∀ a ∈ hostRegisters, reg a = c.reg a)
      (after : reg regOpMode = if c.reg regOpMode &&& 0x07 = modeRxSingle
        then modeLora ||| modeStdby else c.reg regOpMode)
      (nbBytes : reg regRxNbBytes = f.bytes.length.toUInt8)
      (done : reg regIrqFlags &&& irqRxDoneMask ≠ 0)
      (crc : f.crcOk = false → reg regIrqFlags &&& irqPayloadCrcErr ≠ 0)
      (bytes : ∀ (i : Nat) x, f.bytes[i]? = some x → fifo (reg regFifoRxCurr + i.toUInt8) = x) :
      Own c ⟨reg, fifo, c.heard ++ [f]⟩

/-- The radio as a device; what it gives out are the transmissions that it begins. -/
def radio : Device HostOp Sx1276 Transmission where
  does c
    | .write addr val => c.write addr val
    | .read addr => c.read addr
  emits c
    | .write addr val => if addr = regOpMode ∧ val &&& 0x07 = modeTx then some c.frame else none
    | .read _ => none
  own := Own

/-! ## Registers -/

section
variable {c c' : Sx1276} {a addr val : UInt8}

theorem reg_write (h : addr ≠ regFifo) (h' : addr ≠ regIrqFlags) :
    (c.write addr val).reg = Function.update c.reg addr val := by
  rw [Sx1276.write, if_neg h, if_neg h']

theorem reg_write_self (h : addr ≠ regFifo) (h' : addr ≠ regIrqFlags) :
    (c.write addr val).reg addr = val := by
  rw [reg_write h h', Function.update_self]

theorem reg_mode (c : Sx1276) (mode : UInt8) :
    (c.write regOpMode (modeLora ||| mode)).reg regOpMode = modeLora ||| mode :=
  reg_write_self (by decide) (by decide)

/-- A write changes its register; one to the FIFO changes the pointer. -/
theorem reg_write_of_ne (h : a ≠ addr) (hptr : addr = regFifo → a ≠ regFifoAddrPtr) :
    (c.write addr val).reg a = c.reg a := by
  unfold Sx1276.write
  split
  · rename_i hfifo
    exact Function.update_of_ne (hptr hfifo) _ _
  · split
    · rename_i hflags
      rw [hflags] at h
      exact Function.update_of_ne h _ _
    · exact Function.update_of_ne h _ _

theorem fifo_write (h : addr ≠ regFifo) : (c.write addr val).fifo = c.fifo := by
  rw [Sx1276.write, if_neg h]
  split <;> rfl

theorem reg_read_of_ne (hptr : a ≠ regFifoAddrPtr) : (c.read addr).reg a = c.reg a := by
  unfold Sx1276.read
  split
  · exact Function.update_of_ne hptr _ _
  · rfl

theorem fifo_read : (c.read addr).fifo = c.fifo := by
  unfold Sx1276.read
  split <;> rfl

/-- Only the mode sends. -/
theorem emits_write (h : addr ≠ regOpMode) : radio.emits c (.write addr val) = none :=
  if_neg fun hmode => h hmode.1

theorem reg_rested (h : a ≠ regOpMode) : c.rested.reg a = c.reg a := Function.update_of_ne h _ _

theorem regOpMode_not_host : regOpMode ∉ hostRegisters := by decide

/-- What the host has set stays. -/
theorem Own.reg_host (h : Own c c') (ha : a ∈ hostRegisters) : c'.reg a = c.reg a := by
  cases h with
  | notices reg kept _ => exact kept a (List.mem_append_left _ ha)
  | rests => exact reg_rested (ne_of_mem_of_not_mem ha regOpMode_not_host)
  | fills _ _ => rfl
  | takes f reg fifo _ _ kept _ _ _ _ _ => exact kept a ha

/-! ## In standby -/

def AtRest (c : Sx1276) : Prop := c.reg regOpMode = modeLora ||| modeStdby

theorem atRest_rested (c : Sx1276) : AtRest c.rested := Function.update_self regOpMode _ c.reg

theorem AtRest.not_receiving (h : AtRest c) : receiving (c.reg regOpMode) = false := by
  rw [h]
  decide

/-- In standby it stays there, and the FIFO is the host's. -/
theorem AtRest.own (hrest : AtRest c) (h : Own c c') : AtRest c' ∧ c'.fifo = c.fifo := by
  have hawake : ¬ c.reg regOpMode &&& 0x07 = modeSleep := by
    rw [hrest]
    decide
  cases h with
  | notices reg kept _ => exact ⟨(kept regOpMode (by decide)).trans hrest, rfl⟩
  | rests => exact ⟨atRest_rested c, rfl⟩
  | fills fifo mode =>
    rcases mode with mode | mode
    · rw [hrest.not_receiving] at mode
      cases mode
    · exact absurd mode hawake
  | takes f reg fifo mode _ _ _ _ _ _ _ =>
    rw [hrest.not_receiving] at mode
    cases mode

end

/-! ## Settings -/

/-- The addresses `pi_init` writes; `esp_init` writes one more. -/
def initAddresses : List UInt8 :=
  [regFrfMsb, regFrfMid, regFrfLsb, regPaConfig, 0x0C, regModemConfig1, regModemConfig2, 0x1F,
    regPreambleMsb, regPreambleLsb, regSyncWord, regFifoTxBase, regFifoRxBase]

/-- What the host has set is as it was set. -/
def HasSet (rs : List (UInt8 × UInt8)) (c : Sx1276) : Prop :=
  ∀ r ∈ rs, r.1 ∈ hostRegisters → c.reg r.1 = r.2

/-- What the drivers write to these registers for a configuration. The bits of the bandwidth are
    those of 125 kHz: neither driver reads `bw_hz`. -/
def writtenSettings (cfg : LoraConfig) : List UInt8 :=
  [(frfOf cfg >>> 16).toUInt8, (frfOf cfg >>> 8).toUInt8, (frfOf cfg).toUInt8,
    ((0x07 : UInt8) <<< 4) ||| (((cfg.codingRate - 4) &&& 0x07).toUInt8 <<< 1),
    (cfg.sf <<< 4) ||| 0x04, ((cfg.preambleLen >>> 8) &&& 0xFF).toUInt8,
    (cfg.preambleLen &&& 0xFF).toUInt8, cfg.syncWord.toUInt32.toUInt8]

/-- The radio is set up as `init` does it for `cfg`. -/
abbrev Configured (cfg : LoraConfig) : Sx1276 → Prop := HasSet (initRegisters cfg)

section
variable {c : Sx1276} {cfg : LoraConfig} {rs : List (UInt8 × UInt8)}

theorem stable_hasSet (rs : List (UInt8 × UInt8)) : radio.Stable (HasSet rs) :=
  fun _ _ h hown r hr hhost => (hown.reg_host hhost).trans (h r hr hhost)

theorem stable_atRest : radio.Stable AtRest := fun _ _ h hown => (h.own hown).1

/-- A write elsewhere leaves the settings. -/
theorem HasSet.write (h : HasSet rs c) {addr : UInt8} (haddr : ∀ r ∈ rs, r.1 ≠ addr)
    (hptr : ∀ r ∈ rs, r.1 ≠ regFifoAddrPtr) (val : UInt8) : HasSet rs (c.write addr val) :=
  fun r hr hhost => (reg_write_of_ne (haddr r hr) fun _ => hptr r hr).trans (h r hr hhost)

/-- Neither does a mode. -/
theorem HasSet.mode (h : HasSet rs c) (hrs : ∀ r ∈ rs, r.1 ∉ accessRegisters) (val : UInt8) :
    HasSet rs (c.write regOpMode val) :=
  h.write (fun r hr => (ne_of_mem_of_not_mem (by decide) (hrs r hr)).symm)
    (fun r hr => (ne_of_mem_of_not_mem (by decide) (hrs r hr)).symm) val

theorem Configured.write (h : Configured cfg c) {addr : UInt8} (haddr : addr ∉ initAddresses)
    (val : UInt8) : Configured cfg (c.write addr val) := by
  have hmem : ∀ r ∈ initRegisters cfg, r.1 ∈ initAddresses := fun r hr =>
    List.mem_map_of_mem (f := Prod.fst) hr
  have hptr : regFifoAddrPtr ∉ initAddresses := by decide
  exact HasSet.write h (fun r hr => ne_of_mem_of_not_mem (hmem r hr) haddr)
    (fun r hr => ne_of_mem_of_not_mem (hmem r hr) hptr) val

theorem Configured.settings (h : Configured cfg c) :
    settingRegisters.map c.reg = writtenSettings cfg ∧ c.reg regFifoTxBase = 0 := by
  have hreg : ∀ (i : Nat) a val, (initRegisters cfg)[i]? = some (a, val) → a ∈ hostRegisters →
      c.reg a = val := fun i a val hr hhost => h (a, val) (List.mem_of_getElem? hr) hhost
  refine ⟨?_, hreg 11 regFifoTxBase 0 rfl (by decide)⟩
  simp only [settingRegisters, writtenSettings, List.map_cons, List.map_nil, List.cons.injEq, and_true]
  exact ⟨hreg 0 _ _ rfl (by decide), hreg 1 _ _ rfl (by decide), hreg 2 _ _ rfl (by decide),
    hreg 5 _ _ rfl (by decide), hreg 6 _ _ rfl (by decide), hreg 8 _ _ rfl (by decide),
    hreg 9 _ _ rfl (by decide), hreg 10 _ _ rfl (by decide)⟩

theorem HasSet.snoc (h : HasSet rs c) {r : UInt8 × UInt8}
    (hnew : ∀ r' ∈ rs, r'.1 ≠ r.1) (hptr : ∀ r' ∈ rs, r'.1 ≠ regFifoAddrPtr)
    (hfifo : r.1 ≠ regFifo) (hflags : r.1 ≠ regIrqFlags) : HasSet (rs ++ [r]) (c.write r.1 r.2) := by
  intro r' hr' hhost
  rcases List.mem_append.mp hr' with hold | hr
  · exact h.write hnew hptr r.2 r' hold hhost
  · rw [List.mem_singleton.mp hr]
    exact reg_write_self hfifo hflags

/-- **`init` sets what it writes**, each register once. -/
theorem triple_hasSet (rs rs' : List (UInt8 × UInt8))
    (h : ((rs ++ rs').map Prod.fst ++ accessRegisters).Nodup) :
    radio.Triple (HasSet rs) (rs'.map fun r => .write r.1 r.2) [] (HasSet (rs ++ rs')) := by
  induction rs' generalizing rs with
  | nil =>
    rw [List.append_nil]
    exact .nil (stable_hasSet rs)
  | cons r rs' ih =>
    have happend : rs ++ r :: rs' = (rs ++ [r]) ++ rs' := by simp
    rw [happend] at h ⊢
    have hplain : ∀ r' ∈ rs ++ [r], r'.1 ∉ accessRegisters := fun r' hr' =>
      List.disjoint_of_nodup_append h (List.mem_map_of_mem (List.mem_append_left _ hr'))
    have hr := hplain r (by simp)
    simp only [accessRegisters, List.mem_cons, List.not_mem_nil, or_false, not_or] at hr
    obtain ⟨hfifo, hflags, hmode, _⟩ := hr
    have hfirst : radio.Triple (HasSet rs) [.write r.1 r.2] (none : Option Transmission).toList
        (HasSet (rs ++ [r])) := by
      refine .act (stable_hasSet rs) (stable_hasSet _) fun c hc => ⟨emits_write hmode, ?_⟩
      refine hc.snoc (fun r' hr' heq => ?_) (fun r' hr' heq => ?_) hfifo hflags
      · have hold := (List.nodup_append.mp h).1
        simp only [List.map_append, List.map_cons, List.map_nil] at hold
        have hdisjoint := List.disjoint_of_nodup_append (List.nodup_append.mp hold).1
        exact hdisjoint (List.mem_map_of_mem hr') (by simp [heq])
      · exact hplain r' (List.mem_append_left _ hr') (by simp [heq, accessRegisters])
    exact hfirst.append (ih (rs ++ [r]) h)

end

/-! ## A frame in the FIFO -/

/-- `xs` has been written from the base address on, in standby. -/
structure Loaded (cfg : LoraConfig) (xs : List UInt8) (c : Sx1276) : Prop where
  configured : Configured cfg c
  rest : AtRest c
  pointer : c.reg regFifoAddrPtr = xs.length.toUInt8
  bytes : ∀ (i : Nat) x, xs[i]? = some x → c.fifo i.toUInt8 = x

section
variable {c : Sx1276} {cfg : LoraConfig} {xs : List UInt8}

theorem Configured.mode (h : Configured cfg c) (val : UInt8) :
    Configured cfg (c.write regOpMode val) := h.write (by decide) val

theorem toUInt8_inj {i j : Nat} (hi : i < 256) (hj : j < 256) (h : i.toUInt8 = j.toUInt8) :
    i = j := by
  have hnat := congrArg UInt8.toNat h
  rwa [Nat.toUInt8_eq, Nat.toUInt8_eq, UInt8.toNat_ofNat', UInt8.toNat_ofNat',
    Nat.mod_eq_of_lt hi, Nat.mod_eq_of_lt hj] at hnat

theorem stable_loaded (cfg : LoraConfig) (xs : List UInt8) : radio.Stable (Loaded cfg xs) := by
  intro c c' h hown
  obtain ⟨hrest, hfifo⟩ := h.rest.own hown
  refine ⟨stable_hasSet _ c c' h.configured hown, hrest, ?_, ?_⟩
  · exact (hown.reg_host (by decide)).trans h.pointer
  · rw [hfifo]
    exact h.bytes

theorem Loaded.nil (h : Configured cfg c) (hrest : AtRest c) :
    Loaded cfg [] (c.write regFifoAddrPtr 0x00) := by
  refine ⟨h.write (by decide) _, ?_, ?_, fun _ _ hx => absurd hx (by simp)⟩
  · exact (reg_write_of_ne (by decide) fun _ => by decide).trans hrest
  · exact reg_write_self (by decide) (by decide)

/-- The next byte falls behind those that are there. -/
theorem Loaded.snoc (h : Loaded cfg xs c) (hroom : xs.length < 256) (x : UInt8) :
    Loaded cfg (xs ++ [x]) (c.write regFifo x) := by
  refine ⟨h.configured.write (by decide) _, ?_, ?_, fun i y hy => ?_⟩
  · exact (reg_write_of_ne (by decide) fun _ => by decide).trans h.rest
  · rw [Sx1276.write, if_pos rfl, List.length_append, List.length_singleton]
    dsimp only
    rw [Function.update_self, h.pointer]
    simp
  · rw [Sx1276.write, if_pos rfl]
    dsimp only
    rw [h.pointer]
    by_cases hi : i < xs.length
    · rw [List.getElem?_append_left hi] at hy
      rw [Function.update_of_ne fun heq => hi.ne (toUInt8_inj (by omega) hroom heq)]
      exact h.bytes i y hy
    · have hlen := (List.getElem?_eq_some_iff.mp hy).1
      rw [List.length_append, List.length_singleton] at hlen
      obtain rfl : i = xs.length := by omega
      rw [List.getElem?_concat_length] at hy
      rw [Function.update_self]
      exact Option.some.inj hy

/-- The radio is about to send `xs`. -/
structure Ready (cfg : LoraConfig) (xs : List UInt8) (c : Sx1276) : Prop where
  loaded : Loaded cfg xs c
  length : c.reg regPayloadLength = xs.length.toUInt8

theorem stable_ready (cfg : LoraConfig) (xs : List UInt8) : radio.Stable (Ready cfg xs) :=
  fun c c' h hown => ⟨stable_loaded cfg xs c c' h.loaded hown,
    (hown.reg_host (by decide)).trans h.length⟩

/-- Writes to a register that has nothing to do with the FIFO. -/
theorem Loaded.write (h : Loaded cfg xs c) {addr : UInt8}
    (haddr : addr ∉ regFifo :: regFifoAddrPtr :: regOpMode :: initAddresses) (val : UInt8) :
    Loaded cfg xs (c.write addr val) := by
  simp only [List.mem_cons, not_or] at haddr
  obtain ⟨hfifo, hptr, hmode, hinit⟩ := haddr
  refine ⟨h.configured.write hinit _, ?_, ?_, ?_⟩
  · exact (reg_write_of_ne (Ne.symm hmode) fun heq => absurd heq hfifo).trans h.rest
  · exact (reg_write_of_ne (Ne.symm hptr) fun heq => absurd heq hfifo).trans h.pointer
  · rw [fifo_write hfifo]
    exact h.bytes

theorem Loaded.ready (h : Loaded cfg xs c) :
    Ready cfg xs (c.write regPayloadLength xs.length.toUInt8) :=
  ⟨h.write (by decide) _, reg_write_self (by decide) (by decide)⟩

theorem Ready.masked (h : Ready cfg xs c) : Ready cfg xs (c.write regIrqMask 0x00) :=
  ⟨h.loaded.write (by decide) _,
    (reg_write_of_ne (by decide) fun _ => by decide).trans h.length⟩

/-- **What is sent then**: the settings, and the bytes from the base address on. -/
theorem Ready.frame (h : Ready cfg xs c) (hshort : xs.length < 256) :
    c.frame = ⟨writtenSettings cfg, xs⟩ := by
  obtain ⟨hsettings, hbase⟩ := h.loaded.configured.settings
  rw [Sx1276.frame, hsettings, hbase, h.length]
  congr 1
  have hlen : xs.length.toUInt8.toNat = xs.length := by
    rw [Nat.toUInt8_eq, UInt8.toNat_ofNat', Nat.mod_eq_of_lt hshort]
  rw [hlen]
  refine List.ext_getElem (by simp) fun i hi hi' => ?_
  have hbyte := h.loaded.bytes i _ (List.getElem?_eq_getElem hi')
  simpa using hbyte

end

/-! ## Sending -/

/-- A mode, set. -/
def modeOp (mode : UInt8) : HostOp := .write regOpMode (modeLora ||| mode)

/-- What `pi_send` and `esp_send` do up to the switch to `MODE_TX`. -/
def loadOps (buf : List UInt8) : List HostOp :=
  [modeOp modeStdby, .write regFifoAddrPtr 0x00] ++ buf.map (.write regFifo) ++
    [.write regPayloadLength buf.length.toUInt8, .write regIrqMask 0x00, modeOp modeTx]

/-- An operation that neither sends nor changes a setting. -/
def HostOp.Quiet : HostOp → Prop
  | .write addr val => addr ∉ initAddresses ∧ ¬ (addr = regOpMode ∧ val &&& 0x07 = modeTx)
  | .read _ => True

instance : DecidablePred HostOp.Quiet
  | .write _ _ => inferInstanceAs (Decidable (_ ∉ initAddresses ∧ ¬ (_ ∧ _)))
  | .read _ => .isTrue trivial

section
variable {cfg : LoraConfig}

theorem Configured.quiet {c : Sx1276} (h : Configured cfg c) {a : HostOp} (ha : a.Quiet) :
    radio.emits c a = none ∧ Configured cfg (radio.does c a) := by
  cases a with
  | write addr val => exact ⟨if_neg ha.2, h.write ha.1 val⟩
  | read addr =>
    refine ⟨rfl, fun r hr hhost => ?_⟩
    have hptr : regFifoAddrPtr ∉ initAddresses := by decide
    have hmem : r.1 ∈ initAddresses := List.mem_map_of_mem (f := Prod.fst) hr
    exact (reg_read_of_ne (ne_of_mem_of_not_mem hmem hptr)).trans (h r hr hhost)

theorem triple_fill (xs buf : List UInt8) (hshort : (xs ++ buf).length < 256) :
    radio.Triple (Loaded cfg xs) (buf.map (.write regFifo)) [] (Loaded cfg (xs ++ buf)) := by
  induction buf generalizing xs with
  | nil =>
    rw [List.append_nil]
    exact .nil (stable_loaded cfg xs)
  | cons x buf ih =>
    have happend : xs ++ x :: buf = (xs ++ [x]) ++ buf := by simp
    rw [happend] at hshort ⊢
    have hroom : xs.length < 256 := by
      simp only [List.length_append] at hshort
      omega
    have hfirst : radio.Triple (Loaded cfg xs) [.write regFifo x] (none : Option Transmission).toList
        (Loaded cfg (xs ++ [x])) :=
      .act (stable_loaded cfg xs) (stable_loaded cfg _) fun c h =>
        ⟨emits_write (by decide), h.snoc hroom x⟩
    exact hfirst.append (ih _ hshort)

/-- **A load begins one transmission**, whatever the radio has done before and does meanwhile. -/
theorem triple_loadOps (buf : List UInt8) (hshort : buf.length < 256) :
    radio.Triple (Configured cfg) (loadOps buf) [⟨writtenSettings cfg, buf⟩] (Configured cfg) := by
  have hconf := stable_hasSet (initRegisters cfg)
  have hstandby : radio.Triple (Configured cfg) [modeOp modeStdby]
      (none : Option Transmission).toList fun c => Configured cfg c ∧ AtRest c :=
    .act hconf (hconf.and stable_atRest) fun c h => ⟨rfl, Configured.mode h _, reg_mode c modeStdby⟩
  have hpointed : radio.Triple (fun c => Configured cfg c ∧ AtRest c)
      [.write regFifoAddrPtr 0x00] (none : Option Transmission).toList (Loaded cfg []) :=
    .act (hconf.and stable_atRest) (stable_loaded cfg []) fun c h => ⟨rfl, .nil h.1 h.2⟩
  have hlength : radio.Triple (Loaded cfg buf) [.write regPayloadLength buf.length.toUInt8]
      (none : Option Transmission).toList (Ready cfg buf) :=
    .act (stable_loaded cfg buf) (stable_ready cfg buf) fun c h => ⟨rfl, h.ready⟩
  have hmask : radio.Triple (Ready cfg buf) [.write regIrqMask 0x00]
      (none : Option Transmission).toList (Ready cfg buf) :=
    .act (stable_ready cfg buf) (stable_ready cfg buf) fun c h => ⟨rfl, h.masked⟩
  have hsend : radio.Triple (Ready cfg buf) [modeOp modeTx]
      (some (⟨writtenSettings cfg, buf⟩ : Transmission)).toList (Configured cfg) :=
    .act (stable_ready cfg buf) hconf fun c h =>
      ⟨congrArg some (h.frame hshort), h.loaded.configured.mode _⟩
  exact (hstandby.append hpointed).append (triple_fill [] buf hshort) |>.append
    ((hlength.append hmask).append hsend)

end

end DtnHardware
