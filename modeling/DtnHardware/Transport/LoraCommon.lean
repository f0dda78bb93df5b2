import DtnHardware.Transport.Receivers

/-!
# `lora_common` — two drivers, one interface

The node calls the radio through `lora_transport_vtable`. What the two drivers have in common
beyond their types is what the node relies on (`LoraLink`): a send begins one transmission, of
the frame as it is, nothing else begins one, and what is received has come in whole, during the
call.

> `piLink` and `espLink`: each driver, on its radio, keeps to that.

So what is proved of a node on a `LoraLink` is proved of a node on either.
-/

set_option autoImplicit false

namespace DtnHardware

open Interference

/-! ## The vtable -/

/-- What a `recv` returns, what it wrote to `buf`, and the state. -/
structure LoraRecv (τ : Type) where
  ret : Int
  bytes : List UInt8
  state : τ

/-- `lora_transport_vtable`; any of the pointers may be `NULL`. -/
structure LoraVtable (τ : Type) where
  init : Option (τ → LoraConfig → Int × τ)
  send : Option (τ → List UInt8 → Int × τ)
  recv : Option (τ → Nat → UInt32 → LoraRecv τ)
  rssi : Option (τ → Int32 × τ)
  getIrqFd : Option (τ → Int)

section
variable {τ : Type} (v : LoraVtable τ) (st : τ)

def loraInit (cfg : LoraConfig) : Int × τ :=
  match v.init with
  | some init => init st cfg
  | none => (-1, st)

def loraSend (buf : List UInt8) : Int × τ :=
  match v.send with
  | some send => send st buf
  | none => (-1, st)

def loraRecv (cap : Nat) (timeoutMs : UInt32) : LoraRecv τ :=
  match v.recv with
  | some recv => recv st cap timeoutMs
  | none => ⟨-1, [], st⟩

def loraRssi : Int32 × τ :=
  match v.rssi with
  | some rssi => rssi st
  | none => (0, st)

def loraGetIrqFd : Int :=
  match v.getIrqFd with
  | some fd => fd st
  | none => -1

end

/-- `PI_VTABLE`. -/
def piVtable (board : Board) : LoraVtable PiLora where
  init := some (piInit board)
  send := some (piSend board)
  recv := some fun st cap timeoutMs =>
    let r := piRecv board st cap timeoutMs
    ⟨r.ret, r.bytes, r.state⟩
  rssi := some (piRssi board)
  getIrqFd := some piGetIrqFd

/-- `esp_rssi`. -/
def espRssi (board : EspBoard) (st : EspLora) : Int32 × EspLora :=
  let (r, st) := espRegRead board st regPktRssiValue
  (r.toUInt32.toInt32 - 157, st)

/-- The state after `lora_transport_init_esp32`: `memset` to zero. -/
def loraTransportInitEsp32 : EspLora :=
  { csPin := 0, resetPin := 0, dio0Pin := 0, sem := false, log := [] }

/-- `ESP_VTABLE`: there is no fd to poll. `esp_init` sets all of the state it is given. -/
def espVtable (board : EspBoard) : LoraVtable EspLora where
  init := some fun _ cfg => espInit board cfg
  send := some (espSend board)
  recv := some fun st cap timeoutMs =>
    let r := espRecv board st cap timeoutMs
    ⟨r.ret, r.bytes, r.state⟩
  rssi := some (espRssi board)
  getIrqFd := none

/-! ## What a caller relies on -/

/-- The transmission that a `send` of `buf` begins. -/
def begins (cfg : LoraConfig) (buf : List UInt8) : List Transmission :=
  if buf.length > 222 then [] else [⟨writtenSettings cfg, buf⟩]

/-- A driver on its radio. `Up` is what a successful `init` leaves behind and every call keeps. -/
structure LoraLink (τ : Type) where
  vtable : LoraVtable τ
  /-- The state after `lora_transport_init_*`. -/
  start : τ
  cfg : LoraConfig
  radio : τ → Sx1276
  /-- The transmissions that the radio has begun. -/
  begun : τ → List Transmission
  Up : τ → Prop
  init : (loraInit vtable start cfg).1 = 0 →
    Up (loraInit vtable start cfg).2 ∧ begun (loraInit vtable start cfg).2 = []
  send : ∀ st buf, Up st → Up (loraSend vtable st buf).2 ∧
    begun (loraSend vtable st buf).2 = begun st ++ begins cfg buf
  recv : ∀ st cap timeoutMs, Up st → Up (loraRecv vtable st cap timeoutMs).state ∧
    begun (loraRecv vtable st cap timeoutMs).state = begun st
  recv_whole : ∀ st cap timeoutMs, Up st → (radio st).reg regIrqFlags &&& irqRxDoneMask = 0 →
    0 < (loraRecv vtable st cap timeoutMs).ret →
    Whole (radio st).heard.length cap (loraRecv vtable st cap timeoutMs).bytes
      (radio (loraRecv vtable st cap timeoutMs).state)
  rssi : ∀ st, Up st → Up (loraRssi vtable st).2 ∧ begun (loraRssi vtable st).2 = begun st

/-- The radio has the settings of `cfg`, and rests. -/
structure RadioUp (cfg : LoraConfig) (c : Sx1276) : Prop where
  conf : Configured cfg c
  rest : AtRest c

/-- A call, in the terms of what it sends. -/
theorem emitted_call {β : Type} {host : β → Option HostOp} {c : Course radio host}
    {cfg : LoraConfig} {hist hist' : List β} {as : List HostOp} {sent : Option (List UInt8)}
    (hdoes : Does host hist hist' as) (hops : CallOps sent as)
    (hup : RadioUp cfg (c.state hist)) (hrest : AtRest (c.state hist')) :
    RadioUp cfg (c.state hist') ∧ c.emitted hist' = c.emitted hist ++
      sent.toList.map fun buf => ⟨writtenSettings cfg, buf⟩ := by
  obtain ⟨hout, hconf⟩ := c.triple (triple_callOps hops) hdoes hup.conf
  exact ⟨⟨hconf, hrest⟩, hout⟩

theorem begins_eq (cfg : LoraConfig) (buf : List UInt8) :
    ((if buf.length > 222 then none else some buf).toList.map fun buf => ⟨writtenSettings cfg, buf⟩)
      = begins cfg buf := by
  unfold begins
  split
  · rfl
  · rfl

/-! ## The Pi -/

theorem piCall_up {board : Board} {c : Course radio BusOp.host} {cfg : LoraConfig} {st : PiLora}
    (h : RadioUp cfg (c.state st.bus)) (op : PiOp) :
    RadioUp cfg (c.state (piCall board st op).bus) ∧
      c.emitted (piCall board st op).bus = c.emitted st.bus ++
        op.sends.toList.map fun buf => ⟨writtenSettings cfg, buf⟩ := by
  obtain ⟨as, hdoes, hops⟩ := piCall_ops board st op
  exact emitted_call hdoes hops h (atRest_piCall h.rest op)

/-- **The Pi's driver on its radio.** -/
def piLink (board : Board) (cfg : LoraConfig) (c : Course radio BusOp.host)
    (hreads : Reads c board.reg) : LoraLink PiLora where
  vtable := piVtable board
  start := loraTransportInitPi
  cfg := cfg
  radio st := c.state st.bus
  begun st := c.emitted st.bus
  Up st := RadioUp cfg (c.state st.bus)
  init hinit := by
    obtain ⟨hnothing, hconf⟩ := configured_piInit c hinit
    exact ⟨⟨hconf, atRest_piInit c hinit⟩, hnothing⟩
  send st buf hup := by
    obtain ⟨hafter, hbegun⟩ := piCall_up hup (.send buf)
    exact ⟨hafter, hbegun.trans (congrArg _ (begins_eq cfg buf))⟩
  recv st cap timeoutMs hup := by
    obtain ⟨hafter, hbegun⟩ := piCall_up hup (.recv cap timeoutMs)
    exact ⟨hafter, hbegun.trans (List.append_nil _)⟩
  recv_whole st cap timeoutMs hup hdown hpos :=
    piRecv_whole_of_idle hreads (hup.rest.idle hdown) cap timeoutMs hpos
  rssi st hup := by
    obtain ⟨hafter, hbegun⟩ := piCall_up hup .rssi
    exact ⟨hafter, hbegun.trans (List.append_nil _)⟩

/-! ## The ESP32 -/

theorem espCall_up {board : EspBoard} {c : Course radio EspEvent.host} {cfg : LoraConfig}
    {st : EspLora} (h : RadioUp cfg (c.state st.log)) (op : EspOp) :
    RadioUp cfg (c.state (espCall board st op).2.log) ∧
      c.emitted (espCall board st op).2.log = c.emitted st.log ++
        op.sends.toList.map fun buf => ⟨writtenSettings cfg, buf⟩ := by
  obtain ⟨as, hdoes, hops⟩ := espCall_ops board st op
  exact emitted_call hdoes hops h (atRest_espCall h.rest op)

theorem espRssi_up {board : EspBoard} {c : Course radio EspEvent.host} {cfg : LoraConfig}
    {st : EspLora} (h : RadioUp cfg (c.state st.log)) :
    RadioUp cfg (c.state (espRssi board st).2.log) ∧
      c.emitted (espRssi board st).2.log = c.emitted st.log := by
  have hread : EspDoes st (espRssi board st).2 [.read regPktRssiValue] :=
    espDoes_step board st (.read regPktRssiValue)
  have hasks : DoesOnly EspEvent.host HostOp.Asks st.log (espRssi board st).2.log :=
    ⟨_, hread, by simp [HostOp.Asks]⟩
  have hrest := c.keeps stable_atRest (fun a ha s hs => hs.asks ha) hasks h.rest
  obtain ⟨hafter, hbegun⟩ := emitted_call hread
    (.quiet [.read regPktRssiValue] (by simp [HostOp.Quiet])) h hrest
  exact ⟨hafter, hbegun.trans (List.append_nil _)⟩

/-- **The ESP32's driver on its radio**, if its calls are made one at a time. -/
def espLink (board : EspBoard) (cfg : LoraConfig) (c : Course radio EspEvent.host)
    (hreads : Reads c board.reg) : LoraLink EspLora where
  vtable := espVtable board
  start := loraTransportInitEsp32
  cfg := cfg
  radio st := c.state st.log
  begun st := c.emitted st.log
  Up st := RadioUp cfg (c.state st.log)
  init hinit := by
    obtain ⟨hnothing, hconf⟩ := configured_espInit c hinit
    exact ⟨⟨hconf, atRest_espInit c hinit⟩, hnothing⟩
  send st buf hup := by
    obtain ⟨hafter, hbegun⟩ := espCall_up hup (.send buf)
    exact ⟨hafter, hbegun.trans (congrArg _ (begins_eq cfg buf))⟩
  recv st cap timeoutMs hup := by
    obtain ⟨hafter, hbegun⟩ := espCall_up hup (.recv cap timeoutMs)
    exact ⟨hafter, hbegun.trans (List.append_nil _)⟩
  recv_whole st cap timeoutMs hup hdown hpos :=
    espRecv_whole_of_idle hreads (hup.rest.idle hdown) cap timeoutMs hpos
  rssi st hup := espRssi_up hup

end DtnHardware
