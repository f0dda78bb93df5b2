import DtnHardware.Transport.Esp32
import DtnHardware.Lib.TaskRules

/-!
# `main_esp32` — two tasks, one radio

`app_main` starts two tasks on the ESP32: `radio_rx_task`, of priority 5, which receives with a
timeout of five seconds again and again, and `dtn_tick_task`, of priority 4, which ticks and
then sends. They share the driver and its one semaphore, without a lock. Here a call of the
driver is a program of register accesses and one take, the tasks take turns anywhere between
them, and edges of DIO0 come anywhere. Run alone, the programs are the calls of
`Transport.Esp32` (`espSend_among_runs`, `espRecv_among_runs`).

In every interleaving:

* the sends that return a length and the receives that return bytes or an error are together no
  more than the edges (`espTasks_edges`);
* while neither task is in the driver the radio has last been told to stand by
  (`espTasks_standby`).

> **But no send is ever reported while the receive task waits whenever an edge comes**
> (`espTasks_send_unreported`), which is what it does nearly all the time: the edge of `TX_DONE`
> wakes the task of the higher priority, and `esp_send` times out. The node puts the bundle
> back and sends it again.

The node's own state, which both tasks change, is not part of this.
-/

set_option autoImplicit false

namespace DtnHardware

open SharedTasks GuardedCalls

/-! ## The driver's calls as programs -/

/-- An access to a register. -/
inductive EspAccess where
  | write (addr val : UInt8)
  | read (addr : UInt8)
deriving DecidableEq

/-- What a call of the driver returns. -/
inductive EspAnswer where
  | sent (ret : Int)
  | received (ret : Int) (bytes : List UInt8)
  | rssi (ret : Int)
deriving DecidableEq

/-- The radio with DIO0 as a shared device: all it keeps is what has happened. -/
def espDevice (reg : List EspEvent → UInt8 → UInt8) :
    Device (List EspEvent) EspAccess UInt8 UInt32 IrqCause where
  act events
    | .write addr val => (0, events ++ [.write addr val])
    | .read addr => (reg events addr, events ++ [.read addr])
  waits events ms := events ++ [.wait ms]
  taken events := events ++ [.taken]
  timedOut events := events ++ [.timedOut]
  edge events c := events ++ [.edge c]

abbrev EspProg := Prog EspAccess UInt8 UInt32 EspAnswer

def regWriteProg (addr val : UInt8) (next : EspProg) : EspProg :=
  .op (.write addr val) fun _ => next

def regReadProg (addr : UInt8) (next : UInt8 → EspProg) : EspProg := .op (.read addr) next

def setModeProg (mode : UInt8) (next : EspProg) : EspProg :=
  regWriteProg regOpMode (modeLora ||| mode) next

/-- The bytes of a frame, one write each. -/
def writeFifoProg (buf : List UInt8) (next : EspProg) : EspProg :=
  buf.foldr (fun x p => regWriteProg regFifo x p) next

/-- `n` reads of the FIFO. -/
def readFifoProg : Nat → (List UInt8 → EspProg) → EspProg
  | 0, next => next []
  | n + 1, next => regReadProg regFifo fun x => readFifoProg n fun xs => next (x :: xs)

/-- `esp_send`. -/
def espSendProg (buf : List UInt8) : EspProg :=
  if buf.length > 222 then .ret (.sent (-1))
  else
    setModeProg modeStdby <|
    regWriteProg regFifoAddrPtr 0x00 <|
    writeFifoProg buf <|
    regWriteProg regPayloadLength buf.length.toUInt8 <|
    regWriteProg regIrqMask 0x00 <|
    setModeProg modeTx <|
    .take 2000 fun got =>
      if got then
        regWriteProg regIrqFlags 0xFF <| setModeProg modeStdby <| .ret (.sent buf.length)
      else setModeProg modeStdby <| .ret (.sent (-1))

/-- `esp_recv` once it has seen `RX_DONE`. -/
def takeFrameProg (cap : Nat) : EspProg :=
  regReadProg regRxNbBytes fun rxLen =>
  regReadProg regFifoRxCurr fun fifoAddr =>
  regWriteProg regFifoAddrPtr fifoAddr <|
  readFifoProg (min rxLen.toNat cap) fun bytes =>
  setModeProg modeStdby <| .ret (.received (min rxLen.toNat cap : Nat) bytes)

/-- `esp_recv`. -/
def espRecvProg (cap : Nat) (timeoutMs : UInt32) : EspProg :=
  setModeProg modeStdby <|
  regWriteProg regIrqMask 0x00 <|
  setModeProg modeRxSingle <|
  .take timeoutMs fun got =>
    if !got then setModeProg modeStdby <| .ret (.received 0 [])
    else
      regReadProg regIrqFlags fun irq =>
      regWriteProg regIrqFlags 0xFF <|
      if irq &&& irqPayloadCrcErr ≠ 0 then setModeProg modeStdby <| .ret (.received (-1) [])
      else if irq &&& irqRxDoneMask = 0 then setModeProg modeStdby <| .ret (.received 0 [])
      else takeFrameProg cap

/-- `esp_rssi`. -/
def espRssiProg : EspProg :=
  regReadProg regPktRssiValue fun val => .ret (.rssi ((val.toNat : Int) - 157))

/-! ## Alone, they are the driver -/

section
variable {board : EspBoard}

/-- What of the driver's state the tasks share. -/
def EspLora.shared (st : EspLora) : List EspEvent × Bool := (st.log, st.sem)

theorem foldl_edge (reg : List EspEvent → UInt8 → UInt8) (cs : List IrqCause)
    (events : List EspEvent) :
    cs.foldl (espDevice reg).edge events = events ++ cs.map .edge := by
  induction cs generalizing events with
  | nil => simp
  | cons c cs ih =>
    rw [List.foldl_cons, ih, List.map_cons, List.append_cons]
    rfl

/-- A step, and the edges that come before the next. -/
theorem settle_step (st : EspLora) (e : EspEvent) :
    settle (espDevice board.reg) board.edges (st.log ++ [e]) st.sem = (st.step board e).shared := by
  rw [settle, foldl_edge, EspLora.shared, step_log, step_sem]

theorem alone_regWriteProg (st : EspLora) (addr val : UInt8) (next : EspProg) :
    (regWriteProg addr val next).alone (espDevice board.reg) board.edges st.shared
      = next.alone (espDevice board.reg) board.edges (espRegWrite board st addr val).shared := by
  rw [espRegWrite, ← settle_step]
  rfl

theorem alone_setModeProg (st : EspLora) (mode : UInt8) (next : EspProg) :
    (setModeProg mode next).alone (espDevice board.reg) board.edges st.shared
      = next.alone (espDevice board.reg) board.edges (espSetMode board st mode).shared :=
  alone_regWriteProg st _ _ next

theorem alone_regReadProg (st : EspLora) (addr : UInt8) (next : UInt8 → EspProg) :
    (regReadProg addr next).alone (espDevice board.reg) board.edges st.shared
      = (next (espRegRead board st addr).1).alone (espDevice board.reg) board.edges
          (espRegRead board st addr).2.shared := by
  rw [espRegRead, ← settle_step]
  rfl

/-- A successful take: the edges that follow it are those that follow it alone. -/
theorem settle_taken (st : EspLora) :
    settle (espDevice board.reg) board.edges ((espDevice board.reg).taken st.log) false
      = ({ st with sem := false }.step board .taken).shared :=
  settle_step { st with sem := false } .taken

theorem alone_take (st : EspLora) (ms : UInt32) (next : Bool → EspProg) :
    (Prog.take ms next).alone (espDevice board.reg) board.edges st.shared
      = (next (xSemaphoreTake board st ms).1).alone (espDevice board.reg) board.edges
          (xSemaphoreTake board st ms).2.shared := by
  unfold xSemaphoreTake
  cases hsem : st.sem with
  | true =>
    simp only [Prog.alone, EspLora.shared, hsem, if_true, settle_taken]
  | false =>
    have hwait : settle (espDevice board.reg) board.edges
        ((espDevice board.reg).waits st.log ms) false = (st.step board (.wait ms)).shared := by
      rw [← settle_step, hsem]
      rfl
    simp only [Prog.alone, EspLora.shared, hsem, Bool.false_eq_true, if_false] at hwait ⊢
    rw [hwait]
    generalize st.step board (.wait ms) = st₁
    cases hgiven : st₁.sem with
    | true => simp only [if_true, settle_taken, EspLora.shared]
    | false =>
      have hout : settle (espDevice board.reg) board.edges
          ((espDevice board.reg).timedOut st₁.log) false
            = (st₁.step board .timedOut).shared := by
        rw [← settle_step, hgiven]
        rfl
      simp only [Bool.false_eq_true, if_false, hout, EspLora.shared]

theorem alone_writeFifoProg (buf : List UInt8) (st : EspLora) (next : EspProg) :
    (writeFifoProg buf next).alone (espDevice board.reg) board.edges st.shared
      = next.alone (espDevice board.reg) board.edges
          (buf.foldl (fun st x => espRegWrite board st regFifo x) st).shared := by
  induction buf generalizing st with
  | nil => rfl
  | cons x buf ih =>
    rw [List.foldl_cons, ← ih, ← alone_regWriteProg]
    rfl

theorem alone_readFifoProg (n : Nat) (st : EspLora) (next : List UInt8 → EspProg) :
    (readFifoProg n next).alone (espDevice board.reg) board.edges st.shared
      = (next (espReadFifo board n st).1).alone (espDevice board.reg) board.edges
          (espReadFifo board n st).2.shared := by
  induction n generalizing st next with
  | zero => rfl
  | succ n ih => rw [readFifoProg, alone_regReadProg, ih, espReadFifo]

/-- **Alone, the program of `esp_send` is `esp_send`.** -/
theorem alone_espSendProg (st : EspLora) (buf : List UInt8) :
    (espSendProg buf).alone (espDevice board.reg) board.edges st.shared
      = (.sent (espSend board st buf).1, (espSend board st buf).2.shared) := by
  unfold espSendProg espSend espLoad
  split
  · rfl
  · simp only [alone_setModeProg, alone_regWriteProg, alone_writeFifoProg, alone_take]
    split
    · simp only [alone_setModeProg, alone_regWriteProg]
      rfl
    · simp only [alone_setModeProg]
      rfl

/-- **And that of `esp_recv` is `esp_recv`.** -/
theorem alone_espRecvProg (st : EspLora) (cap : Nat) (timeoutMs : UInt32) :
    (espRecvProg cap timeoutMs).alone (espDevice board.reg) board.edges st.shared
      = (.received (espRecv board st cap timeoutMs).ret (espRecv board st cap timeoutMs).bytes,
          (espRecv board st cap timeoutMs).state.shared) := by
  unfold espRecvProg espRecv
  simp only [alone_setModeProg, alone_regWriteProg, alone_take]
  split
  · simp only [alone_setModeProg]
    rfl
  · simp only [alone_regReadProg, alone_regWriteProg]
    split
    · simp only [alone_setModeProg]
      rfl
    · split
      · simp only [alone_setModeProg]
        rfl
      · simp only [takeFrameProg, alone_regReadProg, alone_regWriteProg, alone_readFifoProg,
          alone_setModeProg]
        rfl

end

/-! ## The two tasks -/

inductive EspTask where
  | radioRx | dtnTick
deriving DecidableEq

instance : Fintype EspTask := ⟨{.radioRx, .dtnTick}, fun i => by cases i <;> decide⟩

/-- By their priorities, 5 and 4. -/
def espPriority : List EspTask := [.radioRx, .dtnTick]

/-- What can happen next. The receive task receives, and asks for the RSSI of a bundle; the
    tick task sends. -/
inductive EspMove where
  | recv
  | rssi
  | send (buf : List UInt8)
  | run (task : EspTask)
  | timeout (task : EspTask)
  | edge (cause : IrqCause)
deriving DecidableEq

abbrev EspAct := Act EspTask EspAccess UInt8 UInt32 EspAnswer IrqCause

def EspMove.act : EspMove → EspAct
  | recv => .call .radioRx (espRecvProg 256 5000)
  | rssi => .call .radioRx espRssiProg
  | send buf => .call .dtnTick (espSendProg buf)
  | run task => .run task
  | timeout task => .timeout task
  | edge cause => .edge cause

abbrev EspTasks := State EspTask (List EspEvent) EspAccess UInt8 UInt32 EspAnswer

/-- `app_main` once it has created the tasks. -/
def espTasksStart (board : EspBoard) (cfg : LoraConfig) : EspTasks :=
  { dev := (espInit board cfg).2.log
    sem := (espInit board cfg).2.sem
    phase := fun _ => .idle
    answers := [] }

def espStep (board : EspBoard) (s : EspTasks) (m : EspMove) : Option EspTasks :=
  step (espDevice board.reg) espPriority s m.act

/-- The states that the tasks come to by moves that satisfy `ok`. -/
abbrev EspReaches (board : EspBoard) (ok : EspTasks → EspMove → Prop) (s₀ : EspTasks) :
    EspTasks → Prop := Reaches (espStep board) ok s₀

section
variable {board : EspBoard} {cfg : LoraConfig} {ok : EspTasks → EspMove → Prop} {s : EspTasks}

/-- **A send that nothing interferes with is one of the runs**, to the result and the state
    that `esp_send` has by itself. -/
theorem espSend_among_runs {s₀ : EspTasks} (st : EspLora) (buf : List UInt8)
    (h : CameTo espPriority (espDevice board.reg) .dtnTick s₀ (.running (espSendProg buf))
      st.shared s) :
    ∃ s', CameTo espPriority (espDevice board.reg) .dtnTick s₀
      (.running (.ret (.sent (espSend board st buf).1))) (espSend board st buf).2.shared s' := by
  have hrun := alone_reaches (by decide) board.edges _ _ h
  rwa [alone_espSendProg] at hrun

/-- So is a receive. -/
theorem espRecv_among_runs {s₀ : EspTasks} (st : EspLora) (cap : Nat) (timeoutMs : UInt32)
    (h : CameTo espPriority (espDevice board.reg) .radioRx s₀
      (.running (espRecvProg cap timeoutMs)) st.shared s) :
    ∃ s', CameTo espPriority (espDevice board.reg) .radioRx s₀
      (.running (.ret (.received (espRecv board st cap timeoutMs).ret
        (espRecv board st cap timeoutMs).bytes)))
      (espRecv board st cap timeoutMs).state.shared s' := by
  have hrun := alone_reaches (by decide) board.edges _ _ h
  rwa [alone_espRecvProg] at hrun

/-- The calls that are made are the three of the driver. -/
theorem espMove_call {P : EspTask → EspProg → Prop}
    (hrecv : P .radioRx (espRecvProg 256 5000)) (hrssi : P .radioRx espRssiProg)
    (hsend : ∀ buf, P .dtnTick (espSendProg buf)) {m : EspMove} {i : EspTask} {p : EspProg}
    (h : m.act = .call i p) : P i p := by
  cases m with
  | recv => cases h; exact hrecv
  | rssi => cases h; exact hrssi
  | send buf => cases h; exact hsend buf
  | run | timeout | edge => cases h

/-! ### No edge serves two calls -/

/-- Nothing has come of the call: `-1` from a send, 0 from a receive. -/
def EspAnswer.fails : EspAnswer → Prop
  | sent ret => ret < 0
  | received ret _ => ret = 0
  | rssi _ => True

instance : DecidablePred EspAnswer.fails := fun a =>
  match a with
  | .sent ret => inferInstanceAs (Decidable (ret < 0))
  | .received ret _ => inferInstanceAs (Decidable (ret = 0))
  | .rssi _ => inferInstanceAs (Decidable True)

theorem unserved_writeFifoProg {P : EspAnswer → Prop} {next : EspProg} (h : next.Unserved P)
    (buf : List UInt8) : (writeFifoProg buf next).Unserved P := by
  induction buf with
  | nil => exact h
  | cons x buf ih => exact fun _ => ih

/-- A send that gets no edge fails. -/
theorem unserved_espSendProg (buf : List UInt8) :
    (espSendProg buf).Unserved (· = .sent (-1)) := by
  unfold espSendProg
  split
  · rfl
  · refine fun _ _ => unserved_writeFifoProg ?_ buf
    exact fun _ _ _ _ => rfl

/-- A receive that gets none has nothing. -/
theorem unserved_espRecvProg (cap : Nat) (timeoutMs : UInt32) :
    (espRecvProg cap timeoutMs).Unserved (· = .received 0 []) :=
  fun _ _ _ _ => rfl

def takesIn (events : List EspEvent) : Nat := events.countP fun e => decide (e = .taken)

def isEdge : EspEvent → Bool
  | .edge _ => true
  | .write _ _ | .read _ | .level _ _ | .delay _ | .wait _ | .taken | .timedOut => false

def edgesIn (events : List EspEvent) : Nat := events.countP isEdge

theorem counts_espDevice (reg : List EspEvent → UInt8 → UInt8) :
    Counts (espDevice reg) takesIn edgesIn := by
  constructor
  · intro events o
    cases o <;> simp [espDevice, takesIn, edgesIn, isEdge]
  all_goals simp [espDevice, takesIn, edgesIn, isEdge]

theorem takesIn_edges (cs : List IrqCause) : takesIn (cs.map .edge) = 0 := by
  simp [takesIn]

theorem edgesIn_edges (cs : List IrqCause) : edgesIn (cs.map .edge) = cs.length := by
  simp [edgesIn, List.countP_map, Function.comp_def, isEdge]

/-- What the semaphore holds has come from an edge that was not taken. -/
def GivenByEdge (st : EspLora) : Prop :=
  takesIn st.log + (if st.sem then 1 else 0) ≤ edgesIn st.log

theorem GivenByEdge.step {st : EspLora} {e : EspEvent} (h : GivenByEdge st) (he : e ≠ .taken) :
    GivenByEdge (st.step board e) := by
  have hnone := takesIn_edges (board.edges (st.log ++ [e]))
  have hall := edgesIn_edges (board.edges (st.log ++ [e]))
  have hone : takesIn [e] = 0 := by simp [takesIn, he]
  unfold GivenByEdge takesIn edgesIn at *
  rw [step_log, step_sem]
  simp only [List.countP_append, hnone, hall, hone]
  cases board.edges (st.log ++ [e]) with
  | nil =>
    simp only [List.isEmpty_nil, Bool.not_true, Bool.or_false, List.length_nil]
    omega
  | cons c cs =>
    simp only [List.isEmpty_cons, Bool.not_false, Bool.or_true, if_true, List.length_cons]
    split at h <;> omega

theorem GivenByEdge.init (hinit : (espInit board cfg).1 = 0) :
    GivenByEdge (espInit board cfg).2 := by
  unfold espInit at hinit ⊢
  split at hinit
  · cases hinit
  · rename_i hbus
    rw [if_neg hbus]
    split at hinit
    · cases hinit
    · rename_i hdevice
      rw [if_neg hdevice]
      have hreset : GivenByEdge (espReset (espPins cfg)) := by
        simp [GivenByEdge, espReset, espPins, EspLora.push, takesIn]
      have hregs (rs : List (UInt8 × UInt8)) : ∀ st, GivenByEdge st →
          GivenByEdge (rs.foldl (fun st r => espRegWrite board st r.1 r.2) st) := by
        induction rs with
        | nil => exact fun _ h => h
        | cons r rs ih => exact fun st h => ih _ (h.step (by simp))
      have hslept : GivenByEdge ((((espReset (espPins cfg)).step board (.delay 10)).step board
          (.write regOpMode (modeLora ||| modeSleep))).step board (.delay 10)) :=
        ((hreset.step (by simp)).step (by simp)).step (by simp)
      exact (hregs _ _ hslept).step (by simp)

theorem balanced_start (hinit : (espInit board cfg).1 = 0) :
    Balanced takesIn edgesIn EspAnswer.fails (espTasksStart board cfg) := by
  refine ⟨?_, GivenByEdge.init hinit⟩
  have hholders : holders EspAnswer.fails (espTasksStart board cfg) = ∅ := by
    ext i
    rw [mem_holders]
    simp [espTasksStart, Phase.Unserved]
  rw [hholders]
  exact Nat.zero_le _

/-- **No edge serves two calls**, in any interleaving: the sends that return a length and the
    receives that return bytes or an error are together no more than the edges of DIO0. -/
theorem espTasks_edges (hinit : (espInit board cfg).1 = 0)
    (h : EspReaches board ok (espTasksStart board cfg) s) :
    s.answers.countP (fun a => decide (¬ a.2.fails)) ≤ edgesIn s.dev := by
  have hbal := (counts_espDevice board.reg).balanced (P := EspAnswer.fails)
    (fun s i p hcall => ?_) (h.map EspMove.act) (balanced_start hinit)
  · have hserved := hbal.served
    have hgiven := hbal.given
    have hcount : successes EspAnswer.fails s
        = s.answers.countP (fun a => decide (¬ a.2.fails)) := by
      unfold successes
      exact List.countP_congr fun a _ => by simp
    omega
  · obtain ⟨m, hm, _⟩ := hcall
    refine espMove_call (P := fun _ p => p.Unserved EspAnswer.fails) ?_ ?_ (fun buf => ?_) hm
    · exact Prog.Unserved.mono (by rintro _ rfl; rfl) (unserved_espRecvProg 256 5000)
    · exact fun _ => trivial
    · exact Prog.Unserved.mono (by rintro _ rfl; decide) (unserved_espSendProg buf)

end

/-- A radio that says `TX_DONE` whenever it is asked, and the node on it. -/
def txDoneBoard : EspBoard :=
  { spiBus := true
    spiDevice := true
    reg := fun _ addr => if addr = regIrqFlags then irqTxDoneMask else 0
    edges := fun _ => [] }

def txDoneStart : EspTasks := espTasksStart txDoneBoard mainEspConfig

/-- A send with no receive under way: its edge wakes it. -/
def sendAlone : List EspMove :=
  .send [1, 2, 3] :: List.replicate 9 (.run .dtnTick) ++ .edge .txDone ::
    List.replicate 4 (.run .dtnTick)

theorem espTasks_edges_sendAlone : ∃ s : EspTasks, s.answers = [(.dtnTick, .sent 3)] ∧
    s.answers.countP (fun a => decide (¬ a.2.fails)) ≤ edgesIn s.dev := by
  have hrun : ((run (espStep txDoneBoard) txDoneStart sendAlone).map State.answers)
      = some [(.dtnTick, .sent 3)] := by decide +kernel
  obtain ⟨s, hs, hanswers⟩ := Option.map_eq_some_iff.mp hrun
  have hreach : EspReaches txDoneBoard (fun _ _ => True) txDoneStart s :=
    reaches_of_run (fun _ _ => trivial) .start hs
  exact ⟨s, hanswers, espTasks_edges (by decide) hreach⟩

section
variable {board : EspBoard} {cfg : LoraConfig} {ok : EspTasks → EspMove → Prop} {s : EspTasks}

/-! ### Standby between the calls -/

/-- What the radio has last been told to do, one event later. -/
def espModeAfter (mode : Option UInt8) : EspEvent → Option UInt8
  | .write addr val => if addr = regOpMode then some val else mode
  | .edge _ | .read _ | .level _ _ | .delay _ | .wait _ | .taken | .timedOut => mode

/-- The radio has last been told to stand by. -/
def ToldStandby (events : List EspEvent) : Prop :=
  events.foldl espModeAfter none = some (modeLora ||| modeStdby)

def standbyEffect : EspAccess → Effect
  | .write addr val =>
      if addr = regOpMode then if val = modeLora ||| modeStdby then .restores else .disturbs
      else .none
  | .read _ => .none

theorem toldStandby_snoc {events : List EspEvent} (h : ToldStandby events) {e : EspEvent}
    (he : ∀ val, e ≠ .write regOpMode val) : ToldStandby (events ++ [e]) := by
  unfold ToldStandby at h ⊢
  rw [List.foldl_append, h]
  cases e with
  | write addr val =>
    have haddr : addr ≠ regOpMode := fun heq => he val (by rw [heq])
    simp [espModeAfter, haddr]
  | edge | read | level | delay | wait | taken | timedOut => rfl

theorem toldStandby_write (events : List EspEvent) :
    ToldStandby (events ++ [.write regOpMode (modeLora ||| modeStdby)]) := by
  rw [ToldStandby, List.foldl_append]
  rfl

theorem toldStandby_edges {events : List EspEvent} (h : ToldStandby events)
    (cs : List IrqCause) : ToldStandby (events ++ cs.map .edge) := by
  induction cs generalizing events with
  | nil => simpa using h
  | cons c cs ih =>
    rw [List.map_cons, List.append_cons]
    exact ih (toldStandby_snoc h (by simp))

theorem resting_espDevice (reg : List EspEvent → UInt8 → UInt8) :
    Resting (espDevice reg) standbyEffect ToldStandby := by
  constructor
  · intro events o ho h
    cases o with
    | write addr val =>
      refine toldStandby_snoc h fun val' heq => ?_
      cases heq
      simp only [standbyEffect, if_true] at ho
      split at ho <;> cases ho
    | read addr => exact toldStandby_snoc h (by simp)
  · intro events o ho
    cases o with
    | write addr val =>
      simp only [standbyEffect] at ho
      split at ho
      · rename_i haddr
        split at ho
        · rename_i hval
          rw [haddr, hval]
          exact toldStandby_write events
        · cases ho
      · cases ho
    | read addr => cases ho
  all_goals exact fun events => by intros; exact toldStandby_snoc ‹_› (by simp)

theorem settles_standby {next : EspProg} (h : next.Settles standbyEffect false) (owed : Bool) :
    (setModeProg modeStdby next).Settles standbyEffect owed :=
  fun _ => h

/-- The last thing a call does. -/
theorem settles_end (a : EspAnswer) (owed : Bool) :
    (setModeProg modeStdby (.ret a)).Settles standbyEffect owed :=
  fun _ => rfl

theorem settles_write {owed : Bool} {next : EspProg} {addr : UInt8} (val : UInt8)
    (haddr : addr ≠ regOpMode) (h : next.Settles standbyEffect owed) :
    (regWriteProg addr val next).Settles standbyEffect owed := by
  intro _
  rw [standbyEffect, if_neg haddr]
  exact h

theorem settles_writeFifoProg {owed : Bool} {next : EspProg}
    (h : next.Settles standbyEffect owed) (buf : List UInt8) :
    (writeFifoProg buf next).Settles standbyEffect owed := by
  induction buf with
  | nil => exact h
  | cons x buf ih => exact settles_write x (by decide) ih

theorem settles_readFifoProg {owed : Bool} {n : Nat} {next : List UInt8 → EspProg}
    (h : ∀ xs, (next xs).Settles standbyEffect owed) :
    (readFifoProg n next).Settles standbyEffect owed := by
  induction n generalizing next with
  | zero => exact h []
  | succ n ih => exact fun x => ih fun xs => h (x :: xs)

/-- `esp_send` leaves the radio in standby on every path, or has not touched it. -/
theorem settles_espSendProg (buf : List UInt8) :
    (espSendProg buf).Settles standbyEffect false := by
  unfold espSendProg
  split
  · rfl
  · apply settles_standby
    apply settles_write _ (by decide)
    apply settles_writeFifoProg
    apply settles_write _ (by decide)
    apply settles_write _ (by decide)
    intro _ got
    cases got with
    | false => exact settles_end _ _
    | true => exact settles_write _ (by decide) (settles_end _ _)

/-- So does `esp_recv`. -/
theorem settles_espRecvProg (cap : Nat) (timeoutMs : UInt32) :
    (espRecvProg cap timeoutMs).Settles standbyEffect false := by
  apply settles_standby
  apply settles_write _ (by decide)
  intro _ got
  cases got with
  | false => exact settles_end _ _
  | true =>
    intro irq
    apply settles_write _ (by decide)
    split
    · exact settles_end _ _
    · split
      · exact settles_end _ _
      · intro rxLen fifoAddr
        apply settles_write _ (by decide)
        exact settles_readFifoProg fun xs => settles_end _ _

theorem toldStandby_init (hinit : (espInit board cfg).1 = 0) :
    ToldStandby (espInit board cfg).2.log := by
  unfold espInit at hinit ⊢
  split at hinit
  · cases hinit
  · rename_i hbus
    rw [if_neg hbus]
    split at hinit
    · cases hinit
    · rename_i hdevice
      rw [if_neg hdevice]
      dsimp only
      rw [espSetMode, espRegWrite, step_log]
      exact toldStandby_edges (toldStandby_write _) _

/-- **Between the calls the radio stands by**, in any interleaving: although either task may
    change the mode under the other's feet, whenever neither is in the driver the last mode
    that was set is standby. -/
theorem espTasks_standby (hinit : (espInit board cfg).1 = 0)
    (h : EspReaches board ok (espTasksStart board cfg) s)
    (hidle : ∀ task, s.phase task = .idle) : ToldStandby s.dev := by
  refine (resting_espDevice board.reg).all_idle (fun s i p hcall => ?_) (h.map EspMove.act)
    (fun _ => rfl) (toldStandby_init hinit) hidle
  obtain ⟨m, hm, _⟩ := hcall
  exact espMove_call (P := fun _ p => p.Settles standbyEffect false)
    (settles_espRecvProg 256 5000) (fun _ => rfl) settles_espSendProg hm

end

/-- A receive is waiting when the send begins; the edge of `TX_DONE` wakes the receive. -/
def sendUnheard : List EspMove :=
  .recv :: List.replicate 4 (.run .radioRx) ++ .send [1, 2, 3] ::
    List.replicate 9 (.run .dtnTick) ++ .edge .txDone :: List.replicate 5 (.run .radioRx) ++
    .timeout .dtnTick :: List.replicate 2 (.run .dtnTick)

/-- Both calls are over, and the radio stands by. -/
theorem espTasks_standby_sendUnheard : ∃ s : EspTasks, s.answers.length = 2 ∧ ToldStandby s.dev := by
  have hrun : (run (espStep txDoneBoard) txDoneStart sendUnheard).any (fun s =>
      decide (s.answers.length = 2 ∧ s.phase .radioRx = .idle ∧ s.phase .dtnTick = .idle))
      = true := by decide +kernel
  obtain ⟨s, hs, hdone⟩ := (Option.any_eq_true _ _).mp hrun
  obtain ⟨hlen, hrx, htick⟩ := of_decide_eq_true hdone
  have hreach : EspReaches txDoneBoard (fun _ _ => True) txDoneStart s :=
    reaches_of_run (fun _ _ => trivial) .start hs
  refine ⟨s, hlen, espTasks_standby (by decide) hreach fun task => ?_⟩
  cases task with
  | radioRx => exact hrx
  | dtnTick => exact htick

section
variable {board : EspBoard} {cfg : LoraConfig} {s : EspTasks}

/-! ### A send that nobody hears of -/

/-- The receive task waits whenever an edge comes, and once an edge has woken it, it is the
    next to run. -/
def RxWaits (s : EspTasks) (m : EspMove) : Prop :=
  ((m = .edge .rxDone ∨ m = .edge .txDone) → (s.phase .radioRx).isBlocked = true) ∧
    ((s.phase .radioRx).isWoken = true → m = .run .radioRx)

instance (s : EspTasks) (m : EspMove) : Decidable (RxWaits s m) :=
  inferInstanceAs (Decidable (_ ∧ _))

/-- **No send is reported** while the receive task waits whenever an edge comes: every call of
    `esp_send` returns `-1`, whatever the radio has sent. -/
theorem espTasks_send_unreported (hsem : (espInit board cfg).2.sem = false)
    (h : EspReaches board RxWaits (espTasksStart board cfg) s) (a : EspAnswer)
    (ha : (.dtnTick, a) ∈ s.answers) : a = .sent (-1) := by
  have hstart : Starved EspTask.radioRx (· = .sent (-1)) (espTasksStart board cfg) := by
    refine ⟨fun hgiven => ?_, fun _ _ => trivial, fun _ _ _ hmem => absurd hmem List.not_mem_nil⟩
    have hgiven : (espInit board cfg).2.sem = true := hgiven
    rw [hsem] at hgiven
    cases hgiven
  refine (Favoured.unserved (fun s a hok => ?_) (fun s j p hcall hj => ?_) (h.map EspMove.act)
    hstart).answers _ a (by decide) ha
  · obtain ⟨m, rfl, hwaits, hnext⟩ := hok
    refine ⟨fun c hc => hwaits ?_, fun hwoken => ?_⟩
    · cases m with
      | edge cause => cases cause <;> simp
      | recv | rssi | send | run | timeout => cases hc
    · rw [hnext hwoken]
      rfl
  · obtain ⟨m, hm, _⟩ := hcall
    exact espMove_call (P := fun i p => i ≠ .radioRx → p.Unserved (· = .sent (-1)))
      (fun h => absurd rfl h) (fun h => absurd rfl h) (fun buf _ => unserved_espSendProg buf) hm hj

end

/-- The frame is out, and the send returns `-1`. -/
theorem espTasks_send_unreported_sendUnheard : ∃ s a,
    EspReaches txDoneBoard RxWaits txDoneStart s ∧ (EspTask.dtnTick, a) ∈ s.answers ∧
      radioSent s.dev = true ∧ a = .sent (-1) := by
  have hrun : (runAllowed (espStep txDoneBoard) RxWaits txDoneStart sendUnheard).any (fun s =>
      decide (radioSent s.dev = true ∧ s.answers.map Prod.fst = [.radioRx, .dtnTick]))
      = true := by decide +kernel
  obtain ⟨s, hs, hdone⟩ := (Option.any_eq_true _ _).mp hrun
  obtain ⟨hsent, hwho⟩ := of_decide_eq_true hdone
  have hreach : EspReaches txDoneBoard RxWaits txDoneStart s := reaches_of_runAllowed .start hs
  obtain ⟨x, hx, htask⟩ : ∃ x ∈ s.answers, x.1 = EspTask.dtnTick := by
    have hmem : EspTask.dtnTick ∈ s.answers.map Prod.fst := by
      rw [hwho]
      decide
    simpa using List.mem_map.mp hmem
  have hmem : (EspTask.dtnTick, x.2) ∈ s.answers := by rwa [← htask]
  exact ⟨s, x.2, hreach, hmem, hsent, espTasks_send_unreported (by decide) hreach x.2 hmem⟩

end DtnHardware
