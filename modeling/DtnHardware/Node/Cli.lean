import DtnHardware.Lib.CommandLine
import DtnHardware.Core.PlanLoader
import DtnHardware.Node.MainPi

/-!
# The command line of the Pi

`main` reads up to 63 bytes at a time from the terminal into a line of 255, and `cli_handle`
takes a line apart with `strtok`. The dashboard does not talk to the node: its `/send` prints
a command to paste there. What a user relies on is that these two ends meet:

> **every form of the dashboard, pasted, is the bundle it describes** (`cliLoop_dashboard`), in
> whatever pieces the terminal hands the text over.

The pieces do not matter to any input (`cliLoop_carriesOut`); what the two ends have to agree on
is what a word is. `send` ends a destination and a class at a blank or a tab and takes the rest
of the line as the message, so a message may contain blanks, and a form without a message is no
command at all.

The terminal has a second reader where `pi_init` has failed before it opened DIO0. `main` runs on
without a radio, `dio0_fd` is still the 0 of the `memset`, and 0 is the terminal: what the driver
then reads as the events of an edge is text (`piInit_failed_dio0Fd`). After a successful
`pi_init` it is not (`piInit_dio0Fd`).

The answers are not modelled: `status`, `contacts`, `help` and what is printed about the others
leave the node as it is.
-/

set_option autoImplicit false

namespace DtnHardware

open CommandLine

/-! ## A line -/

/-- `parse_class`; `none` is `NULL`. -/
def parseClass (s : Option (List UInt8)) : BundleClass :=
  if s = none then .telemetry
  else if s = some (ascii ['c', 'm', 'd']) then .command
  else if s = some (ascii ['s', 'c', 'i']) then .science
  else if s = some (ascii ['t', 'l', 'm']) then .telemetry
  else .housekeeping

/-- What `cli_handle` takes a line to be. -/
inductive CliCommand where
  | blank
  | send (dst cls msg : List UInt8)
  | usage
  | status
  | contacts
  | help
  | quit
  | unknown (cmd : List UInt8)
deriving DecidableEq

/-- `" \t"`. -/
def wordDelims : List UInt8 := [0x20, 0x09]

/-- `"\r\n"`. -/
def lineDelims : List UInt8 := [0x0d, 0x0a]

/-- The words of a `send`. -/
def cliParseSend (rest : List UInt8) : CliCommand :=
  let dst := strtok wordDelims rest
  let cls := strtok wordDelims dst.2
  let msg := strtok lineDelims cls.2
  match dst.1, cls.1, msg.1 with
  | some dst, some cls, some msg => .send dst cls msg
  | _, _, _ => .usage

/-- The words of a line. -/
def cliParse (line : List UInt8) : CliCommand :=
  match strtok (wordDelims ++ lineDelims) line with
  | (none, _) => .blank
  | (some cmd, rest) =>
    if cmd = ascii ['s', 'e', 'n', 'd'] then cliParseSend rest
    else if cmd = ascii ['s', 't', 'a', 't', 'u', 's'] then .status
    else if cmd = ascii ['c', 'o', 'n', 't', 'a', 'c', 't', 's'] then .contacts
    else if cmd = ascii ['h', 'e', 'l', 'p'] ∨ cmd = ascii ['?'] then .help
    else if cmd = ascii ['q', 'u', 'i', 't'] ∨ cmd = ascii ['e', 'x', 'i', 't'] then .quit
    else .unknown cmd

/-- The node and `g_running`. -/
structure Cli where
  node : NodeState
  running : Bool

/-- What a command does, at the clock `t`. -/
def cliCommand (t : F32) (s : Cli) : CliCommand → Cli
  | .send dst cls msg =>
    { s with
      node := (nodeGenerateBundle s.node (nodeIdFromStr dst) (parseClass (some cls)) msg t).2 }
  | .quit => { s with running := false }
  | .blank | .usage | .status | .contacts | .help | .unknown _ => s

/-- `cli_handle`: the string ends at its first NUL. -/
def cliHandleLine (t : F32) (s : Cli) (line : List UInt8) : Cli :=
  cliCommand t s (cliParse (line.takeWhile (· ≠ 0)))

/-! ## The loop -/

/-- `char line_buf[256]`, of which the last byte is kept for the NUL. -/
def lineBufSize : Nat := 256

def isNewline (x : UInt8) : Bool := x = 0x0a

/-- One byte of a read; the second component is `line_buf` up to `line_len`. -/
def cliByte (t : F32) (s : Cli × List UInt8) (x : UInt8) : Cli × List UInt8 :=
  let line := if s.2.length < lineBufSize - 1 then s.2 ++ [x] else s.2
  if isNewline x then (cliHandleLine t s.1 line, []) else (s.1, line)

/-- What `read` returned, and the clock of the round; and what the driver reads from `dio0_fd`
    in this round before that, on the timer, and after. -/
structure CliRead where
  bytes : List UInt8
  t : F32
  before : List UInt8 := []
  after : List UInt8 := []

/-- The command line's share of a round. -/
def cliRead (s : Cli × List UInt8) (r : CliRead) : Cli × List UInt8 :=
  r.bytes.foldl (cliByte r.t) s

/-- Round after round, while `g_running`. -/
def cliLoop (s : Cli × List UInt8) : List CliRead → Cli × List UInt8
  | [] => s
  | r :: rs => if s.1.running then cliLoop (cliRead s r) rs else s

/-- At the first `poll`. -/
def cliStart (node : NodeState) : Cli × List UInt8 := (⟨node, true⟩, [])

/-! ## The text -/

/-- `STDIN_FILENO`. -/
def stdinFileno : Int := 0

/-- What a round takes from the terminal. -/
def CliRead.taken (dio0Fd : Int) (r : CliRead) : List UInt8 :=
  if dio0Fd = stdinFileno then r.before ++ r.bytes ++ r.after else r.bytes

/-- All that was typed. -/
def typed (dio0Fd : Int) (reads : List CliRead) : List UInt8 :=
  reads.flatMap (CliRead.taken dio0Fd)

/-- What of it `main` has read. -/
def readText (reads : List CliRead) : List UInt8 := reads.flatMap CliRead.bytes

/-- The bytes, each with the clock of the round that read it. -/
def stamped (reads : List CliRead) : List (F32 × UInt8) :=
  reads.flatMap fun r => r.bytes.map (r.t, ·)

/-- The command in a line, of which the buffer holds so much. -/
def commandIn (line : List UInt8) : CliCommand :=
  cliParse ((line.take (lineBufSize - 1)).takeWhile (· ≠ 0))

/-- The commands of a text. -/
def commandsOf (text : List UInt8) : List CliCommand :=
  (linesFrom isNewline [] (text.map ((), ·))).1.map fun l => commandIn l.2

/-- The bundle a command asks for. -/
def CliCommand.bundle : CliCommand → Option (NodeId × BundleClass × List UInt8)
  | .send dst cls msg => some (nodeIdFromStr dst, parseClass (some cls), msg)
  | _ => none

/-- The bundle a call of `node_generate_bundle` asks for. -/
def CliSend.bundle (c : CliSend) : NodeId × BundleClass × List UInt8 := (c.dst, c.cls, c.msg)

/-- The call that a command is. -/
def callOf (c : F32 × CliCommand) : Option CliSend :=
  c.2.bundle.map fun b => ⟨b.1, b.2.1, b.2.2, c.1⟩

/-! ## The terminal and the driver -/

/-- DIO0 is never opened as the terminal: a kernel does not give out a descriptor twice. -/
theorem piInit_dio0Fd {board : Board} {cfg : LoraConfig}
    (hinit : (piInit board loraTransportInitPi cfg).1 = 0)
    (hopen : board.lineEvent ≠ some stdinFileno) :
    (piInit board loraTransportInitPi cfg).2.dio0Fd ≠ stdinFileno := by
  have hclosed : (-1 : Int) ≠ stdinFileno := by decide
  have hdio0 (st : PiLora) : (openDio0 board st).dio0Fd ≠ stdinFileno := by
    unfold openDio0
    split
    · exact hclosed
    · cases hevent : board.lineEvent with
      | none => exact hclosed
      | some fd => exact fun heq => hopen (hevent.trans (congrArg some heq))
  unfold piInit at hinit ⊢
  dsimp only at hinit ⊢
  split at hinit
  · cases hinit
  · rename_i hspi
    rw [if_neg hspi]
    exact hdio0 _

/-- A `pi_init` that fails leaves the 0. -/
theorem piInit_failed_dio0Fd {board : Board} {cfg : LoraConfig}
    (hinit : (piInit board loraTransportInitPi cfg).1 ≠ 0) :
    (piInit board loraTransportInitPi cfg).2.dio0Fd = stdinFileno := by
  unfold piInit at hinit ⊢
  dsimp only at hinit ⊢
  split
  · rfl
  · rename_i hspi
    rw [if_neg hspi] at hinit
    exact absurd rfl hinit

/-- Where DIO0 is not the terminal, all that is typed gets to `main`. -/
theorem typed_eq_readText {dio0Fd : Int} (h : dio0Fd ≠ stdinFileno) (reads : List CliRead) :
    typed dio0Fd reads = readText reads :=
  List.flatMap_congr fun _ _ => if_neg h

/-! ## One read -/

/-- A command as the loop carries it out: the stamp is the clock. -/
def runCommand (s : Cli) (c : F32 × CliCommand) : Cli := cliCommand c.1 s c.2

/-- The commands that a read completes, and the line it leaves, when `line` came before. -/
def readCommands (line : List UInt8) (reads : List CliRead) : List (F32 × CliCommand) :=
  (linesFrom isNewline line (stamped reads)).1.map fun l => (l.1, commandIn l.2)

def lineLeft (line : List UInt8) (reads : List CliRead) : List UInt8 :=
  (linesFrom isNewline line (stamped reads)).2

@[simp] theorem stamped_cons (r : CliRead) (reads : List CliRead) :
    stamped (r :: reads) = stamped [r] ++ stamped reads := by simp [stamped]

theorem stamped_snd (reads : List CliRead) : (stamped reads).map Prod.snd = readText reads := by
  induction reads with
  | nil => rfl
  | cons r reads ih =>
    rw [stamped_cons, List.map_append, ih]
    simp [stamped, readText, Function.comp_def]

/-- A line that was collected over several reads is one line. -/
theorem readCommands_cons (line : List UInt8) (r : CliRead) (reads : List CliRead) :
    readCommands line (r :: reads) =
        readCommands line [r] ++ readCommands (lineLeft line [r]) reads ∧
      lineLeft line (r :: reads) = lineLeft (lineLeft line [r]) reads := by
  unfold readCommands lineLeft
  rw [stamped_cons, linesFrom_append]
  exact ⟨List.map_append, rfl⟩

/-- **A read carries out the lines it completes.** The buffer holds what fits of the line. -/
theorem cliRead_eq (s : Cli) (line : List UInt8) (r : CliRead) :
    cliRead (s, line.take (lineBufSize - 1)) r =
      ((readCommands line [r]).foldl runCommand s,
        (lineLeft line [r]).take (lineBufSize - 1)) := by
  have hbytes := foldl_takeByte (lineBufSize - 1) isNewline
    (fun t s line => cliHandleLine t s line) (stamped [r]) s line
  have hread : cliRead (s, line.take (lineBufSize - 1)) r =
      (stamped [r]).foldl (takeByte (lineBufSize - 1) isNewline
        fun t s line => cliHandleLine t s line) (s, line.take (lineBufSize - 1)) := by
    simp only [stamped, List.flatMap_cons, List.flatMap_nil, List.append_nil, List.foldl_map]
    rfl
  rw [hread, hbytes, readCommands, List.foldl_map]
  rfl

theorem mem_readCommands_of_initial {line : List UInt8} {performed reads : List CliRead}
    (h : performed <+: reads) {c : F32 × CliCommand} (hc : c ∈ readCommands line performed) :
    c ∈ readCommands line reads := by
  obtain ⟨rest, rfl⟩ := h
  have happ : stamped (performed ++ rest) = stamped performed ++ stamped rest :=
    List.flatMap_append
  rw [readCommands, happ, linesFrom_append, List.map_append]
  exact List.mem_append_left _ hc

/-! ## Commands -/

theorem runCommand_node (s : Cli) (c : F32 × CliCommand) :
    (runCommand s c).node = cliHandle s.node (callOf c).toList := by
  obtain ⟨t, c⟩ := c
  cases c with
  | send dst cls msg => rfl
  | quit => rfl
  | blank | usage | status | contacts | help | unknown _ => rfl

theorem runCommand_running (s : Cli) (c : F32 × CliCommand) :
    (runCommand s c).running = (s.running && decide (c.2 ≠ .quit)) := by
  obtain ⟨t, c⟩ := c
  cases c with
  | quit => simp [runCommand, cliCommand]
  | send _ _ _ | unknown _ => simp [runCommand, cliCommand]
  | blank | usage | status | contacts | help => simp [runCommand, cliCommand]

theorem cliHandle_append (node : NodeState) (as bs : List CliSend) :
    cliHandle node (as ++ bs) = cliHandle (cliHandle node as) bs := List.foldl_append

/-- **Commands are the calls they stand for**, and `quit` is remembered. -/
theorem foldl_runCommand (cs : List (F32 × CliCommand)) (s : Cli) :
    (cs.foldl runCommand s).node = cliHandle s.node (cs.filterMap callOf) ∧
      (cs.foldl runCommand s).running = (s.running && decide (.quit ∉ cs.map Prod.snd)) := by
  induction cs generalizing s with
  | nil => simp [cliHandle]
  | cons c cs ih =>
    obtain ⟨hnode, hrunning⟩ := ih (runCommand s c)
    have hcalls : (c :: cs).filterMap callOf = (callOf c).toList ++ cs.filterMap callOf := by
      cases h : callOf c with
      | none => simp [h]
      | some b => simp [h]
    constructor
    · rw [List.foldl_cons, hnode, runCommand_node, hcalls, cliHandle_append]
    · rw [List.foldl_cons, hrunning, runCommand_running, Bool.and_assoc]
      congr 1
      by_cases hc : c.2 = .quit
      · simp [hc]
      · simp [hc, Ne.symm hc]

/-- A read fits into a round of the event loop. -/
theorem PiRound.ofRead {logf : ℚ → ℚ} {board : Board} {isGround : Bool} {irqFd : Int}
    {s s₁ s₂ : PiMain} {wall : ℚ} (line : List UInt8) (r : CliRead)
    (timer : OnTimer logf board isGround irqFd s (s.clock wall) s₁)
    (irq : OnIrq board irqFd
      { s₁ with node := (cliRead (⟨s₁.node, true⟩, line.take (lineBufSize - 1)) r).1.node }
      (s.clock wall) s₂) : PiRound logf board isGround irqFd s s₂ := by
  rw [cliRead_eq, (foldl_runCommand (readCommands line [r]) ⟨s₁.node, true⟩).1] at irq
  exact ⟨wall, s₁, s₂, _, timer, irq⟩

/-- The calls are those the text asks for, whatever the stamps. -/
theorem filterMap_callOf_bundle (cs : List (F32 × CliCommand)) :
    (cs.filterMap callOf).map CliSend.bundle = (cs.map Prod.snd).filterMap CliCommand.bundle := by
  induction cs with
  | nil => rfl
  | cons c cs ih =>
    cases h : c.2.bundle with
    | none => simpa [callOf, h] using ih
    | some b => simpa [callOf, h, CliSend.bundle] using ih

theorem readCommands_snd (reads : List CliRead) :
    (readCommands [] reads).map Prod.snd = commandsOf (readText reads) := by
  have hsame : (stamped reads).map Prod.snd =
      ((readText reads).map (((), ·) : UInt8 → Unit × UInt8)).map Prod.snd := by
    rw [stamped_snd]
    simp [Function.comp_def]
  have hlines := (linesFrom_stamps isNewline hsame []).1
  have hcommands := congrArg (List.map commandIn) hlines
  simpa [readCommands, commandsOf, Function.comp_def] using hcommands

/-- A line is carried out at the clock of a round. -/
theorem t_mem_of_mem_readCommands {reads : List CliRead} {c : F32 × CliCommand}
    (h : c ∈ readCommands [] reads) : c.1 ∈ reads.map CliRead.t := by
  obtain ⟨l, hl, rfl⟩ := List.mem_map.mp h
  have hstamp := stamp_mem_of_mem_linesFrom hl
  simp only [stamped, List.map_flatMap, List.map_map, List.mem_flatMap] at hstamp
  obtain ⟨r, hr, hmem⟩ := hstamp
  obtain ⟨x, _, hx⟩ := List.mem_map.mp hmem
  exact List.mem_map.mpr ⟨r, hr, hx⟩

/-! ## The whole run -/

/-- From any line begun: the rounds that are made, up to the one in which `quit` came. -/
theorem cliLoop_rounds (reads : List CliRead) (s : Cli) (hs : s.running = true)
    (line : List UInt8) : ∃ performed, performed <+: reads ∧
      .quit ∉ (readCommands line performed.dropLast).map Prod.snd ∧
      (performed = reads ∨ .quit ∈ (readCommands line performed).map Prod.snd) ∧
      (cliLoop (s, line.take (lineBufSize - 1)) reads).1 =
        (readCommands line performed).foldl runCommand s := by
  induction reads generalizing s line with
  | nil => exact ⟨[], List.prefix_rfl, by simp [readCommands, stamped], Or.inl rfl, rfl⟩
  | cons r reads ih =>
    have hloop : cliLoop (s, line.take (lineBufSize - 1)) (r :: reads) =
        cliLoop ((readCommands line [r]).foldl runCommand s,
          (lineLeft line [r]).take (lineBufSize - 1)) reads := by
      rw [cliLoop, if_pos hs, cliRead_eq]
    have hrunning := (foldl_runCommand (readCommands line [r]) s).2
    rw [hs, Bool.true_and] at hrunning
    by_cases hquit : CliCommand.quit ∈ (readCommands line [r]).map Prod.snd
    · -- the loop ends after this round, with all that was read in it
      have hstop : ((readCommands line [r]).foldl runCommand s).running = false := by
        rw [hrunning]
        simp [hquit]
      refine ⟨[r], ⟨reads, rfl⟩, by simp [readCommands, stamped], Or.inr hquit, ?_⟩
      rw [hloop]
      cases reads with
      | nil => rfl
      | cons r' reads => rw [cliLoop, if_neg (by simp [hstop])]
    · have hgo : ((readCommands line [r]).foldl runCommand s).running = true := by
        rw [hrunning]
        simp [hquit]
      obtain ⟨performed, hpre, hbefore, hend, hstate⟩ := ih _ hgo (lineLeft line [r])
      refine ⟨r :: performed, List.cons_prefix_cons.mpr ⟨rfl, hpre⟩, ?_, ?_, ?_⟩
      · cases performed with
        | nil => simp [readCommands, stamped]
        | cons r' performed =>
          rw [List.dropLast_cons_cons, (readCommands_cons line r _).1, List.map_append,
            List.mem_append]
          exact not_or.mpr ⟨hquit, hbefore⟩
      · rcases hend with rfl | hend
        · exact Or.inl rfl
        · right
          rw [(readCommands_cons line r _).1, List.map_append, List.mem_append]
          exact Or.inr hend
      · rw [hloop, hstate, (readCommands_cons line r performed).1, List.foldl_append]

/-- **The terminal's pieces do not matter**, if the radio has been opened: the calls of
    `node_generate_bundle` are the `send` lines of the text, each cut to 255 bytes, in order and
    each once, at the clock of some round. The rounds are all of them, or those up to the first
    in which a `quit` came: what was read with it is still carried out, and nothing after. -/
theorem cliLoop_carriesOut (board : Board) (hinit : (piRadio board).1 = 0)
    (hopen : board.lineEvent ≠ some stdinFileno) (node : NodeState) (reads : List CliRead) :
    ∃ performed calls, performed <+: reads ∧
      .quit ∉ commandsOf (typed (piRadio board).2.dio0Fd performed.dropLast) ∧
      (performed = reads ∨ .quit ∈ commandsOf (typed (piRadio board).2.dio0Fd performed)) ∧
      (cliLoop (cliStart node) reads).1.node = cliHandle node calls ∧
      calls.map CliSend.bundle =
        (commandsOf (typed (piRadio board).2.dio0Fd performed)).filterMap CliCommand.bundle ∧
      ∀ c ∈ calls, c.t ∈ performed.map CliRead.t := by
  have htyped : ∀ reads, typed (piRadio board).2.dio0Fd reads = readText reads :=
    typed_eq_readText (piInit_dio0Fd hinit hopen)
  simp only [htyped]
  obtain ⟨performed, hpre, hbefore, hend, hstate⟩ := cliLoop_rounds reads ⟨node, true⟩ rfl []
  rw [readCommands_snd] at hbefore hend
  refine ⟨performed, (readCommands [] performed).filterMap callOf, hpre, hbefore, hend, ?_, ?_,
    ?_⟩
  · have hloop := congrArg Cli.node hstate
    rw [(foldl_runCommand (readCommands [] performed) ⟨node, true⟩).1] at hloop
    exact hloop
  · rw [filterMap_callOf_bundle, readCommands_snd]
  · intro c hc
    obtain ⟨p, hp, hcall⟩ := List.mem_filterMap.mp hc
    obtain ⟨b, _, rfl⟩ := Option.map_eq_some_iff.mp hcall
    exact t_mem_of_mem_readCommands hp

/-! ## The dashboard -/

/-- A form of `/send`, with the fields that were filled in. -/
structure SendForm where
  dst : Option (List UInt8)
  cls : Option (List UInt8)
  msg : Option (List UInt8)

def SendForm.dstText (f : SendForm) : List UInt8 := f.dst.getD (ascii ['R', 'O', 'V', 'R'])

def SendForm.clsText (f : SendForm) : List UInt8 := f.cls.getD (ascii ['t', 'l', 'm'])

def SendForm.msgText (f : SendForm) : List UInt8 := f.msg.getD []

/-- `f"send {dst} {cls} {msg}"`, in the encoding of the terminal. -/
def SendForm.cliCommand (f : SendForm) : List UInt8 :=
  ascii ['s', 'e', 'n', 'd'] ++ 0x20 :: (f.dstText ++ 0x20 :: (f.clsText ++ 0x20 :: f.msgText))

/-- The bundle the form describes; without a message there is none. -/
def SendForm.bundle (f : SendForm) : Option (NodeId × BundleClass × List UInt8) :=
  if f.msgText = [] then none
  else some (nodeIdFromStr f.dstText, parseClass (some f.clsText), f.msgText)

/-- A field that `strtok` takes for one word of one line. -/
def IsWord (w : List UInt8) : Prop := w ≠ [] ∧ ∀ x ∈ w, x ∉ wordDelims ∧ x ≠ 0x0a ∧ x ≠ 0

instance (w : List UInt8) : Decidable (IsWord w) :=
  @instDecidableAnd _ _ _ (List.decidableBAll _ w)

/-- The form can be pasted: the fields are words, the message is on one line, and all of it
    fits into the buffer. -/
structure SendForm.Pasteable (f : SendForm) : Prop where
  dst : IsWord f.dstText
  cls : IsWord f.clsText
  msg : ∀ x ∈ f.msgText, x ∉ lineDelims ∧ x ≠ 0
  fits : f.cliCommand.length ≤ lineBufSize - 1

theorem IsWord.freeOf {w : List UInt8} (h : IsWord w) : FreeOf wordDelims w := fun x hx => (h.2 x hx).1

/-- The message is the rest of the line, with the blanks in it. -/
theorem strtok_msg {msg eol : List UInt8} (h : FreeOf lineDelims msg)
    (heol : eol = [] ∨ eol = [0x0a]) :
    (strtok lineDelims (msg ++ eol)).1 = if msg = [] then none else some msg := by
  by_cases hmsg : msg = []
  · rcases heol with rfl | rfl
    · simp [hmsg]
    · rw [if_pos hmsg, hmsg]
      decide
  · rw [if_neg hmsg]
    rcases heol with rfl | rfl
    · rw [List.append_nil, strtok_last h hmsg]
    · rw [strtok_word h hmsg (by decide)]

/-- **The command, read back**, with its newline or, when it fills the buffer, without. -/
theorem cliParse_cliCommand {f : SendForm} (h : f.Pasteable) {eol : List UInt8}
    (heol : eol = [] ∨ eol = [0x0a]) :
    cliParse (f.cliCommand ++ eol) =
      if f.msgText = [] then .usage else .send f.dstText f.clsText f.msgText := by
  have hmsg : FreeOf lineDelims f.msgText := fun x hx => (h.msg x hx).1
  have hdst := strtok_word (d := 0x20) h.dst.freeOf h.dst.1 (by decide)
    (f.clsText ++ 0x20 :: (f.msgText ++ eol))
  have hcls := strtok_word (d := 0x20) h.cls.freeOf h.cls.1 (by decide) (f.msgText ++ eol)
  have hword : FreeOf (wordDelims ++ lineDelims) (ascii ['s', 'e', 'n', 'd']) := by decide
  have hsend := strtok_word (d := 0x20) hword (by decide) (by decide)
    (f.dstText ++ 0x20 :: (f.clsText ++ 0x20 :: (f.msgText ++ eol)))
  have hline : f.cliCommand ++ eol = ascii ['s', 'e', 'n', 'd'] ++
      0x20 :: (f.dstText ++ 0x20 :: (f.clsText ++ 0x20 :: (f.msgText ++ eol))) := by
    simp [SendForm.cliCommand]
  have htext := strtok_msg hmsg heol
  rw [cliParse, hline, hsend]
  simp only [if_pos, cliParseSend, hdst, hcls, htext]
  by_cases hempty : f.msgText = []
  · rw [if_pos hempty, if_pos hempty]
  · rw [if_neg hempty, if_neg hempty]

/-- A pasted command holds neither a newline nor a NUL. -/
theorem SendForm.Pasteable.plain {f : SendForm} (h : f.Pasteable) :
    ∀ x ∈ f.cliCommand, x ≠ 0x0a ∧ x ≠ 0 := by
  have hsend : ∀ x ∈ ascii ['s', 'e', 'n', 'd'], x ≠ 0x0a ∧ x ≠ 0 :=
    List.forall_iff_forall_mem.mp (by decide)
  have hmsg : ∀ x ∈ f.msgText, x ≠ 0x0a ∧ x ≠ 0 := by
    intro x hx
    obtain ⟨hline, hnul⟩ := h.msg x hx
    exact ⟨fun hnl => hline (by simp [lineDelims, hnl]), hnul⟩
  intro x hx
  simp only [SendForm.cliCommand, List.mem_append, List.mem_cons] at hx
  rcases hx with hx | rfl | hx | rfl | hx | rfl | hx
  · exact hsend x hx
  · decide
  · exact (h.dst.2 x hx).2
  · decide
  · exact (h.cls.2 x hx).2
  · decide
  · exact hmsg x hx

/-- What the buffer holds of a pasted line, up to the first NUL. -/
theorem commandIn_cliCommand {f : SendForm} (h : f.Pasteable) :
    commandIn (f.cliCommand ++ [0x0a]) =
      if f.msgText = [] then .usage else .send f.dstText f.clsText f.msgText := by
  obtain ⟨eol, heol, hcut⟩ : ∃ eol : List UInt8, (eol = [] ∨ eol = [0x0a]) ∧
      (f.cliCommand ++ [0x0a]).take (lineBufSize - 1) = f.cliCommand ++ eol := by
    rcases h.fits.lt_or_eq with hlt | heq
    · exact ⟨[0x0a], Or.inr rfl, List.take_of_length_le (by simpa using hlt)⟩
    · exact ⟨[], Or.inl rfl, by rw [← heq]; simp⟩
  have hplain : ∀ x ∈ f.cliCommand ++ eol, decide (x ≠ 0) = true := by
    intro x hx
    rcases List.mem_append.mp hx with hx | hx
    · simpa using (h.plain x hx).2
    · rcases heol with rfl | rfl
      · cases hx
      · rw [List.mem_singleton.mp hx]
        decide
  rw [commandIn, hcut, List.takeWhile_eq_self_iff.mpr hplain, cliParse_cliCommand h heol]

/-- The text of pasted forms, one on each line. -/
def pasted (forms : List SendForm) : List UInt8 := forms.flatMap fun f => f.cliCommand ++ [0x0a]

theorem commandsOf_pasted {forms : List SendForm} (h : ∀ f ∈ forms, f.Pasteable) :
    commandsOf (pasted forms) = forms.map fun f =>
      if f.msgText = [] then .usage else .send f.dstText f.clsText f.msgText := by
  have hlines : (linesFrom isNewline [] ((pasted forms).map (((), ·)))).1.map Prod.snd =
      (forms.map SendForm.cliCommand).map (· ++ [0x0a]) := linesFrom_lines rfl
    (by
      intro l hl y hy
      obtain ⟨f, hf, rfl⟩ := List.mem_map.mp hl
      simpa [isNewline] using ((h f hf).plain y hy).1)
    (by simp [pasted, List.flatMap_map, Function.comp_def])
  have hcommands := congrArg (List.map commandIn) hlines
  simp only [List.map_map, Function.comp_def] at hcommands
  rw [commandsOf, hcommands]
  exact List.map_congr_left fun f hf => commandIn_cliCommand (h f hf)

/-- **Every form, pasted, is the bundle it describes**, if the radio has been opened: however
    the terminal hands over the text, the node is asked for the bundles of the forms, in order
    and each once. A form without a message is answered with the usage. -/
theorem cliLoop_dashboard (board : Board) (hinit : (piRadio board).1 = 0)
    (hopen : board.lineEvent ≠ some stdinFileno) (node : NodeState) (forms : List SendForm)
    (h : ∀ f ∈ forms, f.Pasteable) (reads : List CliRead)
    (htyped : typed (piRadio board).2.dio0Fd reads = pasted forms) :
    ∃ calls, (cliLoop (cliStart node) reads).1.node = cliHandle node calls ∧
      calls.map CliSend.bundle = forms.filterMap SendForm.bundle := by
  have hread : readText reads = pasted forms :=
    (typed_eq_readText (piInit_dio0Fd hinit hopen) reads).symm.trans htyped
  have hcommands := commandsOf_pasted h
  rw [← hread] at hcommands
  obtain ⟨performed, hpre, _, hend, hstate⟩ := cliLoop_rounds reads ⟨node, true⟩ rfl []
  have hperformed : performed = reads := by
    refine hend.resolve_right fun hquit => ?_
    obtain ⟨c, hc, hcquit⟩ := List.mem_map.mp hquit
    have hmem := List.mem_map_of_mem (f := Prod.snd) (mem_readCommands_of_initial hpre hc)
    rw [readCommands_snd, hcommands, hcquit] at hmem
    obtain ⟨f, _, hf⟩ := List.mem_map.mp hmem
    split at hf <;> cases hf
  subst hperformed
  refine ⟨(readCommands [] performed).filterMap callOf, ?_, ?_⟩
  · have hloop := congrArg Cli.node hstate
    rw [(foldl_runCommand (readCommands [] performed) ⟨node, true⟩).1] at hloop
    exact hloop
  · rw [filterMap_callOf_bundle, readCommands_snd, hcommands, List.filterMap_map]
    refine List.filterMap_congr fun f _ => ?_
    simp only [Function.comp_apply, SendForm.bundle]
    split <;> rfl

/-- A form with nothing but a message. -/
def testForm : SendForm := ⟨none, none, some (ascii ['h', 'i', ' ', 'a', 'l', 'l'])⟩

/-- It comes in two pieces, the first of which ends inside a word; the driver meanwhile reads an
    event of DIO0. -/
def testReads : List CliRead :=
  [{ bytes := testForm.cliCommand.take 7, t := ⟨0⟩, after := [1] },
    { bytes := testForm.cliCommand.drop 7 ++ [0x0a], t := ⟨1⟩ }]

theorem cliLoop_carriesOut_testReads : ∃ performed calls, performed <+: testReads ∧
    .quit ∉ commandsOf (typed 5 performed.dropLast) ∧
      (performed = testReads ∨ .quit ∈ commandsOf (typed 5 performed)) ∧
      (cliLoop (cliStart (nodeStart 0 4096 none .empty)) testReads).1.node =
        cliHandle (nodeStart 0 4096 none .empty) calls ∧
      calls.map CliSend.bundle = (commandsOf (typed 5 performed)).filterMap CliCommand.bundle ∧
      ∀ c ∈ calls, c.t ∈ performed.map CliRead.t :=
  cliLoop_carriesOut silentBoard rfl (by decide) _ testReads

theorem cliLoop_dashboard_testForm : ∃ calls,
    (cliLoop (cliStart (nodeStart 0 4096 none .empty)) testReads).1.node =
        cliHandle (nodeStart 0 4096 none .empty) calls ∧
      calls.map CliSend.bundle =
        [(nodeIdFromStr (ascii ['R', 'O', 'V', 'R']), .telemetry,
          ascii ['h', 'i', ' ', 'a', 'l', 'l'])] :=
  cliLoop_dashboard silentBoard rfl (by decide) _ [testForm] (by
    intro f hf
    rw [List.mem_singleton.mp hf]
    exact ⟨by decide, by decide, List.forall_iff_forall_mem.mp (by decide), by decide⟩)
    testReads (by decide)

end DtnHardware
