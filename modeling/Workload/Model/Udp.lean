import Workload.Lib.Runs
import Workload.Model.Control

/-!
# `Model.Udp` — commands over the network

`workload_udp` of `workload.c`, which takes a datagram apart into lines and hands them to `workload_cmd`, and
`workload_control_main` of `workload_control.c`, the client that builds the datagram from its options. The
bytes of a datagram are characters, as in `Text`, but the terminator may be among them.

`getopt_long` is modelled on its table: an option is given by its letter, by its name or by an abbreviation of
its name, with or without an argument, and one that the table does not allow is reported as `?`.
-/

namespace Workload

/-! ## `workload_udp` -/

/-- `strncpy(dst, s, s_size)` into cleared memory: up to the terminator, the rest zero. -/
def strncpy (s : Text) : Text :=
  let copied := s.takeWhile (· != '\x00')
  copied ++ List.replicate (s.length - copied.length) '\x00'

/-- The characters the line scanner stops at. -/
def isLineBreak (c : Char) : Bool := c == '\n' || c == '\r'

/-- While one datagram is handled: the outcome of each `malloc`, by `s_lines`, and the outcomes of the
    relocation that the command in that line may start. -/
structure UdpIo where
  newLine : Nat → Bool
  ios : Nat → FilePtr → MoveIo

/-- The workload, and the lines `workload_cmd` was called with so far. -/
structure Commanded where
  workload : State
  commands : List Text

/-- `workload_cmd` on the bytes of a line. -/
def commandLine (r : Commanded) (ios : FilePtr → MoveIo) (line : Text) : Commanded :=
  ⟨workloadCmd r.workload line ios, r.commands ++ [line]⟩

/-- The line loop of `workload_udp` on the received bytes; `none` when `fuel` rounds do not end it. -/
def lineLoop (io : UdpIo) (buffer : Text) : Nat → Nat → Nat → Bool → Commanded → Option Commanded
  | 0, stop, _, _, r => if stop < buffer.length then none else some r
  | fuel + 1, stop, lines, validHeader, r =>
      if stop < buffer.length then
        let start := Runs.skip isLineBreak buffer buffer.length stop
        let stop := Runs.skip (fun c => !isLineBreak c) buffer buffer.length start
        let lineSize := stop - start
        if lineSize = 0 then lineLoop io buffer fuel stop (lines + 1) validHeader r
        else if io.newLine lines = false then lineLoop io buffer fuel stop (lines + 1) validHeader r
        else
          let line := strncpy ((buffer.drop start).take lineSize)
          -- `strcmp` looks at the line up to its terminator
          let validHeader :=
            if lines = 0 ∧ line.takeWhile (· != '\x00') = "workload".toList then true else validHeader
          let r := if lines = 0 then r else commandLine r (io.ios lines) line
          if validHeader = false then some r else lineLoop io buffer fuel stop (lines + 1) validHeader r
      else some r

/-- The line loop from its start. -/
def udpLines (io : UdpIo) (buffer : Text) (r : Commanded) : Option Commanded :=
  lineLoop io buffer buffer.length 0 0 false r

/-- `sizeof(s_buffer)` of `workload_udp` and `sizeof(s_cmd_buffer)` of `workload_control_main`. -/
def udpBufferSize : Nat := 4096

def cmdBufferSize : Nat := 4096

/-- `workload_udp` on the datagrams that arrive before it runs into its timeout. -/
def workloadUdp : List (UdpIo × Text) → Commanded → Option Commanded
  | [], r => some r
  | (io, datagram) :: datagrams, r =>
      let buffer := datagram.take udpBufferSize
      if buffer = [] then some r else (udpLines io buffer r).bind (workloadUdp datagrams)

/-! ## `workload_control_main` -/

/-- An option of the command line. -/
inductive CtrlArg where
  /-- a letter, with the argument if the letter takes one -/
  | short (letter : Char) (argument : Option Text)
  /-- a name or the beginning of one, with the argument if one is given -/
  | long (name : Text) (argument : Option Text)

/-- `sg_workload_options`: name, `has_arg` and value. -/
def workloadOptions : List (Text × Bool × Char) :=
  [("help".toList, false, 'h'), ("ip".toList, false, '\x00'), ("cmd".toList, false, 'c'),
    ("quit".toList, false, 'q'), ("restart".toList, false, 'Q'), ("pause".toList, false, 'p'),
    ("resume".toList, false, 'r'), ("oneshot".toList, false, 'o'), ("start".toList, false, 's'),
    ("stop".toList, false, 'k'), ("toggle".toList, false, '\x00'), ("status".toList, false, '\x00'),
    ("left".toList, true, '\x00'), ("right".toList, true, '\x00'), ("reset".toList, false, '\x00')]

/-- `s_option_check`, the name at `s_option_index`, and `optarg`. -/
structure Getopt where
  check : Char
  name : Text
  optarg : Option Text

/-- The option `getopt_long` takes a text behind `--` for: the one of that name, else the one it abbreviates.
    Names with this beginning that differ in `has_arg` or in their value make it ambiguous. -/
def longOption (name : Text) : Option (Text × Bool × Char) :=
  match workloadOptions.find? fun option => option.1 == name with
  | some option => some option
  | none =>
      match workloadOptions.filter fun option => name.isPrefixOf option.1 with
      | [] => none
      | option :: others => if (others.all fun other => other.2 == option.2) = true then some option else none

/-- `getopt_long` with the letters `hc:qQprosk`. -/
def getoptLong : CtrlArg → Getopt
  | .short letter argument =>
      if letter = 'c' then
        match argument with
        | none => ⟨'?', [], none⟩
        | some text => ⟨'c', [], some text⟩
      else if letter ∈ "hqQprosk".toList then ⟨letter, [], none⟩
      else ⟨'?', [], none⟩
  | .long name argument =>
      match longOption name with
      | none => ⟨'?', [], none⟩
      | some (name, hasArg, value) =>
          if hasArg = argument.isSome then ⟨value, name, argument⟩ else ⟨'?', [], none⟩

/-- What the option loop of `workload_control_main` has built: the string in `s_cmd_buffer`, `s_cmd_offset`
    and `s_do_help`. -/
structure CmdBuffer where
  text : Text
  offset : Nat
  help : Bool

/-- `snprintf` behind the commands so far; with an offset past the buffer it writes anywhere (`none`). -/
def CmdBuffer.append (b : CmdBuffer) (line : Text) : Option CmdBuffer :=
  if cmdBufferSize < b.offset then none
  else
    some { b with
      text := b.text ++ line.take (cmdBufferSize - b.offset - 1)
      offset := b.offset + line.length }

/-- One round of the option loop. -/
def ctrlOption (b : CmdBuffer) (option : Getopt) : Option CmdBuffer :=
  let argument (letter : String) : Option CmdBuffer :=
    match option.optarg with
    | none => some b
    | some text => b.append (letter.toList ++ text ++ "\n".toList)
  if option.check = '\x00' then
    if option.name = "status".toList then b.append "?\n".toList
    else if option.name = "left".toList then argument "l "
    else if option.name = "right".toList then argument "r "
    else if option.name = "reset".toList then b.append "!\n".toList
    else if option.name = "toggle".toList then b.append "r\n".toList
    else some b
  else if option.check = 'c' then argument ""
  else if option.check = 'q' then b.append "q\n".toList
  else if option.check = 'Q' then b.append "Q\n".toList
  else if option.check = 'p' then b.append "P\n".toList
  else if option.check = 'r' then b.append "R\n".toList
  else if option.check = 'o' then b.append "o\n".toList
  else if option.check = 's' then b.append "S\n".toList
  else if option.check = 'k' then b.append "K\n".toList
  else some { b with help := true }

/-- The option loop. -/
def ctrlOptions (args : List CtrlArg) : Option CmdBuffer :=
  args.foldlM (fun b arg => ctrlOption b (getoptLong arg)) ⟨[], 0, false⟩

/-- `workload_control_main`: the datagram it sends, if it sends one and not the usage text. -/
def workloadControlMain (args : List CtrlArg) : Option (Option Text) :=
  (ctrlOptions args).map fun b =>
    if b.help = true ∨ b.text = [] then none else some ("workload\n".toList ++ b.text ++ "\n".toList)

end Workload
