import Workload.Model.Udp

/-!
# `Model.Reply` — the replies to commands

What `workload_cmd` writes to `s_res_data`, the part of `workload_udp` that sends it back, and the part of
`workload_control_txrx` that waits for a reply and prints it. All replies have one shape (`controlReply`); they are
written when the command has been carried out, under the locks of the values they show.
-/

namespace Workload

/-! ## `workload_cmd` -/

/-- A reply with these elements. -/
def controlReply (fields : List (String × Text)) : Text :=
  "<?xml version=\"1.0\" encoding=\"UTF-8\"?>\n<control>\n".toList ++
    fields.flatMap (fun field => "  <".toList ++ field.1.toList ++ ">".toList ++ field.2 ++ "</".toList ++
      field.1.toList ++ ">\n".toList) ++
    "</control>\n".toList

/-- `(... == 0) ? "no" : "yes"`. -/
def yesNo (b : Bool) : Text := if b then "yes".toList else "no".toList

/-- The elements of the reply to a command; `s` is the workload behind the command. No reply has none. -/
def replyFields (pid : Nat) (s : State) (code : Text) : List (String × Text) :=
  match code with
  | [] => []
  | [c] =>
      if c = '\x1b' ∨ c = 'q' then
        [("cmd", "quit".toList), ("res", "ack".toList), ("pid", formatUnsigned pid)]
      else if c = 'Q' then [("cmd", "restart".toList), ("res", "ack".toList)]
      else if c = '?' then
        [("cmd", "status".toList), ("relocate", yesNo s.relocate), ("pause", yesNo s.pause),
          ("left", formatUnsigned s.cfg.leftRatio), ("right", formatUnsigned s.cfg.rightRatio),
          ("interval", formatUnsigned s.cfg.accessInterval), ("read", formatUnsigned s.readCount),
          ("write", formatUnsigned s.writeCount),
          ("duration", formatUnsigned (sub64 s.timeStamp s.timeStampStart)), ("res", "ack".toList)]
      else if c = 'r' ∨ c = 'o' then
        [("cmd", "relocate".toList), ("status", yesNo s.relocate), ("res", "ack".toList)]
      else if c = 'p' then [("cmd", "pause".toList), ("status", yesNo s.pause), ("res", "ack".toList)]
      else if c = 'S' then [("cmd", "relocate".toList), ("status", "yes".toList), ("res", "ack".toList)]
      else if c = 'K' then [("cmd", "relocate".toList), ("status", "no".toList), ("res", "ack".toList)]
      else if c = 'P' then [("cmd", "pause".toList), ("status", "yes".toList), ("res", "ack".toList)]
      else if c = 'R' then [("cmd", "pause".toList), ("status", "no".toList), ("res", "ack".toList)]
      else if c = '!' then [("cmd", "reset".toList), ("res", "ack".toList)]
      else []
  | c :: blank :: argument =>
      if isspace blank then
        let res := if 0 < atoi argument then "ack".toList else "nack".toList
        if c = 'l' then [("cmd", "left".toList), ("status", formatUnsigned s.cfg.leftRatio), ("res", res)]
        else if c = 'r' then [("cmd", "right".toList), ("status", formatUnsigned s.cfg.rightRatio), ("res", res)]
        else []
      else []

/-- `s_res_data` behind `workload_cmd`. -/
def workloadCmdReply (pid : Nat) (s : State) (code : Text) (ios : FilePtr → MoveIo) : Text :=
  let fields := replyFields pid (workloadCmd s code ios) code
  if fields = [] then [] else controlReply fields

/-! ## `workload_udp` -/

/-- What `workload_udp` has done, and the datagrams it has sent back. -/
structure Replied where
  commanded : Commanded
  replies : List Text

/-- `workload_cmd` on the bytes of a line, and `workload_sendto` of its reply if there is one. -/
def replyLine (pid : Nat) (r : Replied) (ios : FilePtr → MoveIo) (line : Text) : Replied :=
  let reply := (workloadCmdReply pid r.commanded.workload line ios).takeWhile (· != '\x00')
  ⟨commandLine r.commanded ios line, if reply = [] then r.replies else r.replies ++ [reply]⟩

/-- The line loop of `workload_udp` with its replies. -/
def replyLoop (pid : Nat) (io : UdpIo) (buffer : Text) : Nat → Nat → Nat → Bool → Replied → Option Replied
  | 0, stop, _, _, r => if stop < buffer.length then none else some r
  | fuel + 1, stop, lines, validHeader, r =>
      if stop < buffer.length then
        let start := Runs.skip isLineBreak buffer buffer.length stop
        let stop := Runs.skip (fun c => !isLineBreak c) buffer buffer.length start
        let lineSize := stop - start
        if lineSize = 0 then replyLoop pid io buffer fuel stop (lines + 1) validHeader r
        else if io.newLine lines = false then replyLoop pid io buffer fuel stop (lines + 1) validHeader r
        else
          let line := strncpy ((buffer.drop start).take lineSize)
          let validHeader :=
            if lines = 0 ∧ line.takeWhile (· != '\x00') = "workload".toList then true else validHeader
          let r := if lines = 0 then r else replyLine pid r (io.ios lines) line
          if validHeader = false then some r else replyLoop pid io buffer fuel stop (lines + 1) validHeader r
      else some r

/-- The datagrams that arrive before `workload_udp` runs into its timeout. -/
def replyUdp (pid : Nat) : List (UdpIo × Text) → Replied → Option Replied
  | [], r => some r
  | (io, datagram) :: datagrams, r =>
      let buffer := datagram.take udpBufferSize
      if buffer = [] then some r
      else (replyLoop pid io buffer buffer.length 0 0 false r).bind (replyUdp pid datagrams)

/-! ## `workload_control_txrx` -/

/-- `sizeof(s_res_buffer)`. -/
def resBufferSize : Nat := 4096

/-- What is printed of the datagrams that come back: the first one, if it is not empty. -/
def controlPrint (replies : List Text) : Option Text :=
  match replies with
  | [] => none
  | reply :: _ =>
      let received := reply.take resBufferSize
      if received = [] then none
      -- the terminator takes the place behind the bytes, or the last one
      else if received.length < resBufferSize then some (received.takeWhile (· != '\x00'))
      else some ((received.take (resBufferSize - 1)).takeWhile (· != '\x00'))

end Workload
