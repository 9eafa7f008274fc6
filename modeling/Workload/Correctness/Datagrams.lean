import Workload.Correctness.Services
import Workload.Model.Udp

/-!
# `Correctness.Datagrams` — lines, commands and the control client

The line loop calls `workload_cmd` for the lines of a datagram behind a header line (`datagramLines`). The
client puts the header in front of a command buffer that may be as large as the buffer the datagram is
received in, so the last command can be cut.

* **`udp_calls_lines`** — one call for each line, in order, with its length and the bytes `strncpy` copies.
* **`control_round_trip`** — exactly the requested commands are executed, exactly when nothing is refused, no
  argument contains a line break, and nothing but line breaks is cut off.
-/

namespace Workload

open Runs

/-! ## `strncpy` -/

theorem strncpy_length (s : Text) : (strncpy s).length = s.length := by
  unfold strncpy
  have hle : (s.takeWhile (· != '\x00')).length ≤ s.length := (List.takeWhile_prefix _).length_le
  dsimp only
  rw [List.length_append, List.length_replicate]
  omega

/-- A line without a terminator in it is copied. -/
theorem strncpy_eq {s : Text} (h : '\x00' ∉ s) : strncpy s = s := by
  have hall : s.takeWhile (· != '\x00') = s := List.takeWhile_eq_self_iff.mpr fun c hc => by
    rw [bne_iff_ne]
    rintro rfl
    exact h hc
  unfold strncpy
  dsimp only
  rw [hall, Nat.sub_self]
  exact List.append_nil s

/-- What is copied is the same up to the terminator. -/
theorem strncpy_takeWhile (s : Text) : (strncpy s).takeWhile (· != '\x00') = s.takeWhile (· != '\x00') := by
  unfold strncpy
  dsimp only
  rw [List.takeWhile_append_of_pos fun c hc => by simpa using List.mem_takeWhile_imp hc]
  cases s.length - (s.takeWhile (· != '\x00')).length with
  | zero => exact List.append_nil _
  | succ n =>
      rw [List.replicate_succ, List.takeWhile_cons_of_neg (by decide)]
      exact List.append_nil _

/-- `atoi` does not read past a terminator. -/
theorem atoi_terminated (a b b' : Text) : atoi (a ++ '\x00' :: b) = atoi (a ++ '\x00' :: b') := by
  have hdigits : ∀ a : Text, digitsValue (a ++ '\x00' :: b) = digitsValue (a ++ '\x00' :: b') := by
    intro a
    unfold digitsValue
    have htake : ∀ b : Text, (a ++ '\x00' :: b).takeWhile isdigit = a.takeWhile isdigit := by
      intro b
      induction a with
      | nil => exact List.takeWhile_cons_of_neg (by decide)
      | cons c a ih =>
          rw [List.cons_append, List.takeWhile_cons, List.takeWhile_cons, ih]
    rw [htake, htake]
  have hsign : ∀ (c : Char) (a : Text), isspace c = false →
      strtol (c :: (a ++ '\x00' :: b)) = strtol (c :: (a ++ '\x00' :: b')) := by
    intro c a hspace
    have hcons := hdigits (c :: a)
    unfold strtol
    rw [List.dropWhile_cons_of_neg (by rw [hspace]; decide), List.dropWhile_cons_of_neg (by rw [hspace]; decide)]
    by_cases hminus : c = '-'
    · subst hminus
      simp only [hdigits a]
    by_cases hplus : c = '+'
    · subst hplus
      simp only [hdigits a]
    · simp only [List.cons_append] at hcons
      simp [hminus, hplus, hcons]
  have hstrtol : strtol (a ++ '\x00' :: b) = strtol (a ++ '\x00' :: b') := by
    induction a with
    | nil =>
        have hnil := hdigits []
        rw [List.nil_append, List.nil_append] at hnil ⊢
        unfold strtol
        rw [List.dropWhile_cons_of_neg (by decide), List.dropWhile_cons_of_neg (by decide)]
        simp [hnil]
    | cons c a ih =>
        cases hspace : isspace c with
        | false => exact hsign c a hspace
        | true =>
            unfold strtol at ih ⊢
            rw [List.cons_append, List.cons_append, List.dropWhile_cons_of_pos hspace,
              List.dropWhile_cons_of_pos hspace]
            exact ih
  unfold atoi
  rw [hstrtol]

/-- **No command can tell the copied line from the line**: they differ behind a terminator only. -/
theorem workloadCmd_strncpy (s : State) (line : Text) (ios : FilePtr → MoveIo) :
    workloadCmd s (strncpy line) ios = workloadCmd s line ios := by
  by_cases hnul : '\x00' ∈ line
  case neg => rw [strncpy_eq hnul]
  obtain ⟨a, b, rfl, ha⟩ := List.eq_append_cons_of_mem hnul
  have htake : (a ++ '\x00' :: b).takeWhile (· != '\x00') = a := by
    rw [List.takeWhile_append_of_pos fun c hc => ?_, List.takeWhile_cons_of_neg (by decide), List.append_nil]
    rw [bne_iff_ne]
    rintro rfl
    exact ha hc
  have hcopy : strncpy (a ++ '\x00' :: b) = a ++ '\x00' :: List.replicate b.length '\x00' := by
    unfold strncpy
    dsimp only
    rw [htake, List.length_append, List.length_cons, Nat.add_sub_cancel_left, List.replicate_succ]
  rw [hcopy]
  have hstop : isspace '\x00' = false := by decide
  rcases a with _ | ⟨c, _ | ⟨blank, a⟩⟩
  · -- the command byte itself is the terminator
    rw [List.nil_append, List.nil_append]
    cases b with
    | nil => rfl
    | cons blank b =>
        rw [List.length_cons, List.replicate_succ]
        unfold workloadCmd
        simp [hstop]
  · rw [List.singleton_append, List.singleton_append]
    unfold workloadCmd
    simp only [hstop, Bool.false_eq_true, if_false]
  · rw [List.cons_append, List.cons_append, List.cons_append, List.cons_append]
    unfold workloadCmd
    dsimp only
    rw [atoi_terminated a (List.replicate b.length '\x00') b]

/-! ## The line loop -/

/-- A text without a line break, tested character by character. -/
theorem unbroken_of_all {text : Text} (h : (text.all fun c => !isLineBreak c) = true) :
    ∀ c ∈ text, isLineBreak c = false := fun c hc => by
  simpa using List.all_eq_true.mp h c hc

/-- The lines a datagram has commands in: those behind a first line that reads `workload`. -/
def datagramLines (buffer : Text) : List Text :=
  match runs isLineBreak buffer with
  | [] => []
  | header :: lines => if header.takeWhile (· != '\x00') = "workload".toList then lines else []

/-- The line loop on the lines themselves. -/
def lineCalls (io : UdpIo) : List Text → Nat → Bool → Commanded → Commanded
  | [], _, _, r => r
  | line :: rest, lines, validHeader, r =>
      if io.newLine lines = false then lineCalls io rest (lines + 1) validHeader r
      else
        let validHeader :=
          if lines = 0 ∧ line.takeWhile (· != '\x00') = "workload".toList then true else validHeader
        let r := if lines = 0 then r else commandLine r (io.ios lines) (strncpy line)
        if validHeader = false then r else lineCalls io rest (lines + 1) validHeader r

section LineLoop

variable {io : UdpIo} {buffer : Text} {r : Commanded}

/-- At the end of the bytes the loop ends. -/
theorem lineLoop_end {fuel stop lines : Nat} {validHeader : Bool} (h : buffer.length ≤ stop) :
    lineLoop io buffer fuel stop lines validHeader r = some r := by
  cases fuel with
  | zero => exact if_neg (by omega)
  | succ fuel => exact if_neg (by omega)

/-- **The loop over the bytes is the loop over the lines**, whichever lines cannot be stored. -/
theorem lineLoop_eq {fuel stop lines : Nat} {validHeader : Bool} (hfuel : buffer.length ≤ stop + fuel) :
    lineLoop io buffer fuel stop lines validHeader r =
      some (lineCalls io (runs isLineBreak (buffer.drop stop)) lines validHeader r) := by
  induction fuel generalizing stop lines validHeader r with
  | zero =>
      have hend : buffer.length ≤ stop := hfuel
      rw [lineLoop_end hend, List.drop_eq_nil_of_le hend, runs_nil]
      rfl
  | succ fuel ih =>
      by_cases hstop : stop < buffer.length
      case neg =>
        rw [lineLoop_end (by omega), List.drop_eq_nil_of_le (by omega), runs_nil]
        rfl
      unfold lineLoop
      rw [if_pos hstop]
      dsimp only
      rcases skip_cases isLineBreak buffer stop with ⟨hsize, hruns, hend⟩ | ⟨hsize, hlt, hruns⟩
      · rw [if_pos hsize, lineLoop_end hend, hruns]
        rfl
      · rw [if_neg hsize, hruns, strncpy_takeWhile]
        unfold lineCalls
        dsimp only
        split_ifs
        all_goals first | rfl | exact ih (by omega)

/-- Behind a valid header `workload_cmd` is called for each line. -/
theorem lineCalls_valid (halloc : ∀ k, io.newLine k = true) (rest : List Text) {lines : Nat} (hlines : lines ≠ 0) :
    lineCalls io rest lines true r =
      (rest.zipIdx lines).foldl (fun r line => commandLine r (io.ios line.2) (strncpy line.1)) r := by
  induction rest generalizing lines r with
  | nil => rfl
  | cons line rest ih =>
      have hstored : ¬ io.newLine lines = false := by
        rw [halloc]
        decide
      unfold lineCalls
      rw [if_neg hstored, if_neg hlines, ite_self]
      exact ih (Nat.succ_ne_zero lines)

/-- **The whole loop.** -/
theorem udpLines_eq (halloc : ∀ k, io.newLine k = true) :
    udpLines io buffer r =
      some (((datagramLines buffer).zipIdx 1).foldl
        (fun r line => commandLine r (io.ios line.2) (strncpy line.1)) r) := by
  have hloop : udpLines io buffer r = _ := lineLoop_eq (Nat.le_add_left _ _)
  rw [hloop, List.drop_zero]
  unfold datagramLines
  cases runs isLineBreak buffer with
  | nil => rfl
  | cons header rest =>
      have hstored : ¬ io.newLine 0 = false := by
        rw [halloc]
        decide
      unfold lineCalls
      rw [if_neg hstored]
      dsimp only
      by_cases hvalid : header.takeWhile (· != '\x00') = "workload".toList
      · simp only [hvalid, and_self, if_true, Bool.true_eq_false, if_false]
        exact congrArg some (lineCalls_valid halloc rest Nat.one_ne_zero)
      · simp only [hvalid, and_false, if_false, if_true]
        rfl

/-- The calls of a sequence of lines, and what they come to. -/
theorem commandLines (lines : List (Text × Nat)) (r : Commanded) :
    lines.foldl (fun r line => commandLine r (io.ios line.2) (strncpy line.1)) r =
      ⟨lines.foldl (fun s line => workloadCmd s line.1 (io.ios line.2)) r.workload,
        r.commands ++ lines.map fun line => strncpy line.1⟩ := by
  induction lines generalizing r with
  | nil => rw [List.map_nil, List.append_nil]; rfl
  | cons line lines ih =>
      rw [List.foldl_cons, ih, List.foldl_cons, List.map_cons]
      unfold commandLine
      dsimp only
      rw [workloadCmd_strncpy, List.append_assoc, List.singleton_append]

/-- The whole loop, by its calls. -/
theorem udpLines_commands (halloc : ∀ k, io.newLine k = true) (buffer : Text) (r : Commanded) :
    ∃ r', udpLines io buffer r = some r' ∧
      r'.commands = r.commands ++ (datagramLines buffer).map strncpy ∧
      r'.workload = ((datagramLines buffer).zipIdx 1).foldl
        (fun s line => workloadCmd s line.1 (io.ios line.2)) r.workload := by
  refine ⟨_, udpLines_eq halloc, ?_, ?_⟩
  · rw [commandLines]
    dsimp only
    rw [show (fun line : Text × Nat => strncpy line.1) = strncpy ∘ Prod.fst from rfl, ← List.map_map,
      List.zipIdx_map_fst]
  · rw [commandLines]

end LineLoop

/-- **The line loop ends, and calls `workload_cmd` once for each line behind the header, in order**, with its
    length and with the bytes `strncpy` copies, which no command can tell from the line itself. Only the runs
    between the line breaks count. -/
theorem udp_calls_lines {io : UdpIo} (halloc : ∀ k, io.newLine k = true) (buffer : Text) (r : Commanded) :
    (∃ r', udpLines io buffer r = some r' ∧
      r'.commands = r.commands ++ (datagramLines buffer).map strncpy ∧
      r'.workload = ((datagramLines buffer).zipIdx 1).foldl
        (fun s line => workloadCmd s line.1 (io.ios line.2)) r.workload) ∧
    (∀ line ∈ datagramLines buffer, (strncpy line).length = line.length ∧
      (strncpy line).takeWhile (· != '\x00') = line.takeWhile (· != '\x00') ∧
      ('\x00' ∉ line → strncpy line = line)) ∧
    ∀ front back first (pieces : List (Text × Text)), (∀ c ∈ front, isLineBreak c = true) →
      (∀ c ∈ back, isLineBreak c = true) → (first ≠ [] ∧ ∀ c ∈ first, isLineBreak c = false) →
      (∀ x ∈ pieces, (x.1 ≠ [] ∧ ∀ c ∈ x.1, isLineBreak c = true) ∧
        x.2 ≠ [] ∧ ∀ c ∈ x.2, isLineBreak c = false) →
      datagramLines (front ++ first ++ pieces.flatMap (fun x => x.1 ++ x.2) ++ back) =
        if first.takeWhile (· != '\x00') = "workload".toList then pieces.map Prod.snd else [] := by
  refine ⟨udpLines_commands halloc buffer r, fun line _ => ?_, ?_⟩
  · exact ⟨strncpy_length line, strncpy_takeWhile line, strncpy_eq⟩
  · intro front back first pieces hfront hback hfirst hpieces
    unfold datagramLines
    rw [runs_pieces hfront hback hfirst hpieces]

/-- No allocation fails while a datagram is handled. -/
def smallUdp : UdpIo := ⟨fun _ => true, fun _ _ => smallMove⟩

theorem smallUdp_newLine (k : Nat) : smallUdp.newLine k = true := rfl

/-- A datagram with blank lines, both line breaks and no break at its end. -/
theorem udp_calls_lines_small :
    ∃ r', udpLines smallUdp "\n\nworkload\r\n\r\nl 2\np".toList ⟨smallStart, []⟩ = some r' ∧
      r'.commands = ["l 2".toList, "p".toList] ∧ r'.workload.cfg.leftRatio = 2 ∧ r'.workload.pause = true := by
  obtain ⟨⟨r', hr, hcommands, hworkload⟩, -⟩ := udp_calls_lines smallUdp_newLine
    "\n\nworkload\r\n\r\nl 2\np".toList ⟨smallStart, []⟩
  have hlines : datagramLines "\n\nworkload\r\n\r\nl 2\np".toList = ["l 2".toList, "p".toList] := by
    decide +kernel
  rw [hlines] at hcommands hworkload
  refine ⟨r', hr, hcommands.trans (by decide), ?_, ?_⟩
  · rw [hworkload]
    decide +kernel
  · rw [hworkload]
    decide +kernel

/-- A byte behind a terminator is not passed on. -/
theorem udp_clears_bytes :
    datagramLines "workload\nq\x00x".toList = ["q\x00x".toList] ∧
    (udpLines smallUdp "workload\nq\x00x".toList ⟨smallStart, []⟩).map Commanded.commands =
      some ["q\x00\x00".toList] ∧
    "q\x00\x00".toList ≠ "q\x00x".toList := by
  decide +kernel

/-! ## The control client -/

/-- The command each letter stands for. -/
def letterRequests : List (Char × Text) :=
  [('q', "q".toList), ('Q', "Q".toList), ('p', "P".toList), ('r', "R".toList), ('o', "o".toList),
    ('s', "S".toList), ('k', "K".toList)]

/-- The command each name without an argument stands for. -/
def nameRequests : List (Text × Text) :=
  [("quit".toList, "q".toList), ("restart".toList, "Q".toList), ("pause".toList, "P".toList),
    ("resume".toList, "R".toList), ("oneshot".toList, "o".toList), ("start".toList, "S".toList),
    ("stop".toList, "K".toList), ("toggle".toList, "r".toList), ("status".toList, "?".toList),
    ("reset".toList, "!".toList)]

/-- The command an option requests, by the usage text of the client. -/
def request : CtrlArg → Option Text
  | .short letter argument => if letter = 'c' then argument else letterRequests.lookup letter
  | .long name argument =>
      if name = "cmd".toList then argument
      else if name = "left".toList then argument.map ("l ".toList ++ ·)
      else if name = "right".toList then argument.map ("r ".toList ++ ·)
      else if argument = none then nameRequests.lookup name
      else none

/-- `--cmd=..` is in the usage text, and `getopt_long` refuses it: its `has_arg` is zero. -/
def Refused : CtrlArg → Prop
  | .long name argument => name = "cmd".toList ∧ argument ≠ none
  | _ => False

/-- An option in the option loop: one more line, or the usage text. -/
theorem ctrlOption_request {arg : CtrlArg} {text : Text} (hrequest : request arg = some text)
    (b : CmdBuffer) :
    (Refused arg → ctrlOption b (getoptLong arg) = some { b with help := true }) ∧
    (¬ Refused arg → ctrlOption b (getoptLong arg) = b.append (text ++ ['\n'])) := by
  have hmem : ∀ {α : Type} [BEq α] [LawfulBEq α] {l : List (α × Text)} {a : α} {t : Text},
      l.lookup a = some t → (a, t) ∈ l := by
    intro α _ _ l a t h
    obtain ⟨l₁, l₂, rfl, -⟩ := List.lookup_eq_some_iff.mp h
    exact List.mem_append_right l₁ List.mem_cons_self
  cases arg with
  | short letter argument =>
      refine ⟨False.elim, fun _ => ?_⟩
      dsimp only [request] at hrequest
      by_cases hc : letter = 'c'
      · rw [if_pos hc] at hrequest
        rw [hc, hrequest]
        rfl
      · rw [if_neg hc] at hrequest
        have hlisted := hmem hrequest
        simp only [letterRequests, List.mem_cons, List.not_mem_nil, or_false, Prod.mk.injEq] at hlisted
        rcases hlisted with ⟨rfl, rfl⟩ | ⟨rfl, rfl⟩ | ⟨rfl, rfl⟩ | ⟨rfl, rfl⟩ | ⟨rfl, rfl⟩ | ⟨rfl, rfl⟩ |
          ⟨rfl, rfl⟩ <;> rfl
  | long name argument =>
      dsimp only [request] at hrequest
      by_cases hcmd : name = "cmd".toList
      · subst hcmd
        rw [if_pos rfl] at hrequest
        rw [hrequest]
        exact ⟨fun _ => rfl, fun h => absurd ⟨rfl, nofun⟩ h⟩
      refine ⟨fun h => absurd h.1 hcmd, fun _ => ?_⟩
      rw [if_neg hcmd] at hrequest
      by_cases hleft : name = "left".toList
      · subst hleft
        rw [if_pos rfl] at hrequest
        obtain ⟨value, rfl, rfl⟩ := Option.map_eq_some_iff.mp hrequest
        rfl
      by_cases hright : name = "right".toList
      · subst hright
        rw [if_neg hleft, if_pos rfl] at hrequest
        obtain ⟨value, rfl, rfl⟩ := Option.map_eq_some_iff.mp hrequest
        rfl
      rw [if_neg hleft, if_neg hright] at hrequest
      by_cases hnone : argument = none
      · subst hnone
        rw [if_pos rfl] at hrequest
        have hlisted := hmem hrequest
        simp only [nameRequests, List.mem_cons, List.not_mem_nil, or_false, Prod.mk.injEq] at hlisted
        rcases hlisted with ⟨rfl, rfl⟩ | ⟨rfl, rfl⟩ | ⟨rfl, rfl⟩ | ⟨rfl, rfl⟩ | ⟨rfl, rfl⟩ | ⟨rfl, rfl⟩ |
          ⟨rfl, rfl⟩ | ⟨rfl, rfl⟩ | ⟨rfl, rfl⟩ | ⟨rfl, rfl⟩ <;> rfl
      · rw [if_neg hnone] at hrequest
        exact nomatch hrequest

/-- The lines the options come to in the command buffer. -/
def commandText (args : List CtrlArg) : Text := (args.filterMap request).flatMap fun text => text ++ ['\n']

/-- The requested commands; an empty one requests nothing. -/
def requestedCommands (args : List CtrlArg) : List Text :=
  (args.filterMap request).filter fun text => !text.isEmpty

theorem commandText_cons {arg : CtrlArg} {text : Text} (hrequest : request arg = some text)
    (args : List CtrlArg) : commandText (arg :: args) = (text ++ ['\n']) ++ commandText args := by
  unfold commandText
  rw [List.filterMap_cons_some hrequest, List.flatMap_cons]

/-- **The option loop** on options that fit: a refused one leads to the usage text, else the lines follow each
    other in the buffer. -/
theorem ctrlOptions_requests {args : List CtrlArg} (hrequests : ∀ arg ∈ args, (request arg).isSome)
    {b : CmdBuffer} (hfit : b.offset + (commandText args).length < cmdBufferSize) :
    ∃ b', args.foldlM (fun b arg => ctrlOption b (getoptLong arg)) b = some b' ∧
      (b'.help = true ↔ b.help = true ∨ ∃ arg ∈ args, Refused arg) ∧
      ((∀ arg ∈ args, ¬ Refused arg) → b'.text = b.text ++ commandText args) := by
  induction args generalizing b with
  | nil => exact ⟨b, rfl, by simp, fun _ => (List.append_nil b.text).symm⟩
  | cons arg args ih =>
      obtain ⟨harg, hrequests⟩ := List.forall_mem_cons.mp hrequests
      obtain ⟨text, hrequest⟩ := Option.isSome_iff_exists.mp harg
      obtain ⟨hhelp, hline⟩ := ctrlOption_request hrequest b
      rw [commandText_cons hrequest, List.length_append] at hfit
      rw [List.foldlM_cons]
      by_cases hrefused : Refused arg
      · rw [hhelp hrefused]
        obtain ⟨b', hb', hhelp', -⟩ := ih hrequests (b := { b with help := true }) (by dsimp only; omega)
        refine ⟨b', hb', ⟨fun _ => Or.inr ⟨arg, List.mem_cons_self, hrefused⟩, fun _ => ?_⟩, fun h => ?_⟩
        · exact hhelp'.mpr (Or.inl rfl)
        · exact absurd hrefused (h arg List.mem_cons_self)
      · have hroom : ¬ cmdBufferSize < b.offset := by omega
        have hwhole : (text ++ ['\n']).take (cmdBufferSize - b.offset - 1) = text ++ ['\n'] :=
          List.take_of_length_le (by omega)
        rw [hline hrefused]
        unfold CmdBuffer.append
        rw [if_neg hroom, hwhole]
        obtain ⟨b', hb', hhelp', htext⟩ := ih hrequests
          (b := { b with text := b.text ++ (text ++ ['\n']), offset := b.offset + (text ++ ['\n']).length })
          (by dsimp only; omega)
        refine ⟨b', hb', hhelp'.trans ?_, fun h => ?_⟩
        · rw [List.exists_mem_cons_iff]
          exact or_congr_right (or_iff_right hrefused).symm
        · rw [htext fun arg harg => h arg (List.mem_cons_of_mem _ harg), commandText_cons hrequest,
            List.append_assoc]

/-- What is left of the commands behind the header line when the datagram is received. -/
def receivedText (args : List CtrlArg) : Text := (commandText args).take (udpBufferSize - "workload\n".length)

/-- The lines of the datagram that is received. -/
theorem datagramLines_received (args : List CtrlArg) :
    datagramLines (("workload\n".toList ++ commandText args ++ "\n".toList).take udpBufferSize) =
      runs isLineBreak (receivedText args) := by
  have hbreak : isLineBreak '\n' = true := by decide
  have htake : ("workload\n".toList ++ commandText args ++ "\n".toList).take udpBufferSize =
      "workload".toList ++ '\n' :: (receivedText args ++
        "\n".toList.take (udpBufferSize - "workload\n".length - (commandText args).length)) := by
    rw [List.append_assoc, List.take_append, List.take_append]
    rfl
  unfold datagramLines
  rw [htake, runs_append_cons hbreak, runs_append_seps, runs_of_free (unbroken_of_all (by decide))]
  · rw [if_neg (by decide), List.singleton_append]
    exact if_pos (by decide)
  · intro c hc
    rw [List.mem_singleton.mp (List.mem_of_mem_take hc)]
    exact hbreak

/-- The options of the client are commands, their arguments are C strings, and their lines fit the command
    buffer. -/
structure CommandLine (args : List CtrlArg) : Prop where
  requests : ∀ arg ∈ args, (request arg).isSome
  strings : ∀ arg ∈ args, ∀ text, request arg = some text → '\x00' ∉ text
  fits : (commandText args).length < cmdBufferSize

/-- No option is refused, no command contains a line break, and no more than line breaks is cut off from the
    datagram. -/
structure ArrivesWhole (args : List CtrlArg) : Prop where
  accepted : requestedCommands args = [] ∨ ∀ arg ∈ args, ¬ Refused arg
  unbroken : ∀ text ∈ requestedCommands args, ∀ c ∈ text, isLineBreak c = false
  uncut : ∀ c ∈ (commandText args).drop (udpBufferSize - "workload\n".length), isLineBreak c = true

/-- Without line breaks in the commands, the lines are the commands. -/
theorem runs_commandText {args : List CtrlArg}
    (h : ∀ text ∈ requestedCommands args, ∀ c ∈ text, isLineBreak c = false) :
    runs isLineBreak (commandText args) = requestedCommands args := by
  refine runs_lines (by decide) fun text htext c hc => h text ?_ c hc
  refine List.mem_filter.mpr ⟨htext, ?_⟩
  cases text with
  | nil => exact nomatch hc
  | cons c text => rfl

/-- **The lines that arrive are the requested commands** exactly when nothing in them is broken or cut. -/
theorem received_iff (args : List CtrlArg) :
    runs isLineBreak (receivedText args) = requestedCommands args ↔
      (∀ text ∈ requestedCommands args, ∀ c ∈ text, isLineBreak c = false) ∧
      ∀ c ∈ (commandText args).drop (udpBufferSize - "workload\n".length), isLineBreak c = true := by
  generalize hsplit : udpBufferSize - "workload\n".length = n
  have hwhole := List.take_append_drop n (commandText args)
  unfold receivedText
  rw [hsplit]
  constructor
  · intro heq
    have hunbroken : ∀ text ∈ requestedCommands args, ∀ c ∈ text, isLineBreak c = false :=
      fun text htext => (mem_runs (heq ▸ htext)).2
    refine ⟨hunbroken, fun c hc => ?_⟩
    -- both sides have the same characters that are no line breaks
    have hcommands := runs_commandText hunbroken
    have hflat := congrArg List.flatten (heq.trans hcommands.symm)
    rw [flatten_runs, flatten_runs, ← hwhole, List.filter_append, List.take_append_drop] at hflat
    have hrest := List.append_right_eq_self.mp hflat.symm
    by_contra hbreak
    have hmem : c ∈ ((commandText args).drop n).filter fun c => !isLineBreak c :=
      List.mem_filter.mpr ⟨hc, by simpa using hbreak⟩
    rw [hrest] at hmem
    exact nomatch hmem
  · rintro ⟨hunbroken, huncut⟩
    rw [← runs_commandText hunbroken, ← runs_append_seps huncut, hwhole]

/-- When nothing is requested the commands are blank lines. -/
theorem commandText_blank {args : List CtrlArg} (h : requestedCommands args = []) :
    ∀ c ∈ commandText args, isLineBreak c = true := by
  intro c hc
  obtain ⟨text, htext, hc⟩ := List.mem_flatMap.mp hc
  have hempty := List.filter_eq_nil_iff.mp h text htext
  cases text with
  | nil =>
      rw [List.mem_singleton.mp hc]
      decide
  | cons x text => exact absurd rfl hempty

/-- The lines that arrive have no terminator in them, so each is passed on as it is. -/
theorem strncpy_received {args : List CtrlArg} (h : CommandLine args) :
    (runs isLineBreak (receivedText args)).map strncpy = runs isLineBreak (receivedText args) := by
  refine (List.map_congr_left fun line hline => strncpy_eq fun hnul => ?_).trans (List.map_id _)
  have hflat : '\x00' ∈ (runs isLineBreak (receivedText args)).flatten :=
    List.mem_flatten.mpr ⟨line, hline, hnul⟩
  rw [flatten_runs] at hflat
  obtain ⟨text, htext, hmem⟩ := List.mem_flatMap.mp (List.mem_of_mem_take (List.mem_filter.mp hflat).1)
  obtain ⟨arg, harg, hrequest⟩ := List.mem_filterMap.mp htext
  rcases List.mem_append.mp hmem with hmem | hmem
  · exact h.strings arg harg text hrequest hmem
  · exact absurd (List.mem_singleton.mp hmem) (by decide)

theorem workloadUdp_single {io : UdpIo} {datagram : Text} {r r' : Commanded}
    (hne : datagram.take udpBufferSize ≠ []) (h : udpLines io (datagram.take udpBufferSize) r = some r') :
    workloadUdp [(io, datagram)] r = some r' := by
  unfold workloadUdp
  dsimp only
  rw [if_neg hne, h]
  rfl

/-- **What is executed**: nothing when the usage text is printed, else the lines that arrive. -/
theorem executed_commands {args : List CtrlArg} (hargs : CommandLine args) {io : UdpIo}
    (halloc : ∀ k, io.newLine k = true) (s : State) :
    ∃ datagram, workloadControlMain args = some datagram ∧
      ∃ r, workloadUdp (datagram.toList.map fun datagram => (io, datagram)) ⟨s, []⟩ = some r ∧
        (r.commands = [] ∧ ((∃ arg ∈ args, Refused arg) ∨ commandText args = []) ∨
          r.commands = runs isLineBreak (receivedText args) ∧ ∀ arg ∈ args, ¬ Refused arg) := by
  obtain ⟨b, hb, hhelp, htext⟩ := ctrlOptions_requests hargs.requests (b := ⟨[], 0, false⟩)
    (by simpa using hargs.fits)
  have hrefused : b.help = true ↔ ∃ arg ∈ args, Refused arg :=
    hhelp.trans (or_iff_right Bool.false_ne_true)
  have hmain : workloadControlMain args = some (if b.help = true ∨ b.text = [] then none
      else some ("workload\n".toList ++ b.text ++ "\n".toList)) := by
    unfold workloadControlMain ctrlOptions
    rw [hb]
    rfl
  refine ⟨_, hmain, ?_⟩
  have haccepted : ¬ b.help = true → ∀ arg ∈ args, ¬ Refused arg := fun h arg harg href =>
    h (hrefused.mpr ⟨arg, harg, href⟩)
  by_cases hsent : b.help = true ∨ b.text = []
  · rw [if_pos hsent]
    refine ⟨⟨s, []⟩, rfl, Or.inl ⟨rfl, ?_⟩⟩
    by_cases hb' : b.help = true
    · exact Or.inl (hrefused.mp hb')
    · exact Or.inr ((htext (haccepted hb')).symm.trans (hsent.resolve_left hb'))
  · rw [if_neg hsent]
    obtain ⟨hnohelp, -⟩ := not_or.mp hsent
    rw [htext (haccepted hnohelp), List.nil_append]
    have hbuffer : ("workload\n".toList ++ commandText args ++ "\n".toList).take udpBufferSize ≠ [] := by
      intro hnil
      rw [List.append_assoc, List.take_append] at hnil
      exact absurd (List.append_eq_nil_iff.mp hnil).1 (by decide)
    obtain ⟨r, hr, hcommands, -⟩ := udpLines_commands halloc
      (("workload\n".toList ++ commandText args ++ "\n".toList).take udpBufferSize) ⟨s, []⟩
    rw [datagramLines_received, strncpy_received hargs, List.nil_append] at hcommands
    exact ⟨r, workloadUdp_single hbuffer hr, Or.inr ⟨hcommands, haccepted hnohelp⟩⟩

/-- **The control round trip.** The requested commands are executed, in the order given and unchanged, exactly
    when the datagram arrives whole. -/
theorem control_round_trip {args : List CtrlArg} (hargs : CommandLine args) {io : UdpIo}
    (halloc : ∀ k, io.newLine k = true) (s : State) :
    ∃ datagram, workloadControlMain args = some datagram ∧
      ∃ r, workloadUdp (datagram.toList.map fun datagram => (io, datagram)) ⟨s, []⟩ = some r ∧
        (r.commands = requestedCommands args ↔ ArrivesWhole args) := by
  obtain ⟨datagram, hmain, r, hr, hexecuted⟩ := executed_commands hargs halloc s
  refine ⟨datagram, hmain, r, hr, ?_⟩
  obtain ⟨hnone, hunsent⟩ | ⟨hcommands, haccepted⟩ := hexecuted
  · rw [hnone]
    constructor
    · intro hempty
      refine ⟨Or.inl hempty.symm, ?_, fun c hc => commandText_blank hempty.symm c (List.mem_of_mem_drop hc)⟩
      rw [← hempty]
      exact nofun
    · rintro ⟨hempty | haccepted, hunbroken, -⟩
      · exact hempty.symm
      · obtain ⟨arg, harg, hrefused⟩ | hempty := hunsent
        · exact absurd hrefused (haccepted arg harg)
        · rw [← runs_commandText hunbroken, hempty, runs_nil]
  · rw [hcommands, received_iff]
    exact ⟨fun h => ⟨Or.inr haccepted, h.1, h.2⟩, fun h => ⟨h.unbroken, h.uncut⟩⟩

/-- A quit command, a ratio and a custom command arrive whole. -/
theorem control_round_trip_small :
    let args : List CtrlArg :=
      [.short 'q' none, .long "left".toList (some "5".toList), .short 'c' (some "p".toList)]
    ∃ datagram, workloadControlMain args = some datagram ∧
      ∃ r, workloadUdp (datagram.toList.map fun datagram => (smallUdp, datagram)) ⟨smallStart, []⟩ = some r ∧
        r.commands = ["q".toList, "l 5".toList, "p".toList] := by
  intro args
  have hargs : CommandLine args := by
    refine ⟨by decide, ?_, by decide⟩
    intro arg harg text htext
    simp only [args, List.mem_cons, List.not_mem_nil, or_false] at harg
    rcases harg with rfl | rfl | rfl <;> obtain rfl := Option.some.inj htext <;> decide
  obtain ⟨datagram, hmain, r, hr, hiff⟩ := control_round_trip hargs smallUdp_newLine smallStart
  have hunbroken : ((requestedCommands args).all fun text => text.all fun c => !isLineBreak c) = true := by
    decide
  have huncut : (commandText args).drop (udpBufferSize - "workload\n".length) = [] := by decide
  refine ⟨datagram, hmain, r, hr, hiff.mpr ⟨Or.inr ?_, fun text htext =>
    unbroken_of_all (List.all_eq_true.mp hunbroken text htext), huncut ▸ nofun⟩⟩
  intro arg harg hrefused
  simp only [args, List.mem_cons, List.not_mem_nil, or_false] at harg
  rcases harg with rfl | rfl | rfl
  · exact hrefused
  · exact absurd hrefused.1 (by decide)
  · exact hrefused

/-- A ratio with 4085 zeros in front of its digit. -/
def longCommand : Text := "l ".toList ++ List.replicate 4085 '0' ++ "5".toList

/-- **The client accepts it, and its last digit is cut off.** -/
theorem control_cuts_command :
    CommandLine [.short 'c' (some longCommand)] ∧
    requestedCommands [.short 'c' (some longCommand)] = [longCommand] ∧
    ∃ datagram, workloadControlMain [.short 'c' (some longCommand)] = some datagram ∧
      ∃ r, workloadUdp (datagram.toList.map fun datagram => (smallUdp, datagram)) ⟨smallStart, []⟩ = some r ∧
        r.commands = ["l ".toList ++ List.replicate 4085 '0'] ∧ r.commands ≠ [longCommand] := by
  have hrequest : request (.short 'c' (some longCommand)) = some longCommand := rfl
  have htext : commandText [.short 'c' (some longCommand)] =
      ("l ".toList ++ List.replicate 4085 '0') ++ "5\n".toList := by
    rw [commandText_cons hrequest]
    unfold longCommand commandText
    rw [List.append_assoc, List.append_assoc, List.append_assoc]
    rfl
  have hzero : ∀ {P : Char → Prop}, P 'l' → P ' ' → P '0' → ∀ c ∈ "l ".toList ++ List.replicate 4085 '0', P c := by
    intro P hl hblank hdigit c hc
    rcases List.mem_append.mp hc with hc | hc
    · rcases List.mem_cons.mp hc with rfl | hc
      · exact hl
      · rw [List.mem_singleton.mp hc]
        exact hblank
    · rw [List.eq_of_mem_replicate hc]
      exact hdigit
  have hargs : CommandLine [.short 'c' (some longCommand)] := by
    refine ⟨fun arg harg => ?_, fun arg harg text htext hnul => ?_, ?_⟩
    · rw [List.mem_singleton.mp harg]
      rfl
    · rw [List.mem_singleton.mp harg] at htext
      obtain rfl := Option.some.inj htext
      rcases List.mem_append.mp hnul with hnul | hnul
      · exact absurd rfl (hzero (P := fun c => c ≠ '\x00') (by decide) (by decide) (by decide) _ hnul)
      · exact absurd hnul (by decide)
    · rw [htext, List.length_append, List.length_append, List.length_replicate]
      decide
  have hreceived : receivedText [.short 'c' (some longCommand)] = "l ".toList ++ List.replicate 4085 '0' := by
    unfold receivedText
    rw [htext]
    refine List.take_left' ?_
    rw [List.length_append, List.length_replicate]
    rfl
  refine ⟨hargs, rfl, ?_⟩
  obtain ⟨datagram, hmain, r, hr, hexecuted⟩ := executed_commands hargs smallUdp_newLine smallStart
  have hcut : ["l ".toList ++ List.replicate 4085 '0'] ≠ [longCommand] := by
    intro heq
    have hlength := congrArg List.length (List.singleton_inj.mp heq)
    simp only [longCommand, List.length_append, List.length_replicate] at hlength
    exact absurd hlength (by decide)
  suffices hcommands : r.commands = ["l ".toList ++ List.replicate 4085 '0'] from
    ⟨datagram, hmain, r, hr, hcommands, fun h => hcut (hcommands.symm.trans h)⟩
  obtain ⟨-, ⟨arg, harg, hrefused⟩ | hempty⟩ | ⟨hcommands, -⟩ := hexecuted
  · rw [List.mem_singleton.mp harg] at hrefused
    exact absurd hrefused id
  · rw [htext] at hempty
    exact absurd (List.append_eq_nil_iff.mp hempty).2 (by decide)
  · rw [hcommands, hreceived, runs_of_free (hzero (by decide) (by decide) (by decide)), if_neg]
    exact fun h => absurd (List.append_eq_nil_iff.mp h).1 (by decide)

end Workload
