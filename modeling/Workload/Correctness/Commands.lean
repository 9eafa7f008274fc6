import Workload.Correctness.Datagrams

/-!
# `Correctness.Commands` — when the network commands stay inside their bounds

The client keeps the offset in its command buffer by what `snprintf` would have written, and the server tells
the header of a datagram from a command by a counter that also counts lines it could not store.

* **`cmd_offset_bounded`** — the offset stays inside the buffer exactly when all lines of the options fit.
* **`commands_need_header`** — no command is carried out without a header exactly when the first line could be
  stored, or no other line could.
-/

namespace Workload

open Runs

/-! ## The offset in the command buffer -/

/-- The name `getopt_long` takes a text behind `--` for. -/
def fullName (name : Text) : Text := ((longOption name).map Prod.fst).getD name

/-- The option with its name in full. -/
def CtrlArg.spelled : CtrlArg → CtrlArg
  | .short letter argument => .short letter argument
  | .long name argument => .long (fullName name) argument

/-- Every option of the table is the one of its name. -/
theorem longOption_self : ∀ option ∈ workloadOptions, longOption option.1 = some option := by
  decide +kernel

theorem longOption_mem {name : Text} {option : Text × Bool × Char} (h : longOption name = some option) :
    option ∈ workloadOptions := by
  unfold longOption at h
  split at h
  · next hfind => exact Option.some.inj h ▸ List.mem_of_find?_eq_some hfind
  · split at h
    · exact nomatch h
    · next hfilter =>
        split_ifs at h
        have hmem := hfilter ▸ List.mem_cons_self
        exact Option.some.inj h ▸ (List.mem_filter.mp hmem).1

/-- A name that stands for an option: spelled in full it stands for the same one. -/
theorem longOption_fullName (name : Text) :
    longOption (fullName name) = longOption name ∧
      ∀ option, longOption name = some option → option.1 = fullName name := by
  unfold fullName
  cases hoption : longOption name with
  | none => exact ⟨hoption, fun _ h => nomatch h⟩
  | some option =>
      refine ⟨longOption_self option (longOption_mem hoption), fun other hother => ?_⟩
      rw [← Option.some.inj hother]
      rfl

/-- `getopt_long` takes an abbreviation for the name it stands for. -/
theorem getoptLong_spelled (arg : CtrlArg) : getoptLong arg.spelled = getoptLong arg := by
  cases arg with
  | short letter argument => rfl
  | long name argument =>
      change getoptLong (.long (fullName name) argument) = _
      unfold getoptLong
      dsimp only
      rw [(longOption_fullName name).1]

/-- The line an option adds to the commands, if it adds one. -/
def addedLine (arg : CtrlArg) : Text :=
  match arg.spelled, request arg.spelled with
  | _, none => []
  | .short _ _, some text => text ++ ['\n']
  | .long name _, some text => if name = "cmd".toList then [] else text ++ ['\n']

theorem addedLine_of_refused {arg : CtrlArg} (h : Refused arg.spelled) : addedLine arg = [] := by
  unfold addedLine
  cases harg : arg.spelled with
  | short letter argument =>
      rw [harg] at h
      exact absurd h id
  | long name argument =>
      rw [harg] at h
      cases request (.long name argument) with
      | none => rfl
      | some text => exact if_pos h.1

theorem addedLine_of_request {arg : CtrlArg} {text : Text} (hrequest : request arg.spelled = some text)
    (h : ¬ Refused arg.spelled) : addedLine arg = text ++ ['\n'] := by
  unfold addedLine
  rw [hrequest]
  cases harg : arg.spelled with
  | short letter argument => rfl
  | long name argument =>
      rw [harg] at h hrequest
      refine if_neg fun hcmd => h ⟨hcmd, ?_⟩
      rintro rfl
      rw [hcmd] at hrequest
      exact nomatch hrequest

/-- An option that requests no command adds no line. -/
theorem ctrlOption_other {arg : CtrlArg} (hrequest : request arg.spelled = none) (b : CmdBuffer) :
    ∃ help, ctrlOption b (getoptLong arg) = some { b with help := help } := by
  cases arg with
  | short letter argument =>
      dsimp only [CtrlArg.spelled, request] at hrequest
      unfold getoptLong
      dsimp only
      by_cases hc : letter = 'c'
      · rw [if_pos hc] at hrequest
        rw [if_pos hc, hrequest]
        exact ⟨true, rfl⟩
      rw [if_neg hc] at hrequest ⊢
      split_ifs with hletter
      · have hh : letter = 'h' := by
          have hcases : letter ∈ ['h', 'q', 'Q', 'p', 'r', 'o', 's', 'k'] := hletter
          simp only [List.mem_cons, List.not_mem_nil, or_false] at hcases
          rcases hcases with rfl | rfl | rfl | rfl | rfl | rfl | rfl | rfl
          · rfl
          all_goals exact absurd hrequest (by decide)
        rw [hh]
        exact ⟨true, rfl⟩
      · exact ⟨true, rfl⟩
  | long name argument =>
      have hfull := (longOption_fullName name).2
      change request (.long (fullName name) argument) = none at hrequest
      unfold getoptLong
      dsimp only
      cases hoption : longOption name with
      | none => exact ⟨true, rfl⟩
      | some option =>
          have hmem := longOption_mem hoption
          rw [← hfull option hoption] at hrequest
          obtain ⟨name, hasArg, value⟩ := option
          dsimp only at hrequest ⊢
          split_ifs with harg
          · simp only [workloadOptions, List.mem_cons, List.not_mem_nil, or_false, Prod.mk.injEq] at hmem
            cases argument with
            | none =>
                rcases hmem with ⟨rfl, rfl, rfl⟩ | ⟨rfl, rfl, rfl⟩ | ⟨rfl, rfl, rfl⟩ | ⟨rfl, rfl, rfl⟩ |
                  ⟨rfl, rfl, rfl⟩ | ⟨rfl, rfl, rfl⟩ | ⟨rfl, rfl, rfl⟩ | ⟨rfl, rfl, rfl⟩ | ⟨rfl, rfl, rfl⟩ |
                  ⟨rfl, rfl, rfl⟩ | ⟨rfl, rfl, rfl⟩ | ⟨rfl, rfl, rfl⟩ | ⟨rfl, rfl, rfl⟩ | ⟨rfl, rfl, rfl⟩ |
                  ⟨rfl, rfl, rfl⟩
                · exact ⟨true, rfl⟩
                · exact ⟨b.help, rfl⟩
                · exact ⟨b.help, rfl⟩
                all_goals first | exact absurd hrequest (by decide) | exact absurd harg (by decide)
            | some value' =>
                -- only `left` and `right` take an argument, and both request a command
                rcases hmem with ⟨rfl, rfl, rfl⟩ | ⟨rfl, rfl, rfl⟩ | ⟨rfl, rfl, rfl⟩ | ⟨rfl, rfl, rfl⟩ |
                  ⟨rfl, rfl, rfl⟩ | ⟨rfl, rfl, rfl⟩ | ⟨rfl, rfl, rfl⟩ | ⟨rfl, rfl, rfl⟩ | ⟨rfl, rfl, rfl⟩ |
                  ⟨rfl, rfl, rfl⟩ | ⟨rfl, rfl, rfl⟩ | ⟨rfl, rfl, rfl⟩ | ⟨rfl, rfl, rfl⟩ | ⟨rfl, rfl, rfl⟩ |
                  ⟨rfl, rfl, rfl⟩
                all_goals first | exact Bool.noConfusion harg | exact absurd hrequest (Option.some_ne_none _)
          · exact ⟨true, rfl⟩

/-- **One option** moves the offset by its line; inside the buffer nothing is written outside. -/
theorem ctrlOption_offset (arg : CtrlArg) (b : CmdBuffer) :
    (∀ b', ctrlOption b (getoptLong arg) = some b' → b'.offset = b.offset + (addedLine arg).length) ∧
      (b.offset ≤ cmdBufferSize → ∃ b', ctrlOption b (getoptLong arg) = some b') := by
  have hquiet : ∀ help, addedLine arg = [] → ctrlOption b (getoptLong arg) = some { b with help := help } →
      (∀ b', ctrlOption b (getoptLong arg) = some b' → b'.offset = b.offset + (addedLine arg).length) ∧
        (b.offset ≤ cmdBufferSize → ∃ b', ctrlOption b (getoptLong arg) = some b') := by
    intro help hline hoption
    rw [hline, hoption]
    refine ⟨fun b' hb' => ?_, fun _ => ⟨_, rfl⟩⟩
    rw [← Option.some.inj hb']
    rfl
  cases hrequest : request arg.spelled with
  | none =>
      obtain ⟨help, hoption⟩ := ctrlOption_other hrequest b
      have hline : addedLine arg = [] := by
        unfold addedLine
        rw [hrequest]
      exact hquiet help hline hoption
  | some text =>
      obtain ⟨hhelp, hline⟩ := ctrlOption_request hrequest b
      rw [getoptLong_spelled] at hhelp hline
      by_cases hrefused : Refused arg.spelled
      · exact hquiet true (addedLine_of_refused hrefused) (hhelp hrefused)
      · rw [addedLine_of_request hrequest hrefused, hline hrefused]
        unfold CmdBuffer.append
        constructor
        · intro b' hb'
          split_ifs at hb'
          rw [← Option.some.inj hb']
        · intro hroom
          exact ⟨_, if_neg (Nat.not_lt.mpr hroom)⟩

/-- The option loop moves the offset by the lines of all options. -/
theorem ctrlOptions_offset {args : List CtrlArg} {b b' : CmdBuffer}
    (h : args.foldlM (fun b arg => ctrlOption b (getoptLong arg)) b = some b') :
    b'.offset = b.offset + (args.flatMap addedLine).length := by
  induction args generalizing b with
  | nil =>
      rw [← Option.some.inj h]
      rfl
  | cons arg args ih =>
      rw [List.foldlM_cons] at h
      obtain ⟨b₁, hb₁, h⟩ := Option.bind_eq_some_iff.mp h
      rw [ih h, (ctrlOption_offset arg b).1 b₁ hb₁, List.flatMap_cons, List.length_append, Nat.add_assoc]

/-- As long as the lines fit, every option is handled. -/
theorem ctrlOptions_fit {args : List CtrlArg} {b : CmdBuffer}
    (hfit : b.offset + (args.flatMap addedLine).length ≤ cmdBufferSize) :
    ∃ b', args.foldlM (fun b arg => ctrlOption b (getoptLong arg)) b = some b' := by
  induction args generalizing b with
  | nil => exact ⟨b, rfl⟩
  | cons arg args ih =>
      rw [List.flatMap_cons, List.length_append] at hfit
      obtain ⟨b₁, hb₁⟩ := (ctrlOption_offset arg b).2 (by omega)
      have hoffset := (ctrlOption_offset arg b).1 b₁ hb₁
      rw [List.foldlM_cons, hb₁]
      exact ih (by omega)

/-- The offset is inside the buffer, and the size handed to `snprintf` there is the space that is left. -/
structure InBuffer (b : CmdBuffer) : Prop where
  offset : b.offset ≤ cmdBufferSize - 1
  space : sub64 cmdBufferSize b.offset + b.offset = cmdBufferSize

/-- **The option loop stays inside the command buffer** exactly when the lines of all options fit, whether their
    names are given in full or abbreviated. -/
theorem cmd_offset_bounded (args : List CtrlArg) :
    (∀ n ≤ args.length, ∃ b, ctrlOptions (args.take n) = some b ∧ InBuffer b) ↔
      (args.flatMap addedLine).length ≤ cmdBufferSize - 1 := by
  constructor
  · intro h
    obtain ⟨b, hb, hin⟩ := h args.length (Nat.le_refl _)
    rw [List.take_length] at hb
    have hoffset := ctrlOptions_offset hb
    rw [Nat.zero_add] at hoffset
    exact hoffset ▸ hin.offset
  · intro hfit n _
    have hprefix : ((args.take n).flatMap addedLine).length ≤ (args.flatMap addedLine).length := by
      nth_rewrite 2 [← List.take_append_drop n args]
      rw [List.flatMap_append, List.length_append]
      exact Nat.le_add_right _ _
    have hsize : cmdBufferSize = 4096 := rfl
    obtain ⟨b, hb⟩ := @ctrlOptions_fit (args.take n) ⟨[], 0, false⟩ (by dsimp only; omega)
    have hoffset := ctrlOptions_offset hb
    dsimp only at hoffset
    refine ⟨b, hb, by omega, ?_⟩
    rw [sub64_of_le (by omega) (by omega)]
    omega

/-- A long custom command moves the offset past the buffer, and the next option writes behind it; so does a
    long argument of an option whose name is abbreviated. -/
theorem cmd_offset_passes :
    (ctrlOptions [.short 'c' (some (List.replicate 4200 'x'))]).map CmdBuffer.offset = some 4201 ∧
      ctrlOptions [.short 'c' (some (List.replicate 4200 'x')), .short 'q' none] = none ∧
      ctrlOptions [.long "l".toList (some (List.replicate 4200 'x')), .short 'q' none] = none := by
  rw [← Option.isNone_iff_eq_none, ← Option.isNone_iff_eq_none]
  decide +kernel

/-! ## The header of a datagram -/

section Header

variable {io : UdpIo} {buffer : Text} {r : Commanded}

/-- Without a valid header the loop ends behind the first line that can be stored, which it takes for a
    command. -/
theorem lineCalls_invalid (rest : List Text) {lines : Nat} (hlines : lines ≠ 0) :
    (lineCalls io rest lines false r).commands = r.commands ↔
      ∀ k < rest.length, io.newLine (lines + k) = false := by
  induction rest generalizing lines with
  | nil => exact ⟨fun _ k hk => absurd hk (Nat.not_lt_zero k), fun _ => rfl⟩
  | cons line rest ih =>
      have hheader : ¬ (lines = 0 ∧ line.takeWhile (· != '\x00') = "workload".toList) := fun h => hlines h.1
      unfold lineCalls
      dsimp only
      rw [if_neg hheader, if_neg hlines, if_pos rfl]
      cases hline : io.newLine lines with
      | false =>
          rw [if_pos rfl, ih (Nat.succ_ne_zero lines)]
          constructor
          · intro h k hk
            cases k with
            | zero => exact hline
            | succ k =>
                rw [← Nat.add_assoc, Nat.add_right_comm]
                exact h k (Nat.lt_of_succ_lt_succ hk)
          · intro h k hk
            rw [Nat.succ_add_eq_add_succ]
            exact h (k + 1) (Nat.succ_lt_succ hk)
      | true =>
          rw [if_neg (by decide)]
          constructor
          · intro h
            exact absurd h (by simp [commandLine])
          · intro h
            exact absurd (h 0 (Nat.succ_pos _)) (by rw [Nat.add_zero, hline]; decide)

/-- The first line of the datagram could be stored, and reads `workload`. -/
def HeaderAccepted (io : UdpIo) (buffer : Text) : Prop :=
  ∃ header, (runs isLineBreak buffer).head? = some header ∧ io.newLine 0 = true ∧
    header.takeWhile (· != '\x00') = "workload".toList

/-- **No command without a header**, exactly when the first line can be stored, or no other line can. -/
theorem commands_need_header (io : UdpIo) (buffer : Text) (r : Commanded) :
    ∃ r', udpLines io buffer r = some r' ∧
      ((r'.commands = r.commands ∨ HeaderAccepted io buffer) ↔
        io.newLine 0 = true ∨
          ∀ k, 0 < k → k < (runs isLineBreak buffer).length → io.newLine k = false) := by
  refine ⟨_, lineLoop_eq (Nat.le_add_left _ _), ?_⟩
  rw [List.drop_zero]
  unfold HeaderAccepted
  cases hruns : runs isLineBreak buffer with
  | nil => exact ⟨fun _ => Or.inr fun k _ hk => absurd hk (Nat.not_lt_zero k), fun _ => Or.inl rfl⟩
  | cons header rest =>
      unfold lineCalls
      dsimp only
      cases hline : io.newLine 0 with
      | false =>
          rw [if_pos rfl, lineCalls_invalid rest (by decide)]
          simp only [Bool.false_eq_true, false_and, and_false, exists_false, or_false, false_or,
            List.length_cons]
          constructor
          · intro h k hpos hk
            obtain ⟨k, rfl⟩ := Nat.exists_eq_add_of_lt hpos
            rw [Nat.zero_add, Nat.add_comm k 1]
            exact h k (by omega)
          · intro h k hk
            exact h (1 + k) (by omega) (by omega)
      | true =>
          refine ⟨fun _ => Or.inl rfl, fun _ => ?_⟩
          rw [if_neg (by decide), if_pos rfl]
          by_cases hvalid : header.takeWhile (· != '\x00') = "workload".toList
          · exact Or.inr ⟨header, rfl, rfl, hvalid⟩
          · have hheader : ¬ ((0 : Nat) = 0 ∧ header.takeWhile (· != '\x00') = "workload".toList) :=
              fun h => hvalid h.2
            rw [if_neg hheader, if_pos rfl]
            exact Or.inl rfl

end Header

/-- The header cannot be stored: the next line is carried out, whatever the header was. -/
theorem command_without_header :
    (udpLines ⟨fun k => k != 0, fun _ _ => smallMove⟩ "intruder\nq\np".toList ⟨smallStart, []⟩).map
        Commanded.commands = some ["q".toList] ∧
      ¬ HeaderAccepted ⟨fun k => k != 0, fun _ _ => smallMove⟩ "intruder\nq\np".toList := by
  refine ⟨by decide +kernel, ?_⟩
  rintro ⟨header, -, hstored, -⟩
  exact Bool.noConfusion hstored

end Workload
