import Workload.Correctness.Datagrams
import Workload.Correctness.Replies

/-!
# `Correctness.Serving` — the replies of a run of `workload_udp`

Sending replies does not change what the datagrams do (`replyUdp_agrees`): the loop with replies and the loop without
them make the same calls of `workload_cmd`. The calls of a run form a chain of states, and the replies are those of its
calls, in their order. No reply is longer than its buffers (`workloadCmdReply_fits`): every command keeps the
numbers it shows in the range of their types (`Ranged`).

* **`udp_replies`** — each reply is the truth about the state right behind its command, whatever came before.
-/

namespace Workload

/-- A call of `workload_cmd` while datagrams are handled. -/
structure CommandCall where
  before : State
  code : Text
  ios : FilePtr → MoveIo

namespace CommandCall

def after (c : CommandCall) : State := workloadCmd c.before c.code c.ios

def reply (pid : Nat) (c : CommandCall) : Text := workloadCmdReply pid c.before c.code c.ios

/-- Each call starts from what the one in front of it has left. -/
def Chained : State → List CommandCall → State → Prop
  | s, [], s' => s' = s
  | s, c :: calls, s' => c.before = s ∧ Chained c.after calls s'

theorem Chained.append {s s' s'' : State} {calls calls' : List CommandCall} (h : Chained s calls s')
    (h' : Chained s' calls' s'') : Chained s (calls ++ calls') s'' := by
  induction calls generalizing s with
  | nil =>
      have hsame : s' = s := h
      exact hsame ▸ h'
  | cons c calls ih => exact ⟨h.1, ih h.2⟩

end CommandCall

open CommandCall

/-! ## Sizes -/

theorem line_length (name value : Text) :
    (ReplyField.line name value).length = 2 * name.length + value.length + 8 := by
  rw [ReplyField.line_eq]
  simp only [List.length_cons, List.length_append, List.length_nil]
  omega

/-- A reply is as long as its elements. -/
theorem controlReply_length {fields : List (String × Text)}
    (h : ∀ field ∈ fields, field.1.toList.length ≤ 8 ∧ field.2.length ≤ 20) :
    (controlReply fields).length ≤ 60 + 44 * fields.length := by
  have hlines : (fields.flatMap fun field => ReplyField.line field.1.toList field.2).length ≤ 44 * fields.length := by
    induction fields with
    | nil => exact Nat.zero_le _
    | cons field fields ih =>
        obtain ⟨hfield, hfields⟩ := List.forall_mem_cons.mp h
        have hrest := ih hfields
        rw [List.flatMap_cons, List.length_append, line_length, List.length_cons]
        omega
  have hsplit : (controlReply fields).length =
      49 + (fields.flatMap fun field => ReplyField.line field.1.toList field.2).length + 11 := by
    change (_ ++ _ ++ _ : Text).length = _
    rw [List.length_append, List.length_append]
    rfl
  omega

/-- What replies show are 64-bit numbers. -/
structure Ranged (s : State) : Prop where
  left : s.cfg.leftRatio < 2 ^ 64
  right : s.cfg.rightRatio < 2 ^ 64
  interval : s.cfg.accessInterval < 2 ^ 64
  read : s.readCount < 2 ^ 64
  write : s.writeCount < 2 ^ 64

/-- The numbers that replies show. -/
def shown (s : State) : Cfg × Nat × Nat := (s.cfg, s.readCount, s.writeCount)

theorem carried_shown : Carried shown where
  heap _ _ _ _ _ _ _ := rfl
  disk _ _ _ _ := rfl
  query s stmt := by rw [querySet_snd]; rfl

namespace Ranged

theorem of_shown {s s' : State} (hs : Ranged s) (h : shown s' = shown s) : Ranged s' := by
  obtain ⟨hcfg, hcounts⟩ := Prod.mk.inj h
  obtain ⟨hread, hwrite⟩ := Prod.mk.inj hcounts
  exact ⟨hcfg ▸ hs.left, hcfg ▸ hs.right, hcfg ▸ hs.interval, hread ▸ hs.read, hwrite ▸ hs.write⟩

theorem ratio_lt {argument : Text} (hpos : 0 < atoi argument) : toUnsigned (atoi argument) < 2 ^ 64 := by
  have hlt := (toUnsigned_of_pos hpos (atoi_bounds argument).2).2
  omega

/-- **Every command keeps the range.** -/
theorem workloadCmd {s : State} (hs : Ranged s) (code : Text) (ios : FilePtr → MoveIo) :
    Ranged (workloadCmd s code ios) := by
  apply workloadCmd_cases (motive := Ranged)
  case ignored => exact hs
  case stopped => exact fun _ => hs.of_shown rfl
  case paused => exact fun _ => hs.of_shown rfl
  case switched => exact fun b => hs.of_shown (carried_shown.relocateDisks (s.setRelocate b))
  case relocated => exact hs.of_shown (carried_shown.fileRelocate s ios)
  case switchRelocated =>
    intro b
    exact hs.of_shown ((carried_shown.fileRelocate _ ios).trans (carried_shown.relocateDisks (s.setRelocate b)))
  case reset =>
    intro _
    have hfile : ∀ s f, shown (resetFile s f) = shown s := fun s f =>
      (carried_shown.updateDb _ _).trans (carried_shown.modifyFile _)
    have hdisk : ∀ s d, shown (resetDisk s d) = shown s := fun s d =>
      (carried_shown.updateDb _ _).trans (carried_shown.disk _ _ _ fun _ => rfl)
    have hfiles : Ranged (s.fileHead.foldl resetFile s) := hs.of_shown (foldl_keeps hfile _ _)
    have hdisks : Ranged ((s.fileHead.foldl resetFile s).diskHead.foldl resetDisk (s.fileHead.foldl resetFile s)) :=
      hfiles.of_shown (foldl_keeps hdisk _ _)
    exact ⟨hdisks.left, hdisks.right, hdisks.interval, Nat.two_pow_pos 64, Nat.two_pow_pos 64⟩
  case left => exact fun _ hpos => { hs with left := ratio_lt hpos }
  case right => exact fun _ hpos => { hs with right := ratio_lt hpos }

end Ranged

theorem decimal_length {n : Nat} (hn : n < 2 ^ 64) : (formatUnsigned n).length ≤ 20 :=
  (length_formatUnsigned_le (by decide)).mpr (hn.trans (by decide))

/-- No value of a reply is longer than a 64-bit number. -/
theorem replyFields_sized {pid : Nat} (hpid : pid < 2 ^ 64) {s : State} (hs : Ranged s) (code : Text) :
    (replyFields pid s code).length ≤ 10 ∧ ∀ field ∈ replyFields pid s code, field.2.length ≤ 20 := by
  have hword : ∀ {value : Text}, value ∈ replyWords → value.length ≤ 20 := by
    have hwords : (replyWords.all fun word => word.length ≤ 20) = true := by decide
    intro value hvalue
    exact of_decide_eq_true (List.all_eq_true.mp hwords _ hvalue)
  have hduration : sub64 s.timeStamp s.timeStampStart < 2 ^ 64 := Nat.mod_lt _ (Nat.two_pow_pos 64)
  generalize hd : sub64 s.timeStamp s.timeStampStart = duration at hduration
  refine replyFields_cases (motive := fun _ fields => fields.length ≤ 10 ∧ ∀ field ∈ fields, field.2.length ≤ 20) pid s
    (fun _ _ => ?_) (fun _ _ => ?_) ?_ ?_ (fun _ _ => ?_) ?_ (fun _ _ _ => ?_) (fun _ _ _ => ?_) ?_
    (fun _ _ _ => ?_) (fun _ _ _ => ?_) code
  all_goals refine ⟨by simp only [List.length_cons, List.length_nil]; omega, ?_⟩
  all_goals repeat' first | exact List.forall_mem_nil _ | refine List.forall_mem_cons.mpr ⟨?_, ?_⟩
  all_goals first
    | exact hword (by decide)
    | exact hword (yesNo_listed _)
    | exact hword (res_listed _)
    | exact decimal_length hpid
    | exact decimal_length hs.left
    | exact decimal_length hs.right
    | exact decimal_length hs.interval
    | exact decimal_length hs.read
    | exact decimal_length hs.write
    | exact decimal_length (hd ▸ hduration)

/-- **A reply fits** the buffer it is written to, with its terminator. -/
theorem workloadCmdReply_fits {pid : Nat} (hpid : pid < 2 ^ 64) {s : State} (hs : Ranged s) (code : Text)
    (ios : FilePtr → MoveIo) : (workloadCmdReply pid s code ios).length < resBufferSize := by
  by_cases hnil : replyFields pid (workloadCmd s code ios) code = []
  · have hnone : workloadCmdReply pid s code ios = [] := if_pos hnil
    rw [hnone]
    decide
  · have hsent : workloadCmdReply pid s code ios = controlReply (replyFields pid (workloadCmd s code ios) code) :=
      if_neg hnil
    obtain ⟨hcount, hvalues⟩ := replyFields_sized hpid (hs.workloadCmd code ios) code
    have hnames : (replyNames.all fun name => name.toList.length ≤ 8) = true := by decide
    have hlength := controlReply_length fun field hfield =>
      ⟨of_decide_eq_true (List.all_eq_true.mp hnames _ (replyFields_listed pid _ code field hfield).name),
        hvalues field hfield⟩
    have hroom : 60 + 44 * 10 < resBufferSize := by decide
    rw [hsent]
    omega

/-- Along a chain the numbers stay in range. -/
theorem CommandCall.Chained.ranged {s s' : State} {calls : List CommandCall} (h : Chained s calls s') (hs : Ranged s) :
    ∀ c ∈ calls, Ranged c.before := by
  induction calls generalizing s with
  | nil => exact List.forall_mem_nil _
  | cons c calls ih =>
      obtain ⟨rfl, hcalls⟩ := h
      exact List.forall_mem_cons.mpr ⟨hs, ih hcalls (hs.workloadCmd c.code c.ios)⟩

/-! ## Runs -/

/-- From `r` to `r'` by these calls. -/
structure Serves (pid : Nat) (r : Replied) (calls : List CommandCall) (r' : Replied) : Prop where
  chained : Chained r.commanded.workload calls r'.commanded.workload
  commands : r'.commanded.commands = r.commanded.commands ++ calls.map CommandCall.code
  replies : r'.replies = r.replies ++ (calls.map (CommandCall.reply pid)).filter (· ≠ [])

namespace Serves

variable {pid : Nat} {r r' r'' : Replied} {calls calls' : List CommandCall}

theorem refl (r : Replied) : Serves pid r [] r := ⟨rfl, (List.append_nil _).symm, (List.append_nil _).symm⟩

theorem trans (h : Serves pid r calls r') (h' : Serves pid r' calls' r'') : Serves pid r (calls ++ calls') r'' where
  chained := h.chained.append h'.chained
  commands := by rw [h'.commands, h.commands, List.map_append, List.append_assoc]
  replies := by rw [h'.replies, h.replies, List.map_append, List.filter_append, List.append_assoc]

/-- **One line**: the reply is sent as it is, if there is one. -/
theorem line (r : Replied) (ios : FilePtr → MoveIo) (text : Text) :
    Serves pid r [⟨r.commanded.workload, text, ios⟩] (replyLine pid r ios text) where
  chained := ⟨rfl, rfl⟩
  commands := rfl
  replies := by
    -- `strlen` of the reply is its length
    have hnul : (workloadCmdReply pid r.commanded.workload text ios).takeWhile (· != '\x00') =
        workloadCmdReply pid r.commanded.workload text ios := by
      refine List.takeWhile_eq_self_iff.mpr fun c hc => ?_
      rw [bne_iff_ne]
      intro heq
      exact nul_workloadCmdReply pid r.commanded.workload text ios (heq ▸ hc)
    have hsent : [workloadCmdReply pid r.commanded.workload text ios].filter (· ≠ []) =
        if workloadCmdReply pid r.commanded.workload text ios = [] then []
        else [workloadCmdReply pid r.commanded.workload text ios] := by
      split_ifs with hnone
      · rw [hnone]
        rfl
      · exact List.filter_cons_of_pos (decide_eq_true hnone)
    unfold replyLine
    dsimp only
    rw [hnul]
    refine Eq.trans ?_ (congrArg (r.replies ++ ·) hsent.symm)
    split_ifs
    · exact (List.append_nil _).symm
    · rfl

end Serves

/-- The loop with replies and the loop without them: neither comes to its end, or both do, and the calls are the
    same. -/
inductive Agrees (pid : Nat) (r : Replied) : Option Replied → Option Commanded → Prop where
  | stuck : Agrees pid r none none
  | done (r' : Replied) (calls : List CommandCall) (serves : Serves pid r calls r') :
      Agrees pid r (some r') (some r'.commanded)

theorem Agrees.refl {pid : Nat} (r : Replied) : Agrees pid r (some r) (some r.commanded) := .done r [] (.refl r)

theorem Agrees.behind {pid : Nat} {r r' : Replied} {calls : List CommandCall} {x : Option Replied}
    {y : Option Commanded} (hserves : Serves pid r calls r') (h : Agrees pid r' x y) : Agrees pid r x y := by
  cases h with
  | stuck => exact .stuck
  | done r'' calls' hserves' => exact .done r'' (calls ++ calls') (hserves.trans hserves')

/-- **The line loop makes the same calls** with and without replies. -/
theorem replyLoop_agrees {pid : Nat} {io : UdpIo} {buffer : Text} (fuel stop lines : Nat) (validHeader : Bool)
    (r : Replied) : Agrees pid r (replyLoop pid io buffer fuel stop lines validHeader r)
      (lineLoop io buffer fuel stop lines validHeader r.commanded) := by
  induction fuel generalizing stop lines validHeader r with
  | zero =>
      unfold replyLoop lineLoop
      split_ifs
      · exact .stuck
      · exact .refl r
  | succ fuel ih =>
      unfold replyLoop lineLoop
      dsimp only
      split_ifs
      all_goals first
        | exact .refl r
        | exact ih _ _ _ r
        | exact .behind (.line r _ _) (.refl _)
        | exact .behind (.line r _ _) (ih _ _ _ (replyLine pid r _ _))

/-- **So does the whole function.** -/
theorem replyUdp_agrees {pid : Nat} (datagrams : List (UdpIo × Text)) (r : Replied) :
    Agrees pid r (replyUdp pid datagrams r) (workloadUdp datagrams r.commanded) := by
  induction datagrams generalizing r with
  | nil => exact .refl r
  | cons first datagrams ih =>
      obtain ⟨io, datagram⟩ := first
      unfold replyUdp workloadUdp
      dsimp only
      split_ifs
      · exact .refl r
      · have hloop : Agrees pid r _ (udpLines io (datagram.take udpBufferSize) r.commanded) :=
          replyLoop_agrees (datagram.take udpBufferSize).length 0 0 false r
        generalize udpLines io (datagram.take udpBufferSize) r.commanded = y at hloop ⊢
        generalize replyLoop pid io (datagram.take udpBufferSize) _ 0 0 false r = x at hloop ⊢
        cases hloop with
        | stuck => exact .stuck
        | done r' calls hserves => exact .behind hserves (ih r')

/-- The call ends; what it handles, up to the first empty datagram, it handles to its end. -/
theorem workloadUdp_total (datagrams : List (UdpIo × Text)) (r : Commanded) :
    ∃ r', workloadUdp datagrams r = some r' := by
  induction datagrams generalizing r with
  | nil => exact ⟨r, rfl⟩
  | cons first datagrams ih =>
      obtain ⟨io, datagram⟩ := first
      unfold workloadUdp
      dsimp only
      split_ifs
      · exact ⟨r, rfl⟩
      · unfold udpLines
        rw [lineLoop_eq (Nat.le_add_left _ _)]
        exact ih _

/-! ## The client -/

/-- A reply that fits the client's buffer is printed as it is. -/
theorem controlPrint_reply {reply : Text} (rest : List Text) (hne : reply ≠ []) (hnul : '\x00' ∉ reply)
    (hsize : reply.length < resBufferSize) : controlPrint (reply :: rest) = some reply := by
  have htake : reply.take resBufferSize = reply := List.take_of_length_le hsize.le
  have hwhole : reply.takeWhile (· != '\x00') = reply := by
    refine List.takeWhile_eq_self_iff.mpr fun c hc => ?_
    rw [bne_iff_ne]
    intro heq
    exact hnul (heq ▸ hc)
  unfold controlPrint
  dsimp only
  rw [htake, if_neg hne, if_pos hsize, hwhole]

/-- **Replies tell the truth, in order**: whatever datagrams arrive, those in front of the first empty one, which ends
    the call, are handled exactly as without replies; the calls of `workload_cmd` form a chain, and what is sent back
    are the replies of these calls in their order. Each can be read and tells the state its command has left, no reply
    means that the command changed nothing, and as long as the numbers are those of the C types, every reply fits its
    buffers and the client prints the first one. -/
theorem udp_replies (pid : Nat) (datagrams : List (UdpIo × Text)) (start : Commanded) :
    ∃ r' calls, replyUdp pid datagrams ⟨start, []⟩ = some r' ∧ workloadUdp datagrams start = some r'.commanded ∧
      Chained start.workload calls r'.commanded.workload ∧
      r'.commanded.commands = start.commands ++ calls.map CommandCall.code ∧
      r'.replies = (calls.map (CommandCall.reply pid)).filter (· ≠ []) ∧
      (∀ c ∈ calls, (c.reply pid = [] → c.after = c.before) ∧
        (c.reply pid ≠ [] → ∃ root node, ezxmlParseStr (c.reply pid) = some root ∧ root.err = none ∧
          readNode root.heap root.heap.size (some 0) = some node ∧ Told pid c.before c.after (replyText node))) ∧
      (pid < 2 ^ 32 → Ranged start.workload → (∀ reply ∈ r'.replies, reply.length < resBufferSize) ∧
        controlPrint r'.replies = r'.replies.head?) := by
  obtain ⟨c', htotal⟩ := workloadUdp_total datagrams start
  have hagrees : Agrees pid ⟨start, []⟩ (replyUdp pid datagrams ⟨start, []⟩) (workloadUdp datagrams start) :=
    replyUdp_agrees datagrams ⟨start, []⟩
  rw [htotal] at hagrees ⊢
  generalize replyUdp pid datagrams ⟨start, []⟩ = x at hagrees ⊢
  cases hagrees with
  | done r' calls hserves =>
      have hreplies : r'.replies = (calls.map (CommandCall.reply pid)).filter (· ≠ []) := hserves.replies
      have hcall : ∀ reply ∈ r'.replies, reply ≠ [] ∧ ∃ c ∈ calls, c.reply pid = reply := by
        intro reply hreply
        rw [hreplies] at hreply
        obtain ⟨hcall, hne⟩ := List.mem_filter.mp hreply
        exact ⟨of_decide_eq_true hne, List.mem_map.mp hcall⟩
      refine ⟨r', calls, rfl, rfl, hserves.chained, hserves.commands, hreplies, fun c _ => ?_, fun hpid hranged => ?_⟩
      · exact reply_tells_state pid c.before c.code c.ios
      · have hfits : ∀ reply ∈ r'.replies, reply.length < resBufferSize := by
          intro reply hreply
          obtain ⟨-, c, hc, rfl⟩ := hcall reply hreply
          exact workloadCmdReply_fits (by omega) (hserves.chained.ranged hranged c hc) c.code c.ios
        refine ⟨hfits, ?_⟩
        cases hfirst : r'.replies with
        | nil => rfl
        | cons reply rest =>
            have hmem : reply ∈ r'.replies := hfirst ▸ List.mem_cons_self
            obtain ⟨hne, c, -, rfl⟩ := hcall reply hmem
            exact controlPrint_reply rest hne (nul_workloadCmdReply pid c.before c.code c.ios) (hfits _ hmem)

end Workload
