import Workload.Correctness.Carried
import Workload.Correctness.Numerals
import Workload.Correctness.Parsing
import Workload.Model.Reply

/-!
# `Correctness.Replies` — replies can be read, and tell what the workload is

A reply is a document of the configuration's grammar (`replyDocument`), so the parser of the repository reads it, with
one element for each value (`controlReply_parsed`). What it says is the state the command has left.
-/

namespace Workload

open Syntax

/-! ## Replies as documents -/

/-- An element of a reply: its text stands for itself. -/
structure ReplyField where
  name : XmlName
  value : Text
  plain : ∀ c ∈ value, textChar c = true

namespace ReplyField

theorem no_blanks : ∀ c ∈ ([] : Text), isXmlWs c = true := List.forall_mem_nil _

def noBlanks : Blanks := ⟨[], no_blanks⟩

/-- A text that stands for itself. -/
def run (s : Text) (h : ∀ c ∈ s, textChar c = true) : TextRun := s.pmap Piece.char h

theorem run_bytes (s : Text) (h : ∀ c ∈ s, textChar c = true) : TextRun.bytes (run s h) = s := by
  induction s with
  | nil => rfl
  | cons c s ih => exact congrArg (c :: ·) (ih (List.forall_mem_cons.mp h).2)

theorem run_text (s : Text) (h : ∀ c ∈ s, textChar c = true) : TextRun.text (run s h) = s := by
  induction s with
  | nil => rfl
  | cons c s ih => exact congrArg (c :: ·) (ih (List.forall_mem_cons.mp h).2)

/-- The blanks in front of the next element. -/
def indent (fields : List ReplyField) : Text := if fields = [] then [] else "  ".toList

theorem plain_indent (fields : List ReplyField) : ∀ c ∈ '\n' :: indent fields, textChar c = true := by
  refine List.all_eq_true.mp ?_
  unfold indent
  split_ifs <;> rfl

/-- The elements of a reply, each on a line of its own. -/
def content : List ReplyField → Content
  | [] => .nil
  | f :: fields =>
      .element ⟨f.name, [], noBlanks⟩ (run f.value f.plain) .nil noBlanks
        (run ('\n' :: indent fields) (plain_indent fields)) (content fields)

/-- The line of an element. -/
def line (name value : Text) : Text :=
  "  <".toList ++ name ++ ">".toList ++ value ++ "</".toList ++ name ++ ">\n".toList

theorem line_eq (name value : Text) : line name value =
    ' ' :: ' ' :: '<' :: (name ++ ('>' :: (value ++ ('<' :: '/' :: (name ++ ['>', '\n']))))) := by
  change [' ', ' ', '<'] ++ name ++ ['>'] ++ value ++ ['<', '/'] ++ name ++ ['>', '\n'] = _
  simp only [List.append_assoc, List.cons_append, List.nil_append]

theorem startTag_bytes (name : XmlName) (t : TextRun) :
    Item.bytes ⟨.startTag ⟨name, [], noBlanks⟩, t⟩ = '<' :: (name.text ++ '>' :: t.bytes) :=
  congrArg (fun s => '<' :: (s ++ '>' :: t.bytes)) (List.append_nil name.text)

theorem endTag_bytes (name : XmlName) (t : TextRun) :
    Item.bytes ⟨.endTag name noBlanks, t⟩ = '<' :: '/' :: (name.text ++ '>' :: t.bytes) :=
  congrArg (fun s => '<' :: '/' :: (s ++ '>' :: t.bytes)) (List.append_nil name.text)

theorem content_bytes (fields : List ReplyField) : indent fields ++ (content fields).items.flatMap Item.bytes =
    fields.flatMap fun f => line f.name.text f.value := by
  induction fields with
  | nil => rfl
  | cons f fields ih =>
      rw [List.flatMap_cons, ← ih, content, Content.items, Content.items, List.nil_append, List.flatMap_cons,
        List.flatMap_cons, startTag_bytes, endTag_bytes, run_bytes, run_bytes, line_eq]
      simp only [List.append_assoc, List.cons_append, List.nil_append]
      rfl

/-- The element that is read. -/
def element (f : ReplyField) : Xml := .element f.name.text [] f.value []

theorem content_fill (fields : List ReplyField) (txt : Text) (children : List (Parents.Rose TagRow)) :
    nodeOf ((content fields).fill (txt, children)).2 = nodeOf children ++ fields.map element := by
  induction fields generalizing txt children with
  | nil => exact (List.append_nil _).symm
  | cons f fields ih =>
      rw [content, Content.fill, ih, nodeOf_append, List.map_cons, List.append_assoc]
      refine congrArg (nodeOf children ++ ·) ?_
      change Xml.element f.name.text [] (TextRun.text (run f.value f.plain)) [] :: fields.map element = _
      rw [run_text]
      rfl

end ReplyField

open ReplyField

theorem notIn_of_not_mem {c : Char} {sub s : Text} (h : c ∉ s) : NotIn (c :: sub) s :=
  fun hsub => h (hsub.subset List.mem_cons_self)

/-- The reply with these elements as a document. -/
def replyDocument (fields : List ReplyField) : XmlDocument where
  lead := []
  prolog := [(.instruction "xml version=\"1.0\" encoding=\"UTF-8\"".toList (by decide) (by decide)
    (notIn_of_not_mem (by decide)),
    run ['\n'] (List.all_eq_true.mp rfl))]
  tag := ⟨⟨"control".toList, rfl, List.all_eq_true.mp rfl⟩, [], noBlanks⟩
  body := some ⟨run ('\n' :: indent fields) (plain_indent fields), content fields, noBlanks⟩
  behind := run ['\n'] (List.all_eq_true.mp rfl)
  epilog := []

theorem replyDocument_bytes (fields : List ReplyField) :
    (replyDocument fields).bytes = "<?xml version=\"1.0\" encoding=\"UTF-8\"?>\n<control>\n".toList ++
      fields.flatMap (fun f => line f.name.text f.value) ++ "</control>\n".toList := by
  let start : Item := ⟨.startTag (replyDocument fields).tag, run ('\n' :: indent fields) (plain_indent fields)⟩
  let stop : Item := ⟨.endTag (replyDocument fields).tag.name noBlanks, run ['\n'] (List.all_eq_true.mp rfl)⟩
  have hitems : (replyDocument fields).bytes = (XmlDocument.asides (replyDocument fields).prolog ++
      (start :: ((content fields).items ++ [stop]) ++ [])).flatMap Item.bytes := rfl
  have hprolog : (XmlDocument.asides (replyDocument fields).prolog).flatMap Item.bytes =
      "<?xml version=\"1.0\" encoding=\"UTF-8\"?>\n".toList := rfl
  have hstart : start.bytes = "<control>\n".toList ++ indent fields :=
    (startTag_bytes _ _).trans (by rw [run_bytes]; rfl)
  have hstop : stop.bytes = "</control>\n".toList := (endTag_bytes _ _).trans (by rw [run_bytes]; rfl)
  rw [hitems, List.append_nil, List.flatMap_append, List.flatMap_cons, List.flatMap_append, List.flatMap_singleton,
    hprolog, hstart, hstop, ← content_bytes]
  change _ = "<?xml version=\"1.0\" encoding=\"UTF-8\"?>\n".toList ++ "<control>\n".toList ++ _ ++ _
  simp only [List.append_assoc]

theorem nul_line {name value : Text} (hname : '\x00' ∉ name) (hvalue : '\x00' ∉ value) :
    '\x00' ∉ line name value := by
  rw [line_eq]
  simp [hname, hvalue]

theorem nul_replyDocument {fields : List ReplyField} (h : ∀ f ∈ fields, '\x00' ∉ f.value) :
    '\x00' ∉ (replyDocument fields).bytes := by
  have hname : ∀ name : XmlName, '\x00' ∉ name.text := fun name hc => absurd (name.chars _ hc) (by decide)
  rw [replyDocument_bytes, List.mem_append, List.mem_append, not_or, not_or]
  refine ⟨⟨by decide, fun hc => ?_⟩, by decide⟩
  obtain ⟨f, hf, hc⟩ := List.mem_flatMap.mp hc
  exact nul_line (hname f.name) (h f hf) hc

/-- What is read of a reply. -/
theorem replyDocument_root (fields : List ReplyField) : ∃ txt, (replyDocument fields).root =
    .element "control".toList [] txt (fields.map ReplyField.element) := by
  refine ⟨((content fields).fill ((run ('\n' :: indent fields) (plain_indent fields)).text, [])).1, ?_⟩
  exact congrArg (Xml.element "control".toList [] _) (content_fill fields _ [])

/-! ## What is sent -/

/-- An element whose name and value can be written as they are. -/
structure WellFormed (field : String × Text) : Prop where
  start : (field.1.toList.head?.map isTagStart).getD false = true
  chars : ∀ c ∈ field.1.toList, isNameChar c = true
  plain : ∀ c ∈ field.2, textChar c = true
  nul : '\x00' ∉ field.2

theorem controlReply_ne_nil (fields : List (String × Text)) : controlReply fields ≠ [] :=
  List.append_ne_nil_of_right_ne_nil _ (by decide)

theorem exists_fields {fields : List (String × Text)} (h : ∀ field ∈ fields, WellFormed field) :
    ∃ l : List ReplyField, (l.map fun f => (f.name.text, f.value)) =
      fields.map fun field => (field.1.toList, field.2) := by
  induction fields with
  | nil => exact ⟨[], rfl⟩
  | cons field fields ih =>
      obtain ⟨hfield, hfields⟩ := List.forall_mem_cons.mp h
      obtain ⟨l, hl⟩ := ih hfields
      refine ⟨⟨⟨field.1.toList, hfield.start, hfield.chars⟩, field.2, hfield.plain⟩ :: l, ?_⟩
      rw [List.map_cons, hl, List.map_cons]

/-- The document that a reply is. -/
theorem exists_replyDocument {fields : List (String × Text)} (h : ∀ field ∈ fields, WellFormed field) :
    ∃ l : List ReplyField, controlReply fields = (replyDocument l).bytes ∧ (∀ f ∈ l, '\x00' ∉ f.value) ∧
      l.map ReplyField.element = fields.map fun field => .element field.1.toList [] field.2 [] := by
  obtain ⟨l, hl⟩ := exists_fields h
  refine ⟨l, ?_, ?_, ?_⟩
  · have hlines : (fields.flatMap fun field => line field.1.toList field.2) =
        l.flatMap fun f => line f.name.text f.value := by
      have hmap := congrArg (List.flatMap fun x : Text × Text => line x.1 x.2) hl
      rw [List.flatMap_map, List.flatMap_map] at hmap
      exact hmap.symm
    rw [replyDocument_bytes, ← hlines]
    rfl
  · intro f hf
    have hmem : (f.name.text, f.value) ∈ fields.map fun field => (field.1.toList, field.2) :=
      hl ▸ List.mem_map_of_mem hf
    obtain ⟨field, hfield, heq⟩ := List.mem_map.mp hmem
    rw [← (Prod.mk.inj heq).2]
    exact (h field hfield).nul
  · have hmap := congrArg (List.map fun x : Text × Text => Xml.element x.1 [] x.2 []) hl
    rw [List.map_map, List.map_map] at hmap
    exact hmap

/-- **A reply can be read**, one element for each value. -/
theorem controlReply_parsed {fields : List (String × Text)} (h : ∀ field ∈ fields, WellFormed field) :
    ∃ root txt, ezxmlParseStr (controlReply fields) = some root ∧ root.err = none ∧
      readNode root.heap root.heap.size (some 0) =
        some [.element "control".toList [] txt (fields.map fun field => .element field.1.toList [] field.2 [])] := by
  obtain ⟨l, hbytes, hvalues, hchildren⟩ := exists_replyDocument h
  obtain ⟨root, hparse, herr, -, hread⟩ :=
    parse_document (replyDocument l) ⟨List.forall_mem_nil _, nul_replyDocument hvalues⟩
  obtain ⟨txt, hroot⟩ := replyDocument_root l
  refine ⟨root, txt, hbytes ▸ hparse, herr, ?_⟩
  rw [hread, hroot, hchildren]

/-! ## What replies say -/

def replyNames : List String :=
  ["cmd", "res", "pid", "status", "relocate", "pause", "left", "right", "interval", "read", "write", "duration"]

def replyWords : List Text :=
  ["quit", "restart", "status", "relocate", "pause", "reset", "left", "right", "yes", "no", "ack", "nack"].map
    String.toList

/-- The value is a word or a number. -/
structure Listed (field : String × Text) : Prop where
  name : field.1 ∈ replyNames
  value : field.2 ∈ replyWords ∨ ∃ n, field.2 = formatUnsigned n

theorem yesNo_listed (b : Bool) : yesNo b ∈ replyWords := by cases b <;> decide

theorem res_listed (b : Prop) [Decidable b] : (if b then "ack".toList else "nack".toList) ∈ replyWords := by
  split_ifs <;> decide

/-- **The cases of a reply**, by the command it answers. -/
theorem replyFields_cases (pid : Nat) (s : State) {motive : Text → List (String × Text) → Prop}
    (silent : ∀ code, (∀ s ios, workloadCmd s code ios = s) → motive code [])
    (quit : ∀ c, c = '\x1b' ∨ c = 'q' →
      motive [c] [("cmd", "quit".toList), ("res", "ack".toList), ("pid", formatUnsigned pid)])
    (restart : motive ['Q'] [("cmd", "restart".toList), ("res", "ack".toList)])
    (status : motive ['?'] [("cmd", "status".toList), ("relocate", yesNo s.relocate), ("pause", yesNo s.pause),
      ("left", formatUnsigned s.cfg.leftRatio), ("right", formatUnsigned s.cfg.rightRatio),
      ("interval", formatUnsigned s.cfg.accessInterval), ("read", formatUnsigned s.readCount),
      ("write", formatUnsigned s.writeCount), ("duration", formatUnsigned (sub64 s.timeStamp s.timeStampStart)),
      ("res", "ack".toList)])
    (relocate : ∀ c, c = 'r' ∨ c = 'o' →
      motive [c] [("cmd", "relocate".toList), ("status", yesNo s.relocate), ("res", "ack".toList)])
    (pause : motive ['p'] [("cmd", "pause".toList), ("status", yesNo s.pause), ("res", "ack".toList)])
    (switch : ∀ c b, (c, b) = ('S', true) ∨ (c, b) = ('K', false) →
      motive [c] [("cmd", "relocate".toList), ("status", yesNo b), ("res", "ack".toList)])
    (hold : ∀ c b, (c, b) = ('P', true) ∨ (c, b) = ('R', false) →
      motive [c] [("cmd", "pause".toList), ("status", yesNo b), ("res", "ack".toList)])
    (reset : motive ['!'] [("cmd", "reset".toList), ("res", "ack".toList)])
    (left : ∀ blank argument, isspace blank = true → motive ('l' :: blank :: argument) [("cmd", "left".toList),
      ("status", formatUnsigned s.cfg.leftRatio), ("res", if 0 < atoi argument then "ack".toList else "nack".toList)])
    (right : ∀ blank argument, isspace blank = true → motive ('r' :: blank :: argument) [("cmd", "right".toList),
      ("status", formatUnsigned s.cfg.rightRatio), ("res", if 0 < atoi argument then "ack".toList else "nack".toList)])
    (code : Text) : motive code (replyFields pid s code) := by
  match code with
  | [] => exact silent [] fun _ _ => rfl
  | [c] =>
      unfold replyFields
      apply iteInduction (quit c)
      intro hquit
      apply iteInduction (fun hc => hc ▸ restart)
      intro hrestart
      apply iteInduction (fun hc => hc ▸ status)
      intro _
      apply iteInduction (relocate c)
      intro hrelocate
      apply iteInduction (fun hc => hc ▸ pause)
      intro hpause
      apply iteInduction (fun hc => switch c true (.inl (by rw [hc])))
      intro hstart
      apply iteInduction (fun hc => switch c false (.inr (by rw [hc])))
      intro hstop
      apply iteInduction (fun hc => hold c true (.inl (by rw [hc])))
      intro hhold
      apply iteInduction (fun hc => hold c false (.inr (by rw [hc])))
      intro hresume
      refine iteInduction (fun hc => hc ▸ reset) fun hreset => silent _ fun s ios => ?_
      rw [not_or] at hrelocate
      rw [workloadCmd, if_neg hquit, if_neg hrestart, if_neg hrelocate.1, if_neg hrelocate.2, if_neg hpause,
        if_neg hstart, if_neg hstop, if_neg hhold, if_neg hresume, if_neg hreset]
  | c :: blank :: argument =>
      unfold replyFields
      refine iteInduction (fun hblank => ?_) fun hblank => silent _ fun s ios => ?_
      · apply iteInduction (fun hc => hc ▸ left blank argument hblank)
        intro hleft
        refine iteInduction (fun hc => hc ▸ right blank argument hblank) fun hright => silent _ fun s ios => ?_
        rw [workloadCmd, if_pos hblank]
        dsimp only
        rw [if_neg fun h => hleft h.1, if_neg fun h => hright h.1]
      · rw [workloadCmd, if_neg hblank]

theorem replyFields_listed (pid : Nat) (s : State) (code : Text) : ∀ field ∈ replyFields pid s code, Listed field := by
  have hword : ∀ {name value}, name ∈ replyNames → value ∈ replyWords → Listed (name, value) :=
    fun hname hvalue => ⟨hname, .inl hvalue⟩
  have hnumber : ∀ {name n}, name ∈ replyNames → Listed (name, formatUnsigned n) := fun hname => ⟨hname, .inr ⟨_, rfl⟩⟩
  refine replyFields_cases (motive := fun _ fields => ∀ field ∈ fields, Listed field) pid s
    (fun _ _ => List.forall_mem_nil _) (fun _ _ => ?_) ?_ ?_ (fun _ _ => ?_) ?_ (fun _ _ _ => ?_) (fun _ _ _ => ?_) ?_
    (fun _ _ _ => ?_) (fun _ _ _ => ?_) code
  all_goals repeat' first | exact List.forall_mem_nil _ | refine List.forall_mem_cons.mpr ⟨?_, ?_⟩
  all_goals first
    | exact hword (by decide) (by decide)
    | exact hword (by decide) (yesNo_listed _)
    | exact hword (by decide) (res_listed _)
    | exact hnumber (by decide)

theorem Listed.wellFormed {field : String × Text} (h : Listed field) : WellFormed field := by
  have halnum : ∀ {value : Text}, (∀ c ∈ value, c.isAlphanum = true) →
      (∀ c ∈ value, textChar c = true) ∧ '\x00' ∉ value := by
    intro value hvalue
    refine ⟨fun c hc => ?_, fun hc => absurd (hvalue _ hc) (by decide)⟩
    have hne : ∀ d : Char, d.isAlphanum = false → c ≠ d := fun d hd hcd => by
      rw [← hcd, hvalue c hc] at hd
      exact nomatch hd
    simp [textChar, hne '<' rfl, hne '&' rfl, hne '\r' rfl]
  have hnames : (replyNames.all fun name => (name.toList.head?.map isTagStart).getD false &&
      name.toList.all isNameChar) = true := by decide
  have hname := List.all_eq_true.mp hnames _ h.name
  rw [Bool.and_eq_true] at hname
  have hvalue : ∀ c ∈ field.2, c.isAlphanum = true := by
    rcases h.value with hword | ⟨n, hn⟩
    · have hwords : (replyWords.all fun word => word.all Char.isAlphanum) = true := by decide
      exact List.all_eq_true.mp (List.all_eq_true.mp hwords _ hword)
    · rw [hn]
      intro c hc
      have hdigit : (if false = true then isHexDigit c else isdigit c) = true := isdigit_formatUnsigned hc
      exact isAlphanum_of_digit hdigit
  exact ⟨hname.1, List.all_eq_true.mp hname.2, (halnum hvalue).1, (halnum hvalue).2⟩

/-- A reply has no terminator in it. -/
theorem nul_workloadCmdReply (pid : Nat) (s : State) (code : Text) (ios : FilePtr → MoveIo) :
    '\x00' ∉ workloadCmdReply pid s code ios := by
  have hfields : ∀ field ∈ replyFields pid (workloadCmd s code ios) code, WellFormed field := fun field hfield =>
    (replyFields_listed pid _ code field hfield).wellFormed
  obtain ⟨l, hbytes, hvalues, -⟩ := exists_replyDocument hfields
  by_cases hnil : replyFields pid (workloadCmd s code ios) code = []
  · have hnone : workloadCmdReply pid s code ios = [] := if_pos hnil
    rw [hnone]
    exact List.not_mem_nil
  · have hsent : workloadCmdReply pid s code ios = controlReply (replyFields pid (workloadCmd s code ios) code) :=
      if_neg hnil
    rw [hsent, hbytes]
    exact nul_replyDocument hvalues

/-- **Every reply can be read.** -/
theorem workloadCmdReply_parsed (pid : Nat) (s : State) (code : Text) (ios : FilePtr → MoveIo)
    (hreply : workloadCmdReply pid s code ios ≠ []) :
    ∃ root txt, ezxmlParseStr (workloadCmdReply pid s code ios) = some root ∧ root.err = none ∧
      readNode root.heap root.heap.size (some 0) = some [.element "control".toList [] txt
        ((replyFields pid (workloadCmd s code ios) code).map fun field => .element field.1.toList [] field.2 [])] := by
  have hfields : replyFields pid (workloadCmd s code ios) code ≠ [] := by
    intro hnil
    rw [workloadCmdReply, hnil] at hreply
    exact hreply rfl
  have hsent : workloadCmdReply pid s code ios = controlReply (replyFields pid (workloadCmd s code ios) code) :=
    if_neg hfields
  rw [hsent]
  exact controlReply_parsed fun field hfield => (replyFields_listed pid _ code field hfield).wellFormed

/-! ## What replies tell -/

/-- The text of an element of a reply, as a client looks it up. -/
def replyText (node : Node) (name : String) : Text := workloadXmlTagData (workloadXmlSubNodeEx node name.toList)

theorem replyText_eq (name txt : Text) (fields : List (String × Text)) (field : String) :
    replyText [.element name [] txt (fields.map fun field => .element field.1.toList [] field.2 [])] field =
      (fields.lookup field).getD [] := by
  change workloadXmlTagData (seekNode field.toList (fields.map fun field => .element field.1.toList [] field.2 [])) = _
  induction fields with
  | nil => rfl
  | cons first fields ih =>
      rw [List.map_cons, List.lookup_cons]
      by_cases hfield : field = first.1
      · rw [hfield, beq_self_eq_true, seekNode, List.dropWhile_cons_of_neg (by simp [Xml.name])]
        rfl
      · have hname : first.1.toList ≠ field.toList := fun h => hfield (String.toList_inj.mp h).symm
        rw [beq_false_of_ne hfield, seekNode, List.dropWhile_cons_of_pos (by simpa [Xml.name] using hname)]
        exact ih

theorem lookup_here {name : String} {value : Text} {fields : List (String × Text)} :
    (((name, value) :: fields).lookup name).getD [] = value := by
  rw [List.lookup_cons, beq_self_eq_true]
  rfl

theorem lookup_behind {name first : String} {value : Text} {fields : List (String × Text)}
    (h : (name == first) = false) :
    (((first, value) :: fields).lookup name).getD [] = (fields.lookup name).getD [] := by
  rw [List.lookup_cons, h]

/-- **What a reply tells** of the workload before and behind the command. -/
inductive Told (pid : Nat) (s s' : State) (get : String → Text) : Prop where
  | quit (cmd : get "cmd" = "quit".toList) (res : get "res" = "ack".toList) (own : get "pid" = formatUnsigned pid)
      (done : s' = { s with breakPtr := true })
  | restart (cmd : get "cmd" = "restart".toList) (res : get "res" = "ack".toList)
      (done : s' = { s with reloadPtr := true, breakPtr := true })
  | status (cmd : get "cmd" = "status".toList) (res : get "res" = "ack".toList)
      (switches : get "relocate" = yesNo s.relocate ∧ get "pause" = yesNo s.pause)
      (ratios : get "left" = formatUnsigned s.cfg.leftRatio ∧ get "right" = formatUnsigned s.cfg.rightRatio)
      (interval : get "interval" = formatUnsigned s.cfg.accessInterval)
      (counts : get "read" = formatUnsigned s.readCount ∧ get "write" = formatUnsigned s.writeCount)
      (duration : get "duration" = formatUnsigned (sub64 s.timeStamp s.timeStampStart)) (same : s' = s)
  | relocate (cmd : get "cmd" = "relocate".toList) (res : get "res" = "ack".toList)
      (status : get "status" = yesNo s'.relocate)
  | pause (cmd : get "cmd" = "pause".toList) (res : get "res" = "ack".toList) (status : get "status" = yesNo s'.pause)
  | left (cmd : get "cmd" = "left".toList) (res : get "res" = "ack".toList)
      (status : get "status" = formatUnsigned s'.cfg.leftRatio) (done : s'.cfg.leftRatio ≠ 0)
  | right (cmd : get "cmd" = "right".toList) (res : get "res" = "ack".toList)
      (status : get "status" = formatUnsigned s'.cfg.rightRatio) (done : s'.cfg.rightRatio ≠ 0)
  | refused (cmd : get "cmd" = "left".toList ∧ get "status" = formatUnsigned s.cfg.leftRatio ∨
      get "cmd" = "right".toList ∧ get "status" = formatUnsigned s.cfg.rightRatio)
      (res : get "res" = "nack".toList) (same : s' = s)
  | reset (cmd : get "cmd" = "reset".toList) (res : get "res" = "ack".toList)
      (done : s' = workloadResetFileAccessCount s)

namespace Carried

variable {α : Type*} {p : State → α} (h : Carried p)

include h

/-- A relocation only moves files. -/
theorem fileRelocate (s : State) (ios : FilePtr → MoveIo) : p (workloadFileRelocate s ios) = p s := by
  have hfile : ∀ s f, p (relocateFile s f (ios f)) = p s := by
    intro s f
    unfold relocateFile
    cases (s.files f).reassignDisk with
    | none => rfl
    | some d => exact (h.modifyFile _).trans (h.workloadAssignFileToDisk _ _ _)
  exact foldl_keeps hfile _ _

theorem relocateDisks (s : State) : p (relocateSection s) = p s := by
  have hdisk : ∀ s d, p (restartDisk s d) = p s := by
    intro s d
    unfold restartDisk
    exact (h.updateDb _ _).trans (h.disk _ _ _ fun _ => rfl)
  exact foldl_keeps hdisk _ _

end Carried

theorem carried_relocate : Carried State.relocate where
  heap _ _ _ _ _ _ _ := rfl
  disk _ _ _ _ := rfl
  query s stmt := by rw [querySet_snd]; rfl

theorem toUnsigned_ne_zero {argument : Text} (hpos : 0 < atoi argument) : toUnsigned (atoi argument) ≠ 0 :=
  Nat.one_le_iff_ne_zero.mp (toUnsigned_of_pos hpos (atoi_bounds argument).2).1

/-- **The elements of a reply tell** the state behind the command. -/
theorem replyFields_told (pid : Nat) (s : State) (code : Text) (ios : FilePtr → MoveIo) :
    (replyFields pid (workloadCmd s code ios) code = [] → workloadCmd s code ios = s) ∧
    (replyFields pid (workloadCmd s code ios) code ≠ [] → Told pid s (workloadCmd s code ios)
      fun name => ((replyFields pid (workloadCmd s code ios) code).lookup name).getD []) := by
  generalize hs : workloadCmd s code ios = s'
  revert hs
  refine replyFields_cases (motive := fun code fields => workloadCmd s code ios = s' → (fields = [] → s' = s) ∧
    (fields ≠ [] → Told pid s s' fun name => (fields.lookup name).getD [])) pid s'
    ?_ ?_ ?_ ?_ ?_ ?_ ?_ ?_ ?_ ?_ ?_ code
  · intro code hsilent hs
    exact ⟨fun _ => hs.symm.trans (hsilent s ios), fun hne => absurd rfl hne⟩
  · rintro c hc hs
    refine ⟨nofun, fun _ => .quit rfl rfl rfl ?_⟩
    rcases hc with rfl | rfl <;> exact hs.symm
  · exact fun hs => ⟨nofun, fun _ => .restart rfl rfl hs.symm⟩
  · intro hs
    obtain rfl : s = s' := hs
    refine ⟨nofun, fun _ => .status rfl rfl ⟨rfl, rfl⟩ ⟨rfl, rfl⟩ rfl ⟨rfl, rfl⟩ ?_ rfl⟩
    -- the duration is a 64-bit difference, which must not be evaluated
    iterate 8 rw [lookup_behind rfl]
    exact lookup_here
  · exact fun c _ _ => ⟨nofun, fun _ => .relocate rfl rfl rfl⟩
  · exact fun _ => ⟨nofun, fun _ => .pause rfl rfl rfl⟩
  · rintro c b hc rfl
    refine ⟨nofun, fun _ => .relocate rfl rfl (congrArg yesNo ?_)⟩
    rcases hc with hc | hc
    · obtain ⟨rfl, rfl⟩ := Prod.mk.inj hc
      exact ((carried_relocate.fileRelocate _ ios).trans (carried_relocate.relocateDisks (s.setRelocate true))).symm
    · obtain ⟨rfl, rfl⟩ := Prod.mk.inj hc
      exact (carried_relocate.relocateDisks (s.setRelocate false)).symm
  · rintro c b hc rfl
    refine ⟨nofun, fun _ => .pause rfl rfl ?_⟩
    rcases hc with hc | hc <;>
      · obtain ⟨rfl, rfl⟩ := Prod.mk.inj hc
        rfl
  · exact fun hs => ⟨nofun, fun _ => .reset rfl rfl hs.symm⟩
  · intro blank argument hblank hs
    rw [workloadCmd, if_pos hblank] at hs
    dsimp only at hs
    refine ⟨nofun, fun _ => ?_⟩
    by_cases hpos : 0 < atoi argument
    · rw [if_pos ⟨rfl, hpos⟩] at hs
      subst hs
      exact .left rfl (if_pos hpos) rfl (toUnsigned_ne_zero hpos)
    · rw [if_neg fun h => hpos h.2, if_neg fun h => hpos h.2] at hs
      subst hs
      exact .refused (.inl ⟨rfl, rfl⟩) (if_neg hpos) rfl
  · intro blank argument hblank hs
    rw [workloadCmd, if_pos hblank] at hs
    dsimp only at hs
    refine ⟨nofun, fun _ => ?_⟩
    by_cases hpos : 0 < atoi argument
    · rw [if_neg fun h => absurd h.1 (by decide), if_pos ⟨rfl, hpos⟩] at hs
      subst hs
      exact .right rfl (if_pos hpos) rfl (toUnsigned_ne_zero hpos)
    · rw [if_neg fun h => hpos h.2, if_neg fun h => hpos h.2] at hs
      subst hs
      exact .refused (.inr ⟨rfl, rfl⟩) (if_neg hpos) rfl

/-- **A reply can be read and tells the state** that the command has left; a command without a reply leaves the state
    as it was. -/
theorem reply_tells_state (pid : Nat) (s : State) (code : Text) (ios : FilePtr → MoveIo) :
    (workloadCmdReply pid s code ios = [] → workloadCmd s code ios = s) ∧
    (workloadCmdReply pid s code ios ≠ [] → ∃ root node, ezxmlParseStr (workloadCmdReply pid s code ios) = some root ∧
      root.err = none ∧ readNode root.heap root.heap.size (some 0) = some node ∧
      Told pid s (workloadCmd s code ios) (replyText node)) := by
  have hfields : (replyFields pid (workloadCmd s code ios) code = [] → workloadCmd s code ios = s) ∧
      (replyFields pid (workloadCmd s code ios) code ≠ [] → Told pid s (workloadCmd s code ios)
        fun name => ((replyFields pid (workloadCmd s code ios) code).lookup name).getD []) :=
    replyFields_told pid s code ios
  constructor
  · intro hnone
    refine hfields.1 ?_
    by_contra hne
    have hsent : workloadCmdReply pid s code ios = controlReply (replyFields pid (workloadCmd s code ios) code) :=
      if_neg hne
    exact controlReply_ne_nil _ (hsent.symm.trans hnone)
  · intro hreply
    obtain ⟨root, txt, hparse, herr, hread⟩ := workloadCmdReply_parsed pid s code ios hreply
    refine ⟨root, _, hparse, herr, hread, ?_⟩
    rw [show replyText _ = _ from funext (replyText_eq "control".toList txt _)]
    exact hfields.2 fun hnil => hreply (if_pos hnil)

end Workload
