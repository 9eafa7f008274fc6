import Workload.Correctness.Filling
import Workload.Correctness.Nodes

/-!
# `Correctness.Parsing` — a document is parsed to what it means

A document has one root element, and comments, processing instructions and a document type around it. Its text is what
the parser gets, its root is what the program reads from the tags afterwards.

* **`parse_document`** — the parser reads every such document without an error, and what can be read from the root tag
  is its root element.
-/

namespace Workload

open Parents Tags Syntax

/-- What stands between the angle brackets of the root element: its first text, its content, and the white space of
    its end tag. -/
structure RootBody where
  lead : TextRun
  content : Content
  space : Blanks

/-- A document; without a body the root element is an empty tag. -/
structure XmlDocument where
  lead : Text
  prolog : List (Aside × TextRun)
  tag : Tag
  body : Option RootBody
  behind : TextRun
  epilog : List (Aside × TextRun)

namespace XmlDocument

def asides (l : List (Aside × TextRun)) : List Item := l.map fun x => ⟨.aside x.1, x.2⟩

/-- The markups of the root element. -/
def rootItems (d : XmlDocument) : List Item :=
  match d.body with
  | none => [⟨.emptyTag d.tag, d.behind⟩]
  | some body => ⟨.startTag d.tag, body.lead⟩ :: (body.content.items ++ [⟨.endTag d.tag.name body.space, d.behind⟩])

def bytes (d : XmlDocument) : Text :=
  d.lead ++ (asides d.prolog ++ (d.rootItems ++ asides d.epilog)).flatMap Item.bytes

/-- The text and the children of the root element. -/
def content (d : XmlDocument) : Text × List (Rose TagRow) :=
  match d.body with
  | none => ([], [])
  | some body => body.content.fill (body.lead.text, [])

/-- The root element. -/
def root (d : XmlDocument) : Xml :=
  rowXml ⟨some d.tag.name.text, d.tag.pairs, d.content.1, 0⟩ (nodeOf d.content.2)

/-- It does not start like a document in UTF-16, and there is no terminator in it. -/
structure Plain (d : XmlDocument) : Prop where
  lead : ∀ c ∈ d.lead, c ≠ '<' ∧ c ≠ '\xfe' ∧ c ≠ '\xff'
  nul : '\x00' ∉ d.bytes

end XmlDocument

variable {o : Outline} {c : Nat} {root root' : EzxmlRoot} {items : List Item}

/-! ## Around the root element -/

/-- Behind a markup outside of the root element the text is not looked at. -/
theorem runItems_outside {m : Markup} (t : TextRun) (hrun : m.run root = some (.inr root')) (h : Keeps root' o)
    (hname : o.curName = none) : runItems (⟨m, t⟩ :: items) root = runItems items root' := by
  rw [runItems, hrun]
  simp only [Option.bind_eq_bind, Option.bind_some]
  cases items with
  | nil => rfl
  | cons i items => simp only [deliver_outside h hname, Option.bind_some]

theorem runItems_asides (l : List (Aside × TextRun)) (items : List Item) (h : Keeps root o) (hname : o.curName = none) :
    ∃ root', SameTags root root' ∧ runItems (XmlDocument.asides l ++ items) root = runItems items root' := by
  induction l generalizing root with
  | nil => exact ⟨root, ⟨rfl, rfl, rfl⟩, rfl⟩
  | cons x l ih =>
      obtain ⟨root₁, hrun, hsame₁⟩ := run_aside h x.1
      obtain ⟨root₂, hsame₂, hrest⟩ := ih (h.sameTags hsame₁)
      refine ⟨root₂, ⟨hsame₂.heap.trans hsame₁.heap, hsame₂.cur.trans hsame₁.cur, hsame₂.err.trans hsame₁.err⟩, ?_⟩
      rw [← hrest]
      exact runItems_outside x.2 hrun (h.sameTags hsame₁) hname

/-! ## The root element -/

/-- The root tag when it has got its name. -/
def named (t : Tag) : Outline := ⟨[(none, ⟨some t.name.text, t.pairs, [], 0⟩)], some 0⟩

/-- The start tag of the root element names the root tag. -/
theorem start_root (h : Keeps root Outline.start) (t : Tag) :
    ∃ root', ezxmlOpenTag root t.name.text t.pairs = some root' ∧ root'.err = root.err ∧ Keeps root' (named t) := by
  have hopen : ∃ root', ezxmlOpenTag root t.name.text t.pairs = some root' ∧ root'.pi = root.pi ∧
      root'.err = root.err ∧ Keeps root' (Outline.start.openTag t.name.text t.pairs) := h.openTag nofun
  obtain ⟨root', hopen, -, herr, hkeeps⟩ := hopen
  exact ⟨root', hopen, herr, hkeeps⟩

theorem parentAt_zero (h : o.Valid) : parentAt o.rows 0 = none := by
  rw [Option.eq_none_iff_forall_ne_some]
  exact fun p hp => Nat.not_lt_zero p (h.rooted 0 p hp)

/-- What can be read from the root tag. -/
theorem readNode_root (h : Keeps root o) :
    readNode root.heap root.heap.size (some 0) = some [rowXml (rowAt o.rows 0) (nodeOf (forest o.rows 0))] := by
  have hlevel : Level o.rows [0] := by
    have hself := Level.self h.valid.pos
    rwa [after, parentAt_zero h.valid] at hself
  have hread := readNode_size h.tagged h.valid.rooted hlevel
  rwa [List.flatMap_singleton, nodeOf_tree h.valid.rooted h.valid.pos] at hread

/-- From the end of the root element on no tag is open, and what follows changes nothing. -/
theorem runItems_end {m : Markup} (t : TextRun) (l : List (Aside × TextRun)) (hrun : m.run root = some (.inr root'))
    (h : Keeps root' o) (hcur : o.cur = none) :
    ∃ root'', runItems (⟨m, t⟩ :: XmlDocument.asides l) root = some root'' ∧ SameTags root' root'' := by
  have hname : o.curName = none := by rw [Outline.curName, hcur, Option.bind_none]
  obtain ⟨root'', hsame, hrest⟩ := runItems_asides l [] h hname
  refine ⟨root'', ?_, hsame⟩
  rw [runItems_outside t hrun h hname, ← List.append_nil (XmlDocument.asides l), hrest, runItems, parseFinish,
    (h.sameTags hsame).cur, hcur]

/-- The root element, and what stands behind it. -/
theorem runItems_root (d : XmlDocument) (h : Keeps root Outline.start) :
    ∃ root' o, runItems (d.rootItems ++ XmlDocument.asides d.epilog) root = some root' ∧ root'.err = root.err ∧
      Keeps root' o ∧ o.cur = none ∧ rowAt o.rows 0 = ⟨some d.tag.name.text, d.tag.pairs, d.content.1, 0⟩ ∧
      forest o.rows 0 = d.content.2 := by
  obtain ⟨root₁, hopen, herr₁, hkeeps₁⟩ := start_root h d.tag
  have hcur₁ : ¬root.cur = none := by
    rw [h.cur]
    exact nofun
  have hname₁ : (rowAt (named d.tag).rows 0).name = some d.tag.name.text := rfl
  have hnamed₁ : (rowAt (named d.tag).rows 0).name ≠ none := nofun
  unfold XmlDocument.rootItems XmlDocument.content
  cases d.body with
  | none =>
      have hname : (named d.tag).curName = some d.tag.name.text := rfl
      obtain ⟨hclose, hkeeps₂⟩ := hkeeps₁.closeTag hname
      have hrun : Markup.run root (.emptyTag d.tag) = some (.inr { root₁ with cur := (named d.tag).closeTag.cur }) := by
        rw [Markup.run, if_neg hcur₁, hopen]
        simp only [Option.bind_eq_bind, Option.bind_some, hclose]
        rfl
      obtain ⟨root₃, hitems, hsame⟩ := runItems_end d.behind d.epilog hrun hkeeps₂ rfl
      exact ⟨root₃, _, hitems, hsame.err.trans herr₁, hkeeps₂.sameTags hsame, rfl, rfl, rfl⟩
  | some body =>
      have hrun₁ : Markup.run root (.startTag d.tag) = some (.inr root₁) := by
        rw [Markup.run, if_neg hcur₁, hopen, Option.map_some]
      obtain ⟨root₂, hreach₂, herr₂, hkeeps₂⟩ := reaches_text body.lead hrun₁ hkeeps₁ rfl hnamed₁
      have hfill₂ := Filled.addText (s := body.lead.text) hkeeps₁.valid rfl
      obtain ⟨root₃, o₃, hkeeps₃, herr₃, hreach₃, hfill₃⟩ :=
        content_reaches body.content hkeeps₂ (hfill₂.cur.trans rfl) (hfill₂.named hnamed₁)
      have hfill := hfill₂.trans hfill₃
      obtain ⟨root₄, hrun₄, herr₄, hkeeps₄⟩ := run_end hkeeps₃ body.space (hfill.curName rfl hname₁)
      have hcontent : ((rowAt o₃.rows 0).txt, forest o₃.rows 0) = body.content.fill (body.lead.text, []) := hfill.content
      have hcur₄ : o₃.closeTag.cur = none := by
        rw [Outline.closeTag, hfill.cur]
        exact parentAt_zero hkeeps₃.valid
      obtain ⟨root₅, hitems, hsame⟩ := runItems_end d.behind d.epilog hrun₄ hkeeps₄ hcur₄
      refine ⟨root₅, _, ?_, ?_, hkeeps₄.sameTags hsame, hcur₄, ?_, ?_⟩
      · rw [← hitems, List.cons_append, List.append_assoc, List.singleton_append]
        exact (hreach₂.trans hreach₃) _ (List.cons_ne_nil _ _)
      · rw [hsame.err, herr₄, herr₃, herr₂, herr₁]
      · refine hfill.row.trans ?_
        rw [show (rowAt o₃.rows 0).txt = _ from congrArg Prod.fst hcontent]
        rfl
      · exact congrArg Prod.snd hcontent

theorem lastOk (d : XmlDocument) :
    LastOk (XmlDocument.asides d.prolog ++ (d.rootItems ++ XmlDocument.asides d.epilog)) := by
  intro i hi _ body h last
  have hasides : ∀ l : List (Aside × TextRun), ∀ i ∈ XmlDocument.asides l, i.markup ≠ .cdata body h last := by
    intro l i hi
    obtain ⟨x, -, rfl⟩ := List.mem_map.mp hi
    intro heq
    cases heq
  have hroot : ∀ i ∈ d.rootItems.getLast?, i.markup ≠ .cdata body h last := by
    intro i hi
    unfold XmlDocument.rootItems at hi
    split at hi
    · obtain rfl := Option.some.inj hi
      intro heq
      cases heq
    · rw [← List.cons_append, List.getLast?_concat] at hi
      obtain rfl := Option.some.inj hi
      intro heq
      cases heq
  rw [List.getLast?_append, List.getLast?_append] at hi
  rcases Option.or_eq_some_iff.mp hi with hi | ⟨-, hi⟩
  · rcases Option.or_eq_some_iff.mp hi with hi | ⟨-, hi⟩
    · exact hasides _ i (List.mem_of_getLast? hi)
    · exact hroot i hi
  · exact hasides _ i (List.mem_of_getLast? hi)

/-- No byte order mark of UTF-16 stands in front. -/
theorem ezxmlParseStr_plain (d : XmlDocument) (h : d.Plain) : ezxmlParseStr d.bytes = parseBytes d.bytes := by
  have hhead : ∀ c ∈ d.bytes.head?, c ≠ '\xfe' ∧ c ≠ '\xff' := by
    intro c hc
    unfold XmlDocument.bytes at hc
    cases hlead : d.lead with
    | nil =>
        have hne : XmlDocument.asides d.prolog ++ (d.rootItems ++ XmlDocument.asides d.epilog) ≠ [] := by
          unfold XmlDocument.rootItems
          split <;> simp
        obtain ⟨i, items, hitems⟩ := List.exists_cons_of_ne_nil hne
        rw [hlead, hitems, flatMap_bytes_cons] at hc
        obtain rfl := Option.some.inj hc
        decide
    | cons b lead =>
        rw [hlead, List.cons_append] at hc
        obtain rfl := Option.some.inj hc
        exact (h.lead b (hlead ▸ List.mem_cons_self)).2
  have hnone : ezxmlStr2utf8 d.bytes = none := by
    unfold ezxmlStr2utf8
    split
    · next hc => exact absurd rfl (hhead _ hc).1
    · next hc => exact absurd rfl (hhead _ hc).2
    · rfl
  rw [ezxmlParseStr, hnone]

/-- **A document is parsed to what it means.** -/
theorem parse_document (d : XmlDocument) (h : d.Plain) : ∃ root, ezxmlParseStr d.bytes = some root ∧
    root.err = none ∧ root.cur = none ∧ readNode root.heap root.heap.size (some 0) = some [d.root] := by
  obtain ⟨root₁, hsame₁, hprolog⟩ := runItems_asides d.prolog (d.rootItems ++ XmlDocument.asides d.epilog)
    Keeps.start rfl
  obtain ⟨root, o, hroot, herr, hkeeps, hcur, hrow, hforest⟩ := runItems_root d (Keeps.start.sameTags hsame₁)
  have hparse : parseBytes d.bytes = some root := by
    rw [XmlDocument.bytes, parseBytes_eq (fun c hc => (h.lead c hc).1) (lastOk d) h.nul, hprolog, hroot]
  refine ⟨root, (ezxmlParseStr_plain d h).trans hparse, herr.trans hsame₁.err, hkeeps.cur.trans hcur, ?_⟩
  rw [readNode_root hkeeps, hrow, hforest, XmlDocument.root]

/-- `<?i?><a x='&lt;'>t<b/>u</a>`. -/
def smallXmlDocument : XmlDocument where
  lead := []
  prolog := [(.instruction ['i'] (by decide) (by decide) (by decide), [])]
  tag := ⟨⟨['a'], rfl, List.all_eq_true.mp rfl⟩, [⟨⟨[' '], List.all_eq_true.mp rfl⟩, List.cons_ne_nil _ _,
    ⟨['x'], rfl, List.all_eq_true.mp rfl⟩, ⟨[], List.forall_mem_nil _⟩, ⟨[], List.forall_mem_nil _⟩, .single,
    [.entity .lt]⟩], ⟨[], List.forall_mem_nil _⟩⟩
  body := some ⟨[.char 't' rfl],
    .empty ⟨⟨['b'], rfl, List.all_eq_true.mp rfl⟩, [], ⟨[], List.forall_mem_nil _⟩⟩ [.char 'u' rfl] .nil,
    ⟨[], List.forall_mem_nil _⟩⟩
  behind := []
  epilog := []

example : ∃ root, ezxmlParseStr smallXmlDocument.bytes = some root ∧ root.err = none ∧
    root.cur = none ∧ readNode root.heap root.heap.size (some 0) =
      some [.element ['a'] [(['x'], ['<'])] ['t', 'u'] [.element ['b'] [] [] []]] :=
  parse_document smallXmlDocument ⟨List.forall_mem_nil _, by decide⟩

end Workload
