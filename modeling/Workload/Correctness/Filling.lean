import Workload.Correctness.Outline
import Workload.Correctness.Scanning

/-!
# `Correctness.Filling` — what the markups of an element put into its tag

While an element is read only its own tag gets text and children (`Filled`). The step lemma for each markup says what
it adds; the element as a whole is put together from them by induction on its content.

* **`content_reaches`** — a content is read to its end and fills the tag that is open with its meaning.
-/

namespace Workload

open Parents Tags Syntax

/-- The trees below a row. -/
def forest (t : Table TagRow) (c : Nat) : List (Rose TagRow) := (kids t c).flatMap (tree t)

namespace Syntax

/-- What a content adds to the text and the children of its element. -/
def Content.fill : Content → Text × List (Rose TagRow) → Text × List (Rose TagRow)
  | nil, x => x
  | aside _ after rest, (txt, children) => rest.fill (txt ++ after.text, children)
  | cdata body _ _ after rest, (txt, children) => rest.fill (txt ++ normalizeLines body ++ after.text, children)
  | empty t after rest, (txt, children) =>
      rest.fill (txt ++ after.text, children ++ [.node ⟨some t.name.text, t.pairs, [], txt.length⟩ []])
  | element t lead inner _ after rest, (txt, children) =>
      let inside := inner.fill (lead.text, [])
      rest.fill (txt ++ after.text, children ++ [.node ⟨some t.name.text, t.pairs, inside.1, txt.length⟩ inside.2])

end Syntax

/-! ## Filling one tag -/

variable {o o' o'' : Outline} {c : Nat} {name : Text} {attr : List (Text × Text)} {s : Text}
  {f g : Text × List (Rose TagRow) → Text × List (Rose TagRow)}

/-- Only the tag `c` has changed: its text and its children are what `f` makes of them. -/
structure Filled (o o' : Outline) (c : Nat) (f : Text × List (Rose TagRow) → Text × List (Rose TagRow)) : Prop where
  cur : o'.cur = o.cur
  grown : Grown o.rows o'.rows c
  row : rowAt o'.rows c = { rowAt o.rows c with txt := (rowAt o'.rows c).txt }
  content : ((rowAt o'.rows c).txt, forest o'.rows c) = f ((rowAt o.rows c).txt, forest o.rows c)

namespace Filled

theorem refl (o : Outline) (c : Nat) : Filled o o c id := ⟨rfl, Grown.refl o.rows c, rfl, rfl⟩

theorem trans (h : Filled o o' c f) (h' : Filled o' o'' c g) : Filled o o'' c (g ∘ f) where
  cur := h'.cur.trans h.cur
  grown := h.grown.trans h'.grown
  row := by rw [h'.row, h.row]
  content := by rw [h'.content, h.content, Function.comp_apply]

/-- The trees of the children stay as they are while their parent changes. -/
theorem forest_of_grown {t t' : Table TagRow} (h : Grown t t' c) (hroot : Rooted t) :
    (kids t c).flatMap (tree t') = forest t c :=
  List.flatMap_congr fun _ hj => tree_of_grown h hroot (hroot _ _ (mem_kids.mp hj)) (lt_length_of_mem_kids hj)

theorem addText (h : o.Valid) (hc : o.cur = some c) : Filled o (o.addText s) c fun x => (x.1 ++ s, x.2) := by
  have hlt := h.cur c hc
  rw [Outline.addText_of_cur hc]
  have hgrown : Grown o.rows (edit o.rows c fun r => { r with txt := r.txt ++ s }) c := Grown.edit o.rows c _
  refine ⟨rfl, hgrown, ?_, ?_⟩
  · simp only [rowAt_edit hlt]
  · simp only [rowAt_edit hlt]
    refine congrArg _ ?_
    rw [forest, kids_edit]
    exact forest_of_grown hgrown h.rooted

theorem length_lt (o : Outline) (a : TagRow) : o.rows.length < (push o.rows c a).length := by
  rw [length_push]
  exact Nat.lt_succ_self _

/-- **A tag that is opened, filled and closed** becomes a child. -/
theorem child (h : o.Valid) (hc : o.cur = some c) (hnamed : (rowAt o.rows c).name ≠ none)
    (hfilled : Filled (o.openTag name attr) o' o.rows.length f) :
    Filled o o'.closeTag c fun x =>
      (x.1, x.2 ++ [.node ⟨some name, attr, (f ([], [])).1, x.1.length⟩ (f ([], [])).2]) := by
  have hlt := h.cur c hc
  rw [Outline.openTag_of_named hc hnamed] at hfilled
  obtain ⟨hcur, hgrown, hrow, hcontent⟩ := hfilled
  simp only [rowAt_push] at hcur hgrown hrow hcontent
  have hgrown' := hgrown.of_push hlt
  have hempty : forest (push o.rows c ⟨some name, attr, [], (rowAt o.rows c).txt.length⟩) o.rows.length = [] := by
    rw [forest, kids_push, kids_length h.rooted, if_neg hlt.ne]
    rfl
  rw [hempty] at hcontent
  have hrooted : Rooted o'.rows := hgrown'.rooted h.rooted
  have hsame : o'.rows[c]? = o.rows[c]? :=
    (hgrown.row c (hlt.trans (length_lt o _)) hlt.ne).trans (getElem?_push_of_lt hlt)
  have hkids : kids o'.rows c = kids o.rows c ++ [o.rows.length] := by
    rw [hgrown.kids c (hlt.trans (length_lt o _)) hlt.ne, kids_push, if_pos rfl]
  have hnew : tree o'.rows o.rows.length =
      [.node ⟨some name, attr, (f ([], [])).1, (rowAt o.rows c).txt.length⟩ (f ([], [])).2] := by
    have hlen : o.rows.length < o'.rows.length := (length_lt o _).trans_le hgrown.length_le
    have hget := List.getElem?_eq_getElem hlen
    have hvalue : o'.rows[o.rows.length].2 = rowAt o'.rows o.rows.length := by
      rw [rowAt, hget]
      rfl
    rw [tree_eq hrooted hget, hvalue, hrow, ← hcontent]
    rfl
  refine ⟨?_, hgrown', ?_, ?_⟩
  · rw [Outline.closeTag, hcur, Option.bind_some, hgrown.parent, parentAt_push, hc]
  · rw [Outline.closeTag, rowAt, hsame]
    rfl
  · rw [Outline.closeTag, rowAt, hsame, forest, hkids, List.flatMap_append, forest_of_grown hgrown' h.rooted,
      List.flatMap_singleton, hnew]
    rfl

end Filled

/-! ## Reading markups -/

variable {root root' root'' : EzxmlRoot} {items items' : List Item}

/-- Whatever is to be read behind these markups is read from the state they lead to. -/
def Reaches (root : EzxmlRoot) (items : List Item) (root' : EzxmlRoot) : Prop :=
  ∀ rest, rest ≠ [] → runItems (items ++ rest) root = runItems rest root'

namespace Reaches

theorem refl (root : EzxmlRoot) : Reaches root [] root := fun _ _ => rfl

theorem trans (h : Reaches root items root') (h' : Reaches root' items' root'') :
    Reaches root (items ++ items') root'' := by
  intro rest hrest
  rw [List.append_assoc, h _ (List.append_ne_nil_of_right_ne_nil _ hrest), h' rest hrest]

/-- One markup, and the text behind it. -/
theorem step {m : Markup} {t : TextRun} (hrun : m.run root = some (.inr root'))
    (htext : deliver root' t.bytes t.text = some root'') : Reaches root [⟨m, t⟩] root'' := by
  intro rest hrest
  obtain ⟨i, rest, rfl⟩ := List.exists_cons_of_ne_nil hrest
  rw [List.singleton_append, runItems, hrun]
  simp only [Option.bind_eq_bind, Option.bind_some, htext]

end Reaches

/-- Nothing but the processing instructions has changed. -/
structure SameTags (root root' : EzxmlRoot) : Prop where
  heap : root'.heap = root.heap
  cur : root'.cur = root.cur
  err : root'.err = root.err

theorem Keeps.sameTags (h : Keeps root o) (hsame : SameTags root root') : Keeps root' o :=
  ⟨hsame.heap ▸ h.tagged, hsame.cur.trans h.cur, h.valid⟩

theorem run_aside (h : Keeps root o) (a : Aside) :
    ∃ root', Markup.run root (.aside a) = some (.inr root') ∧ SameTags root root' := by
  cases a with
  | comment body _ => exact ⟨root, rfl, rfl, rfl, rfl⟩
  | doctype body _ => exact ⟨root, rfl, rfl, rfl, rfl⟩
  | instruction body _ _ _ =>
      have hread := h.tagged.2 0 h.valid.pos
      rw [Markup.run]
      unfold ezxmlProcInst
      simp only [hread, Option.bind_eq_bind, Option.bind_some]
      split_ifs
      · exact ⟨root, rfl, rfl, rfl, rfl⟩
      · exact ⟨_, rfl, rfl, rfl, rfl⟩

/-- A text goes to the tag that is open. -/
theorem deliver_eq (h : Keeps root o) (hc : o.cur = some c) (hnamed : (rowAt o.rows c).name ≠ none) {text : Text}
    (hempty : s = [] → text = []) :
    ∃ root', deliver root s text = some root' ∧ root'.err = root.err ∧ Keeps root' (o.addText text) := by
  have hname : o.curName.isSome = true := by
    rw [Outline.curName, hc]
    exact Option.isSome_iff_ne_none.mpr hnamed
  unfold deliver
  rw [h.takesContent_eq, hname]
  by_cases hs : s = []
  · rw [hempty hs, Outline.addText_nil]
    exact ⟨root, by simp [hs], rfl, h⟩
  · obtain ⟨root', hadd, -, herr, hkeeps⟩ := h.addContent_eq (s := text) hc
    refine ⟨root', ?_, herr, hkeeps⟩
    simp [hs, hadd]

/-- Outside of the root tag a text is not looked at. -/
theorem deliver_outside (h : Keeps root o) (hname : o.curName = none) (text : Text) :
    deliver root s text = some root := by
  unfold deliver
  rw [h.takesContent_eq, hname]
  simp

theorem text_eq_nil {t : TextRun} (h : t.bytes = []) : t.text = [] := by
  cases t with
  | nil => rfl
  | cons p t =>
      have hp : p.bytes = [] := (List.append_eq_nil_iff.mp h).1
      cases p <;> exact nomatch hp

/-- A markup, and the text behind it goes to the tag that is open then. -/
theorem reaches_text {m : Markup} (t : TextRun) (hrun : m.run root = some (.inr root')) (h : Keeps root' o)
    (hc : o.cur = some c) (hnamed : (rowAt o.rows c).name ≠ none) :
    ∃ root'', Reaches root [⟨m, t⟩] root'' ∧ root''.err = root'.err ∧ Keeps root'' (o.addText t.text) := by
  obtain ⟨root'', htext, herr, hkeeps⟩ := deliver_eq h hc hnamed (s := t.bytes) text_eq_nil
  exact ⟨root'', Reaches.step hrun htext, herr, hkeeps⟩

theorem Filled.named (h : Filled o o' c f) (hnamed : (rowAt o.rows c).name ≠ none) :
    (rowAt o'.rows c).name ≠ none := by
  rw [h.row]
  exact hnamed

theorem Filled.curName (h : Filled o o' c f) (hc : o.cur = some c) {name : Option Text}
    (hname : (rowAt o.rows c).name = name) : o'.curName = name := by
  rw [Outline.curName, h.cur, hc, Option.bind_some, h.row]
  exact hname

/-! ## Tags -/

/-- A tag that is opened below another one is a new row. -/
theorem open_cur (hc : o.cur = some c) (hnamed : (rowAt o.rows c).name ≠ none) (t : Tag) :
    (o.openTag t.name.text t.pairs).cur = some o.rows.length ∧
      (rowAt (o.openTag t.name.text t.pairs).rows o.rows.length).name ≠ none := by
  rw [Outline.openTag_of_named hc hnamed]
  exact ⟨rfl, by simp⟩

theorem open_name (hc : o.cur = some c) (hnamed : (rowAt o.rows c).name ≠ none) (t : Tag) :
    (rowAt (o.openTag t.name.text t.pairs).rows o.rows.length).name = some t.name.text := by
  rw [Outline.openTag_of_named hc hnamed]
  simp

theorem run_start (h : Keeps root o) (hc : o.cur = some c) (t : Tag) :
    ∃ root', Markup.run root (.startTag t) = some (.inr root') ∧ root'.err = root.err ∧
      Keeps root' (o.openTag t.name.text t.pairs) := by
  obtain ⟨root', hopen, -, herr, hkeeps⟩ := h.openTag (by rw [hc]; exact Option.some_ne_none c)
  refine ⟨root', ?_, herr, hkeeps⟩
  rw [Markup.run, if_neg (by rw [h.cur, hc]; exact Option.some_ne_none c), hopen, Option.map_some]

theorem run_end {name : XmlName} (h : Keeps root o) (space : Blanks) (hname : o.curName = some name.text) :
    ∃ root', Markup.run root (.endTag name space) = some (.inr root') ∧ root'.err = root.err ∧
      Keeps root' o.closeTag := by
  obtain ⟨hclose, hkeeps⟩ := h.closeTag hname
  refine ⟨{ root with cur := o.closeTag.cur }, ?_, rfl, hkeeps⟩
  rw [Markup.run, hclose]
  rfl

theorem run_empty (h : Keeps root o) (hc : o.cur = some c) (hnamed : (rowAt o.rows c).name ≠ none) (t : Tag) :
    ∃ root', Markup.run root (.emptyTag t) = some (.inr root') ∧ root'.err = root.err ∧
      Keeps root' (o.openTag t.name.text t.pairs).closeTag ∧
      Filled o (o.openTag t.name.text t.pairs).closeTag c fun x =>
        (x.1, x.2 ++ [.node ⟨some t.name.text, t.pairs, [], x.1.length⟩ []]) := by
  obtain ⟨root₁, hopen, -, herr, hkeeps⟩ := h.openTag (by rw [hc]; exact Option.some_ne_none c)
  have hname : (o.openTag t.name.text t.pairs).curName = some t.name.text :=
    (Filled.refl _ _).curName (open_cur hc hnamed t).1 (open_name hc hnamed t)
  obtain ⟨hclose, hkeeps'⟩ := hkeeps.closeTag hname
  refine ⟨{ root₁ with cur := (o.openTag t.name.text t.pairs).closeTag.cur }, ?_, herr, hkeeps',
    Filled.child h.valid hc hnamed (Filled.refl _ _)⟩
  rw [Markup.run, if_neg (by rw [h.cur, hc]; exact Option.some_ne_none c), hopen]
  simp only [Option.bind_eq_bind, Option.bind_some, hclose]
  rfl

/-! ## The content of an element -/

/-- **A content is read to its end** and fills the tag that is open. -/
theorem content_reaches (x : Content) (h : Keeps root o) (hc : o.cur = some c)
    (hnamed : (rowAt o.rows c).name ≠ none) :
    ∃ root' o', Keeps root' o' ∧ root'.err = root.err ∧ Reaches root x.items root' ∧ Filled o o' c x.fill := by
  induction x generalizing root o c with
  | nil => exact ⟨root, o, h, rfl, Reaches.refl root, Filled.refl o c⟩
  | aside a after rest ih =>
      obtain ⟨root₁, hrun, hsame⟩ := run_aside h a
      obtain ⟨root₂, hreach, herr, hkeeps⟩ := reaches_text after hrun (h.sameTags hsame) hc hnamed
      have hfill := Filled.addText (s := after.text) h.valid hc
      obtain ⟨root₃, o₃, hkeeps₃, herr₃, hreach₃, hfill₃⟩ := ih hkeeps (hfill.cur.trans hc) (hfill.named hnamed)
      exact ⟨root₃, o₃, hkeeps₃, herr₃.trans (herr.trans hsame.err), hreach.trans hreach₃, hfill.trans hfill₃⟩
  | cdata body hbody last after rest ih =>
      have hempty : body = [] → normalizeLines body = [] := by
        rintro rfl
        rfl
      obtain ⟨root₁, hdeliver, herr₁, hkeeps₁⟩ := deliver_eq h hc hnamed hempty
      have hrun : (Markup.cdata body hbody last).run root = some (.inr root₁) := by
        rw [Markup.run, hdeliver, Option.map_some]
      have hfill₁ := Filled.addText (s := normalizeLines body) h.valid hc
      obtain ⟨root₂, hreach, herr, hkeeps⟩ :=
        reaches_text after hrun hkeeps₁ (hfill₁.cur.trans hc) (hfill₁.named hnamed)
      have hfill₂ := Filled.addText (s := after.text) hkeeps₁.valid (hfill₁.cur.trans hc)
      obtain ⟨root₃, o₃, hkeeps₃, herr₃, hreach₃, hfill₃⟩ :=
        ih hkeeps (hfill₂.cur.trans (hfill₁.cur.trans hc)) (hfill₂.named (hfill₁.named hnamed))
      exact ⟨root₃, o₃, hkeeps₃, herr₃.trans (herr.trans herr₁), hreach.trans hreach₃,
        (hfill₁.trans hfill₂).trans hfill₃⟩
  | empty t after rest ih =>
      obtain ⟨root₁, hrun, herr₁, hkeeps₁, hfill₁⟩ := run_empty h hc hnamed t
      obtain ⟨root₂, hreach, herr, hkeeps⟩ :=
        reaches_text after hrun hkeeps₁ (hfill₁.cur.trans hc) (hfill₁.named hnamed)
      have hfill₂ := Filled.addText (s := after.text) hkeeps₁.valid (hfill₁.cur.trans hc)
      obtain ⟨root₃, o₃, hkeeps₃, herr₃, hreach₃, hfill₃⟩ :=
        ih hkeeps (hfill₂.cur.trans (hfill₁.cur.trans hc)) (hfill₂.named (hfill₁.named hnamed))
      exact ⟨root₃, o₃, hkeeps₃, herr₃.trans (herr.trans herr₁), hreach.trans hreach₃,
        (hfill₁.trans hfill₂).trans hfill₃⟩
  | element t lead inner space after rest ihInner ih =>
      obtain ⟨root₁, hrun, herr₁, hkeeps₁⟩ := run_start h hc t
      obtain ⟨hcur₁, hnamed₁⟩ := open_cur hc hnamed t
      obtain ⟨root₂, hreach₂, herr₂, hkeeps₂⟩ := reaches_text lead hrun hkeeps₁ hcur₁ hnamed₁
      have hfill₂ := Filled.addText (s := lead.text) hkeeps₁.valid hcur₁
      obtain ⟨root₃, o₃, hkeeps₃, herr₃, hreach₃, hfill₃⟩ :=
        ihInner hkeeps₂ (hfill₂.cur.trans hcur₁) (hfill₂.named hnamed₁)
      have hinner := hfill₂.trans hfill₃
      -- the end tag, and the text behind it
      obtain ⟨root₄, hrun₄, herr₄, hkeeps₄⟩ := run_end hkeeps₃ space (hinner.curName hcur₁ (open_name hc hnamed t))
      have hfill₄ := Filled.child h.valid hc hnamed hinner
      obtain ⟨root₅, hreach₅, herr₅, hkeeps₅⟩ :=
        reaches_text after hrun₄ hkeeps₄ (hfill₄.cur.trans hc) (hfill₄.named hnamed)
      have hfill₅ := Filled.addText (s := after.text) hkeeps₄.valid (hfill₄.cur.trans hc)
      obtain ⟨root₆, o₆, hkeeps₆, herr₆, hreach₆, hfill₆⟩ :=
        ih hkeeps₅ (hfill₅.cur.trans (hfill₄.cur.trans hc)) (hfill₅.named (hfill₄.named hnamed))
      refine ⟨root₆, o₆, hkeeps₆, ?_, ?_, (hfill₄.trans hfill₅).trans hfill₆⟩
      · rw [herr₆, herr₅, herr₄, herr₃, herr₂, herr₁]
      · exact hreach₂.trans (hreach₃.trans (hreach₅.trans hreach₆))

end Workload
