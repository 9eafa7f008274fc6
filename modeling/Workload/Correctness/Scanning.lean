import Workload.Correctness.Decoding

/-!
# `Correctness.Scanning` — the parser reads one markup after the other

Where a markup is written, the parser does what the markup says (`Markup.run`) and stands behind it: it takes
neither less nor more. A document is read as its markups and the texts between them (`runItems`), whether they fit
together or not.

* `parseMarkup_eq` — one markup; its last character may be the last one of the document, which the parser has taken
  away.
* **`parseBytes_eq`** — the whole document.
-/

namespace Workload.Syntax

open Spans

variable {c e : Char} {root : EzxmlRoot} {s r : Text} {k : Nat}

/-! ## Characters -/

theorem toNat_of_isXmlWs (h : isXmlWs c = true) : c.toNat ≤ 32 ∧ isspace c = true := by
  simp only [isXmlWs, Bool.or_eq_true, beq_iff_eq, or_assoc] at h
  rcases h with rfl | rfl | rfl | rfl <;> decide

theorem toNat_of_isspace (h : isspace c = true) : c.toNat ≤ 32 := by
  simp only [isspace, Bool.or_eq_true, beq_iff_eq, Bool.and_eq_true, decide_eq_true_eq, Char.le_def,
    UInt32.le_iff_toNat_le] at h
  rcases h with rfl | ⟨-, hhi⟩
  · decide
  · have hcr : c.toNat ≤ 13 := hhi
    omega

/-- What ends a name is in no name. -/
theorem nameChar_ne (h : isNameChar c = true) :
    isXmlWs c = false ∧ isspace c = false ∧ c ≠ '/' ∧ c ≠ '>' ∧ c ≠ '=' := by
  have hlow : 32 < c.toNat := by
    simp only [isNameChar, Bool.or_eq_true, isAlphanum_iff, decide_eq_true_eq, beq_iff_eq, or_assoc] at h
    rcases h with h | h | h | rfl | rfl | rfl | rfl | h
    all_goals first | decide | omega
  refine ⟨?_, ?_, ?_, ?_, ?_⟩
  · rw [← Bool.not_eq_true]
    exact fun hws => Nat.not_lt_of_le (toNat_of_isXmlWs hws).1 hlow
  · rw [← Bool.not_eq_true]
    exact fun hspace => Nat.not_lt_of_le (toNat_of_isspace hspace) hlow
  all_goals
    rintro rfl
    exact absurd h (by decide)

/-! ## Attributes -/

/-- The end of a tag: behind its attributes. -/
def AtEnd (r : Text) : Prop := ∀ c ∈ r.head?, c = '/' ∨ c = '>'

theorem stops_of_atEnd (h : AtEnd r) : Stops isspace r := fun c hc => by
  rcases h c hc with rfl | rfl <;> rfl

theorem quote_ne_reference (q : Quote) (h : isReferenceChar c = true) : c ≠ q.char := by
  rintro rfl
  cases q <;> exact nomatch h

theorem valueBytes_ne (a : Attribute) (hc : c ∈ a.valueBytes) : c ≠ a.quote.char := by
  obtain ⟨p, -, hp⟩ := List.mem_flatMap.mp hc
  cases p with
  | char d hd =>
      obtain rfl := List.mem_singleton.mp hp
      exact (valueChar_ne hd).1
  | lineEnd =>
      have hcases : c = '\r' ∨ c = '\n' := by simpa [Piece.bytes] using hp
      rcases hcases with rfl | rfl <;> cases a.quote <;> decide
  | entity e => exact quote_ne_reference a.quote (isReferenceChar_entity e hp)
  | reference x => exact quote_ne_reference a.quote (isReferenceChar_reference x hp)

/-- The value stands between the quotes. -/
theorem attrValue_eq (a : Attribute) (r : Text) :
    attrValue a.quote.char (a.valueBytes ++ a.quote.char :: r) = some (some (a.pair.2, r)) := by
  have hall : ∀ c ∈ a.valueBytes, (c != a.quote.char) = true := fun c hc => bne_iff_ne.mpr (valueBytes_ne a hc)
  have hstop : Stops (· != a.quote.char) (a.quote.char :: r) := stops_cons (by simp)
  have hspill := spill_pieces (fun c h => (valueChar_ne h).2.2) a.value r
  unfold attrValue
  rw [takeWhile_eq hall hstop, dropWhile_eq hall hstop]
  simp only [Attribute.valueBytes, ezxmlDecode_value, Option.bind_eq_bind, Option.bind_some, hspill]
  rfl

/-- Behind the name there is white space or the equals sign, and behind them the quotes. -/
theorem equals_eq (a : Attribute) (r : Text) :
    ∃ d s, a.before.text ++ '=' :: (a.after.text ++ a.quote.char :: r) = d :: s ∧
      (d = '=' ∨ isXmlWs d = true) ∧
      s.dropWhile (fun c => isXmlWs c || c == '=') = a.quote.char :: r := by
  have hstop : Stops (fun c => isXmlWs c || c == '=') (a.quote.char :: r) :=
    stops_cons (by cases a.quote <;> rfl)
  have hafter : ∀ c ∈ a.after.text, (isXmlWs c || c == '=') = true := fun c hc => by
    rw [a.after.isWs c hc, Bool.true_or]
  cases hbefore : a.before.text with
  | nil =>
      refine ⟨'=', a.after.text ++ a.quote.char :: r, rfl, Or.inl rfl, ?_⟩
      exact dropWhile_eq hafter hstop
  | cons d ds =>
      have hws : ∀ c ∈ d :: ds, isXmlWs c = true := hbefore ▸ a.before.isWs
      refine ⟨d, ds ++ '=' :: (a.after.text ++ a.quote.char :: r), rfl, Or.inr (hws d List.mem_cons_self), ?_⟩
      have hall : ∀ c ∈ ds ++ '=' :: a.after.text, (isXmlWs c || c == '=') = true := fun c hc => by
        rcases List.mem_append.mp hc with hc | hc
        · rw [hws c (List.mem_cons_of_mem d hc), Bool.true_or]
        · rcases List.mem_cons.mp hc with rfl | hc
          · rfl
          · exact hafter c hc
      rw [← List.cons_append, ← List.append_assoc]
      exact dropWhile_eq hall hstop

/-- One attribute. -/
theorem attrLoop_cons (a : Attribute) (attr : List (Text × Text)) (r : Text) :
    attrLoop (k + 1) attr ((a.bytes ++ r).dropWhile isspace) =
      attrLoop k (attr ++ [a.pair]) (r.dropWhile isspace) := by
  obtain ⟨n, ns, hname⟩ : ∃ n ns, a.name.text = n :: ns := by
    refine List.exists_cons_of_ne_nil fun hnil => ?_
    have hstart := a.name.start
    rw [hnil] at hstart
    exact nomatch hstart
  have hchars : ∀ c ∈ n :: ns, isNameChar c = true := hname ▸ a.name.chars
  have hfirst := nameChar_ne (hchars n List.mem_cons_self)
  have hbytes : (a.bytes ++ r).dropWhile isspace = n :: ns ++ (a.before.text ++ '=' ::
      (a.after.text ++ a.quote.char :: (a.valueBytes ++ a.quote.char :: r))) := by
    have hstop : Stops isspace (n :: ns ++ (a.before.text ++ '=' ::
        (a.after.text ++ a.quote.char :: (a.valueBytes ++ a.quote.char :: r)))) := stops_cons hfirst.2.1
    rw [← dropWhile_eq (fun c hc => (toNat_of_isXmlWs (a.space.isWs c hc)).2) hstop, ← hname]
    simp [Attribute.bytes]
  obtain ⟨d, s, hequals, hd, hquote⟩ := equals_eq a (a.valueBytes ++ a.quote.char :: r)
  rw [hbytes, hequals]
  have hall : ∀ c ∈ n :: ns, (!(isXmlWs c || c == '=' || c == '/' || c == '>')) = true := fun c hc => by
    obtain ⟨hws, -, hslash, hgt, heq⟩ := nameChar_ne (hchars c hc)
    simp [hws, hslash, hgt, heq]
  have hstop : Stops (fun c => !(isXmlWs c || c == '=' || c == '/' || c == '>')) (d :: s) :=
    stops_cons (by rcases hd with rfl | hd <;> simp [*])
  have hif : d = '=' ∨ isspace d = true := hd.imp_right fun hd => (toNat_of_isXmlWs hd).2
  have hq : a.quote.char = '"' ∨ a.quote.char = '\'' := by cases a.quote <;> simp [Quote.char]
  rw [List.cons_append, attrLoop, if_neg (not_or.mpr ⟨hfirst.2.2.1, hfirst.2.2.2.1⟩), ← List.cons_append]
  simp only [takeWhile_eq hall hstop, dropWhile_eq hall hstop, if_pos hif, hquote, if_pos hq, attrValue_eq,
    Option.bind_eq_bind, Option.bind_some]
  rw [← hname]
  rfl

/-- **The attributes of a tag**, up to its end. -/
theorem attrLoop_eq (attributes : List Attribute) (space : Blanks) (hr : AtEnd r) (attr : List (Text × Text))
    (hk : attributes.length < k) :
    attrLoop k attr ((attributes.flatMap Attribute.bytes ++ (space.text ++ r)).dropWhile isspace) =
      some (.inl (attr ++ attributes.map Attribute.pair, r)) := by
  induction attributes generalizing attr k with
  | nil =>
      obtain ⟨k, rfl⟩ := Nat.exists_eq_add_one_of_ne_zero (by omega : k ≠ 0)
      rw [List.flatMap_nil, List.nil_append, dropWhile_eq (fun c hc => (toNat_of_isXmlWs (space.isWs c hc)).2)
        (stops_of_atEnd hr), List.map_nil, List.append_nil]
      cases r with
      | nil => rfl
      | cons c r => rw [attrLoop, if_pos (hr c rfl)]
  | cons a attributes ih =>
      obtain ⟨k, rfl⟩ := Nat.exists_eq_add_one_of_ne_zero (by omega : k ≠ 0)
      rw [List.flatMap_cons, List.append_assoc, attrLoop_cons,
        ih _ (by rw [List.length_cons] at hk; omega), List.append_assoc, List.singleton_append, List.map_cons]

/-! ## One markup -/

/-- The text `s`, decoded, goes to the tag that is open. -/
def deliver (root : EzxmlRoot) (s text : Text) : Option EzxmlRoot := do
  let takes ← takesContent root
  if takes = false ∨ s = [] then some root else addContent root text

/-- What a markup does: it goes on, or the parser returns with an error. -/
def Markup.run (root : EzxmlRoot) : Markup → Option (EzxmlRoot ⊕ EzxmlRoot)
  | startTag t =>
      if root.cur = none then some (.inl (ezxmlErr root "markup outside of root element".toList))
      else (ezxmlOpenTag root t.name.text t.pairs).map .inr
  | emptyTag t =>
      if root.cur = none then some (.inl (ezxmlErr root "markup outside of root element".toList))
      else do
        let root ← ezxmlOpenTag root t.name.text t.pairs
        let closed ← ezxmlCloseTag root t.name.text
        some (.inr (closed.elim id id))
  | endTag name _ => (ezxmlCloseTag root name.text).map Sum.swap
  | cdata body _ _ => (deliver root body (normalizeLines body)).map .inr
  | aside (.comment _ _) => some (.inr root)
  | aside (.instruction body _ _ _) => (ezxmlProcInst root body).map .inr
  | aside (.doctype _ _) => some (.inr root)

/-- The last character of a markup is next, or it was the last one of the document. -/
def Ends (e : Char) (s : Text) : Prop := s.head? = some '>' ∨ s = [] ∧ e = '>'

theorem Ends.atEnd (h : Ends e s) : AtEnd s := by
  intro c hc
  rcases h with h | ⟨rfl, -⟩
  · exact Or.inr (Option.some.inj (hc.symm.trans h))
  · exact nomatch hc

theorem ezxmlCharContent_eq {t : Char} {text : Text} (hdecode : ezxmlDecode s t = some text) (hspill : spill s r = r) :
    ezxmlCharContent root s r t = (deliver root s text).map (·, r) := by
  unfold ezxmlCharContent deliver
  cases takesContent root with
  | none => rfl
  | some takes =>
      simp only [Option.bind_eq_bind, Option.bind_some, hdecode, hspill]
      split_ifs
      · rfl
      · cases addContent root text <;> rfl

/-- The name of a tag ends where its attributes, its white space or its end start. -/
theorem tagName_eq (t : Tag) (hr : AtEnd r) :
    (t.bytes ++ r).takeWhile (fun c => !(isXmlWs c || c == '/' || c == '>')) = t.name.text ∧
      (t.bytes ++ r).dropWhile (fun c => !(isXmlWs c || c == '/' || c == '>')) =
        t.attributes.flatMap Attribute.bytes ++ (t.space.text ++ r) := by
  have hall : ∀ c ∈ t.name.text, (!(isXmlWs c || c == '/' || c == '>')) = true := fun c hc => by
    obtain ⟨hws, -, hslash, hgt, -⟩ := nameChar_ne (t.name.chars c hc)
    simp [hws, hslash, hgt]
  have hws : ∀ c, isXmlWs c = true → (!(isXmlWs c || c == '/' || c == '>')) = false := fun c hc => by simp [hc]
  have hend : Stops (fun c => !(isXmlWs c || c == '/' || c == '>')) r := fun c hc => by
    rcases hr c hc with rfl | rfl <;> rfl
  have hspace : Stops (fun c => !(isXmlWs c || c == '/' || c == '>')) (t.space.text ++ r) :=
    stops_append (fun c hc => hws c (t.space.isWs c (List.mem_of_head? hc))) fun _ => hend
  have hstop : Stops (fun c => !(isXmlWs c || c == '/' || c == '>'))
      (t.attributes.flatMap Attribute.bytes ++ (t.space.text ++ r)) := by
    cases t.attributes with
    | nil => exact hspace
    | cons a attributes =>
        -- white space stands in front of every attribute
        obtain ⟨w, ws, hw⟩ := List.exists_cons_of_ne_nil a.space_ne_nil
        have hfirst : isXmlWs w = true := a.space.isWs w (hw ▸ List.mem_cons_self)
        rw [List.flatMap_cons, Attribute.bytes, hw]
        exact stops_cons (hws w hfirst)
  rw [Tag.bytes, List.append_assoc, List.append_assoc]
  exact ⟨takeWhile_eq hall hstop, dropWhile_eq hall hstop⟩

theorem length_attributes (t : Tag) (r : Text) : t.attributes.length < (t.bytes ++ r).length + 1 := by
  have hle : t.attributes.length ≤ (t.attributes.flatMap Attribute.bytes).length := by
    induction t.attributes with
    | nil => exact le_rfl
    | cons a attributes ih =>
        have hpos : 0 < a.bytes.length := by simp [Attribute.bytes]
        rw [List.flatMap_cons, List.length_append, List.length_cons]
        omega
  rw [Tag.bytes]
  simp only [List.length_append]
  omega

theorem attributes_eq (t : Tag) (hr : AtEnd r) :
    attrLoop ((t.bytes ++ r).length + 1) []
      ((t.attributes.flatMap Attribute.bytes ++ (t.space.text ++ r)).dropWhile isspace) = some (.inl (t.pairs, r)) :=
  attrLoop_eq t.attributes t.space hr [] (length_attributes t r)

theorem parseTag_start (t : Tag) (hs : Ends e s) :
    parseTag e root (t.bytes ++ s) = (Markup.run root (.startTag t)).map (Sum.map id (·, s)) := by
  obtain ⟨htake, hdrop⟩ := tagName_eq t hs.atEnd
  unfold parseTag Markup.run
  split_ifs with hcur
  · rfl
  · simp only [htake, hdrop]
    rw [attributes_eq t hs.atEnd]
    have hclosing : s.head? = some '>' ∨ s = [] ∧ e = '>' := hs
    simp only [Option.bind_eq_bind, Option.bind_some]
    split
    · next heq => exact nomatch heq
    · next heq =>
        -- no slash stands there
        obtain ⟨-, rfl⟩ := Prod.mk.inj (Sum.inl.inj heq)
        exact absurd hclosing (by simp)
    · next heq =>
        obtain ⟨rfl, rfl⟩ := Prod.mk.inj (Sum.inl.inj heq)
        rw [if_pos hclosing]
        cases ezxmlOpenTag root t.name.text t.pairs <;> rfl

theorem parseTag_empty (t : Tag) (hs : Ends e s) :
    parseTag e root (t.bytes ++ '/' :: s) = (Markup.run root (.emptyTag t)).map (Sum.map id (·, s)) := by
  have hr : AtEnd ('/' :: s) := fun c hc => Or.inl (Option.some.inj hc).symm
  obtain ⟨htake, hdrop⟩ := tagName_eq t hr
  have hends : ¬((s ≠ [] ∧ s.head? ≠ some '>') ∨ (s = [] ∧ e ≠ '>')) := by
    rcases hs with hs | ⟨rfl, rfl⟩
    · rintro (⟨-, hne⟩ | ⟨rfl, -⟩)
      · exact hne hs
      · exact nomatch hs
    · simp
  unfold parseTag Markup.run
  split_ifs with hcur
  · rfl
  · simp only [htake, hdrop]
    rw [attributes_eq t hr]
    simp only [Option.bind_eq_bind, Option.bind_some, if_neg hends]
    cases ezxmlOpenTag root t.name.text t.pairs with
    | none => rfl
    | some root =>
        simp only [Option.bind_some]
        cases ezxmlCloseTag root t.name.text with
        | none => rfl
        | some closed => cases closed <;> rfl

theorem parseEnd_eq (name : XmlName) (space : Blanks) (hs : Ends e s) :
    parseEnd e root (name.text ++ (space.text ++ s)) =
      (Markup.run root (.endTag name space)).map (Sum.map id (·, s)) := by
  have hall : ∀ c ∈ name.text, (!(isXmlWs c || c == '>')) = true := fun c hc => by
    obtain ⟨hws, -, -, hgt, -⟩ := nameChar_ne (name.chars c hc)
    simp [hws, hgt]
  have hgt : ∀ c ∈ s.head?, c = '>' := fun c hc => by
    rcases hs with hs | ⟨rfl, -⟩
    · exact Option.some.inj (hc.symm.trans hs)
    · exact nomatch hc
  have hspace : Stops (fun c => !(isXmlWs c || c == '>')) (space.text ++ s) :=
    stops_append (fun c hc => by simp [space.isWs c (List.mem_of_head? hc)]) fun _ c hc => by simp [hgt c hc]
  have hskip : (space.text ++ s).dropWhile isXmlWs = s :=
    dropWhile_eq space.isWs fun c hc => by
      rw [hgt c hc]
      rfl
  have hends : ¬(space.text ++ s = [] ∧ e ≠ '>') := by
    rintro ⟨hnil, hne⟩
    rcases hs with hs | ⟨-, rfl⟩
    · rw [(List.append_eq_nil_iff.mp hnil).2] at hs
      exact nomatch hs
    · exact hne rfl
  unfold parseEnd Markup.run
  simp only [takeWhile_eq hall hspace, dropWhile_eq hall hspace, if_neg hends, hskip]
  cases ezxmlCloseTag root name.text with
  | none => rfl
  | some closed => cases closed <;> rfl

/-! ## Searching for the end of a markup -/

/-- What is searched for is found where it stands first. -/
theorem strstr_eq {sub body : Text} (h : NotIn sub (body ++ sub.dropLast)) (r : Text) :
    strstr (body ++ (sub ++ r)) sub = some (body, sub ++ r) := by
  induction body with
  | nil =>
      have hpre : sub.isPrefixOf (sub ++ r) = true := List.isPrefixOf_iff_prefix.mpr (List.prefix_append sub r)
      rw [List.nil_append, strstr.eq_def, if_pos hpre]
  | cons c body ih =>
      have hpre : ¬sub.isPrefixOf (c :: body ++ (sub ++ r)) = true := by
        intro hpre
        -- it would end before the one that stands there
        have hshort : sub.length ≤ (c :: body ++ sub.dropLast).length := by
          rw [List.cons_append, List.length_cons, List.length_append, List.length_dropLast]
          omega
        have hlong : c :: body ++ sub.dropLast <+: c :: body ++ (sub ++ r) :=
          (List.prefix_append_right_inj _).mpr ((List.dropLast_prefix sub).trans (List.prefix_append sub r))
        exact h (List.prefix_of_prefix_length_le (List.isPrefixOf_iff_prefix.mp hpre) hlong hshort).isInfix
      have hrest : NotIn sub (body ++ sub.dropLast) := fun hin => h (List.infix_cons hin)
      rw [strstr.eq_def, if_neg hpre]
      simp only [List.cons_append, ih hrest, Option.map_some]

theorem notIn_cdata {body : Text} (h : NotIn "]]>".toList body) : NotIn "]]>".toList (body ++ "]]".toList) := by
  rintro ⟨l, r, hl⟩
  -- the last character of a find is no bracket
  have hlast : ∀ {x y : Text} {d : Char}, x ++ "]]>".toList = y ++ [d] → d = '>' := fun {x y d} hxy => by
    have hget := congrArg List.getLast? hxy
    rw [List.getLast?_append, List.getLast?_concat] at hget
    exact (Option.some.inj hget).symm
  obtain rfl | ⟨r, d, rfl⟩ := List.eq_nil_or_concat' r
  · rw [List.append_nil] at hl
    exact nomatch hlast (y := body ++ [']']) (d := ']') (by rw [hl]; simp)
  · obtain rfl | ⟨r, d', rfl⟩ := List.eq_nil_or_concat' r
    · have hinit : l ++ "]]>".toList = body ++ [']'] := by
        have hcut := congrArg List.dropLast hl
        simpa [← List.append_assoc, List.dropLast_append_of_ne_nil] using hcut
      exact nomatch hlast hinit
    · refine h ⟨l, r, ?_⟩
      have hcut := congrArg (fun t : Text => t.dropLast.dropLast) hl
      simpa [← List.append_assoc, List.dropLast_append_of_ne_nil] using hcut

theorem findInstruction_eq {body : Text} (h : NotIn "?>".toList body) (hs : Ends e s) :
    findInstruction (body ++ '?' :: s) = some (body, s) := by
  induction body with
  | nil =>
      rcases s with - | ⟨c, s⟩
      · rfl
      · obtain rfl : c = '>' := by simpa [Ends] using hs
        rfl
  | cons c body ih =>
      have hrest := ih fun hin => h (List.infix_cons hin)
      rw [List.cons_append, findInstruction.eq_def]
      split
      · next heq => exact nomatch heq
      · next heq => exact absurd (List.cons.inj heq).2 (by simp)
      · next s' heq =>
          -- that would be the end already
          obtain ⟨rfl, htail⟩ := List.cons.inj heq
          cases body with
          | nil => exact nomatch htail
          | cons d body =>
              obtain ⟨rfl, -⟩ := List.cons.inj htail
              exact absurd ⟨[], body, rfl⟩ h
      · next heq =>
          obtain ⟨rfl, rfl⟩ := List.cons.inj heq
          rw [hrest]
          rfl

theorem parseComment_eq {body : Text} (h : NotIn "--".toList (body ++ ['-'])) (hs : Ends e s) :
    parseComment e root (body ++ ("--".toList ++ s)) = some (.inr (root, s)) := by
  unfold parseComment
  rw [strstr_eq h s]
  exact if_pos hs

theorem parseCdata_eq {body : Text} (h : NotIn "]]>".toList body) (last : body.getLast? ≠ some '\r')
    (hs : Ends e s) (hne : s ≠ []) :
    parseCdata root (body ++ ("]]".toList ++ s)) = (Markup.run root (.cdata body h last)).map (Sum.map id (·, s)) := by
  obtain ⟨r, rfl⟩ : ∃ r, s = '>' :: r := by
    rcases s with - | ⟨c, s⟩
    · exact absurd rfl hne
    · exact ⟨s, by simpa [Ends] using hs⟩
  have hfound := strstr_eq (notIn_cdata h) r
  have hspill : spill body ('>' :: r) = '>' :: r := if_neg fun h => last h.1
  have hchars : ezxmlCharContent root body ('>' :: r) 'c' = _ := ezxmlCharContent_eq (ezxmlDecode_cdata body) hspill
  unfold parseCdata
  rw [show body ++ ("]]".toList ++ '>' :: r) = body ++ ("]]>".toList ++ r) from rfl, hfound]
  change ((ezxmlCharContent root body ('>' :: r) 'c').bind fun x => some (.inr (x.1, x.2)) : Option Parsed) = _
  rw [hchars, Markup.run]
  cases deliver root body (normalizeLines body) <;> rfl

theorem parseDoctype_eq {body : Text} (h : ∀ c ∈ body, c ≠ '[' ∧ c ≠ '>') (hs : Ends e s) :
    parseDoctype e root ("!DOCTYPE".toList ++ (body ++ s)) = some (.inr (root, s)) := by
  have hall : ∀ c ∈ "!DOCTYPE".toList ++ body, (c != '[' && c != '>') = true := fun c hc => by
    rcases List.mem_append.mp hc with hc | hc
    · exact List.all_eq_true.mp (by decide : "!DOCTYPE".toList.all (fun c => c != '[' && c != '>') = true) c hc
    · simpa using h c hc
  have hgt : ∀ c ∈ s.head?, c = '>' := fun c hc => by
    rcases hs with hs | ⟨rfl, -⟩
    · exact Option.some.inj (hc.symm.trans hs)
    · exact nomatch hc
  have hstop : Stops (fun c => c != '[' && c != '>') s := fun c hc => by rw [hgt c hc]; rfl
  unfold parseDoctype
  rw [← List.append_assoc, dropWhile_eq hall hstop]
  rcases s with - | ⟨c, s⟩
  · obtain rfl : e = '>' := by simpa [Ends] using hs
    rfl
  · obtain rfl := hgt c rfl
    rfl

theorem parseInstruction_eq {body : Text} (hne : body ≠ []) (start : body.head? ≠ some '>')
    (h : NotIn "?>".toList body) (hs : Ends e s) : parseInstruction e root (body ++ '?' :: s) =
      (Markup.run root (.aside (.instruction body hne start h))).map (Sum.map id (·, s)) := by
  have hends : ¬(s = [] ∧ e ≠ '>') := by
    rintro ⟨rfl, hne⟩
    rcases hs with hs | ⟨-, rfl⟩
    · exact nomatch hs
    · exact hne rfl
  obtain ⟨c, body', rfl⟩ := List.exists_cons_of_ne_nil hne
  have hc : c ≠ '>' := fun hc => start (congrArg some hc)
  have hfind := findInstruction_eq h hs
  unfold parseInstruction
  rw [List.cons_append] at hfind ⊢
  split
  · next heq => exact nomatch heq
  · next heq => exact absurd (List.cons.inj heq).1 hc
  · rw [hfind]
    simp only [if_neg hends]
    rw [Markup.run]
    cases ezxmlProcInst root (c :: body') <;> rfl

/-! ## Dispatch -/

/-- What no name starts with. -/
theorem not_tagStart (h : isTagStart c = false) : ¬((c :: s).head?.map isTagStart).getD false = true := by
  simp [h]

theorem parseMarkup_end : parseMarkup e root ('/' :: s) = parseEnd e root s := by
  unfold parseMarkup
  rw [if_neg (not_tagStart (by decide)), if_pos (List.head?_cons ..), List.tail_cons]

/-- What an exclamation mark stands in front of. -/
theorem parseMarkup_mark : parseMarkup e root ('!' :: s) =
    if "!--".toList.isPrefixOf ('!' :: s) then parseComment e root (('!' :: s).drop 3)
    else if "![CDATA[".toList.isPrefixOf ('!' :: s) then parseCdata root (('!' :: s).drop 8)
    else if "!DOCTYPE".toList.isPrefixOf ('!' :: s) then parseDoctype e root ('!' :: s)
    else some (.inl (ezxmlErr root "unexpected <".toList)) := by
  unfold parseMarkup
  rw [if_neg (not_tagStart (by decide)), if_neg (by simp), if_neg (by simp : ¬('!' :: s).head? = some '?')]

theorem parseMarkup_comment : parseMarkup e root ("!--".toList ++ s) = parseComment e root s := by
  have hpre : "!--".toList.isPrefixOf ('!' :: '-' :: '-' :: s) = true := rfl
  rw [show "!--".toList ++ s = '!' :: '-' :: '-' :: s from rfl, parseMarkup_mark, if_pos hpre]
  rfl

theorem parseMarkup_cdata : parseMarkup e root ("![CDATA[".toList ++ s) = parseCdata root s := by
  have hcomment : ¬"!--".toList.isPrefixOf ('!' :: ("[CDATA[".toList ++ s)) = true := Bool.false_ne_true
  have hpre : "![CDATA[".toList.isPrefixOf ('!' :: ("[CDATA[".toList ++ s)) = true := rfl
  rw [show "![CDATA[".toList ++ s = '!' :: ("[CDATA[".toList ++ s) from rfl, parseMarkup_mark, if_neg hcomment,
    if_pos hpre]
  rfl

theorem parseMarkup_doctype :
    parseMarkup e root ("!DOCTYPE".toList ++ s) = parseDoctype e root ("!DOCTYPE".toList ++ s) := by
  have hcomment : ¬"!--".toList.isPrefixOf ('!' :: ("DOCTYPE".toList ++ s)) = true := Bool.false_ne_true
  have hcdata : ¬"![CDATA[".toList.isPrefixOf ('!' :: ("DOCTYPE".toList ++ s)) = true := Bool.false_ne_true
  have hpre : "!DOCTYPE".toList.isPrefixOf ('!' :: ("DOCTYPE".toList ++ s)) = true := rfl
  rw [show "!DOCTYPE".toList ++ s = '!' :: ("DOCTYPE".toList ++ s) from rfl, parseMarkup_mark, if_neg hcomment,
    if_neg hcdata, if_pos hpre]

theorem parseMarkup_instruction : parseMarkup e root ('?' :: s) = parseInstruction e root s := by
  unfold parseMarkup
  rw [if_neg (not_tagStart (by decide)), if_neg (by simp)]
  rfl

/-- **One markup**: the parser does what it says and stands at its last character. -/
theorem parseMarkup_eq (m : Markup) (hs : Ends e s) (hcdata : s = [] → ∀ body h last, m ≠ .cdata body h last) :
    parseMarkup e root (m.bytes ++ s) = (m.run root).map (Sum.map id (·, s)) := by
  have hstart : ∀ (t : Tag) (r : Text), ((t.bytes ++ r).head?.map isTagStart).getD false = true := fun t r => by
    have hname := t.name.start
    cases hn : t.name.text with
    | nil =>
        rw [hn] at hname
        exact nomatch hname
    | cons c n =>
        rw [hn] at hname
        rw [Tag.bytes, hn]
        exact hname
  cases m with
  | startTag t =>
      have htag : parseMarkup e root (t.bytes ++ s) = parseTag e root (t.bytes ++ s) := if_pos (hstart t s)
      exact htag.trans (parseTag_start t hs)
  | emptyTag t =>
      have htag : parseMarkup e root (t.bytes ++ '/' :: s) = parseTag e root (t.bytes ++ '/' :: s) :=
        if_pos (hstart t _)
      have hbytes : (Markup.emptyTag t).bytes ++ s = t.bytes ++ '/' :: s := List.append_assoc ..
      rw [hbytes, htag, parseTag_empty t hs]
  | endTag name space =>
      have hbytes : (Markup.endTag name space).bytes ++ s = '/' :: (name.text ++ (space.text ++ s)) :=
        congrArg ('/' :: ·) (List.append_assoc ..)
      rw [hbytes, parseMarkup_end, parseEnd_eq name space hs]
  | cdata body h last =>
      have hbytes : (Markup.cdata body h last).bytes ++ s = "![CDATA[".toList ++ (body ++ ("]]".toList ++ s)) := by
        rw [← List.append_assoc, ← List.append_assoc]
        rfl
      rw [hbytes, parseMarkup_cdata, parseCdata_eq h last hs fun hnil => hcdata hnil body h last rfl]
  | aside a =>
      cases a with
      | comment body h =>
          have hbytes : (Markup.aside (.comment body h)).bytes ++ s = "!--".toList ++ (body ++ ("--".toList ++ s)) := by
            rw [← List.append_assoc, ← List.append_assoc]
            rfl
          rw [hbytes, parseMarkup_comment, parseComment_eq h hs]
          rfl
      | instruction body hne start h =>
          have hbytes : (Markup.aside (.instruction body hne start h)).bytes ++ s = '?' :: (body ++ '?' :: s) :=
            congrArg ('?' :: ·) (List.append_assoc ..)
          rw [hbytes, parseMarkup_instruction, parseInstruction_eq hne start h hs]
      | doctype body h =>
          have hbytes : (Markup.aside (.doctype body h)).bytes ++ s = "!DOCTYPE".toList ++ (body ++ s) :=
            List.append_assoc ..
          rw [hbytes, parseMarkup_doctype, parseDoctype_eq h hs]
          rfl

/-! ## The whole document -/

/-- What the markups of a document do, one after the other; the text behind the last one is not looked at. -/
def runItems : List Item → EzxmlRoot → Option EzxmlRoot
  | [], root => parseFinish root
  | i :: items, root => do
      match ← i.markup.run root with
      | .inl root => some root
      | .inr root =>
          match items with
          | [] => parseFinish root
          | _ :: _ => do
              let root ← deliver root i.text.bytes i.text.text
              runItems items root

theorem text_ne {t : TextRun} (hc : c ∈ t.bytes) : c ≠ '<' := by
  obtain ⟨p, -, hp⟩ := List.mem_flatMap.mp hc
  cases p with
  | char d hd =>
      obtain rfl := List.mem_singleton.mp hp
      exact (textChar_ne hd).1
  | lineEnd =>
      have hcases : c = '\r' ∨ c = '\n' := by simpa [Piece.bytes] using hp
      rcases hcases with rfl | rfl <;> decide
  | entity x =>
      rintro rfl
      exact absurd (isReferenceChar_entity x hp) (by decide)
  | reference x =>
      rintro rfl
      exact absurd (isReferenceChar_reference x hp) (by decide)

theorem deliver_text (root : EzxmlRoot) (t : TextRun) (r : Text) :
    ezxmlCharContent root t.bytes r '&' = (deliver root t.bytes t.text).map (·, r) :=
  ezxmlCharContent_eq (ezxmlDecode_text t) (spill_pieces (fun _ h => (textChar_ne h).2.2) t r)

/-- The last markup of a document is read to its end: it is no section, or a text stands behind it. -/
def LastOk (items : List Item) : Prop :=
  ∀ i ∈ items.getLast?, i.text.bytes = [] → ∀ body h last, i.markup ≠ .cdata body h last

/-- Behind a markup that does not end the parse. -/
theorem parseLoop_of_run {m : Markup} (hs : Ends e s) (hcdata : s = [] → ∀ body h last, m ≠ .cdata body h last) :
    parseLoop e (k + 1) root (m.bytes ++ s) = (m.run root).bind fun
      | .inl root => some root
      | .inr root =>
          match s.tail.dropWhile (· != '<') with
          | [] => parseFinish root
          | _ :: r =>
              (ezxmlCharContent root (s.tail.takeWhile (· != '<')) r '&').bind fun x => parseLoop e k x.1 x.2 := by
  rw [parseLoop, parseMarkup_eq m hs hcdata]
  cases m.run root with
  | none => rfl
  | some done => cases done <;> rfl

theorem flatMap_bytes_cons (i : Item) (items : List Item) : (i :: items).flatMap Item.bytes =
    '<' :: (i.markup.bytes ++ '>' :: (i.text.bytes ++ items.flatMap Item.bytes)) := by
  rw [List.flatMap_cons, Item.bytes, List.cons_append, List.append_assoc, List.cons_append]

theorem length_items (items : List Item) : items.length ≤ (items.flatMap Item.bytes).length := by
  induction items with
  | nil => exact le_rfl
  | cons i items ih =>
      rw [flatMap_bytes_cons]
      simp only [List.length_cons, List.length_append]
      omega

/-- From a markup on, the last character of the document taken away. -/
theorem parseLoop_eq (i : Item) (items : List Item) (hlast : LastOk (i :: items)) (hk : items.length < k)
    (hdata : i.markup.bytes ++ '>' :: (i.text.bytes ++ items.flatMap Item.bytes) = s ++ [e]) :
    parseLoop e k root s = runItems (i :: items) root := by
  induction items generalizing i root s k with
  | nil =>
      obtain ⟨k, rfl⟩ := Nat.exists_eq_add_one_of_ne_zero (by omega : k ≠ 0)
      rw [List.flatMap_nil, List.append_nil] at hdata
      obtain hnil | ⟨t, d, htext⟩ := List.eq_nil_or_concat' i.text.bytes
      · -- the last character closes the markup
        rw [hnil] at hdata
        obtain ⟨rfl, rfl⟩ := List.append_singleton_inj.mp hdata
        have hends : Ends '>' [] := Or.inr ⟨rfl, rfl⟩
        rw [← List.append_nil i.markup.bytes, parseLoop_of_run hends fun _ => hlast i rfl hnil, runItems]
        rfl
      · -- the last character belongs to the text
        rw [htext, ← List.cons_append, ← List.append_assoc] at hdata
        obtain ⟨rfl, rfl⟩ := List.append_singleton_inj.mp hdata
        have hstop : (t.dropWhile (· != '<')) = [] := by
          rw [List.dropWhile_eq_nil_iff]
          intro c hc
          exact bne_iff_ne.mpr (text_ne (htext ▸ List.mem_append_left [d] hc))
        have hends : Ends d ('>' :: t) := Or.inl rfl
        rw [parseLoop_of_run hends fun h => nomatch h, runItems]
        simp only [List.tail_cons, hstop]
        rfl
  | cons j items ih =>
      obtain ⟨k, rfl⟩ := Nat.exists_eq_add_one_of_ne_zero (by omega : k ≠ 0)
      obtain ⟨s', e', hs'⟩ : ∃ s' e',
          j.markup.bytes ++ '>' :: (j.text.bytes ++ items.flatMap Item.bytes) = s' ++ [e'] :=
        (List.eq_nil_or_concat' _).resolve_left (by simp)
      have hnext : i.markup.bytes ++ '>' :: (i.text.bytes ++ '<' :: s') ++ [e'] = s ++ [e] := by
        rw [← hdata, flatMap_bytes_cons, hs']
        simp
      obtain ⟨rfl, rfl⟩ := List.append_singleton_inj.mp hnext
      have hall : ∀ c ∈ i.text.bytes, (c != '<') = true := fun c hc => bne_iff_ne.mpr (text_ne hc)
      have hstop : Stops (· != '<') ('<' :: s') := stops_cons rfl
      have hk' : items.length < k := by
        rw [List.length_cons] at hk
        omega
      have hrest : ∀ root, parseLoop e' k root s' = runItems (j :: items) root := fun root => ih j hlast hk' hs'
      have hends : Ends e' ('>' :: (i.text.bytes ++ '<' :: s')) := Or.inl rfl
      rw [parseLoop_of_run hends fun h => nomatch h, runItems]
      simp only [List.tail_cons, takeWhile_eq hall hstop, dropWhile_eq hall hstop, deliver_text]
      refine congrArg _ (funext fun done => ?_)
      rcases done with root | root
      · rfl
      · simp only [Option.bind_eq_bind]
        cases deliver root i.text.bytes i.text.text with
        | none => rfl
        | some root => exact hrest root

/-- **A document is read as its markups.** -/
theorem parseBytes_eq {lead : Text} {items : List Item} (hlead : ∀ c ∈ lead, c ≠ '<') (hlast : LastOk items)
    (hnul : '\x00' ∉ lead ++ items.flatMap Item.bytes) :
    parseBytes (lead ++ items.flatMap Item.bytes) = runItems items ezxmlNew := by
  have hlead' : ∀ c ∈ lead, (c != '<') = true := fun c hc => bne_iff_ne.mpr (hlead c hc)
  have hnul' : ∀ c ∈ (lead ++ items.flatMap Item.bytes).dropLast, (c != '\x00') = true := fun c hc =>
    bne_iff_ne.mpr fun h => hnul (h ▸ List.dropLast_subset _ hc)
  unfold parseBytes
  cases items with
  | nil =>
      have hnone : lead.dropLast.dropWhile (· != '<') = [] :=
        List.dropWhile_eq_nil_iff.mpr fun c hc => hlead' c (List.dropLast_subset _ hc)
      rw [List.flatMap_nil, List.append_nil] at hnul' ⊢
      rw [List.takeWhile_eq_self_iff.mpr hnul', hnone]
      cases lead.getLast? <;> rfl
  | cons i items =>
      obtain ⟨s, e, hs⟩ : ∃ s e, i.markup.bytes ++ '>' :: (i.text.bytes ++ items.flatMap Item.bytes) = s ++ [e] :=
        (List.eq_nil_or_concat' _).resolve_left (by simp)
      have hdata : lead ++ (i :: items).flatMap Item.bytes = lead ++ '<' :: s ++ [e] := by
        rw [flatMap_bytes_cons, hs]
        simp
      have hstop : Stops (· != '<') ('<' :: s) := stops_cons rfl
      rw [hdata, List.dropLast_concat] at hnul'
      rw [hdata, List.getLast?_concat, List.dropLast_concat, List.takeWhile_eq_self_iff.mpr hnul',
        dropWhile_eq hlead' hstop]
      refine parseLoop_eq i items hlast ?_ hs
      have hlen := congrArg List.length hs
      have hitems := length_items items
      simp only [List.length_append, List.length_cons, List.length_nil] at hlen
      omega

end Workload.Syntax
