import Workload.Correctness.Utf8

/-!
# `Correctness.Syntax` — the documents of the configuration

The documents the parser is meant for, as they are written: every choice of blanks, quotes, entities and character
references is kept, so a document has one text (`bytes`) and one meaning. The parts of a document carry what makes
them well formed.

* `Piece` — one character of a text or a value: itself, a line end, an entity or a reference.
* `Markup`, `Item` — what stands between angle brackets, and the text behind it.
* `Content`, `XmlDocument` — elements nested in each other, and what they mean.
-/

namespace Workload.Syntax

/-! ## Texts -/

/-- The entities every document has. -/
inductive Entity where
  | lt
  | gt
  | quot
  | apos
  | amp

def Entity.name : Entity → Text
  | lt => "lt".toList
  | gt => "gt".toList
  | quot => "quot".toList
  | apos => "apos".toList
  | amp => "amp".toList

def Entity.char : Entity → Char
  | lt => '<'
  | gt => '>'
  | quot => '"'
  | apos => '\''
  | amp => '&'

/-- A character by its number, in base 10 or 16. -/
structure Reference where
  hex : Bool
  digits : Text
  char : Char
  ne_nil : digits ≠ []
  isDigit : ∀ c ∈ digits, (if hex then isHexDigit c else isdigit c) = true
  value : (if hex then hexValue digits else digitsValue digits) = char.toNat
  ne_zero : char ≠ '\x00'

/-- What stands for one character where `plain` characters stand for themselves. -/
inductive Piece (plain : Char → Bool) where
  | char (c : Char) (h : plain c = true)
  | lineEnd
  | entity (e : Entity)
  | reference (r : Reference)

namespace Piece

variable {plain : Char → Bool}

def bytes : Piece plain → Text
  | char c _ => [c]
  | lineEnd => ['\r', '\n']
  | entity e => '&' :: e.name ++ [';']
  | reference r => '&' :: '#' :: (if r.hex then ['x'] else []) ++ r.digits ++ [';']

/-- What a piece of a text means. -/
def text : Piece plain → Text
  | char c _ => [c]
  | lineEnd => ['\n']
  | entity e => [e.char]
  | reference r => charBytes r.char

/-- What a piece of a value means: white space becomes a blank. -/
def value : Piece plain → Text
  | char c _ => [if isspace c then ' ' else c]
  | lineEnd => [' ']
  | entity e => [e.char]
  | reference r => charBytes r.char

end Piece

/-- A character that stands for itself in the text of an element. -/
def textChar (c : Char) : Bool := c != '<' && c != '&' && c != '\r'

/-- A character that stands for itself in a value between these quotes. -/
def valueChar (q c : Char) : Bool := c != q && c != '&' && c != '\r'

/-- The text between two markups. -/
abbrev TextRun := List (Piece textChar)

def TextRun.bytes (t : TextRun) : Text := t.flatMap Piece.bytes

def TextRun.text (t : TextRun) : Text := t.flatMap Piece.text

/-! ## Tags -/

def isNameChar (c : Char) : Bool := c.isAlphanum || c == '_' || c == ':' || c == '-' || c == '.' || 0x80 ≤ c.toNat

/-- A name of an element or an attribute. -/
structure XmlName where
  text : Text
  start : (text.head?.map isTagStart).getD false = true
  chars : ∀ c ∈ text, isNameChar c = true

/-- White space, possibly none. -/
structure Blanks where
  text : Text
  isWs : ∀ c ∈ text, isXmlWs c = true

/-- The quotes around a value. -/
inductive Quote where
  | double
  | single

def Quote.char : Quote → Char
  | double => '"'
  | single => '\''

/-- An attribute, with the white space in front of it and around its equals sign. -/
structure Attribute where
  space : Blanks
  space_ne_nil : space.text ≠ []
  name : XmlName
  before : Blanks
  after : Blanks
  quote : Quote
  value : List (Piece (valueChar quote.char))

namespace Attribute

def valueBytes (a : Attribute) : Text := a.value.flatMap Piece.bytes

def bytes (a : Attribute) : Text :=
  a.space.text ++ (a.name.text ++ (a.before.text ++ '=' :: (a.after.text ++ a.quote.char ::
    (a.valueBytes ++ [a.quote.char]))))

/-- The name and the value. -/
def pair (a : Attribute) : Text × Text := (a.name.text, a.value.flatMap Piece.value)

end Attribute

/-- What a start tag and an empty tag have in common. -/
structure Tag where
  name : XmlName
  attributes : List Attribute
  space : Blanks

namespace Tag

def bytes (t : Tag) : Text := t.name.text ++ (t.attributes.flatMap Attribute.bytes ++ t.space.text)

def pairs (t : Tag) : List (Text × Text) := t.attributes.map Attribute.pair

end Tag

/-! ## Markup -/

/-- `sub` is not found in `s`. -/
def NotIn (sub s : Text) : Prop := ¬sub <:+: s

instance (sub s : Text) : Decidable (NotIn sub s) := inferInstanceAs (Decidable ¬sub <:+: s)

/-- What means nothing for the elements. -/
inductive Aside where
  | comment (body : Text) (h : NotIn "--".toList (body ++ ['-']))
  | instruction (body : Text) (ne_nil : body ≠ []) (start : body.head? ≠ some '>') (h : NotIn "?>".toList body)
  | doctype (body : Text) (h : ∀ c ∈ body, c ≠ '[' ∧ c ≠ '>')

/-- What stands between `<` and `>`. -/
inductive Markup where
  | startTag (t : Tag)
  | emptyTag (t : Tag)
  | endTag (name : XmlName) (space : Blanks)
  | cdata (body : Text) (h : NotIn "]]>".toList body) (last : body.getLast? ≠ some '\r')
  | aside (a : Aside)

def Aside.bytes : Aside → Text
  | comment body _ => "!--".toList ++ body ++ "--".toList
  | instruction body _ _ _ => '?' :: body ++ ['?']
  | doctype body _ => "!DOCTYPE".toList ++ body

def Markup.bytes : Markup → Text
  | startTag t => t.bytes
  | emptyTag t => t.bytes ++ ['/']
  | endTag name space => '/' :: (name.text ++ space.text)
  | cdata body _ _ => "![CDATA[".toList ++ body ++ "]]".toList
  | aside a => a.bytes

/-- A markup and the text behind it. -/
structure Item where
  markup : Markup
  text : TextRun

def Item.bytes (i : Item) : Text := '<' :: (i.markup.bytes ++ '>' :: i.text.bytes)

/-! ## Elements -/

/-- What stands in an element behind its first text. -/
inductive Content where
  | nil
  | aside (a : Aside) (after : TextRun) (rest : Content)
  | cdata (body : Text) (h : NotIn "]]>".toList body) (last : body.getLast? ≠ some '\r') (after : TextRun)
      (rest : Content)
  | empty (t : Tag) (after : TextRun) (rest : Content)
  | element (t : Tag) (lead : TextRun) (inner : Content) (space : Blanks) (after : TextRun) (rest : Content)

/-- The markups of a content, one behind the other. -/
def Content.items : Content → List Item
  | nil => []
  | aside a after rest => ⟨.aside a, after⟩ :: rest.items
  | cdata body h last after rest => ⟨.cdata body h last, after⟩ :: rest.items
  | empty t after rest => ⟨.emptyTag t, after⟩ :: rest.items
  | element t lead inner space after rest =>
      ⟨.startTag t, lead⟩ :: (inner.items ++ ⟨.endTag t.name space, after⟩ :: rest.items)

end Workload.Syntax
