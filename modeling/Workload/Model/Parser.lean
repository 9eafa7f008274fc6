import Workload.Model.Ezxml

/-!
# `Model.Parser` — the parser of `ezxml.c`

`ezxml_parse_str` goes through a buffer and writes terminators into it. Here the part that is still to be read is
passed on, and a string that was terminated is kept by itself. The characters of a buffer are bytes.

The last byte of the buffer is not read: it is replaced by the terminator and only compared with `>` (`e`). Without
an outcome (`none`) are what C leaves undefined and what is not modelled: a shift by a negative number of bits, a
reference to a negative number that ends the string it is in, `<?>`, whose length is taken modulo 2^64, a carriage
return before the last byte of a document that was converted from UTF-16, and a document type with an internal subset.
-/

namespace Workload

/-! ## References -/

/-- `EZXML_WS`. -/
def isXmlWs (c : Char) : Bool := c == '\t' || c == '\r' || c == '\n' || c == ' '

def isHexDigit (c : Char) : Bool := isdigit c || ('a' ≤ c && c ≤ 'f') || ('A' ≤ c && c ≤ 'F')

def hexDigit (c : Char) : Nat :=
  if isdigit c then c.toNat - '0'.toNat
  else if 'a' ≤ c then c.toNat - 'a'.toNat + 10
  else c.toNat - 'A'.toNat + 10

/-- The digits in front of a string, read in base 16. -/
def hexValue (s : Text) : Nat := (s.takeWhile isHexDigit).foldl (fun n c => 16 * n + hexDigit c) 0

/-- The prefix `0x` of `strtol` in base 16, if a digit follows. -/
def dropHexPrefix (s : Text) : Text :=
  match s with
  | '0' :: x :: c :: rest => if (x = 'x' ∨ x = 'X') ∧ isHexDigit c then c :: rest else s
  | _ => s

/-- `strtol(s, &e, base)` in base 10 or 16: the number, and the string at `e`. -/
def strtolEnd (hex : Bool) (s : Text) : Int × Text :=
  let (negative, digits) : Bool × Text :=
    match s.dropWhile isspace with
    | '-' :: s => (true, s)
    | '+' :: s => (false, s)
    | s => (false, s)
  let digits := if hex then dropHexPrefix digits else digits
  let isDigit := if hex then isHexDigit else isdigit
  let value := if hex then hexValue digits else digitsValue digits
  if digits.takeWhile isDigit = [] then (0, s)
  else
    (if negative then max (-(2 ^ 63)) (-(value : Int)) else min (2 ^ 63 - 1) (value : Int),
      digits.dropWhile isDigit)

def byteChar (n : Nat) : Char := Char.ofNat (n % 256)

/-- `while (b) *(s++) = 0x80 | ((c >> (6 * --b)) & 0x3F);`. -/
def utf8Payload (c : Nat) : Nat → Text
  | 0 => []
  | b + 1 => byteChar (0x80 ||| (c >>> (6 * b) &&& 0x3F)) :: utf8Payload c b

/-- The bytes of a number from 0x80 on: head and payload. -/
def utf8Sequence (c : Nat) : Option Text :=
  -- the bits of `c`, and the bytes of the payload
  let b := (Nat.log2 c + 1 - 2) / 5
  if 7 < b then none else some (byteChar ((0xFF <<< (7 - b)) ||| (c >>> (6 * b))) :: utf8Payload c b)

/-- The bytes a character reference is replaced by. -/
def referenceBytes (c : Int) : Option Text :=
  if c < 0x80 then
    let byte := (c % 256).toNat
    if byte = 0 then none else some [byteChar byte]
  else utf8Sequence c.toNat

/-! ## `ezxml_decode` -/

/-- The loop under `// normalize line endings`. -/
def normalizeLines : Text → Text
  | [] => []
  | '\r' :: s =>
      '\n' :: match s with
        | '\n' :: s => normalizeLines s
        | s => normalizeLines s
  | c :: s => c :: normalizeLines s

/-- The loop of `ezxml_decode`, for less than `fuel` rounds; `t` says what is decoded. -/
def decodeLoop (ent : List (Text × Text)) (t : Char) : Nat → Text → Text → Option Text
  | 0, _, _ => none
  | _ + 1, out, [] => some out
  | fuel + 1, out, c :: s =>
      if t ≠ 'c' ∧ c = '&' ∧ s.head? = some '#' then
        -- character reference
        let (number, e) := if s.tail.head? = some 'x' then strtolEnd true s.tail.tail else strtolEnd false s.tail
        if number = 0 ∨ e.head? ≠ some ';' then decodeLoop ent t fuel (out ++ [c]) s
        else
          match referenceBytes number with
          | none => none
          | some bytes => decodeLoop ent t fuel (out ++ bytes) e.tail
      else if (c = '&' ∧ (t = '&' ∨ t = ' ' ∨ t = '*')) ∨ (c = '%' ∧ t = '%') then
        -- entity reference; its replacement is read again
        match ent.find? fun entity => entity.1.isPrefixOf s with
        | some entity => decodeLoop ent t fuel out (entity.2 ++ (s.dropWhile (· != ';')).tail)
        | none => decodeLoop ent t fuel (out ++ [c]) s
      else if (t = ' ' ∨ t = '*') ∧ isspace c then decodeLoop ent t fuel (out ++ [' ']) s
      else decodeLoop ent t fuel (out ++ [c]) s

/-- `ezxml_decode` with the entities every document has; `*` is not used without an internal subset. -/
def ezxmlDecode (s : Text) (t : Char) : Option Text :=
  let s := normalizeLines s
  decodeLoop ezxmlEntities t (2 * s.length + 1) [] s

/-- Behind a carriage return at the end of a string the loop steps over the terminator, and the line endings of what
    follows are changed as well. Where it has made one character of a CR LF before, the terminator is there twice, and
    the second one ends it. -/
def spill (s rest : Text) : Text :=
  if s.getLast? = some '\r' ∧ (normalizeLines s).length = s.length then normalizeLines rest else rest

/-! ## Markup -/

/-- Where the parser stands after a markup: it has returned, or it stands at a text. -/
abbrev Parsed := EzxmlRoot ⊕ (EzxmlRoot × Text)

/-- `ezxml_char_content`; the text ends before `rest`. -/
def ezxmlCharContent (root : EzxmlRoot) (s rest : Text) (t : Char) : Option (EzxmlRoot × Text) := do
  let takes ← takesContent root
  if takes = false ∨ s = [] then some (root, rest)
  else
    let text ← ezxmlDecode s t
    let root ← addContent root text
    some (root, spill s rest)

/-- `isalpha(*s) || *s == '_' || *s == ':' || *s < '\0'`. -/
def isTagStart (c : Char) : Bool := c.isAlpha || c == '_' || c == ':' || 0x80 ≤ c.toNat

/-- The value of an attribute in quotes, at its first character: the value, and what is behind the quote. -/
def attrValue (q : Char) (s : Text) : Option (Option (Text × Text)) :=
  let value := s.takeWhile (· != q)
  match s.dropWhile (· != q) with
  | [] => some none
  | _ :: rest => do
      let text ← ezxmlDecode value ' '
      some (some (text, spill value rest))

/-- The attributes of a tag, for less than `fuel` of them; `inr` is the quote that is missing. -/
def attrLoop (fuel : Nat) (attr : List (Text × Text)) (s : Text) :
    Option ((List (Text × Text) × Text) ⊕ Char) :=
  match fuel, s with
  | 0, _ => none
  | _, [] => some (.inl (attr, []))
  | fuel + 1, c :: _ =>
      if c = '/' ∨ c = '>' then some (.inl (attr, s))
      else
        let isEnd (c : Char) : Bool := isXmlWs c || c == '=' || c == '/' || c == '>'
        let name := s.takeWhile (!isEnd ·)
        match s.dropWhile (!isEnd ·) with
        | [] => some (.inl (attr ++ [(name, [])], []))
        | e :: s =>
            if e = '=' ∨ isspace e then
              match s.dropWhile fun c => isXmlWs c || c == '=' with
              | [] => some (.inl (attr ++ [(name, [])], []))
              | q :: s =>
                  if q = '"' ∨ q = '\'' then do
                    match ← attrValue q s with
                    | none => some (.inr q)
                    | some (value, s) => attrLoop fuel (attr ++ [(name, value)]) (s.dropWhile isspace)
                  else attrLoop fuel (attr ++ [(name, [])]) ((q :: s).dropWhile isspace)
            else attrLoop fuel (attr ++ [(name, [])]) ((e :: s).dropWhile isspace)

/-- A start tag from its name on. -/
def parseTag (e : Char) (root : EzxmlRoot) (s : Text) : Option Parsed :=
  if root.cur = none then some (.inl (ezxmlErr root "markup outside of root element".toList))
  else do
    let isEnd (c : Char) : Bool := isXmlWs c || c == '/' || c == '>'
    let name := s.takeWhile (!isEnd ·)
    match ← attrLoop (s.length + 1) [] ((s.dropWhile (!isEnd ·)).dropWhile isspace) with
    | .inr q => some (.inl (ezxmlErr root ("missing ".toList ++ [q])))
    | .inl (attr, '/' :: s) =>
        -- self closing tag
        if (s ≠ [] ∧ s.head? ≠ some '>') ∨ (s = [] ∧ e ≠ '>') then
          some (.inl (ezxmlErr root "missing >".toList))
        else do
          let root ← ezxmlOpenTag root name attr
          match ← ezxmlCloseTag root name with
          | .inl root => some (.inr (root, s))
          | .inr root => some (.inr (root, s))
    | .inl (attr, s) =>
        if s.head? = some '>' ∨ (s = [] ∧ e = '>') then do
          let root ← ezxmlOpenTag root name attr
          some (.inr (root, s))
        else some (.inl (ezxmlErr root "missing >".toList))

/-- An end tag behind its slash. -/
def parseEnd (e : Char) (root : EzxmlRoot) (s : Text) : Option Parsed := do
  let isEnd (c : Char) : Bool := isXmlWs c || c == '>'
  let name := s.takeWhile (!isEnd ·)
  let s := s.dropWhile (!isEnd ·)
  if s = [] ∧ e ≠ '>' then some (.inl (ezxmlErr root "missing >".toList))
  else
    match ← ezxmlCloseTag root name with
    | .inr root => some (.inl root)
    | .inl root => some (.inr (root, s.dropWhile isXmlWs))

/-- `strstr`: what is in front of the first occurrence, and what follows from it on. -/
def strstr (s : Text) (sub : Text) : Option (Text × Text) :=
  if sub.isPrefixOf s then some ([], s)
  else
    match s with
    | [] => none
    | c :: s => (strstr s sub).map fun found => (c :: found.1, found.2)

/-- A comment behind `<!--`. -/
def parseComment (e : Char) (root : EzxmlRoot) (s : Text) : Option Parsed :=
  let error : Parsed := .inl (ezxmlErr root "unclosed <!--".toList)
  match strstr s "--".toList with
  | none => some error
  | some (_, found) =>
      let s := found.drop 2
      if s.head? = some '>' ∨ (s = [] ∧ e = '>') then some (.inr (root, s)) else some error

/-- A section of characters behind `<![CDATA[`. -/
def parseCdata (root : EzxmlRoot) (s : Text) : Option Parsed :=
  match strstr s "]]>".toList with
  | none => some (.inl (ezxmlErr root "unclosed <![CDATA[".toList))
  | some (text, found) => do
      let (root, s) ← ezxmlCharContent root text (found.drop 2) 'c'
      some (.inr (root, s))

/-- A document type behind `<`. -/
def parseDoctype (e : Char) (root : EzxmlRoot) (s : Text) : Option Parsed :=
  match s.dropWhile fun c => c != '[' && c != '>' with
  | [] => if e ≠ '>' then some (.inl (ezxmlErr root "unclosed <!DOCTYPE".toList)) else some (.inr (root, []))
  | '>' :: s => some (.inr (root, '>' :: s))
  | _ => none

/-- The instruction joins those of its target. -/
def addInstruction (afterRoot : Bool) (target text : Text) :
    List (Text × List Instruction) → List (Text × List Instruction)
  | [] => [(target, [⟨text, afterRoot⟩])]
  | (t, l) :: pi =>
      if target = t then (t, l ++ [⟨text, afterRoot⟩]) :: pi
      else (t, l) :: addInstruction afterRoot target text pi

/-- `ezxml_proc_inst`; `standalone` only matters to an internal subset. -/
def ezxmlProcInst (root : EzxmlRoot) (s : Text) : Option EzxmlRoot := do
  let target := s.takeWhile (!isXmlWs ·)
  let text := (s.dropWhile (!isXmlWs ·)).dropWhile isXmlWs
  if target = "xml".toList then some root
  else
    let x ← root.heap.read 0
    some { root with pi := addInstruction x.name.isSome target text root.pi }

/-- `do { s = strchr(s, '?'); } while (s && *(++s) && *s != '>');` behind the first question mark: the
    instruction, and what follows from `s` on. -/
def findInstruction : Text → Option (Text × Text)
  | [] => none
  | '?' :: [] => some ([], [])
  | '?' :: '>' :: s => some ([], '>' :: s)
  | c :: s => (findInstruction s).map fun found => (c :: found.1, found.2)

/-- A processing instruction behind `<?`. -/
def parseInstruction (e : Char) (root : EzxmlRoot) (s : Text) : Option Parsed :=
  let error : Parsed := .inl (ezxmlErr root "unclosed <?".toList)
  match s with
  | [] => if e = '>' then none else some error
  | '>' :: _ => none
  | s =>
      match findInstruction s with
      | none => some error
      | some (text, s) =>
          if s = [] ∧ e ≠ '>' then some error
          else do
            let root ← ezxmlProcInst root text
            some (.inr (root, s))

/-- One markup behind its `<`. -/
def parseMarkup (e : Char) (root : EzxmlRoot) (s : Text) : Option Parsed :=
  if (s.head?.map isTagStart).getD false then parseTag e root s
  else if s.head? = some '/' then parseEnd e root s.tail
  else if "!--".toList.isPrefixOf s then parseComment e root (s.drop 3)
  else if "![CDATA[".toList.isPrefixOf s then parseCdata root (s.drop 8)
  else if "!DOCTYPE".toList.isPrefixOf s then parseDoctype e root s
  else if s.head? = some '?' then parseInstruction e root s.tail
  else some (.inl (ezxmlErr root "unexpected <".toList))

/-! ## `ezxml_parse_str` -/

/-- Behind the loop: the root tag must be there and closed. -/
def parseFinish (root : EzxmlRoot) : Option EzxmlRoot :=
  match root.cur with
  | none => some root
  | some cur => do
      let x ← root.heap.read cur
      match x.name with
      | none => some (ezxmlErr root "root tag missing".toList)
      | some name => some (ezxmlErr root ("unclosed tag <".toList ++ name ++ ">".toList))

/-- The loop of `ezxml_parse_str` behind a `<`, for less than `fuel` rounds. -/
def parseLoop (e : Char) : Nat → EzxmlRoot → Text → Option EzxmlRoot
  | 0, _, _ => none
  | fuel + 1, root, s => do
      match ← parseMarkup e root s with
      | .inl root => some root
      | .inr (root, s) =>
          -- the character the markup ends on
          let s := s.tail
          let text := s.takeWhile (· != '<')
          match s.dropWhile (· != '<') with
          | [] => parseFinish root
          | _ :: s => do
              let (root, s) ← ezxmlCharContent root text s '&'
              parseLoop e fuel root s

/-- `ezxml_parse_str` behind the conversion. -/
def parseBytes (data : Text) : Option EzxmlRoot :=
  match data.getLast? with
  | none => some (ezxmlErr ezxmlNew "root tag missing".toList)
  | some e =>
      -- find first tag
      match ((data.dropLast).takeWhile (· != '\x00')).dropWhile (· != '<') with
      | [] => some (ezxmlErr ezxmlNew "root tag missing".toList)
      | _ :: s => parseLoop e (s.length + 1) ezxmlNew s

/-! ## UTF-16 -/

/-- Two bytes of UTF-16, the high one first if `be`. -/
def utf16Unit (be : Bool) (a b : Char) : Nat :=
  if be then ((a.toNat &&& 0xFF) <<< 8) ||| (b.toNat &&& 0xFF) else ((b.toNat &&& 0xFF) <<< 8) ||| (a.toNat &&& 0xFF)

/-- A number below 0x110000 in UTF-8. -/
def utf8Bytes (c : Nat) : Text := if c < 0x80 then [byteChar c] else (utf8Sequence c).getD []

/-- The loop of `ezxml_str2utf8`. -/
def utf16Loop (be : Bool) : Text → Text
  | a :: b :: s =>
      let c := utf16Unit be a b
      if 0xD800 ≤ c ∧ c ≤ 0xDFFF then
        match s with
        | a' :: b' :: s =>
            let d := utf16Unit be a' b'
            utf8Bytes ((((c &&& 0x3FF) <<< 10) ||| (d &&& 0x3FF)) + 0x10000) ++ utf16Loop be s
        | _ => utf8Bytes c
      else utf8Bytes c ++ utf16Loop be s
  | _ => []

/-- `ezxml_str2utf8`: nothing if the string is not UTF-16. -/
def ezxmlStr2utf8 (s : Text) : Option Text :=
  match s.head? with
  | some '\xfe' => some (utf16Loop true (s.drop 2))
  | some '\xff' => some (utf16Loop false (s.drop 2))
  | _ => none

/-- `ezxml_parse_str`; after the conversion it looks at the last byte, which must be there. Nothing follows the bytes
    of `ezxml_str2utf8`, so a carriage return right before the last one may let `ezxml_decode` step out of them. -/
def ezxmlParseStr (data : Text) : Option EzxmlRoot :=
  match ezxmlStr2utf8 data with
  | none => parseBytes data
  | some [] => none
  | some data => if data.dropLast.getLast? = some '\r' then none else parseBytes data

/-! ## `xml.c` -/

/-- `workload_open_xml`: NULL for no bytes, and for no memory. -/
def workloadOpenXml (allocated : Bool) (data : Text) : Option (Option EzxmlRoot) :=
  if data = [] ∨ allocated = false then some none else (ezxmlParseStr data).map some

/-- A file that has been opened: its size, and the bytes `read` gives at a position when so many are wanted, if it
    does not fail. -/
structure XmlFile where
  size : Nat
  read : Nat → Nat → Option Text

/-- The loop of `workload_open_xml_from_file`, for less than `fuel` rounds; the buffer holds what has been read. -/
def xmlReadLoop (file : XmlFile) : Nat → Text → Option Text
  | 0, _ => none
  | fuel + 1, buffer =>
      let wantSize := if file.size - buffer.length > 64 <<< 10 then 64 <<< 10 else file.size - buffer.length
      match file.read buffer.length wantSize with
      | none => some buffer
      | some [] => some buffer
      | some bytes => xmlReadLoop file fuel (buffer ++ bytes)

/-- `workload_open_xml_from_file`; no file if it cannot be opened. The buffer and the document are allocated. -/
def workloadOpenXmlFromFile (bufferAllocated xmlAllocated : Bool) (file : Option XmlFile) :
    Option (Option EzxmlRoot) :=
  match file with
  | none => some none
  | some file =>
      if file.size = 0 ∨ 4 <<< 20 ≤ file.size then some none
      else if bufferAllocated = false then some none
      else do
        let buffer ← xmlReadLoop file (file.size + 1) []
        if buffer.length = file.size then workloadOpenXml xmlAllocated buffer else some none

end Workload
