import Workload.Correctness.Syntax
import Workload.Lib.Spans

/-!
# `Correctness.Decoding` — texts and values are decoded to what they mean

`ezxml_decode` reads the replacement of an entity again, which is a character reference, so a piece takes at most two
rounds and never more rounds than twice its characters.

* **`ezxmlDecode_text`**, **`ezxmlDecode_value`** — the text of an element and the value of an attribute.
* `ezxmlDecode_cdata` — in a section of characters only the line ends change.
-/

namespace Workload.Syntax

open Spans

variable {plain : Char → Bool} {s out : Text} {t c : Char} {k : Nat}

/-! ## Line ends -/

theorem normalizeLines_cons (hc : c ≠ '\r') (s : Text) : normalizeLines (c :: s) = c :: normalizeLines s := by
  rw [normalizeLines]
  exact hc

theorem normalizeLines_append (hs : ∀ c ∈ s, c ≠ '\r') (r : Text) :
    normalizeLines (s ++ r) = s ++ normalizeLines r := by
  induction s with
  | nil => rfl
  | cons c s ih =>
      rw [List.cons_append, normalizeLines_cons (hs c List.mem_cons_self),
        ih fun d hd => hs d (List.mem_cons_of_mem c hd), List.cons_append]

/-- The bytes of a piece when its line end is one character. -/
def Piece.lines : Piece plain → Text
  | lineEnd => ['\n']
  | p => p.bytes

/-- What entities and references are written with. -/
def isReferenceChar (c : Char) : Bool := c.isAlphanum || c == '&' || c == '#' || c == ';'

theorem isAlphanum_iff : c.isAlphanum = true ↔
    (65 ≤ c.toNat ∧ c.toNat ≤ 90) ∨ (97 ≤ c.toNat ∧ c.toNat ≤ 122) ∨ (48 ≤ c.toNat ∧ c.toNat ≤ 57) := by
  have hupper : c.isUpper = decide (65 ≤ c.toNat ∧ c.toNat ≤ 90) := rfl
  have hlower : c.isLower = (decide (97 ≤ c.toNat) && decide (c.toNat ≤ 122)) := rfl
  have hdigit : c.isDigit = (decide (48 ≤ c.toNat) && decide (c.toNat ≤ 57)) := rfl
  change ((c.isUpper || c.isLower) || c.isDigit) = true ↔ _
  rw [hupper, hlower, hdigit]
  simp only [Bool.or_eq_true, Bool.and_eq_true, decide_eq_true_eq, or_assoc]

theorem isAlphanum_of_digit {hex : Bool} (h : (if hex then isHexDigit c else isdigit c) = true) :
    c.isAlphanum = true := by
  rw [isAlphanum_iff]
  cases hex <;>
    simp only [isHexDigit, isdigit, Bool.or_eq_true, Bool.and_eq_true, decide_eq_true_eq, if_true, if_false,
      Bool.false_eq_true, Char.le_def, UInt32.le_iff_toNat_le] at h <;>
    simp at h <;> omega

theorem isReferenceChar_entity (e : Entity) (hc : c ∈ (Piece.entity e : Piece plain).bytes) :
    isReferenceChar c = true := by
  have hall : ∀ d ∈ ('&' :: e.name ++ [';']), isReferenceChar d = true :=
    List.all_eq_true.mp (by cases e <;> decide)
  exact hall c hc

theorem isReferenceChar_reference (x : Reference) (hc : c ∈ (Piece.reference x : Piece plain).bytes) :
    isReferenceChar c = true := by
  have hcases : c = '&' ∨ c = '#' ∨ c ∈ (if x.hex then ['x'] else []) ∨ c ∈ x.digits ∨ c = ';' := by
    simpa [Piece.bytes] using hc
  rcases hcases with rfl | rfl | hx | hdigit | rfl
  · rfl
  · rfl
  · obtain ⟨-, rfl⟩ : x.hex = true ∧ c = 'x' := by simpa using hx
    rfl
  · simp [isReferenceChar, isAlphanum_of_digit (x.isDigit c hdigit)]
  · rfl

theorem normalizeLines_piece (hplain : ∀ c, plain c = true → c ≠ '\r') (p : Piece plain) (r : Text) :
    normalizeLines (p.bytes ++ r) = p.lines ++ normalizeLines r := by
  cases p with
  | char c h => exact normalizeLines_cons (hplain c h) r
  | lineEnd => rfl
  | entity e =>
      refine normalizeLines_append (fun c hc => ?_) r
      rintro rfl
      exact nomatch isReferenceChar_entity e hc
  | reference x =>
      refine normalizeLines_append (fun c hc => ?_) r
      rintro rfl
      exact nomatch isReferenceChar_reference x hc

/-! ## References -/

theorem dropHexPrefix_eq (h : ∀ c ∈ s.tail.head?, c ≠ 'x' ∧ c ≠ 'X') : dropHexPrefix s = s := by
  unfold dropHexPrefix
  split
  · next x c rest =>
      have hx := h x rfl
      rw [if_neg fun hif => hif.1.elim hx.1 hx.2]
  · rfl

/-- A digit is neither white space nor a sign. -/
theorem digit_ne (h : c.isAlphanum = true) : isspace c = false ∧ c ≠ '-' ∧ c ≠ '+' := by
  have hlow : 48 ≤ c.toNat := by
    rw [isAlphanum_iff] at h
    omega
  refine ⟨?_, ?_, ?_⟩
  · rw [← Bool.not_eq_true]
    intro hspace
    simp only [isspace, Bool.or_eq_true, beq_iff_eq, Bool.and_eq_true, decide_eq_true_eq, Char.le_def,
      UInt32.le_iff_toNat_le] at hspace
    rcases hspace with rfl | ⟨-, hhi⟩
    · exact absurd h (by decide)
    · have hcr : c.toNat ≤ 13 := hhi
      omega
  · rintro rfl
    exact absurd h (by decide)
  · rintro rfl
    exact absurd h (by decide)

/-- A number without a sign. -/
theorem strtolEnd_unsigned (hex : Bool) (hc : c.isAlphanum = true) : strtolEnd hex (c :: s) =
    let digits := if hex then dropHexPrefix (c :: s) else c :: s
    let isDigit := if hex then isHexDigit else isdigit
    if digits.takeWhile isDigit = [] then (0, c :: s)
    else
      (min (2 ^ 63 - 1) ((if hex then hexValue digits else digitsValue digits : Nat) : Int),
        digits.dropWhile isDigit) := by
  obtain ⟨hspace, hminus, hplus⟩ := digit_ne hc
  unfold strtolEnd
  rw [List.dropWhile_cons_of_neg (by rw [hspace]; exact Bool.false_ne_true)]
  split
  next negative digits heq =>
    split at heq
    · next hsign => exact absurd (List.cons.inj hsign).1 hminus
    · next hsign => exact absurd (List.cons.inj hsign).1 hplus
    · obtain ⟨rfl, rfl⟩ := Prod.mk.inj heq
      rfl

/-- `strtol` stops behind the digits. -/
theorem strtolEnd_digits (x : Reference) (r : Text) :
    strtolEnd x.hex (x.digits ++ ';' :: r) = ((x.char.toNat : Int), ';' :: r) := by
  have hdigits : ∀ c ∈ x.digits, (if x.hex then isHexDigit else isdigit) c = true := fun c hc => by
    have hdigit := x.isDigit c hc
    split_ifs at hdigit ⊢ <;> exact hdigit
  have hstop : Stops (if x.hex then isHexDigit else isdigit) (';' :: r) := stops_cons (by cases x.hex <;> rfl)
  have htake := takeWhile_eq hdigits hstop
  have hdrop := dropWhile_eq hdigits hstop
  have hdigitsOnly : (if x.hex then dropHexPrefix (x.digits ++ ';' :: r) else x.digits ++ ';' :: r) =
      x.digits ++ ';' :: r := by
    split_ifs with hhex
    · refine dropHexPrefix_eq fun c hc => ?_
      have hmem : c = ';' ∨ isHexDigit c = true := by
        obtain ⟨d, ds, hds⟩ := List.exists_cons_of_ne_nil x.ne_nil
        rw [hds, List.cons_append, List.tail_cons] at hc
        cases hds' : ds with
        | nil =>
            rw [hds'] at hc
            exact Or.inl (Option.some.inj hc).symm
        | cons d' ds' =>
            rw [hds'] at hc
            obtain rfl := Option.some.inj hc
            have hdigit := hdigits d' (by rw [hds, hds']; simp)
            rw [if_pos hhex] at hdigit
            exact Or.inr hdigit
      constructor
      · rintro rfl
        exact nomatch hmem
      · rintro rfl
        exact nomatch hmem
    · rfl
  have hvalue : (if x.hex then hexValue (x.digits ++ ';' :: r) else digitsValue (x.digits ++ ';' :: r)) =
      x.char.toNat := by
    have hvalue := x.value
    have hall := List.takeWhile_eq_self_iff.mpr hdigits
    cases hhex : x.hex with
    | false =>
        simp only [hhex, Bool.false_eq_true, if_false] at hvalue htake hall ⊢
        rw [← hvalue, digitsValue, htake, digitsValue, hall]
    | true =>
        simp only [hhex, if_true] at hvalue htake hall ⊢
        rw [← hvalue, hexValue, htake, hexValue, hall]
  have hbound := toNat_lt x.char
  obtain ⟨d, ds, hds⟩ := List.exists_cons_of_ne_nil x.ne_nil
  have hd := isAlphanum_of_digit (x.isDigit d (hds ▸ List.mem_cons_self))
  have hunsigned := strtolEnd_unsigned x.hex (s := ds ++ ';' :: r) hd
  rw [← List.cons_append, ← hds] at hunsigned
  simp only [hdigitsOnly, htake, hdrop, hvalue, if_neg x.ne_nil] at hunsigned
  rw [hunsigned, min_eq_right (by omega)]

/-! ## Rounds of the loop -/

theorem decode_char (ent : List (Text × Text)) (ht : t = '&' ∨ t = ' ') (hc : c ≠ '&') :
    decodeLoop ent t (k + 1) out (c :: s) =
      decodeLoop ent t k (out ++ [if t = ' ' ∧ isspace c then ' ' else c]) s := by
  rw [decodeLoop, if_neg fun h => hc h.2.1, if_neg]
  · rcases ht with rfl | rfl
    · simp
    · by_cases hspace : isspace c <;> simp [hspace]
  · rcases ht with rfl | rfl <;> simp [hc]

theorem decode_reference (ent : List (Text × Text)) (ht : t ≠ 'c') (x : Reference) :
    decodeLoop ent t (k + 1) out ((Piece.reference x : Piece plain).bytes ++ s) =
      decodeLoop ent t k (out ++ charBytes x.char) s := by
  have hbytes : (Piece.reference x : Piece plain).bytes ++ s =
      '&' :: '#' :: ((if x.hex then ['x'] else []) ++ (x.digits ++ ';' :: s)) := by
    simp [Piece.bytes]
  have hnumber := strtolEnd_digits x s
  have hne : x.char.toNat ≠ 0 := fun h => x.ne_zero (Char.toNat_inj.mp h)
  rw [hbytes, decodeLoop, if_pos ⟨ht, rfl, rfl⟩]
  cases hhex : x.hex with
  | true =>
      rw [hhex] at hnumber
      simp [hnumber, hne, referenceBytes_eq x.ne_zero]
  | false =>
      -- the first digit is no `x`
      rw [hhex] at hnumber
      obtain ⟨d, ds, hds⟩ := List.exists_cons_of_ne_nil x.ne_nil
      have hd := x.isDigit d (hds ▸ List.mem_cons_self)
      have hx : d ≠ 'x' := by
        rintro rfl
        rw [hhex] at hd
        exact nomatch hd
      rw [hds, List.cons_append] at hnumber
      simp [hds, hx, hnumber, hne, referenceBytes_eq x.ne_zero]

/-- The reference an entity is replaced by. -/
def Entity.reference : Entity → Reference
  | lt => ⟨false, "60".toList, '<', by decide, List.all_eq_true.mp (by decide), by decide, by decide⟩
  | gt => ⟨false, "62".toList, '>', by decide, List.all_eq_true.mp (by decide), by decide, by decide⟩
  | quot => ⟨false, "34".toList, '"', by decide, List.all_eq_true.mp (by decide), by decide, by decide⟩
  | apos => ⟨false, "39".toList, '\'', by decide, List.all_eq_true.mp (by decide), by decide, by decide⟩
  | amp => ⟨false, "38".toList, '&', by decide, List.all_eq_true.mp (by decide), by decide, by decide⟩

theorem find_entity (plain : Char → Bool) (e : Entity) (s : Text) :
    ezxmlEntities.find? (fun entity => entity.1.isPrefixOf (e.name ++ ';' :: s)) =
      some (e.name ++ [';'], (Piece.reference e.reference : Piece plain).bytes) := by
  cases e <;> rfl

/-- An entity is replaced by a reference, which is read next. -/
theorem decode_entity (ht : t = '&' ∨ t = ' ') (e : Entity) :
    decodeLoop ezxmlEntities t (k + 2) out ((Piece.entity e : Piece plain).bytes ++ s) =
      decodeLoop ezxmlEntities t k (out ++ [e.char]) s := by
  have hbytes : (Piece.entity e : Piece plain).bytes ++ s = '&' :: (e.name ++ ';' :: s) := by simp [Piece.bytes]
  have hnumber : ¬(t ≠ 'c' ∧ '&' = '&' ∧ (e.name ++ ';' :: s).head? = some '#') := by
    cases e <;> exact fun h => nomatch h.2.2
  have hrest : ((e.name ++ ';' :: s).dropWhile (· != ';')).tail = s := by cases e <;> rfl
  have hfind := find_entity plain e s
  have hmeaning : charBytes e.reference.char = [e.char] := by cases e <;> rfl
  rw [hbytes, decodeLoop, if_neg hnumber, if_pos (Or.inl ⟨rfl, by tauto⟩), hfind]
  simp only [hrest]
  rw [decode_reference ezxmlEntities (by rcases ht with rfl | rfl <;> decide), hmeaning]

/-! ## Runs of pieces -/

/-- What a piece is decoded to. -/
def Piece.decoded (t : Char) (p : Piece plain) : Text := if t = ' ' then p.value else p.text

/-- **One piece** takes at most two rounds. -/
theorem decode_piece (hplain : ∀ c, plain c = true → c ≠ '&') (ht : t = '&' ∨ t = ' ') (p : Piece plain)
    (hk : 2 * p.lines.length ≤ k) : ∃ k', k ≤ k' + 2 * p.lines.length ∧
      decodeLoop ezxmlEntities t k out (p.lines ++ s) = decodeLoop ezxmlEntities t k' (out ++ p.decoded t) s := by
  have hdecoded : ∀ c, [if t = ' ' ∧ isspace c then ' ' else c] =
      if t = ' ' then [if isspace c then ' ' else c] else [c] := by
    intro c
    by_cases htb : t = ' ' <;> simp [htb]
  cases p with
  | char c h =>
      obtain ⟨k, rfl⟩ := Nat.exists_eq_add_one_of_ne_zero (by simp [Piece.lines, Piece.bytes] at hk; omega : k ≠ 0)
      refine ⟨k, by simp [Piece.lines, Piece.bytes], ?_⟩
      exact (decode_char ezxmlEntities ht (hplain c h)).trans (by rw [hdecoded]; rfl)
  | lineEnd =>
      obtain ⟨k, rfl⟩ := Nat.exists_eq_add_one_of_ne_zero (by simp [Piece.lines] at hk; omega : k ≠ 0)
      refine ⟨k, by simp [Piece.lines], ?_⟩
      exact (decode_char ezxmlEntities ht (by decide)).trans (by rw [hdecoded]; rfl)
  | entity e =>
      have hlen : 1 ≤ (Piece.entity e : Piece plain).lines.length := by simp [Piece.lines, Piece.bytes]
      obtain ⟨k, rfl⟩ := Nat.exists_eq_add_of_le' (by omega : 2 ≤ k)
      have hstep : decodeLoop ezxmlEntities t (k + 2) out ((Piece.entity e : Piece plain).bytes ++ s) = _ :=
        decode_entity ht e
      refine ⟨k, by omega, hstep.trans ?_⟩
      unfold Piece.decoded
      split_ifs <;> rfl
  | reference x =>
      have hlen : 1 ≤ (Piece.reference x : Piece plain).lines.length := by simp [Piece.lines, Piece.bytes]
      obtain ⟨k, rfl⟩ := Nat.exists_eq_add_of_le' (by omega : 1 ≤ k)
      have hstep : decodeLoop ezxmlEntities t (k + 1) out ((Piece.reference x : Piece plain).bytes ++ s) = _ :=
        decode_reference ezxmlEntities (by rcases ht with rfl | rfl <;> decide) x
      refine ⟨k, by omega, hstep.trans ?_⟩
      unfold Piece.decoded
      split_ifs <;> rfl

theorem decode_pieces (hplain : ∀ c, plain c = true → c ≠ '&') (ht : t = '&' ∨ t = ' ') (ps : List (Piece plain))
    (hk : 2 * (ps.flatMap Piece.lines).length < k) :
    decodeLoop ezxmlEntities t k out (ps.flatMap Piece.lines) = some (out ++ ps.flatMap (Piece.decoded t)) := by
  induction ps generalizing k out with
  | nil =>
      obtain ⟨k, rfl⟩ := Nat.exists_eq_add_one_of_ne_zero (by omega : k ≠ 0)
      rw [List.flatMap_nil, List.flatMap_nil, List.append_nil, decodeLoop]
  | cons p ps ih =>
      rw [List.flatMap_cons, List.length_append] at hk
      obtain ⟨k', hk', hpiece⟩ := decode_piece (k := k) hplain ht (s := ps.flatMap Piece.lines) p (by omega)
      rw [List.flatMap_cons, hpiece, ih (by omega), List.flatMap_cons, List.append_assoc]

theorem normalizeLines_pieces (hplain : ∀ c, plain c = true → c ≠ '\r') (ps : List (Piece plain)) :
    normalizeLines (ps.flatMap Piece.bytes) = ps.flatMap Piece.lines := by
  induction ps with
  | nil => rfl
  | cons p ps ih => rw [List.flatMap_cons, normalizeLines_piece hplain, ih, List.flatMap_cons]

/-- A run of pieces does not end on a carriage return, so nothing behind it is changed. -/
theorem spill_pieces (hplain : ∀ c, plain c = true → c ≠ '\r') (ps : List (Piece plain)) (r : Text) :
    spill (ps.flatMap Piece.bytes) r = r := by
  refine if_neg fun ⟨hlast, _⟩ => ?_
  obtain rfl | ⟨ps, p, rfl⟩ := List.eq_nil_or_concat' ps
  · exact nomatch hlast
  · rw [List.flatMap_append, List.flatMap_singleton, List.getLast?_append] at hlast
    cases p with
    | char c h => exact hplain c h (Option.some.inj hlast)
    | lineEnd => exact nomatch hlast
    | entity e => cases e <;> exact nomatch hlast
    | reference x =>
        have hbytes : (Piece.reference x : Piece plain).bytes =
            ('&' :: '#' :: ((if x.hex then ['x'] else []) ++ x.digits)) ++ [';'] := by simp [Piece.bytes]
        rw [hbytes, List.getLast?_concat] at hlast
        exact nomatch hlast

/-! ## Texts, values and sections -/

theorem textChar_ne (h : textChar c = true) : c ≠ '<' ∧ c ≠ '&' ∧ c ≠ '\r' := by
  simpa [textChar, and_assoc] using h

theorem valueChar_ne {q : Char} (h : valueChar q c = true) : c ≠ q ∧ c ≠ '&' ∧ c ≠ '\r' := by
  simpa [valueChar, and_assoc] using h

/-- **The text of an element.** -/
theorem ezxmlDecode_text (t : TextRun) : ezxmlDecode t.bytes '&' = some t.text := by
  have hplain : ∀ c, textChar c = true → c ≠ '&' := fun c h => (textChar_ne h).2.1
  unfold ezxmlDecode TextRun.bytes
  rw [normalizeLines_pieces fun c h => (textChar_ne h).2.2, decode_pieces hplain (Or.inl rfl) t (Nat.lt_succ_self _)]
  rfl

/-- **The value of an attribute.** -/
theorem ezxmlDecode_value {q : Char} (ps : List (Piece (valueChar q))) :
    ezxmlDecode (ps.flatMap Piece.bytes) ' ' = some (ps.flatMap Piece.value) := by
  have hplain : ∀ c, valueChar q c = true → c ≠ '&' := fun c h => (valueChar_ne h).2.1
  unfold ezxmlDecode
  rw [normalizeLines_pieces fun c h => (valueChar_ne h).2.2,
    decode_pieces hplain (Or.inr rfl) ps (Nat.lt_succ_self _)]
  rfl

theorem decode_section (ent : List (Text × Text)) (hk : s.length < k) :
    decodeLoop ent 'c' k out s = some (out ++ s) := by
  induction s generalizing out k with
  | nil =>
      obtain ⟨k, rfl⟩ := Nat.exists_eq_add_one_of_ne_zero (by omega : k ≠ 0)
      rw [decodeLoop, List.append_nil]
  | cons c s ih =>
      obtain ⟨k, rfl⟩ := Nat.exists_eq_add_one_of_ne_zero (by omega : k ≠ 0)
      rw [decodeLoop, if_neg fun h => h.1 rfl, if_neg (by simp), if_neg (by simp),
        ih (by rw [List.length_cons] at hk; omega), List.append_assoc, List.singleton_append]

/-- In a section of characters only the line ends change. -/
theorem ezxmlDecode_cdata (s : Text) : ezxmlDecode s 'c' = some (normalizeLines s) :=
  decode_section ezxmlEntities (by omega)

end Workload.Syntax
