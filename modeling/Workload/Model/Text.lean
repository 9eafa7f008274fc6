import Mathlib.Algebra.Group.Int.Defs
import Mathlib.Algebra.Group.Nat.Defs

/-!
# `Model.Text` — C strings and the conversions the program applies to them

A C string is the list of its characters before the terminator; NULL is `none` where a function tells it
from the empty string. `atoi` is glibc's: `strtol` saturates at the 64-bit bounds and the result keeps its
low 32 bits. The casts `(unsigned int)`, `(size_t)` and `(unsigned long long)` are `toUnsigned`/`toSize`.
-/

namespace Workload

/-- A C string: its characters, the terminator left out. -/
abbrev Text := List Char

/-- `workload_check_string`: NULL reads as the empty string. -/
def workloadCheckString (s : Option Text) : Text := s.getD []

@[simp] theorem workloadCheckString_some (s : Text) : workloadCheckString (some s) = s := rfl

/-! ## Numbers -/

/-- `isspace` in the C locale. -/
def isspace (c : Char) : Bool := c == ' ' || ('\t' ≤ c && c ≤ '\r')

/-- `isdigit`. -/
def isdigit (c : Char) : Bool := '0' ≤ c && c ≤ '9'

/-- The digits in front of a string, read in base ten. -/
def digitsValue (s : Text) : Nat :=
  (s.takeWhile isdigit).foldl (fun n c => 10 * n + (c.toNat - '0'.toNat)) 0

/-- `strtol(s, NULL, 10)` with a 64-bit `long`: blanks, one sign, digits; saturating. -/
def strtol (s : Text) : Int :=
  match s.dropWhile isspace with
  | '-' :: s => max (-(2 ^ 63)) (-(digitsValue s : Int))
  | '+' :: s => min (2 ^ 63 - 1) (digitsValue s : Int)
  | s => min (2 ^ 63 - 1) (digitsValue s : Int)

/-- `atoi`: the low 32 bits of `strtol`, as an `int`. -/
def atoi (s : Text) : Int := (strtol s).bmod (2 ^ 32)

/-- `atoll`: 64 bits, so nothing is cut off. -/
def atoll (s : Text) : Int := strtol s

/-- The cast `(unsigned int)`. -/
def toUnsigned (i : Int) : Nat := (i % 2 ^ 32).toNat

/-- The casts `(size_t)` and `(unsigned long long)`. -/
def toSize (i : Int) : Nat := (i % 2 ^ 64).toNat

/-- A positive `int` is kept by the cast and stays below `2^31`. -/
theorem toUnsigned_of_pos {i : Int} (hpos : 0 < i) (hlt : i < 2 ^ 31) :
    1 ≤ toUnsigned i ∧ toUnsigned i < 2 ^ 31 := by
  unfold toUnsigned
  omega

/-- `atoi` returns an `int`. -/
theorem atoi_bounds (s : Text) : -(2 ^ 31) ≤ atoi s ∧ atoi s < 2 ^ 31 := by
  have hlo : -((2 ^ 32 : Nat) / 2 : Int) ≤ atoi s := Int.le_bmod (by decide)
  have hhi : atoi s < ((2 ^ 32 : Nat) + 1 : Int) / 2 := Int.bmod_lt (by decide)
  constructor <;> omega

/-- `%u`: decimal digits. -/
def formatUnsigned (n : Nat) : Text := Nat.toDigits 10 n

/-! ## Words -/

/-- `strcasecmp(a, b) == 0` in the C locale. -/
def strcaseEqual (a b : Text) : Bool := a.map Char.toLower == b.map Char.toLower

/-- `sg_boolean_string_table`. -/
def booleanStringTable : List (Int × Text) :=
  [(0, "false".toList), (0, "off".toList), (0, "disable".toList), (0, "no".toList),
    (1, "true".toList), (1, "on".toList), (1, "enable".toList), (1, "yes".toList)]

/-- `workload_parse_boolean_string`: the value of the first table entry equal up to case. -/
def workloadParseBooleanString (s : Option Text) (defaultValue : Int) : Int :=
  match s with
  | none => defaultValue
  | some s =>
      match booleanStringTable.find? fun e => strcaseEqual s e.2 with
      | some e => e.1
      | none => defaultValue

/-! ## Paths -/

/-- The two characters `workload_basename` takes for separators. -/
def isPathSep (c : Char) : Bool := c == '/' || c == '\\'

/-- The loop of `workload_basename`: from `offset` characters of `s` on, with `count` characters of the
    last component passed. A trailing separator behind the first character is overwritten by the
    terminator. -/
def basenameLoop : Nat → Nat → Text → Text × Nat
  | 0, _, s => (s, 0)
  | offset + 1, count, s =>
      if isPathSep (s.getD offset '\x00') then
        if 0 < count then (s, offset + 1)
        else basenameLoop offset count (if 1 < offset + 1 then s.take offset else s)
      else basenameLoop offset (count + 1) s

/-- `workload_basename`: the caller's string as the call leaves it, and the component returned. -/
def workloadBasename (pathname : Text) : Text × Text :=
  if pathname = [] then ([], [])
  else
    let (s, offset) := basenameLoop pathname.length 0 pathname
    if s.drop offset = [] then (s, ".".toList) else (s, s.drop offset)

example : workloadBasename "./test/disk1/".toList = ("./test/disk1".toList, "disk1".toList) := by
  decide

end Workload
