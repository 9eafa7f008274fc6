import Workload.Model.State

/-!
# `Model.Numerals` — numbers for the screen, from `string.c`

The functions write into a buffer of their caller, one character after the other from its start, and return NULL
before they write when the buffer is too small. A text stands for what is in front of the terminator they put
behind it. No string is as long as the address space, so the arithmetic on string lengths does not wrap; the one
on the buffer size does.
-/

namespace Workload

/-- The first loop of `workload_comma_string_private`: `out` is the buffer up to `s_to_offset`, then comes the
    string from `s_from_offset` on. -/
def skipNoDigit (out : Text) : Text → Text × Text
  | [] => (out, [])
  | c :: rest => if isdigit c then (out, c :: rest) else skipNoDigit (out ++ [c]) rest

/-- The second loop. -/
def commaLoop (out : Text) : Text → Text
  | [] => out
  | c :: rest =>
      let out := out ++ [c]
      let remain := rest.length
      if remain ≤ 0 then commaLoop out rest
      else if remain % 3 = 0 then commaLoop (out ++ [',']) rest
      else commaLoop out rest

/-- `workload_comma_string_private`. -/
def workloadCommaStringPrivate (string : Text) : Text :=
  let (out, rest) := skipNoDigit [] string
  commaLoop out rest

/-- `s_require_buffer_size`. -/
def requireBufferSize (string : Text) : Nat :=
  string.length + (if 0 < string.length then (string.length - 1) / 3 else 0) + 1

/-- `workload_comma_string`. -/
def workloadCommaString (bufferSize : Nat) (string : Option Text) : Option Text :=
  match string with
  | none => none
  | some string =>
      if bufferSize < requireBufferSize string then none else some (workloadCommaStringPrivate string)

/-- `cg_unit_table`, without the `-1` at its end. -/
def unitTable : List Char := ['\x00', 'K', 'M', 'G', 'T', 'P']

/-- The text of one round of `workload_printable_comma_string`, with its unit. -/
def printableRound (bufferSize : Nat) (unit : Char) (value : Nat) : Option Text :=
  let string :=
    workloadCommaString (sub64 bufferSize (if unit = '\x00' then 0 else 1)) (some (formatUnsigned value))
  string.map fun string => if unit = '\x00' then string else string ++ [unit]

/-- The loop over the rest of the units: the text of a round, or another round with a smaller value. -/
def printableLoop (bufferSize div : Nat) : List Char → Nat → Option Text
  | [], _ => none
  | unit :: units, value =>
      (printableRound bufferSize unit value).or
        (if div = 0 then none else printableLoop bufferSize div units (value / div))

/-- `workload_printable_comma_string`. -/
def workloadPrintableCommaString (bufferSize value div : Nat) : Option Text :=
  printableLoop bufferSize div unitTable value

/-- How many bytes of the buffer a call writes: the text and the terminator. -/
def bytesWritten (result : Option Text) : Nat :=
  match result with
  | none => 0
  | some text => text.length + 1

end Workload
