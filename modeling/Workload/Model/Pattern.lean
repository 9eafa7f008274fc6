import Workload.Model.Text

/-!
# `Model.Pattern` — `workload_check_pattern` of `string.c`

The call walks over the pattern and the string side by side. The two offsets are what is left of either one; at
the terminator a string is empty.
-/

namespace Workload

/-- The comparison of two bytes, with `s_is_case` for `tolower`. -/
def sameByte (isCase : Bool) (patternByte stringByte : Char) : Bool :=
  if isCase then patternByte.toLower == stringByte.toLower else patternByte == stringByte

/-- `(s_pattern_byte == s_string_byte) ? 0 : (-1)` at the end of the pattern. -/
def patternEnd (string : Text) : Int := if string = [] then 0 else -1

/-- The loop of a star: the string from the first place of the byte on. -/
def starLoop (isCase : Bool) (patternByte : Char) : Text → Text
  | [] => []
  | stringByte :: string =>
      if sameByte isCase patternByte stringByte then stringByte :: string
      else starLoop isCase patternByte string

/-- One round of the loop: what the call returns, or what is left. -/
def checkRound (isCase : Bool) : Text × Text → Except Int (Text × Text)
  | ([], string) => .error (patternEnd string)
  | (patternByte :: pattern, string) =>
      if patternByte = '*' then
        match if pattern.head? = some '\\' then pattern.tail else pattern with
        -- the string is passed up to its end
        | [] => .error (patternEnd [])
        | patternByte :: pattern => .ok (pattern, (starLoop isCase patternByte string).tail)
      else if patternByte = '?' then
        match string with
        | [] => .error (-1)
        | _ :: string => .ok (pattern, string)
      else
        match if patternByte = '\\' then pattern else patternByte :: pattern with
        | [] => .error (patternEnd string)
        | patternByte :: pattern =>
            match string with
            | [] => .error (-1)
            | stringByte :: string =>
                if sameByte isCase patternByte stringByte then .ok (pattern, string) else .error (-1)

/-- The loop, for at most `fuel` rounds. -/
def checkLoop (isCase : Bool) : Nat → Text × Text → Option Int
  | 0, _ => none
  | fuel + 1, offsets =>
      match checkRound isCase offsets with
      | .error code => some code
      | .ok offsets => checkLoop isCase fuel offsets

/-- `workload_check_pattern`. Every round passes a byte of the pattern. -/
def workloadCheckPattern (pattern string : Text) (isCase : Bool) : Option Int :=
  checkLoop isCase (pattern.length + 1) (pattern, string)

end Workload
