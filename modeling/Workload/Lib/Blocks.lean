import Mathlib.Data.List.Basic

/-!
# `Lib.Blocks` — texts in a block of memory

A block is a list of cells. Allocated memory has no contents; a text is put to a place of the block together with
its terminator, over what is there, and putting it where it does not fit has no outcome. The text at the start of a
block is what its cells hold up to the terminator; there is none when a cell without contents, or the end of the
block, comes first.

* **`putString_append`** — a text put behind the text of a block replaces the terminator there.
-/

namespace Blocks

variable {α : Type*}

inductive Cell (α : Type*) where
  | unset
  | char (a : α)
  | terminator
  deriving DecidableEq

abbrev Block (α : Type*) := List (Cell α)

/-- Memory as it is allocated. -/
def unsetBlock (α : Type*) (size : Nat) : Block α := List.replicate size .unset

/-- The text and its terminator, from `offset` on. -/
def putString (b : Block α) (offset : Nat) (text : List α) : Option (Block α) :=
  if offset + text.length < b.length then
    some (b.take offset ++ (text.map .char ++ .terminator :: b.drop (offset + text.length + 1)))
  else none

/-- The text at the start. -/
def getString : Block α → Option (List α)
  | .char a :: b => (getString b).map fun text => a :: text
  | .terminator :: _ => some []
  | _ => none

variable {front text : List α} {free : Block α}

@[simp] theorem length_unsetBlock (size : Nat) : (unsetBlock α size).length = size := List.length_replicate

/-- **Putting a text behind another one.** -/
theorem putString_append (hfit : text.length < free.length) :
    putString (front.map .char ++ free) front.length text =
      some ((front ++ text).map .char ++ .terminator :: free.drop (text.length + 1)) := by
  have hlen : (front.map Cell.char ++ free).length = front.length + free.length := by
    rw [List.length_append, List.length_map]
  have htake : (front.map Cell.char ++ free).take front.length = front.map .char :=
    List.take_left' (List.length_map _)
  have hdrop : (front.map Cell.char ++ free).drop (front.length + text.length + 1) =
      free.drop (text.length + 1) := by
    rw [Nat.add_assoc, ← List.drop_drop, List.drop_left' (List.length_map _)]
  unfold putString
  rw [if_pos (by omega), htake, hdrop, List.map_append, List.append_assoc]

theorem getString_of_terminated : getString (text.map .char ++ .terminator :: free) = some text := by
  induction text with
  | nil => rfl
  | cons a text ih => rw [List.map_cons, List.cons_append, getString, ih, Option.map_some]

end Blocks
