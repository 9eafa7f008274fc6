import Workload.Model.Control
import Workload.Model.Numerals

/-!
# `Model.View` — the column of a disk in `workload_update_screen`

The screen has a column for each disk, as wide as the longest name and at least seven characters. Every cell is a
text that the call has put into `s_string_buffer`; NULL is what `workload_printable_comma_string` returns when
the text does not fit the room it is given.
-/

namespace Workload

/-- `s_grid_x`. -/
def gridX (s : State) : Nat := if s.maxNameSize < 7 then 7 else s.maxNameSize

/-- `%0wu` and `%0wllu`: at least `w` digits. -/
def formatPadded (w n : Nat) : Text := List.replicate (w - (formatUnsigned n).length) '0' ++ formatUnsigned n

/-- A usage figure, printed with `%u.%03u%%`. -/
def percentCell (ratio : Nat) : Text :=
  formatUnsigned (ratio / 1000) ++ ['.'] ++ formatPadded 3 (ratio % 1000) ++ ['%']

/-- A time span in milliseconds, printed as seconds with fewer decimals the longer it is. -/
def timeCell (gridX timeStamp : Nat) : Option Text :=
  if 10000000 ≤ timeStamp then
    (workloadPrintableCommaString gridX (timeStamp / 1000) 1000).map fun string => string ++ ['s']
  else if 1000000 ≤ timeStamp then
    some (formatUnsigned (timeStamp / 1000) ++ ['.'] ++ formatPadded 1 (timeStamp % 1000 / 100) ++ ['s'])
  else if 100000 ≤ timeStamp then
    some (formatUnsigned (timeStamp / 1000) ++ ['.'] ++ formatPadded 2 (timeStamp % 1000 / 10) ++ ['s'])
  else
    some (formatUnsigned (timeStamp / 1000) ++ ['.'] ++ formatPadded 3 (timeStamp % 1000) ++ ['s'])

/-- The fake-off cell. -/
def fakeCell (s : State) (d : DiskPtr) : Option Text :=
  let timeStamp := sub64 s.timeStamp (s.disks d).fakeoffTimeStamp
  if s.relocate = false ∨ (s.disks d).fakeoffDelay = -1 then some "N/A".toList
  else if toSize (s.disks d).fakeoffDelay ≤ timeStamp then some "FAKE".toList
  else timeCell (gridX s) timeStamp

/-- `s_read_count` and `s_write_count`: what the files of the disk have counted. -/
def fileCounts (s : State) (d : DiskPtr) : Option (Nat × Nat) :=
  if 0 < add64 s.readCount s.writeCount then usageLoop s s.fileHead.length (s.disks d).assignFile 0 0
  else some (0, 0)

/-- The cells below the name of a disk, from its counters and those of its files. -/
def diskCells (s : State) (d : DiskPtr) (readCount writeCount : Nat) : List (Option Text) :=
  let files := workloadPrintableCommaString (gridX s + 1) (s.disks d).assignFileCount 1000
  let usage := some (percentCell (diskUsage s d))
  let ratioCount := workloadPrintableCommaString (gridX s - 1 + 1)
    (add64 (s.disks d).readCount (s.disks d).writeCount) 1000
  let fileUsage := some (percentCell (usageRatio s (add64 readCount writeCount)))
  let usageCount := workloadPrintableCommaString (gridX s - 1 + 1) (add64 readCount writeCount) 1000
  let idle := timeCell (gridX s) (sub64 s.timeStamp (s.disks d).timeStamp)
  [files, usage, ratioCount, fileUsage, usageCount, idle] ++ if s.useFakeoff then [fakeCell s d] else []

/-- The column of a disk; undefined when the files of the disk are no list. -/
def diskColumn (s : State) (d : DiskPtr) : Option (List (Option Text)) :=
  (fileCounts s d).map fun counts => diskCells s d counts.1 counts.2

end Workload
