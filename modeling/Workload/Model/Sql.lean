import Workload.Model.File

/-!
# `Model.Sql` — the texts of the statements

`workload_db_vquery` lets `vasprintf` compose the text of a statement from a format and its arguments. The
arguments are given as they are printed; a string argument is printed as it is.
-/

namespace Workload

/-- `vasprintf` for the conversions `%s`, `%u`, `%lu` and `%llu`. -/
def vasprintf : Text → List Text → Text
  | [], _ => []
  | '%' :: 's' :: format, arg :: args => arg ++ vasprintf format args
  | '%' :: 'u' :: format, arg :: args => arg ++ vasprintf format args
  | '%' :: 'l' :: 'u' :: format, arg :: args => arg ++ vasprintf format args
  | '%' :: 'l' :: 'l' :: 'u' :: format, arg :: args => arg ++ vasprintf format args
  | c :: format, args => c :: vasprintf format args

/-- `def_workload_db_table_prefix` in front of a name. -/
def dbTable (name : String) : Text := "wl_".toList ++ name.toList

/-- `def_workload_db_field_prefix` in front of a name. -/
def dbField (name : String) : Text := "wl_".toList ++ name.toList

/-- The text `workload_update_db_file` inserts a row with. -/
def insertFileText (file : File) : Text :=
  vasprintf "INSERT INTO %s (%s) VALUES ('%u')".toList
    [dbTable "file", dbField "id", formatUnsigned file.id]

/-- The text `workload_update_db_file` updates a row with; `home` is `m_assign_disk`. -/
def updateFileText (file : File) (home : Option Disk) : Text :=
  vasprintf "UPDATE %s SET %s='%u',%s='%llu',%s='%llu',%s='%llu',%s='%s%s%s'WHERE %s='%u'".toList
    [dbTable "file",
      dbField "disk_id", formatUnsigned (match home with | none => 0 | some disk => disk.id),
      dbField "read", formatUnsigned file.readCount,
      dbField "write", formatUnsigned file.writeCount,
      dbField "access", formatUnsigned (add64 file.readCount file.writeCount),
      dbField "pathname",
      (match home with | none => [] | some disk => disk.path),
      (match home with | none => [] | some _ => "/".toList),
      file.filename,
      dbField "id", formatUnsigned file.id]

/-- The text `workload_update_db_disk` inserts a row with. -/
def insertDiskText (disk : Disk) : Text :=
  vasprintf "INSERT INTO %s (%s,%s,%s) VALUES ('%u','%s','%s')".toList
    [dbTable "disk", dbField "id", dbField "name", dbField "pathname",
      formatUnsigned disk.id, disk.name, disk.path]

/-- The text `workload_update_db_disk` updates a row with. -/
def updateDiskText (disk : Disk) : Text :=
  vasprintf "UPDATE %s SET %s='%lu',%s='%llu',%s='%llu',%s='%llu'WHERE %s='%u'".toList
    [dbTable "disk",
      dbField "files", formatUnsigned disk.assignFileCount,
      dbField "read", formatUnsigned disk.readCount,
      dbField "write", formatUnsigned disk.writeCount,
      dbField "access", formatUnsigned (add64 disk.readCount disk.writeCount),
      dbField "id", formatUnsigned disk.id]

end Workload
