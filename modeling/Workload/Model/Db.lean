import Workload.Model.Text
import Mathlib.Logic.Function.Basic
import Mathlib.Tactic.SplitIfs

/-!
# `Model.Db` — the meta database and the four layers of a query

The two tables are maps from the primary key to the row; a missing table holds no rows. The database
itself is outside the program, so what becomes of the `n`-th statement is given by the `Backend`: for
sqlite3 the result codes of the `sqlite3_exec` attempts, for mysql the results of `mysql_query` and
`mysql_affected_rows`. A statement acts on the tables exactly when the database executed it.

The functions are the layers of `db.c`, each with the return value it has there: `workload_sqlite3_query`
(the retry loop), `workload_db_query`, `workload_db_vquery` (which composes the text) and
`workload_db_query_set`.
-/

namespace Workload

/-! ## Tables -/

/-- A row of the file table, without its key. -/
structure FileRow where
  diskId : Nat
  read : Nat
  write : Nat
  access : Nat
  pathname : Text
  deriving DecidableEq

/-- A row of the disk table, without its key. -/
structure DiskRow where
  files : Nat
  read : Nat
  write : Nat
  access : Nat
  name : Text
  pathname : Text
  deriving DecidableEq

structure Tables where
  file : Nat → Option FileRow
  disk : Nat → Option DiskRow

def Tables.empty : Tables := ⟨fun _ => none, fun _ => none⟩

/-- The statements the program composes, with the values it formats into them. -/
inductive Stmt where
  | dropFile
  | dropDisk
  | createDisk
  | createFile
  | insertFile (id : Nat)
  | updateFile (id : Nat) (row : FileRow)
  | insertDisk (id : Nat) (name pathname : Text)
  | updateDisk (id files read write access : Nat)
  | selectDisk
  | selectFile
  deriving DecidableEq

/-- What an executed statement does to the tables. -/
def Stmt.apply : Stmt → Tables → Tables
  | .dropFile, t => { t with file := fun _ => none }
  | .dropDisk, t => { t with disk := fun _ => none }
  | .insertFile id, t => { t with file := Function.update t.file id (some ⟨0, 0, 0, 0, []⟩) }
  | .updateFile id row, t =>
      { t with file := Function.update t.file id ((t.file id).map fun _ => row) }
  | .insertDisk id name pathname, t =>
      { t with disk := Function.update t.disk id (some ⟨0, 0, 0, 0, name, pathname⟩) }
  | .updateDisk id files read write access, t =>
      let row := (t.disk id).map fun row => ⟨files, read, write, access, row.name, row.pathname⟩
      { t with disk := Function.update t.disk id row }
  | .createDisk, t => t
  | .createFile, t => t
  | .selectDisk, t => t
  | .selectFile, t => t

/-! ## Outcomes -/

def sqliteOk : Nat := 0
def sqliteBusy : Nat := 5
def sqliteLocked : Nat := 6

/-- The result codes of the `sqlite3_exec` attempts for one statement: those that ended busy or locked, and
    the one that did not. -/
structure SqliteExec where
  retries : List Nat
  code : Nat
  retries_again : ∀ c ∈ retries, c = sqliteBusy ∨ c = sqliteLocked
  code_final : code ≠ sqliteBusy ∧ code ≠ sqliteLocked

/-- What mysql answers: the result of `mysql_query`, then `mysql_affected_rows`. -/
structure MysqlReply where
  query : Int
  affectedRows : Nat

/-- `(my_ulonglong)(-1)`. -/
def mysqlNoCount : Nat := 2 ^ 64 - 1

/-- The database behind the handle: what becomes of the `n`-th statement. -/
inductive Backend where
  | sqlite3 (exec : Nat → SqliteExec)
  | mysql (reply : Nat → MysqlReply)

/-- The database executes the `n`-th statement. -/
def Backend.Accepts : Backend → Nat → Bool
  | .sqlite3 exec, n => (exec n).code == sqliteOk
  | .mysql reply, n => (reply n).query == 0 && (reply n).affectedRows != mysqlNoCount

/-- An open handle: the backend, whether `vasprintf` succeeds for the `n`-th statement, the number of
    statements composed so far, those sent to the database with whether it executed them (the last one
    first), and the tables. -/
structure Db where
  backend : Backend
  formatted : Nat → Bool
  composed : Nat
  sent : List (Stmt × Bool)
  tables : Tables

/-- The statement composed last reaches the database. -/
def Db.send (db : Db) (stmt : Stmt) : Db :=
  let accepted := db.backend.Accepts (db.composed - 1)
  { db with
    sent := (stmt, accepted) :: db.sent
    tables := if accepted then stmt.apply db.tables else db.tables }

/-! ## The layers of a query -/

/-- The loop of `workload_sqlite3_query` over the codes of the attempts. -/
def sqlite3QueryLoop : List Nat → Option Nat
  | [] => none
  | check :: rest =>
      if check = sqliteBusy ∨ check = sqliteLocked then sqlite3QueryLoop rest else some check

/-- `workload_sqlite3_query`: the code of the attempt that was not turned away. -/
def workloadSqlite3Query (exec : SqliteExec) : Int :=
  ((sqlite3QueryLoop (exec.retries ++ [exec.code])).getD 0 : Nat)

/-- `workload_db_query`: sqlite3's own code, or `0`/`-1` for mysql. With `get` the caller wants the rows,
    and the affected rows are not looked at. -/
def workloadDbQuery (db : Db) (stmt : Stmt) (get : Bool) : Int × Db :=
  match db.backend with
  | .sqlite3 exec => (workloadSqlite3Query (exec (db.composed - 1)), db.send stmt)
  | .mysql reply =>
      if (reply (db.composed - 1)).query ≠ 0 then (-1, db.send stmt)
      else if get then ((reply (db.composed - 1)).query, db.send stmt)
      else if (reply (db.composed - 1)).affectedRows = mysqlNoCount then (-1, db.send stmt)
      else ((reply (db.composed - 1)).query, db.send stmt)

/-- `workload_db_vquery`: compose the text, then query. -/
def workloadDbVquery (db : Db) (stmt : Stmt) (get : Bool) : Int × Db :=
  if db.formatted db.composed then
    workloadDbQuery { db with composed := db.composed + 1 } stmt get
  else (-1, { db with composed := db.composed + 1 })

/-- `workload_db_query_set`. -/
def workloadDbQuerySet (db : Db) (stmt : Stmt) : Int × Db := workloadDbVquery db stmt false

/-- `workload_db_query_get`, the rows left out. -/
def workloadDbQueryGet (db : Db) (stmt : Stmt) : Int × Db := workloadDbVquery db stmt true

/-! ## What one statement does -/

/-- **The retry loop returns the first code that is neither busy nor locked.** -/
theorem workloadSqlite3Query_eq (exec : SqliteExec) : workloadSqlite3Query exec = exec.code := by
  have hloop : ∀ retries : List Nat, (∀ c ∈ retries, c = sqliteBusy ∨ c = sqliteLocked) →
      sqlite3QueryLoop (retries ++ [exec.code]) = some exec.code := by
    intro retries hagain
    induction retries with
    | nil => simp [sqlite3QueryLoop, exec.code_final]
    | cons c retries ih =>
        have hc := hagain c List.mem_cons_self
        simp only [List.cons_append, sqlite3QueryLoop, hc, if_true]
        exact ih fun c' hc' => hagain c' (List.mem_cons_of_mem c hc')
  rw [workloadSqlite3Query, hloop exec.retries exec.retries_again]
  rfl

/-- The handle after `workload_db_query_set`. -/
def Db.after (db : Db) (stmt : Stmt) : Db :=
  if db.formatted db.composed then ({ db with composed := db.composed + 1 } : Db).send stmt
  else { db with composed := db.composed + 1 }

@[simp] theorem workloadDbQuerySet_snd (db : Db) (stmt : Stmt) :
    (workloadDbQuerySet db stmt).2 = db.after stmt := by
  unfold workloadDbQuerySet workloadDbVquery Db.after
  by_cases hf : db.formatted db.composed
  · simp only [hf, if_true]
    unfold workloadDbQuery
    cases db.backend with
    | sqlite3 exec => rfl
    | mysql reply =>
        dsimp only
        split_ifs <;> rfl
  · simp [hf]

/-- The value returned: `-1` for a text that could not be composed; then sqlite3's code, or `-1` exactly when
    mysql did not execute the statement. -/
theorem workloadDbQuerySet_fst (db : Db) (stmt : Stmt) :
    (workloadDbQuerySet db stmt).1 =
      if db.formatted db.composed then
        match db.backend with
        | .sqlite3 exec => ((exec db.composed).code : Int)
        | .mysql _ => if db.backend.Accepts db.composed then 0 else -1
      else -1 := by
  unfold workloadDbQuerySet workloadDbVquery
  by_cases hf : db.formatted db.composed
  · simp only [hf, if_true]
    unfold workloadDbQuery
    cases hb : db.backend with
    | sqlite3 exec => simp [workloadSqlite3Query_eq]
    | mysql reply =>
        dsimp only [Nat.add_sub_cancel]
        by_cases hq : (reply db.composed).query = 0
        · by_cases ha : (reply db.composed).affectedRows = mysqlNoCount
          · simp [hq, ha, Backend.Accepts]
          · simp [hq, ha, Backend.Accepts]
        · simp [hq, Backend.Accepts]
  · simp [hf]

@[simp] theorem Db.after_backend (db : Db) (stmt : Stmt) : (db.after stmt).backend = db.backend := by
  unfold Db.after
  split_ifs <;> rfl

@[simp] theorem Db.after_formatted (db : Db) (stmt : Stmt) :
    (db.after stmt).formatted = db.formatted := by
  unfold Db.after
  split_ifs <;> rfl

@[simp] theorem Db.after_composed (db : Db) (stmt : Stmt) :
    (db.after stmt).composed = db.composed + 1 := by
  unfold Db.after
  split_ifs <;> rfl

/-- A failure of the `n`-th statement shows in the value returned: the text could not be composed, or mysql did
    not execute it. The codes of sqlite3 are positive. -/
def Db.noticed (db : Db) (n : Nat) : Bool :=
  !db.formatted n ||
    match db.backend with
    | .sqlite3 _ => false
    | .mysql _ => !db.backend.Accepts n

theorem workloadDbQuerySet_failed (db : Db) (stmt : Stmt) :
    (workloadDbQuerySet db stmt).1 = -1 ↔ db.noticed db.composed = true := by
  rw [workloadDbQuerySet_fst]
  unfold Db.noticed
  cases hf : db.formatted db.composed with
  | false => simp
  | true =>
      cases hb : db.backend with
      | sqlite3 exec =>
          simp only [if_true, Bool.not_true, Bool.false_or, Bool.false_eq_true, iff_false]
          omega
      | mysql reply => cases (Backend.mysql reply).Accepts db.composed <;> simp

@[simp] theorem Db.after_noticed (db : Db) (stmt : Stmt) : (db.after stmt).noticed = db.noticed := by
  funext n
  simp [Db.noticed]

/-- A composed and executed statement acts on the tables. -/
theorem Db.after_tables {db : Db} {stmt : Stmt} (hf : db.formatted db.composed)
    (ha : db.backend.Accepts db.composed) : (db.after stmt).tables = stmt.apply db.tables := by
  simp [Db.after, Db.send, hf, ha]

end Workload
