import Workload.Lib.Memory
import Workload.Model.State

/-!
# `Model.Results` — the rows of an sqlite3 query

The layers of `Model.Db` once more, for an open sqlite3 handle and with the rows: the callback that
`sqlite3_exec` calls for each of them builds a result object out of nodes. Both live in a `Heap`; reading or
freeing an object that was freed has no outcome. The variable that holds the result, `*s_user_context` in the
callback, is passed along with its content.

Outside the program are the rows `sqlite3_exec` has ready in an attempt and the code it ends with unless a
callback stops it, and the outcome of each allocation. The copied strings are kept in their node.
-/

namespace Workload.Results

open Memory

abbrev NodePtr := Nat
abbrev ResultPtr := Nat

/-- `workload_sqlite3_node_t`. -/
structure SqliteNode where
  next : Option NodePtr
  argc : Int
  argv : List (Option Text)
  fieldName : List (Option Text)

/-- `workload_sqlite3_result_t`. -/
structure SqliteResult where
  nodeCount : Nat
  head : Option NodePtr
  tail : Option NodePtr
  fetch : Option NodePtr

/-- The objects of both kinds. -/
@[ext]
structure Objects where
  nodes : Heap SqliteNode
  results : Heap SqliteResult

/-- One call of the callback: its arguments, and whether `malloc` and `strdup` succeed in it. -/
structure SqliteCall where
  argc : Int
  argv : Option (Nat → Option Text)
  fieldName : Option (Nat → Option Text)
  newResult : Bool
  newNode : Bool
  dupArgv : Nat → Bool
  dupFieldName : Nat → Bool

/-- One `sqlite3_exec`: the calls it would make, and the code it then ends with. -/
structure SqliteAttempt where
  calls : List SqliteCall
  code : Nat

def sqliteError : Nat := 1
def sqliteAbort : Nat := 4
def sqliteNoMem : Nat := 7

/-! ## Objects -/

/-- `strdup` of the first `argc` strings of an array. -/
def dupStrings (argc : Int) (strings : Nat → Option Text) (dup : Nat → Bool) : List (Option Text) :=
  (List.range argc.toNat).map fun i => if dup i then strings i else none

/-- `workload_new_sqlite3_node`. -/
def workloadNewSqlite3Node (m : Objects) (c : SqliteCall) (argv fieldName : Nat → Option Text) :
    Option NodePtr × Objects :=
  if c.newNode then
    let (p, nodes) := m.nodes.alloc
      { next := none
        argc := c.argc
        argv := dupStrings c.argc argv c.dupArgv
        fieldName := dupStrings c.argc fieldName c.dupFieldName }
    (some p, { m with nodes := nodes })
  else (none, m)

/-- The loop of `workload_free_sqlite3_node`, for at most `n` nodes. -/
def workloadFreeSqlite3Node : Nat → Option NodePtr → Objects → Option Objects
  | _, none, m => some m
  | 0, some _, _ => none
  | n + 1, some p, m => do
      let node ← m.nodes.read p
      let nodes ← m.nodes.free p
      workloadFreeSqlite3Node n node.next { m with nodes := nodes }

/-- `workload_new_sqlite3_result`. -/
def workloadNewSqlite3Result (m : Objects) (ok : Bool) : Option ResultPtr × Objects :=
  if ok then
    let (r, results) := m.results.alloc ⟨0, none, none, none⟩
    (some r, { m with results := results })
  else (none, m)

/-- `workload_free_sqlite3_result`. -/
def workloadFreeSqlite3Result (m : Objects) : Option ResultPtr → Option Objects
  | none => some m
  | some r => do
      let result ← m.results.read r
      let m ← workloadFreeSqlite3Node m.nodes.size result.head m
      let results ← m.results.free r
      some { m with results := results }

/-! ## The callback -/

/-- The end of the callback: node `p` joins the list of result `r`. -/
def appendNode (m : Objects) (r : ResultPtr) (p : NodePtr) : Option Objects := do
  let result ← m.results.read r
  match result.tail with
  | none =>
      let results ← m.results.write r
        { nodeCount := add64 result.nodeCount 1, head := some p, tail := some p, fetch := some p }
      some { m with results := results }
  | some t =>
      let tail ← m.nodes.read t
      let nodes ← m.nodes.write t { tail with next := some p }
      let results ← m.results.write r
        { result with nodeCount := add64 result.nodeCount 1, tail := some p }
      some ⟨nodes, results⟩

/-- The result the callback works on: the one in the variable, or a new one. -/
def callbackResult (m : Objects) (c : SqliteCall) : Option ResultPtr → Option ResultPtr × Objects
  | some r => (some r, m)
  | none => workloadNewSqlite3Result m c.newResult

/-- The part of the callback that stores the row in result `r`, or frees the result. -/
def storeRow (c : SqliteCall) (argv fieldName : Nat → Option Text) (m : Objects)
    (var : Option ResultPtr) (r : ResultPtr) :
    Option (Nat × Objects × Option (Option ResultPtr)) :=
  match workloadNewSqlite3Node m c argv fieldName with
  | (none, m) => do
      let m ← workloadFreeSqlite3Result m (some r)
      some (sqliteNoMem, m, some var)
  | (some p, m) => do
      let m ← appendNode m r p
      some (sqliteOk, m, some (some r))

/-- `workload_sqlite3_callback`: the code returned, the objects, and the variable behind `s_user_context`. -/
def workloadSqlite3Callback (c : SqliteCall) (m : Objects) :
    Option (Option ResultPtr) → Option (Nat × Objects × Option (Option ResultPtr))
  | none => some (sqliteOk, m, none)
  | some var =>
      match c.argv, c.fieldName with
      | some argv, some fieldName =>
          if c.argc < 0 then some (sqliteError, m, some var)
          else
            match callbackResult m c var with
            | (none, m) => some (sqliteNoMem, m, some var)
            | (some r, m) => storeRow c argv fieldName m var r
      | _, _ => some (sqliteError, m, some var)

/-! ## The query -/

/-- `sqlite3_exec`: a callback that does not return `SQLITE_OK` aborts it. -/
def sqlite3Exec (code : Nat) : List SqliteCall → Objects → Option (Option ResultPtr) →
    Option (Nat × Objects × Option (Option ResultPtr))
  | [], m, context => some (code, m, context)
  | c :: calls, m, context => do
      let (result, m, context) ← workloadSqlite3Callback c m context
      if result = sqliteOk then sqlite3Exec code calls m context
      else some (sqliteAbort, m, context)

/-- `workload_sqlite3_query`, while there are attempts. -/
def workloadSqlite3Query : List SqliteAttempt → Objects → Option (Option ResultPtr) →
    Option (Nat × Objects × Option (Option ResultPtr))
  | [], _, _ => none
  | a :: attempts, m, context => do
      let (check, m, context) ← sqlite3Exec a.code a.calls m context
      if check = sqliteBusy ∨ check = sqliteLocked then workloadSqlite3Query attempts m context
      else some (check, m, context)

/-- `workload_db_query`, with the content of the variable `s_db_result` points to. A query that is asked for
    no result has a variable of its own, and frees what comes into it. -/
def workloadDbQuery (attempts : List SqliteAttempt) (m : Objects) :
    Option (Option ResultPtr) → Option (Nat × Objects × Option (Option ResultPtr))
  | some var => workloadSqlite3Query attempts m (some var)
  | none => do
      let (check, m, context) ← workloadSqlite3Query attempts m (some none)
      let m ← workloadFreeSqlite3Result m context.join
      some (check, m, none)

/-- `workload_db_query_get`; `formatted` is whether `vasprintf` succeeds. -/
def workloadDbQueryGet (formatted : Bool) (attempts : List SqliteAttempt) (m : Objects) :
    Option (Option ResultPtr × Objects) :=
  if formatted then do
    -- a code of sqlite3 is never `-1`
    let (_, m, context) ← workloadDbQuery attempts m (some none)
    some (context.join, m)
  else some (none, m)

/-! ## Reading the result -/

/-- `workload_db_fetch_row`. -/
def workloadDbFetchRow (m : Objects) :
    Option ResultPtr → Option (Option (List (Option Text)) × Objects)
  | none => some (none, m)
  | some r => do
      let result ← m.results.read r
      match result.fetch with
      | none => some (none, m)
      | some p =>
          let node ← m.nodes.read p
          let results ← m.results.write r { result with fetch := node.next }
          some (some node.argv, { m with results := results })

/-- `workload_db_row_count`. -/
def workloadDbRowCount (m : Objects) : Option ResultPtr → Option Nat
  | none => some 0
  | some r => (m.results.read r).map SqliteResult.nodeCount

/-- `n` calls of `workload_db_fetch_row` one after the other. -/
def fetchRows (result : Option ResultPtr) : Nat → Objects → Option (List (Option (List (Option Text))))
  | 0, _ => some []
  | n + 1, m => do
      let (row, m) ← workloadDbFetchRow m result
      let rows ← fetchRows result n m
      some (row :: rows)

end Workload.Results
