import Workload.Model.Results
import Mathlib.Data.List.Induction

/-!
# `Correctness.Results` — which rows a result holds, and who frees it

`Keeps` is the invariant between two calls of the callback: the variable is empty and every object made so far
was freed, or it holds a result whose list are the rows kept so far, and nothing else is left.

* **`query_get_exact`** — the result of a query has the rows of the last attempt exactly when no attempt
  before it delivered any: the callback goes on with the list of the attempt that was turned away.
* **`result_freed_once`** — the variable is sound and every object is freed once exactly when no node fails to
  be allocated behind a row that was kept: the result is freed then, and the variable still points to it.
-/

namespace Workload.Results

open Memory

/-! ## What the variable stands for -/

/-- Every object made since `m₀` was freed. -/
structure Freed (m₀ m : Objects) : Prop where
  results : Since m₀.results m.results []
  nodes : Since m₀.nodes m.nodes []

/-- Of the objects made since `m₀` result `r` and the nodes `l` are left, and `l` is its list. -/
structure Holds (m₀ m : Objects) (r : ResultPtr) (l : List (NodePtr × SqliteNode)) : Prop where
  results : Since m₀.results m.results [r]
  nodes : Since m₀.nodes m.nodes (l.map Prod.fst)
  nodup : (l.map Prod.fst).Nodup
  cell : m.results.read r = some
    { nodeCount := l.length % 2 ^ 64
      head := (l.map Prod.fst).head?
      tail := (l.map Prod.fst).getLast?
      fetch := (l.map Prod.fst).head? }
  chain : Chain SqliteNode.next m.nodes (l.map Prod.fst).head? l

/-- **Invariant between two calls**: the variable holds the rows kept so far. -/
def Keeps (m₀ m : Objects) : Option ResultPtr → List (List (Option Text)) → Prop
  | none, rows => Freed m₀ m ∧ rows = []
  | some r, rows => ∃ l, l ≠ [] ∧ Holds m₀ m r l ∧ l.map (fun x => x.2.argv) = rows

theorem Freed.refl (m : Objects) : Freed m m := ⟨.refl _, .refl _⟩

theorem Keeps.init (m : Objects) : Keeps m m none [] := ⟨.refl m, rfl⟩

/-- A new result has an empty list. -/
theorem Freed.newResult {m₀ m : Objects} (h : Freed m₀ m) :
    Holds m₀ { m with results := (m.results.alloc ⟨0, none, none, none⟩).2 } m.results.size [] := by
  refine ⟨h.results.alloc _, h.nodes, List.nodup_nil, ?_, rfl⟩
  rw [Heap.read_alloc, if_pos rfl]
  rfl

/-! ## Freeing -/

/-- **The loop frees the list**, and nothing else. -/
theorem freeNode_eq {h₀ : Heap SqliteNode} {l : List (NodePtr × SqliteNode)} {head : Option NodePtr}
    {n : Nat} {m : Objects} (hsince : Since h₀ m.nodes (l.map Prod.fst))
    (hnd : (l.map Prod.fst).Nodup) (hchain : Chain SqliteNode.next m.nodes head l)
    (hn : l.length ≤ n) :
    ∃ nodes, workloadFreeSqlite3Node n head m = some { m with nodes := nodes } ∧
      Since h₀ nodes [] := by
  induction l generalizing n head m with
  | nil =>
      obtain rfl : head = none := hchain
      exact ⟨m.nodes, by cases n <;> rfl, hsince⟩
  | cons x l ih =>
      obtain ⟨p, a⟩ := x
      obtain ⟨rfl, hread, hrest⟩ := hchain
      obtain ⟨hp, hnd⟩ := List.nodup_cons.mp hnd
      obtain ⟨n, rfl⟩ : ∃ n', n = n' + 1 := ⟨n - 1, by rw [List.length_cons] at hn; omega⟩
      obtain ⟨nodes, hfree, hsize, hreads⟩ := Heap.free_eq hread
      -- the rest of the chain does not pass the freed node
      have hframe : ∀ y ∈ l, nodes.read y.1 = m.nodes.read y.1 := by
        intro y hy
        rw [hreads, if_neg]
        intro he
        exact hp (List.mem_map.mpr ⟨y, hy, he⟩)
      obtain ⟨nodes', hloop, hsince'⟩ := ih (m := { m with nodes := nodes })
        (hsince.free hp hsize hreads) hnd (hrest.frame hframe) (Nat.le_of_succ_le_succ hn)
      refine ⟨nodes', ?_, hsince'⟩
      rw [workloadFreeSqlite3Node, hread, hfree]
      exact hloop

/-- **Freeing a result frees its nodes too.** -/
theorem Holds.free {m₀ m : Objects} {r : ResultPtr} {l : List (NodePtr × SqliteNode)}
    (h : Holds m₀ m r l) :
    ∃ m', workloadFreeSqlite3Result m (some r) = some m' ∧ Freed m₀ m' ∧
      m'.results.read r = none := by
  have hle : l.length ≤ m.nodes.size := by
    have hlen := h.nodes.length_le h.nodup
    rwa [List.length_map] at hlen
  obtain ⟨nodes, hloop, hnodes⟩ := freeNode_eq h.nodes h.nodup h.chain hle
  obtain ⟨results, hfree, hsize, hreads⟩ := Heap.free_eq h.cell
  refine ⟨⟨nodes, results⟩, ?_, ⟨h.results.free (List.not_mem_nil) hsize hreads, hnodes⟩, ?_⟩
  · simp only [workloadFreeSqlite3Result, h.cell, hloop, hfree, Option.bind_eq_bind, Option.bind_some]
  · exact (hreads r).trans (if_pos rfl)

/-- The result in the variable can be freed. -/
theorem Keeps.free {m₀ m : Objects} {var : Option ResultPtr} {rows : List (List (Option Text))}
    (h : Keeps m₀ m var rows) :
    ∃ m', workloadFreeSqlite3Result m var = some m' ∧ Freed m₀ m' := by
  cases var with
  | none => exact ⟨m, rfl, h.1⟩
  | some r =>
      obtain ⟨l, -, hholds, -⟩ := h
      obtain ⟨m', hfree, hfreed, -⟩ := hholds.free
      exact ⟨m', hfree, hfreed⟩

/-! ## The callback -/

/-- The arguments are in order. -/
def SqliteCall.Valid (c : SqliteCall) : Prop :=
  c.argv.isSome = true ∧ c.fieldName.isSome = true ∧ 0 ≤ c.argc

/-- The strings that are copied into the node. -/
def SqliteCall.stored (c : SqliteCall) : List (Option Text) :=
  dupStrings c.argc (c.argv.getD fun _ => none) c.dupArgv

/-- **The end of the callback** puts the new node behind the list. -/
theorem Holds.append {m₀ m : Objects} {r : ResultPtr} {l : List (NodePtr × SqliteNode)}
    (h : Holds m₀ m r l) (node : SqliteNode) (hnext : node.next = none) :
    ∃ m' l', appendNode { m with nodes := (m.nodes.alloc node).2 } r m.nodes.size = some m' ∧
      l' ≠ [] ∧ Holds m₀ m' r l' ∧
      l'.map (fun x => x.2.argv) = l.map (fun x => x.2.argv) ++ [node.argv] := by
  have hfresh : m.nodes.size ∉ l.map Prod.fst := h.nodes.size_not_mem
  have halloc := h.nodes.alloc node
  have hold : ∀ x ∈ l, (m.nodes.alloc node).2.read x.1 = m.nodes.read x.1 := by
    intro x hx
    rw [Heap.read_alloc, if_neg]
    intro he
    exact hfresh (he ▸ List.mem_map_of_mem hx)
  have hnew : (m.nodes.alloc node).2.read m.nodes.size = some node := by
    rw [Heap.read_alloc, if_pos rfl]
  induction l using List.reverseRecOn with
  | nil =>
      obtain ⟨results, hwrite, hsize, hreads⟩ := Heap.write_eq h.cell
        (b := ⟨add64 0 1, some m.nodes.size, some m.nodes.size, some m.nodes.size⟩)
      refine ⟨⟨(m.nodes.alloc node).2, results⟩, [(m.nodes.size, node)], ?_, List.cons_ne_nil _ _, ?_, rfl⟩
      · simp only [appendNode, h.cell, List.map_nil, List.getLast?_nil, List.length_nil, Nat.zero_mod,
          hwrite, Option.bind_eq_bind, Option.bind_some]
      · refine ⟨h.results.write List.mem_cons_self hsize hreads, halloc, List.nodup_singleton _, ?_, ?_⟩
        · exact (hreads r).trans (if_pos rfl)
        · exact ⟨rfl, hnew, hnext⟩
  | append_singleton l x _ =>
      obtain ⟨t, a⟩ := x
      generalize hl' : l ++ [(t, { a with next := some m.nodes.size }), (m.nodes.size, node)] = l'
      have hnames : l'.map Prod.fst = (l ++ [(t, a)]).map Prod.fst ++ [m.nodes.size] := by simp [← hl']
      have hhead : ((l ++ [(t, a)]).map Prod.fst).head? = (l'.map Prod.fst).head? := by
        rw [hnames]
        cases l <;> rfl
      have hlen : l'.length = (l ++ [(t, a)]).length + 1 := by simp [← hl']
      have hcell := h.cell
      have htail : ((l ++ [(t, a)]).map Prod.fst).getLast? = some t := by simp
      rw [htail, hhead] at hcell
      have hta : (m.nodes.alloc node).2.read t = some a :=
        (hold (t, a) (by simp)).trans (h.chain.read (t, a) (by simp))
      obtain ⟨nodes, hwriteNode, hsizeNode, hreadNode⟩ :=
        Heap.write_eq hta (b := { a with next := some m.nodes.size })
      obtain ⟨results, hwrite, hsize, hreads⟩ := Heap.write_eq hcell
        (b := ⟨add64 ((l ++ [(t, a)]).length % 2 ^ 64) 1, (l'.map Prod.fst).head?, some m.nodes.size,
          (l'.map Prod.fst).head?⟩)
      refine ⟨⟨nodes, results⟩, l', ?_, ?_, ⟨?_, ?_, ?_, ?_, ?_⟩, ?_⟩
      · simp only [appendNode, hcell, hta, hwriteNode, hwrite, Option.bind_eq_bind, Option.bind_some]
      · rw [← List.length_pos_iff, hlen]
        exact Nat.succ_pos _
      · exact h.results.write List.mem_cons_self hsize hreads
      · rw [hnames]
        exact halloc.write (by simp) hsizeNode hreadNode
      · rw [hnames, List.nodup_append_comm]
        exact List.nodup_cons.mpr ⟨hfresh, h.nodup⟩
      · rw [hreads, if_pos rfl, hnames, List.getLast?_concat, hlen]
        simp [add64]
      · -- the old nodes still point to each other, the last one to the new one
        rw [← hhead, ← hl']
        refine h.chain.concat (fun x hx => ?_) ?_ rfl ?_ hnext
        · have hnd := h.nodup
          rw [List.map_append, List.nodup_append_comm] at hnd
          have htl : t ∉ l.map Prod.fst := (List.nodup_cons.mp hnd).1
          have hxt : x.1 ≠ t := fun he => htl (List.mem_map.mpr ⟨x, hx, he⟩)
          rw [hreadNode, if_neg hxt]
          exact hold x (List.mem_append_left _ hx)
        · rw [hreadNode, if_pos rfl]
        · have hne : m.nodes.size ≠ t := fun he => hfresh (by simp [he])
          rw [hreadNode, if_neg hne]
          exact hnew
      · simp [← hl']

/-- Arguments that are not in order are refused. -/
theorem callback_refused {c : SqliteCall} (hc : ¬ c.Valid) (m : Objects) (var : Option ResultPtr) :
    workloadSqlite3Callback c m (some var) = some (sqliteError, m, some var) := by
  unfold workloadSqlite3Callback
  unfold SqliteCall.Valid at hc
  cases hargv : c.argv with
  | none => rfl
  | some argv =>
      cases hname : c.fieldName with
      | none => rfl
      | some fieldName =>
          have hneg : c.argc < 0 := by
            by_contra hle
            exact hc ⟨by rw [hargv]; rfl, by rw [hname]; rfl, Int.not_lt.mp hle⟩
          exact if_pos hneg

theorem SqliteCall.Valid.arguments {c : SqliteCall} (hc : c.Valid) :
    ∃ argv fieldName, c.argv = some argv ∧ c.fieldName = some fieldName ∧ ¬ c.argc < 0 := by
  obtain ⟨hargv, hname, hargc⟩ := hc
  obtain ⟨argv, hargv⟩ := Option.isSome_iff_exists.mp hargv
  obtain ⟨fieldName, hname⟩ := Option.isSome_iff_exists.mp hname
  exact ⟨argv, fieldName, hargv, hname, Int.not_lt.mpr hargc⟩

/-- The callback for arguments that are in order. -/
theorem callback_valid {c : SqliteCall} {argv fieldName : Nat → Option Text} (hargv : c.argv = some argv)
    (hname : c.fieldName = some fieldName) (hargc : ¬ c.argc < 0) (m : Objects)
    (var : Option ResultPtr) :
    workloadSqlite3Callback c m (some var) =
      match callbackResult m c var with
      | (none, m) => some (sqliteNoMem, m, some var)
      | (some r, m) => storeRow c argv fieldName m var r := by
  unfold workloadSqlite3Callback
  rw [hargv, hname]
  exact if_neg hargc

/-- With a node the row is stored. -/
theorem Holds.storeRow {m₀ m : Objects} {r : ResultPtr} {l : List (NodePtr × SqliteNode)}
    (h : Holds m₀ m r l) {c : SqliteCall} {argv : Nat → Option Text} (fieldName : Nat → Option Text)
    (hargv : c.argv = some argv) (hnode : c.newNode = true) (var : Option ResultPtr) :
    ∃ m', storeRow c argv fieldName m var r = some (sqliteOk, m', some (some r)) ∧
      Keeps m₀ m' (some r) (l.map (fun x => x.2.argv) ++ [c.stored]) := by
  have hstored : c.stored = dupStrings c.argc argv c.dupArgv := by rw [SqliteCall.stored, hargv]; rfl
  obtain ⟨m', l', happend, hne, hholds, hrows⟩ := h.append
    ⟨none, c.argc, c.stored, dupStrings c.argc fieldName c.dupFieldName⟩ rfl
  refine ⟨m', ?_, l', hne, hholds, hrows⟩
  unfold Results.storeRow workloadNewSqlite3Node
  rw [if_pos hnode, ← hstored]
  show (do
    let m ← appendNode { m with nodes := (m.nodes.alloc _).2 } r m.nodes.size
    some (sqliteOk, m, some (some r))) = _
  rw [happend]
  rfl

/-- **Without a node the result is freed**, and the variable stays as it is. -/
theorem Holds.storeRow_failed {m₀ m : Objects} {r : ResultPtr} {l : List (NodePtr × SqliteNode)}
    (h : Holds m₀ m r l) {c : SqliteCall} (argv fieldName : Nat → Option Text)
    (hnode : c.newNode = false) (var : Option ResultPtr) :
    ∃ m', Results.storeRow c argv fieldName m var r = some (sqliteNoMem, m', some var) ∧ Freed m₀ m' ∧
      m'.results.read r = none := by
  obtain ⟨m', hfree, hfreed, hread⟩ := h.free
  refine ⟨m', ?_, hfreed, hread⟩
  unfold Results.storeRow workloadNewSqlite3Node
  rw [if_neg (by rw [hnode]; exact Bool.false_ne_true)]
  dsimp only
  rw [hfree]
  rfl

/-- A row that finds a result, or memory for one, and a node is kept. -/
theorem Keeps.store {m₀ m : Objects} {var : Option ResultPtr} {rows : List (List (Option Text))}
    (h : Keeps m₀ m var rows) {c : SqliteCall} (hc : c.Valid)
    (hresult : var = none → c.newResult = true) (hnode : c.newNode = true) :
    ∃ m' r, workloadSqlite3Callback c m (some var) = some (sqliteOk, m', some (some r)) ∧
      Keeps m₀ m' (some r) (rows ++ [c.stored]) := by
  obtain ⟨argv, fieldName, hargv, hname, hargc⟩ := hc.arguments
  rw [callback_valid hargv hname hargc]
  cases var with
  | none =>
      obtain ⟨hfreed, rfl⟩ := h
      obtain ⟨m', hstore, hkeeps⟩ := hfreed.newResult.storeRow fieldName hargv hnode none
      refine ⟨m', _, ?_, hkeeps⟩
      simp only [callbackResult, workloadNewSqlite3Result, hresult rfl, if_true]
      exact hstore
  | some r =>
      obtain ⟨l, -, hholds, rfl⟩ := h
      obtain ⟨m', hstore, hkeeps⟩ := hholds.storeRow fieldName hargv hnode (some r)
      exact ⟨m', r, hstore, hkeeps⟩

/-- Without memory for the result nothing happens. -/
theorem callback_noResult {c : SqliteCall} (hc : c.Valid) (hresult : c.newResult = false) (m : Objects) :
    workloadSqlite3Callback c m (some none) = some (sqliteNoMem, m, some none) := by
  obtain ⟨argv, fieldName, hargv, hname, hargc⟩ := hc.arguments
  rw [callback_valid hargv hname hargc]
  simp [callbackResult, workloadNewSqlite3Result, hresult]

/-- Without memory for the first node the new result is freed, and the variable stays empty. -/
theorem Freed.noNode {m₀ m : Objects} (h : Freed m₀ m) {c : SqliteCall} (hc : c.Valid)
    (hresult : c.newResult = true) (hnode : c.newNode = false) :
    ∃ m', workloadSqlite3Callback c m (some none) = some (sqliteNoMem, m', some none) ∧ Freed m₀ m' := by
  obtain ⟨argv, fieldName, hargv, hname, hargc⟩ := hc.arguments
  obtain ⟨m', hstore, hfreed, -⟩ := h.newResult.storeRow_failed argv fieldName hnode none
  refine ⟨m', ?_, hfreed⟩
  rw [callback_valid hargv hname hargc]
  simp only [callbackResult, workloadNewSqlite3Result, hresult, if_true]
  exact hstore

/-- **Without memory for a later node the variable points to a result that was freed.** -/
theorem Keeps.noNode {m₀ m : Objects} {r : ResultPtr} {rows : List (List (Option Text))}
    (h : Keeps m₀ m (some r) rows) {c : SqliteCall} (hc : c.Valid) (hnode : c.newNode = false) :
    ∃ m', workloadSqlite3Callback c m (some (some r)) = some (sqliteNoMem, m', some (some r)) ∧
      m'.results.read r = none := by
  obtain ⟨argv, fieldName, hargv, hname, hargc⟩ := hc.arguments
  obtain ⟨l, -, hholds, -⟩ := h
  obtain ⟨m', hstore, -, hread⟩ := hholds.storeRow_failed argv fieldName hnode (some r)
  refine ⟨m', ?_, hread⟩
  rw [callback_valid hargv hname hargc]
  exact hstore

/-! ## A query whose allocations succeed -/

/-- The row that is delivered. -/
def SqliteCall.row (c : SqliteCall) : List (Option Text) :=
  (List.range c.argc.toNat).map (c.argv.getD fun _ => none)

/-- The arguments are in order and every allocation succeeds. -/
structure SqliteCall.Succeeds (c : SqliteCall) : Prop where
  valid : c.Valid
  newResult : c.newResult = true
  newNode : c.newNode = true
  dupArgv : ∀ i, c.dupArgv i = true
  dupFieldName : ∀ i, c.dupFieldName i = true

theorem SqliteCall.Succeeds.stored {c : SqliteCall} (hc : c.Succeeds) : c.stored = c.row := by
  unfold SqliteCall.stored SqliteCall.row dupStrings
  refine List.map_congr_left fun i _ => ?_
  rw [hc.dupArgv i, if_pos rfl]

/-- One attempt adds its rows. -/
theorem Keeps.exec {m₀ m : Objects} {var : Option ResultPtr} {rows : List (List (Option Text))}
    {calls : List SqliteCall} (h : Keeps m₀ m var rows) (hcalls : ∀ c ∈ calls, c.Succeeds) (code : Nat) :
    ∃ m' var', sqlite3Exec code calls m (some var) = some (code, m', some var') ∧
      Keeps m₀ m' var' (rows ++ calls.map SqliteCall.row) := by
  induction calls generalizing m var rows with
  | nil => exact ⟨m, var, rfl, by rwa [List.map_nil, List.append_nil]⟩
  | cons c calls ih =>
      have hc := hcalls c List.mem_cons_self
      obtain ⟨m₁, r, hcall, h₁⟩ := h.store hc.valid (fun _ => hc.newResult) hc.newNode
      obtain ⟨m', var', hexec, h'⟩ := ih h₁ fun c' hc' => hcalls c' (List.mem_cons_of_mem c hc')
      refine ⟨m', var', ?_, ?_⟩
      · simp only [sqlite3Exec, hcall, Option.bind_eq_bind, Option.bind_some, if_true]
        exact hexec
      · rwa [hc.stored, List.append_assoc] at h'

/-- **The retry loop goes on with the list it has**: the rows of the attempts turned away stay in it. -/
theorem Keeps.query {m₀ m : Objects} {var : Option ResultPtr} {rows : List (List (Option Text))}
    {busy : List SqliteAttempt} {last : SqliteAttempt} (h : Keeps m₀ m var rows)
    (hbusy : ∀ a ∈ busy, a.code = sqliteBusy ∨ a.code = sqliteLocked)
    (hlast : ¬ (last.code = sqliteBusy ∨ last.code = sqliteLocked))
    (hcalls : ∀ a ∈ busy ++ [last], ∀ c ∈ a.calls, c.Succeeds) :
    ∃ m' var', workloadSqlite3Query (busy ++ [last]) m (some var) = some (last.code, m', some var') ∧
      Keeps m₀ m' var'
        (rows ++ (busy.flatMap SqliteAttempt.calls).map SqliteCall.row ++ last.calls.map SqliteCall.row) := by
  induction busy generalizing m var rows with
  | nil =>
      obtain ⟨m', var', hexec, h'⟩ := h.exec (hcalls last List.mem_cons_self) last.code
      refine ⟨m', var', ?_, by simpa using h'⟩
      simp only [List.nil_append, workloadSqlite3Query, hexec, Option.bind_eq_bind, Option.bind_some,
        if_neg hlast]
  | cons a busy ih =>
      obtain ⟨m₁, var₁, hexec, h₁⟩ := h.exec (hcalls a List.mem_cons_self) a.code
      obtain ⟨m', var', hquery, h'⟩ := ih h₁ (fun b hb => hbusy b (List.mem_cons_of_mem a hb))
        fun b hb => hcalls b (List.mem_cons_of_mem a hb)
      refine ⟨m', var', ?_, by simpa using h'⟩
      simp only [List.cons_append, workloadSqlite3Query, hexec, Option.bind_eq_bind, Option.bind_some,
        if_pos (hbusy a List.mem_cons_self)]
      exact hquery

/-- The code returned is the one of the layer without the rows. -/
theorem workloadSqlite3Query_code {busy : List SqliteAttempt} {last : SqliteAttempt}
    (hbusy : ∀ a ∈ busy, a.code = sqliteBusy ∨ a.code = sqliteLocked)
    (hlast : ¬ (last.code = sqliteBusy ∨ last.code = sqliteLocked))
    (hcalls : ∀ a ∈ busy ++ [last], ∀ c ∈ a.calls, c.Succeeds) (m : Objects) :
    ∃ exec : SqliteExec, exec.retries = busy.map SqliteAttempt.code ∧ exec.code = last.code ∧
      (workloadSqlite3Query (busy ++ [last]) m (some none)).map (fun x => (x.1 : Int)) =
        some (Workload.workloadSqlite3Query exec) := by
  refine ⟨⟨busy.map SqliteAttempt.code, last.code, ?_, not_or.mp hlast⟩, rfl, rfl, ?_⟩
  · intro c hc
    obtain ⟨a, ha, rfl⟩ := List.mem_map.mp hc
    exact hbusy a ha
  · obtain ⟨m', var', hquery, -⟩ := (Keeps.init m).query hbusy hlast hcalls
    rw [hquery, workloadSqlite3Query_eq]
    rfl

/-! ## Reading the rows -/

/-- Successive calls of `workload_db_fetch_row` go along the list, and end. -/
theorem fetchRows_eq {m : Objects} {r : ResultPtr} {result : SqliteResult}
    {l : List (NodePtr × SqliteNode)} (hread : m.results.read r = some result)
    (hchain : Chain SqliteNode.next m.nodes result.fetch l) (n : Nat) :
    fetchRows (some r) n m =
      some (((l.map fun x => x.2.argv).map some).take n ++ List.replicate (n - l.length) none) := by
  induction n generalizing m result l with
  | zero => simp [fetchRows]
  | succ n ih =>
      cases l with
      | nil =>
          have hfetch : result.fetch = none := hchain
          have hrow : workloadDbFetchRow m (some r) = some (none, m) := by
            simp [workloadDbFetchRow, hread, hfetch]
          simp only [fetchRows, hrow, ih hread hchain, Option.bind_eq_bind, Option.bind_some]
          simp [List.replicate_succ]
      | cons x l =>
          obtain ⟨p, a⟩ := x
          obtain ⟨hfetch, ha, hrest⟩ := hchain
          obtain ⟨results, hwrite, -, hreads⟩ :=
            Heap.write_eq hread (b := { result with fetch := a.next })
          have hrow : workloadDbFetchRow m (some r) = some (some a.argv, { m with results := results }) := by
            simp only [workloadDbFetchRow, hread, hfetch, ha, hwrite, Option.bind_eq_bind, Option.bind_some]
          have hread' := (hreads r).trans (if_pos rfl)
          simp only [fetchRows, hrow, ih (m := { m with results := results }) hread' hrest,
            Option.bind_eq_bind, Option.bind_some]
          simp

theorem fetchRows_none (n : Nat) (m : Objects) : fetchRows none n m = some (List.replicate n none) := by
  induction n with
  | zero => rfl
  | succ n ih =>
      simp only [fetchRows, workloadDbFetchRow, ih, Option.bind_eq_bind, Option.bind_some]
      rfl

/-- The result has these rows: they are counted, and fetched one after the other, then there is none. -/
def Exact (rows : List (List (Option Text))) (result : Option ResultPtr) (m : Objects) : Prop :=
  workloadDbRowCount m result = some rows.length ∧
    ∀ n, fetchRows result n m = some ((rows.map some).take n ++ List.replicate (n - rows.length) none)

/-- What the variable holds is counted modulo `2^64`, and fetched. -/
theorem Keeps.reads {m₀ m : Objects} {var : Option ResultPtr} {rows : List (List (Option Text))}
    (h : Keeps m₀ m var rows) :
    workloadDbRowCount m var = some (rows.length % 2 ^ 64) ∧
      ∀ n, fetchRows var n m = some ((rows.map some).take n ++ List.replicate (n - rows.length) none) := by
  cases var with
  | none =>
      obtain ⟨-, rfl⟩ := h
      refine ⟨rfl, fun n => ?_⟩
      rw [fetchRows_none]
      simp
  | some r =>
      obtain ⟨l, -, hholds, rfl⟩ := h
      refine ⟨?_, fun n => ?_⟩
      · rw [workloadDbRowCount, hholds.cell, List.length_map]
        rfl
      · rw [fetchRows_eq hholds.cell hholds.chain, List.length_map]

/-- A variable holds one list of rows only. -/
theorem Keeps.exact_iff {m₀ m : Objects} {var : Option ResultPtr} {rows rows' : List (List (Option Text))}
    (h : Keeps m₀ m var rows) : Exact rows' var m ↔ rows' = rows ∧ rows.length < 2 ^ 64 := by
  obtain ⟨hcount, hfetch⟩ := h.reads
  unfold Exact
  rw [hcount]
  constructor
  · rintro ⟨hlen, hrows⟩
    have hsame := (hrows (rows.length + rows'.length)).symm.trans (hfetch _)
    have hfilter := congrArg (fun l => l.filterMap id) (Option.some.inj hsame)
    have heq : rows' = rows := by simpa [List.take_of_length_le] using hfilter
    refine ⟨heq, ?_⟩
    have hmod := Option.some.inj hlen
    rw [heq] at hmod
    rw [← hmod]
    exact Nat.mod_lt _ (by decide)
  · rintro ⟨rfl, hlt⟩
    exact ⟨by rw [Nat.mod_eq_of_lt hlt], hfetch⟩

/-- **The result of a query has exactly the rows of the last attempt** if and only if no attempt before it
    delivered a row, and the rows are fewer than the counter counts. -/
theorem query_get_exact {busy : List SqliteAttempt} {last : SqliteAttempt}
    (hbusy : ∀ a ∈ busy, a.code = sqliteBusy ∨ a.code = sqliteLocked) (hlast : last.code = sqliteOk)
    (hcalls : ∀ a ∈ busy ++ [last], ∀ c ∈ a.calls, c.Succeeds) (m : Objects) :
    ∃ result m', workloadDbQueryGet true (busy ++ [last]) m = some (result, m') ∧
      (Exact (last.calls.map SqliteCall.row) result m' ↔
        (∀ a ∈ busy, a.calls = []) ∧ last.calls.length < 2 ^ 64) := by
  have hfinal : ¬ (last.code = sqliteBusy ∨ last.code = sqliteLocked) := by
    rw [hlast]
    decide
  obtain ⟨m', var, hquery, hkeeps⟩ := (Keeps.init m).query hbusy hfinal hcalls
  refine ⟨var, m', ?_, ?_⟩
  · simp only [workloadDbQueryGet, if_true, workloadDbQuery, hquery, Option.bind_eq_bind,
      Option.bind_some, Option.join_some]
  · have hnone : (∀ a ∈ busy, a.calls = []) ↔ busy.flatMap SqliteAttempt.calls = [] :=
      List.flatMap_eq_nil_iff.symm
    rw [hkeeps.exact_iff, hnone]
    generalize busy.flatMap SqliteAttempt.calls = early
    constructor
    · rintro ⟨hrows, hlt⟩
      have hlen := congrArg List.length hrows
      simp only [List.nil_append, List.length_append, List.length_map] at hlen hlt
      exact ⟨List.eq_nil_of_length_eq_zero (by omega), by omega⟩
    · rintro ⟨rfl, hlt⟩
      refine ⟨rfl, ?_⟩
      simpa using hlt

/-- One row with one string. -/
def smallCall : SqliteCall :=
  ⟨1, some fun _ => some "a".toList, some fun _ => some "b".toList, true, true, fun _ => true,
    fun _ => true⟩

theorem small_succeeds : smallCall.Succeeds := by
  refine ⟨⟨rfl, rfl, by decide⟩, rfl, rfl, fun _ => rfl, fun _ => rfl⟩

/-- An attempt turned away at once, then one row. -/
theorem query_get_exact_small :
    ∃ result m', workloadDbQueryGet true [⟨[], sqliteBusy⟩, ⟨[smallCall], sqliteOk⟩] ⟨.empty, .empty⟩ =
        some (result, m') ∧
      (Exact [smallCall.row] result m' ↔
        (∀ a ∈ [(⟨[], sqliteBusy⟩ : SqliteAttempt)], a.calls = []) ∧ 1 < 2 ^ 64) := by
  have hbusy : ∀ a ∈ [(⟨[], sqliteBusy⟩ : SqliteAttempt)], a.code = sqliteBusy ∨ a.code = sqliteLocked :=
    fun a ha => Or.inl (by rw [List.mem_singleton.mp ha])
  have hcalls : ∀ a ∈ [⟨[], sqliteBusy⟩] ++ [(⟨[smallCall], sqliteOk⟩ : SqliteAttempt)],
      ∀ c ∈ a.calls, c.Succeeds := by
    intro a ha c hc
    rcases List.mem_cons.mp ha with rfl | ha
    · exact nomatch hc
    · rw [List.mem_singleton.mp ha] at hc
      rw [List.mem_singleton.mp hc]
      exact small_succeeds
  exact query_get_exact hbusy rfl hcalls _

/-- **An attempt delivers a row and is turned away, the next one delivers it again**: it is counted twice. -/
theorem query_get_repeats :
    ¬ ∀ (busy : List SqliteAttempt) (last : SqliteAttempt),
      (∀ a ∈ busy, a.code = sqliteBusy ∨ a.code = sqliteLocked) → last.code = sqliteOk →
      (∀ a ∈ busy ++ [last], ∀ c ∈ a.calls, c.Succeeds) → ∀ m,
      ∃ result m', workloadDbQueryGet true (busy ++ [last]) m = some (result, m') ∧
        Exact (last.calls.map SqliteCall.row) result m' := by
  intro h
  obtain ⟨result, m', hget, hcount, -⟩ :=
    h [⟨[smallCall], sqliteBusy⟩] ⟨[smallCall], sqliteOk⟩
      (fun a ha => Or.inl (by rw [List.mem_singleton.mp ha])) rfl
      (fun a ha c hc => by
        have hsmall : c = smallCall := by
          rcases List.mem_cons.mp ha with rfl | ha
          · exact List.mem_singleton.mp hc
          · rw [List.mem_singleton.mp ha] at hc
            exact List.mem_singleton.mp hc
        exact hsmall ▸ small_succeeds)
      ⟨.empty, .empty⟩
  have htwo : (workloadDbQueryGet true [⟨[smallCall], sqliteBusy⟩, ⟨[smallCall], sqliteOk⟩]
      ⟨.empty, .empty⟩).bind (fun x => workloadDbRowCount x.2 x.1) = some 2 := rfl
  rw [List.singleton_append] at hget
  rw [hget] at htwo
  exact absurd (hcount.symm.trans htwo) (by decide)

/-! ## Who frees the result -/

/-- Whenever a callback of the sequence returns, the variable is empty or its result was not freed. -/
def NeverDangles : List SqliteCall → Objects → Option ResultPtr → Prop
  | [], _, _ => True
  | c :: calls, m, var =>
      ∃ code m' var', workloadSqlite3Callback c m (some var) = some (code, m', some var') ∧
        (∀ r, var' = some r → (m'.results.read r).isSome) ∧ NeverDangles calls m' var'

/-- The row is stored even when the variable is empty. -/
def SqliteCall.Stores (c : SqliteCall) : Prop :=
  c.Valid ∧ c.newResult = true ∧ c.newNode = true

theorem Keeps.live {m₀ m : Objects} {var : Option ResultPtr} {rows : List (List (Option Text))}
    (h : Keeps m₀ m var rows) : ∀ r, var = some r → (m.results.read r).isSome := by
  rintro r rfl
  obtain ⟨l, -, hholds, -⟩ := h
  rw [hholds.cell]
  rfl

/-- A callback that keeps the invariant goes on with the rest of the sequence. -/
theorem neverDangles_cons {m₀ m m' : Objects} {var var' : Option ResultPtr} {c : SqliteCall} {code : Nat}
    {calls : List SqliteCall} {rows : List (List (Option Text))}
    (hcall : workloadSqlite3Callback c m (some var) = some (code, m', some var'))
    (h : Keeps m₀ m' var' rows) : NeverDangles (c :: calls) m var ↔ NeverDangles calls m' var' := by
  constructor
  · rintro ⟨code₁, m₁, var₁, hcall₁, -, hrest⟩
    obtain ⟨-, rfl, ⟨⟩⟩ := Prod.mk.inj (Option.some.inj (hcall.symm.trans hcall₁))
    exact hrest
  · exact fun hrest => ⟨code, m', var', hcall, h.live, hrest⟩

/-- **Sequences of callbacks.** The variable stays sound exactly when no node fails to be allocated while it
    holds a result: not for any row if it holds one already, and not behind a row that is stored. -/
theorem Keeps.neverDangles {m₀ m : Objects} {var : Option ResultPtr} {rows : List (List (Option Text))}
    {calls : List SqliteCall} (h : Keeps m₀ m var rows) :
    NeverDangles calls m var ↔
      (var.isSome → ∀ c ∈ calls, c.Valid → c.newNode = true) ∧
        calls.Pairwise fun a b => a.Stores → b.Valid → b.newNode = true := by
  induction calls generalizing m var rows with
  | nil => simp [NeverDangles]
  | cons c calls ih =>
      rw [List.pairwise_cons]
      by_cases hvalid : c.Valid
      case neg =>
        have hstores : ¬ c.Stores := fun hc => hvalid hc.1
        rw [neverDangles_cons (callback_refused hvalid m var) h, ih h]
        simp [hvalid, hstores]
      cases hnode : c.newNode with
      | true =>
          by_cases hresult : var = none → c.newResult = true
          · obtain ⟨m', r, hcall, hkeeps⟩ := h.store hvalid hresult hnode
            rw [neverDangles_cons hcall hkeeps, ih hkeeps]
            -- behind a stored row every row needs its node
            have hall : (∀ b ∈ calls, b.Valid → b.newNode = true) →
                calls.Pairwise fun a b => a.Stores → b.Valid → b.newNode = true := by
              intro hrows
              refine List.pairwise_of_forall_mem_list fun a _ b hb _ hb' => hrows b hb hb'
            cases var with
            | none =>
                have hstores : c.Stores := ⟨hvalid, hresult rfl, hnode⟩
                simp [hstores]
            | some r₀ =>
                simp only [Option.isSome_some, forall_true_left, List.forall_mem_cons, hnode, implies_true,
                  true_and]
                exact ⟨fun hrows => ⟨hrows.1, fun b hb _ => hrows.1 b hb, hrows.2⟩,
                  fun hrows => ⟨hrows.1, hrows.2.2⟩⟩
          · obtain ⟨rfl, hno⟩ := Classical.not_imp.mp hresult
            have hstores : ¬ c.Stores := fun hc => hno hc.2.1
            rw [neverDangles_cons (callback_noResult hvalid (Bool.eq_false_iff.mpr hno) m) h, ih h]
            simp [hstores]
      | false =>
          have hstores : ¬ c.Stores := fun hc => absurd hc.2.2 (by rw [hnode]; exact Bool.false_ne_true)
          cases var with
          | none =>
              have hkeeps : ∃ code m', workloadSqlite3Callback c m (some none) = some (code, m', some none) ∧
                  Freed m₀ m' := by
                cases hresult : c.newResult with
                | true =>
                    obtain ⟨m', hcall, hfreed⟩ := h.1.noNode hvalid hresult hnode
                    exact ⟨_, m', hcall, hfreed⟩
                | false => exact ⟨_, m, callback_noResult hvalid hresult m, h.1⟩
              obtain ⟨code, m', hcall, hfreed⟩ := hkeeps
              have hnext : Keeps m₀ m' none [] := ⟨hfreed, rfl⟩
              rw [neverDangles_cons hcall hnext, ih hnext]
              simp [hstores]
          | some r =>
              obtain ⟨m', hcall, hread⟩ := h.noNode hvalid hnode
              constructor
              · rintro ⟨code₁, m₁, var₁, hcall₁, hlive, -⟩
                obtain ⟨-, rfl, ⟨⟩⟩ := Prod.mk.inj (Option.some.inj (hcall.symm.trans hcall₁))
                have hsome := hlive r rfl
                rw [hread] at hsome
                exact nomatch hsome
              · rintro ⟨hrows, -⟩
                have hthis := hrows rfl c List.mem_cons_self hvalid
                exact nomatch hnode.symm.trans hthis

/-- Behind rows that are all kept, and with a result to keep them in (`held`, or the first row brings it), the
    node of a row cannot be allocated. -/
def FailsLate (held : Prop) (calls : List SqliteCall) : Prop :=
  ∃ kept c rest, calls = kept ++ c :: rest ∧ (∀ b ∈ kept, b.Valid ∧ b.newNode = true) ∧
    (held ∨ ∃ first ∈ kept.head?, first.newResult = true) ∧ c.Valid ∧ c.newNode = false

theorem not_failsLate_nil (held : Prop) : ¬ FailsLate held [] := by
  rintro ⟨kept, c, rest, hcalls, -⟩
  exact absurd hcalls.symm (by simp)

/-- A kept row is passed. -/
theorem failsLate_cons {held : Prop} {c : SqliteCall} {calls : List SqliteCall} (hc : c.Valid)
    (hnode : c.newNode = true) (hresult : held ∨ c.newResult = true) :
    FailsLate held (c :: calls) ↔ FailsLate True calls := by
  constructor
  · rintro ⟨_ | ⟨b, kept⟩, d, rest, hcalls, hkept, -, hd⟩
    · obtain ⟨rfl, -⟩ := List.cons.inj hcalls
      exact nomatch hnode.symm.trans hd.2
    · obtain ⟨rfl, rfl⟩ := List.cons.inj hcalls
      exact ⟨kept, d, rest, rfl, fun b hb => hkept b (List.mem_cons_of_mem _ hb), Or.inl trivial, hd⟩
  · rintro ⟨kept, d, rest, rfl, hkept, -, hd⟩
    refine ⟨c :: kept, d, rest, rfl, ?_, hresult.imp id fun h => ⟨c, rfl, h⟩, hd⟩
    exact List.forall_mem_cons.mpr ⟨⟨hc, hnode⟩, hkept⟩

/-- A row that is not kept ends the query; it fails late when it has no node, but a result. -/
theorem failsLate_stop {held : Prop} {c : SqliteCall} {calls : List SqliteCall}
    (hc : ¬ (c.Valid ∧ c.newNode = true ∧ (held ∨ c.newResult = true))) :
    FailsLate held (c :: calls) ↔ held ∧ c.Valid ∧ c.newNode = false := by
  constructor
  · rintro ⟨_ | ⟨b, kept⟩, d, rest, hcalls, hkept, hheld, hd⟩
    · obtain ⟨rfl, -⟩ := List.cons.inj hcalls
      refine ⟨hheld.resolve_right ?_, hd⟩
      rintro ⟨first, hfirst, -⟩
      exact nomatch hfirst
    · obtain ⟨rfl, -⟩ := List.cons.inj hcalls
      obtain ⟨hvalid, hnode⟩ := hkept c List.mem_cons_self
      refine absurd ⟨hvalid, hnode, hheld.imp id ?_⟩ hc
      rintro ⟨first, hfirst, hresult⟩
      obtain rfl : c = first := Option.some.inj hfirst
      exact hresult
  · rintro ⟨hheld, hd⟩
    exact ⟨[], c, calls, rfl, nofun, Or.inl hheld, hd⟩

/-- How an attempt ends: all rows kept, or broken off with a sound variable, or broken off with a variable
    that points to a freed result. -/
inductive Ends (m₀ : Objects) (held : Prop) (calls later : List SqliteCall) (code : Nat) :
    Option (Nat × Objects × Option (Option ResultPtr)) → Prop
  | kept {m var rows} (h : Keeps m₀ m var rows)
      (hlate : FailsLate held (calls ++ later) ↔ FailsLate (var.isSome = true) later) :
      Ends m₀ held calls later code (some (code, m, some var))
  | sound {m var rows} (h : Keeps m₀ m var rows) (hlate : ¬ FailsLate held (calls ++ later)) :
      Ends m₀ held calls later code (some (sqliteAbort, m, some var))
  | dangling {m r} (h : m.results.read r = none) (hlate : FailsLate held (calls ++ later)) :
      Ends m₀ held calls later code (some (sqliteAbort, m, some (some r)))

/-- **Every attempt ends in one of the three ways.** -/
theorem Keeps.exec_ends {m₀ m : Objects} {var : Option ResultPtr} {rows : List (List (Option Text))}
    (h : Keeps m₀ m var rows) (code : Nat) (calls later : List SqliteCall) :
    Ends m₀ (var.isSome = true) calls later code (sqlite3Exec code calls m (some var)) := by
  induction calls generalizing m var rows with
  | nil => exact .kept h Iff.rfl
  | cons c calls ih =>
      have hstop : ∀ {code' m' var'}, code' ≠ sqliteOk →
          workloadSqlite3Callback c m (some var) = some (code', m', some var') →
          sqlite3Exec code (c :: calls) m (some var) = some (sqliteAbort, m', some var') := by
        intro code' m' var' hcode hcall
        simp only [sqlite3Exec, hcall, Option.bind_eq_bind, Option.bind_some, if_neg hcode]
      by_cases hkeep : c.Valid ∧ c.newNode = true ∧ (var.isSome = true ∨ c.newResult = true)
      · -- the row is kept, and the attempt goes on
        obtain ⟨hvalid, hnode, hresult⟩ := hkeep
        have hnew : var = none → c.newResult = true := by
          rintro rfl
          exact hresult.resolve_left Bool.false_ne_true
        obtain ⟨m₁, r, hcall, h₁⟩ := h.store hvalid hnew hnode
        have hexec : sqlite3Exec code (c :: calls) m (some var) =
            sqlite3Exec code calls m₁ (some (some r)) := by
          simp only [sqlite3Exec, hcall, Option.bind_eq_bind, Option.bind_some, if_true]
        have hpass : FailsLate (var.isSome = true) (c :: calls ++ later) ↔
            FailsLate ((some r).isSome = true) (calls ++ later) := by
          rw [List.cons_append, failsLate_cons hvalid hnode hresult]
          simp
        have hends := ih h₁
        rw [hexec]
        generalize sqlite3Exec code calls m₁ (some (some r)) = x at hends ⊢
        cases hends with
        | kept h' hlate => exact .kept h' (hpass.trans hlate)
        | sound h' hlate => exact .sound h' (hpass.not.mpr hlate)
        | dangling h' hlate => exact .dangling h' (hpass.mpr hlate)
      · have hlate : FailsLate (var.isSome = true) (c :: (calls ++ later)) ↔ _ := failsLate_stop hkeep
        by_cases hvalid : c.Valid
        case neg =>
          rw [hstop (by decide) (callback_refused hvalid m var)]
          exact .sound h (hlate.not.mpr fun hc => hvalid hc.2.1)
        cases var with
        | some r =>
            have hnode : c.newNode = false :=
              Bool.eq_false_iff.mpr fun hnode => hkeep ⟨hvalid, hnode, Or.inl rfl⟩
            obtain ⟨m', hcall, hread⟩ := h.noNode hvalid hnode
            rw [hstop (by decide) hcall]
            exact .dangling hread (hlate.mpr ⟨rfl, hvalid, hnode⟩)
        | none =>
            have hno := hlate.not.mpr fun hc => Bool.false_ne_true hc.1
            cases hresult : c.newResult with
            | false =>
                rw [hstop (by decide) (callback_noResult hvalid hresult m)]
                exact .sound h hno
            | true =>
                have hnode : c.newNode = false :=
                  Bool.eq_false_iff.mpr fun hnode => hkeep ⟨hvalid, hnode, Or.inr hresult⟩
                obtain ⟨m', hcall, hfreed⟩ := h.1.noNode hvalid hresult hnode
                rw [hstop (by decide) hcall]
                have hkeeps : Keeps m₀ m' none [] := ⟨hfreed, rfl⟩
                exact .sound hkeeps hno

/-- **A query that returns leaves a sound variable, exactly when no row fails late.** -/
theorem Keeps.query_ends {m₀ m : Objects} {var : Option ResultPtr} {rows : List (List (Option Text))}
    {busy : List SqliteAttempt} {last : SqliteAttempt} (h : Keeps m₀ m var rows)
    (hbusy : ∀ a ∈ busy, a.code = sqliteBusy ∨ a.code = sqliteLocked)
    (hlast : ¬ (last.code = sqliteBusy ∨ last.code = sqliteLocked)) :
    ∃ code m' var', workloadSqlite3Query (busy ++ [last]) m (some var) = some (code, m', some var') ∧
      ((∃ rows', Keeps m₀ m' var' rows') ∧
          ¬ FailsLate (var.isSome = true) ((busy ++ [last]).flatMap SqliteAttempt.calls) ∨
        (∃ r, var' = some r ∧ m'.results.read r = none) ∧
          FailsLate (var.isSome = true) ((busy ++ [last]).flatMap SqliteAttempt.calls)) := by
  have habort : ¬ (sqliteAbort = sqliteBusy ∨ sqliteAbort = sqliteLocked) := by decide
  have hstep : ∀ {a attempts code m' var'} {m : Objects} {var : Option ResultPtr},
      sqlite3Exec a.code a.calls m (some var) = some (code, m', some var') →
      ¬ (code = sqliteBusy ∨ code = sqliteLocked) →
      workloadSqlite3Query (a :: attempts) m (some var) = some (code, m', some var') := by
    intro a attempts code m' var' m var hexec hcode
    simp only [workloadSqlite3Query, hexec, Option.bind_eq_bind, Option.bind_some, if_neg hcode]
  induction busy generalizing m var rows with
  | nil =>
      have hends := h.exec_ends last.code last.calls []
      rw [List.nil_append, List.flatMap_cons, List.flatMap_nil]
      generalize hexec : sqlite3Exec last.code last.calls m (some var) = x at hends
      cases hends with
      | kept h' hlate =>
          exact ⟨_, _, _, hstep hexec hlast, Or.inl ⟨⟨_, h'⟩, hlate.not.mpr (not_failsLate_nil _)⟩⟩
      | sound h' hlate => exact ⟨_, _, _, hstep hexec habort, Or.inl ⟨⟨_, h'⟩, hlate⟩⟩
      | dangling h' hlate => exact ⟨_, _, _, hstep hexec habort, Or.inr ⟨⟨_, rfl, h'⟩, hlate⟩⟩
  | cons a busy ih =>
      have hends := h.exec_ends a.code a.calls
        ((busy ++ [last]).flatMap SqliteAttempt.calls)
      rw [List.cons_append, List.flatMap_cons]
      generalize hexec : sqlite3Exec a.code a.calls m (some var) = x at hends
      cases hends with
      | kept h' hlate =>
          obtain ⟨code, m', var', hquery, hcases⟩ := ih h' fun b hb => hbusy b (List.mem_cons_of_mem a hb)
          refine ⟨code, m', var', ?_, ?_⟩
          · simp only [workloadSqlite3Query, hexec, Option.bind_eq_bind, Option.bind_some,
              if_pos (hbusy a List.mem_cons_self)]
            exact hquery
          · rw [hlate]
            exact hcases
      | sound h' hlate => exact ⟨_, _, _, hstep hexec habort, Or.inl ⟨⟨_, h'⟩, hlate⟩⟩
      | dangling h' hlate => exact ⟨_, _, _, hstep hexec habort, Or.inr ⟨⟨_, rfl, h'⟩, hlate⟩⟩

/-- `workload_db_query`, and then the caller's `workload_free_db_result`. -/
def queryThenFree (attempts : List SqliteAttempt) (m : Objects) (context : Option (Option ResultPtr)) :
    Option Objects := do
  let (_, m, context) ← workloadDbQuery attempts m context
  workloadFreeSqlite3Result m context.join

/-- **The variable stays sound, and every object is freed once**, exactly when the node of a row can be
    allocated behind a stored one; in a query, which ends with the first row that is not kept, exactly when it
    does not end like that. A second free has no outcome, so freed means freed once. -/
theorem result_freed_once {busy : List SqliteAttempt} {last : SqliteAttempt}
    (hbusy : ∀ a ∈ busy, a.code = sqliteBusy ∨ a.code = sqliteLocked)
    (hlast : ¬ (last.code = sqliteBusy ∨ last.code = sqliteLocked)) (m : Objects) :
    (∀ calls, NeverDangles calls m none ↔
        calls.Pairwise fun a b => a.Stores → b.Valid → b.newNode = true) ∧
      ∀ context : Option (Option ResultPtr), context.join = none →
        ((∃ m', queryThenFree (busy ++ [last]) m context = some m' ∧ Freed m m') ↔
          ¬ FailsLate False ((busy ++ [last]).flatMap SqliteAttempt.calls)) := by
  refine ⟨fun calls => ?_, fun context hcontext => ?_⟩
  · rw [(Keeps.init m).neverDangles]
    simp
  obtain ⟨code, m', var', hquery, hcases⟩ := (Keeps.init m).query_ends hbusy hlast
  -- with and without a variable of the caller the same is freed
  have hfree : queryThenFree (busy ++ [last]) m context = workloadFreeSqlite3Result m' var' := by
    rcases context with _ | var
    · simp only [queryThenFree, workloadDbQuery, hquery, Option.bind_eq_bind, Option.bind_some,
        Option.join_some]
      cases workloadFreeSqlite3Result m' var' <;> rfl
    · obtain rfl : var = none := hcontext
      simp only [queryThenFree, workloadDbQuery, hquery, Option.bind_eq_bind, Option.bind_some,
        Option.join_some]
  have hheld : (((none : Option ResultPtr).isSome = true) : Prop) = False := by simp
  rw [hfree]
  rw [hheld] at hcases
  rcases hcases with ⟨⟨rows', h'⟩, hlate⟩ | ⟨⟨r, rfl, hread⟩, hlate⟩
  · exact ⟨fun _ => hlate, fun _ => h'.free⟩
  · refine ⟨?_, fun hno => absurd hlate hno⟩
    rintro ⟨m'', hfreed, -⟩
    simp [workloadFreeSqlite3Result, hread] at hfreed

theorem result_freed_once_small :
    (∀ calls, NeverDangles calls ⟨.empty, .empty⟩ none ↔
        calls.Pairwise fun a b => a.Stores → b.Valid → b.newNode = true) ∧
      ∀ context : Option (Option ResultPtr), context.join = none →
        ((∃ m', queryThenFree ([] ++ [⟨[smallCall], sqliteOk⟩]) ⟨.empty, .empty⟩ context = some m' ∧
            Freed ⟨.empty, .empty⟩ m') ↔
          ¬ FailsLate False (([] ++ [(⟨[smallCall], sqliteOk⟩ : SqliteAttempt)]).flatMap
            SqliteAttempt.calls)) :=
  result_freed_once (by rintro a ⟨⟩) (by decide) _

/-- **Memory runs out at the second row**: the variable points to the freed result, which the caller frees
    again. -/
theorem result_freed_twice :
    (¬ ∀ calls m, NeverDangles calls m none) ∧
      queryThenFree [⟨[smallCall, { smallCall with newNode := false }], sqliteOk⟩] ⟨.empty, .empty⟩
        (some none) = none := by
  refine ⟨fun h => ?_, rfl⟩
  have hpairs := (Keeps.init ⟨.empty, .empty⟩).neverDangles.mp
    (h [smallCall, { smallCall with newNode := false }] ⟨.empty, .empty⟩)
  have hnode := (List.pairwise_cons.mp hpairs.2).1 _ List.mem_cons_self
    ⟨small_succeeds.valid, rfl, rfl⟩ small_succeeds.valid
  exact nomatch hnode

end Workload.Results
