import Workload.Lib.Intrusive
import Workload.Model.Math
import Workload.Model.Storage

/-!
# `Model.Config` — `workload_config.c`: loading and unloading a configuration

`__workload_parse_config` is a sequence of stages with early returns. A stage is a function into
`Except LoadExit State`: it goes on with a state, or the whole call ends. Besides returning a code, the call
can divide by zero or read a disk array that is not there (`undefined`), and it can wait for services that
have not got ready yet (`waiting`).

`LoadEnv` is everything the environment decides during one call. The stages thread `s_node`, because some
attributes are read from whatever node it holds at that point.
-/

namespace Workload

/-- One step of the environment while the load waits for the services: a service goes on, or the main thread
    looks at the break flag and the counters. -/
inductive WaitEvent where
  | service (disk : DiskPtr) (io : ServiceIo)
  | poll (brk : Bool)

/-- A database that could be opened: what becomes of its statements, whether `vasprintf` succeeds for them,
    and the tables it comes with. -/
structure DbOutcomes (α : Type) where
  reply : Nat → α
  formatted : Nat → Bool
  tables : Tables

/-- The environment of one `workload_load_config`: documents, databases, and the outcome of each allocation,
    break test (by the loop's counter), `workload_rand`, service start and service step. -/
structure LoadEnv where
  openXml : Text → Option Document
  openSqlite3 : Option (DbOutcomes SqliteExec)
  openMysql : Option (DbOutcomes MysqlReply)
  brkDisk : Nat → Bool
  newDisk : Nat → Bool
  diskArray : Bool
  brkFile : Nat → Bool
  newFile : Nat → Bool
  fileArray : Bool
  brkAssign : Nat → Bool
  rand : Nat → Fin (2 ^ 31)
  assignIo : FilePtr → MoveIo
  nextFileIndex : Bool
  openService : DiskPtr → Bool
  events : List WaitEvent

/-- How a load ends before its last line. -/
inductive LoadExit where
  | returned (code : Int) (s : State)
  | undefined (s : State)
  | waiting (s : State)

abbrev Load := Except LoadExit State

/-! ## `workload_init_config` -/

/-- `workload_init_config`. -/
def workloadInitConfig : Cfg where
  configFile := none
  leftRatio := 1
  rightRatio := 1
  duration := 0
  accessInterval := 0
  filesRemove := 1
  filesAssignMethod := 0
  filePrefix := none
  fileSuffix := none
  filecount := 0
  filesize := 0
  accessMethod := .rw
  accessSync := 0
  accessSendfile := 0
  accessThreads := 0

/-! ## Database and dump -/

/-- A node below `/workload/config`. -/
def configNode (doc : Document) (path : List Text) : Node :=
  getXmlNode ("workload".toList :: "config".toList :: path) [doc.root]

/-- The arguments of `workload_open_db_ex` are accepted for mysql. -/
def mysqlLoginOk (node : Node) : Bool :=
  let port := atoi (workloadXmlTagData (workloadXmlSubNodeEx node "port".toList))
  let database := workloadXmlTagData (workloadXmlSubNodeEx node "database".toList)
  database != [] && decide (0 ≤ port) && decide (port ≤ 65535)

/-- `workload_open_db` or `workload_open_db_ex`, behind the checks of their arguments. -/
def workloadOpenDb {α : Type} (backend : (Nat → α) → Backend) (opened : Option (DbOutcomes α)) :
    Option Db :=
  opened.map fun db => ⟨backend db.reply, db.formatted, 0, [], db.tables⟩

/-- The stage that opens the meta database. -/
def openMeta (env : LoadEnv) (node : Node) (s : State) : Load :=
  let s := s.setDb none
  match node with
  | [] => .ok s
  | _ =>
      let dbType := workloadCheckString (workloadXmlTagAttrValue node "type".toList)
      if strcaseEqual dbType "sqlite3".toList then
        match workloadOpenDb .sqlite3 env.openSqlite3 with
        | none => .error (.returned (-1) s)
        | some db => .ok (s.setDb (some db))
      else if strcaseEqual dbType "mysql".toList then
        match mysqlLoginOk node, workloadOpenDb .mysql env.openMysql with
        | true, some db => .ok (s.setDb (some db))
        | _, _ => .error (.returned (-1) s)
      else .ok s

/-- `workload_db_query_get` on `m_db`, the rows left out. -/
def queryGet (s : State) (stmt : Stmt) : State :=
  match s.db with
  | none => s
  | some db => s.setDb (some (workloadDbQueryGet db stmt).2)

/-- The stage that only reports the database when asked to. -/
def dumpMeta (s : State) : Load :=
  if s.opt.dumpDisk ∨ s.opt.dumpFile then
    let s := if s.opt.dumpDisk then queryGet s .selectDisk else s
    let s := if s.opt.dumpFile then queryGet s .selectFile else s
    .error (.returned 0 { s with breakPtr := true })
  else .ok s

/-- The stage that rebuilds the tables. A failure ends the load only in verbose mode; otherwise the run goes
    on without database. -/
def resetMeta (s : State) : Load :=
  match s.db with
  | none => .ok s
  | some _ =>
      let (result, s) := workloadResetDb s
      if result = -1 then
        if s.opt.verbose then .error (.returned (-1) s) else .ok (s.setDb none)
      else .ok s

/-! ## Operation -/

/-- The text of a node when there is a node and it is not empty. -/
def nodeText (node : Node) : Option Text :=
  if workloadXmlTagData node = [] then none else some (workloadXmlTagData node)

/-- `m_left_ratio` or `m_right_ratio` before the reduction: the option if given, else the element, else 1. -/
def parseRatio (doc : Document) (tag : Text) (opt : Nat) (node : Node) : Nat × Node :=
  if opt ≠ 0 then (opt, node)
  else
    let node := configNode doc ["operation".toList, tag]
    match nodeText node with
    | none => (1, node)
    | some text =>
        let ratio := toUnsigned (atoi text)
        (if ratio = 0 then 1 else ratio, node)

/-- A number of `operation` that an option overrides unless it has its neutral value. -/
def parseNumber {α : Type} [DecidableEq α] (doc : Document) (tag : Text) (neutral opt default : α)
    (convert : Text → α) (node : Node) : α × Node :=
  if opt ≠ neutral then (opt, node)
  else
    let node := configNode doc ["operation".toList, tag]
    match nodeText node with
    | none => (default, node)
    | some text => (convert text, node)

/-- `m_prefix` or `m_suffix`. -/
def parseAffix (doc : Document) (tag : Text) (opt : Option Text) : Option Text :=
  match opt with
  | some text => some text
  | none =>
      match configNode doc ["operation".toList, tag] with
      | [] => none
      | node => some (workloadXmlTagData node)

/-- `m_files_assign_method`. -/
def parseAssignMethod (name : Option Text) : Nat :=
  match name with
  | none => 0
  | some name =>
      if strcaseEqual name "ordered".toList then 1
      else if strcaseEqual name "even".toList then 2
      else 0

/-- `m_access_method` from the text of the element `access`. -/
def parseAccessMethod (node : Node) : AccessMethod :=
  match nodeText node with
  | none => .rw
  | some text =>
      if ["read", "r", "input", "i", "load"].any fun w => strcaseEqual text w.toList then .read
      else if ["write", "w", "ouput", "o", "save"].any fun w => strcaseEqual text w.toList then .write
      else .rw

/-- `m_pause` after the element `operation`, and `s_node` behind it. -/
def parsePause (doc : Document) (opt : Opt) (pause : Bool) (node : Node) : Bool × Node :=
  if opt.pause ≠ -1 then (opt.pause != 0, node)
  else
    let node := configNode doc ["operation".toList]
    match node with
    | [] => (pause, node)
    | _ => (workloadParseBooleanString (workloadXmlTagAttrValue node "pause".toList) 0 != 0, node)

/-- The stage that fills `m_cfg` from the options and the element `operation`. -/
def parseOperation (doc : Document) (node : Node) (s : State) : State :=
  let (pause, node) := parsePause doc s.opt s.pause node
  let (left, node) := parseRatio doc "left".toList s.opt.leftRatio node
  let (right, node) := parseRatio doc "right".toList s.opt.rightRatio node
  let (_, left, right) := workloadAspectRatioUint left right
  let (interval, node) := parseNumber doc "interval".toList (2 ^ 64 - 1) s.opt.accessInterval 0
    (fun text => toSize (atoll text)) node
  let (filecount, node) := parseNumber doc "files".toList 0 s.opt.filecount 0
    (fun text => toSize (atoi text)) node
  let method := match s.opt.filesAssignMethod with
    | some name => some name
    | none => workloadXmlTagAttrValue node "assign".toList
  let (filesize, _) := parseNumber doc "filesize".toList (-1) s.opt.filesize 0 atoll []
  let (duration, _) := parseNumber doc "duration".toList (2 ^ 64 - 1) s.opt.duration 0
    (fun text => toSize (atoll text)) []
  let access := configNode doc ["operation".toList, "access".toList]
  { s with
    pause := pause
    cfg := { s.cfg with
      leftRatio := left
      rightRatio := right
      accessInterval := interval
      filecount := min filecount defWorkloadConfigMaxFiles
      filesRemove := workloadParseBooleanString (workloadXmlTagAttrValue node "remove".toList) 1
      filesAssignMethod := parseAssignMethod method
      filePrefix := parseAffix doc "prefix".toList s.opt.filePrefix
      fileSuffix := parseAffix doc "suffix".toList s.opt.fileSuffix
      filesize := max filesize 0
      duration := duration
      accessMethod := parseAccessMethod access
      accessSync := workloadParseBooleanString (workloadXmlTagAttrValue access "sync".toList) 0
      accessSendfile := workloadParseBooleanString (workloadXmlTagAttrValue access "sendfile".toList) 0
      accessThreads :=
        if 0 < s.opt.threads then s.opt.threads
        else
          match workloadXmlTagAttrValue access "threads".toList with
          | none => 0
          | some text => atoi text } }

/-! ## Disks -/

/-- `s_fakeoff_delay` of a disk element. -/
def parseFakeoff (node : Node) : Int :=
  let text := workloadCheckString (workloadXmlTagAttrValue node "fakeoff".toList)
  if text = [] then -1 else atoll text

/-- `s_path` and `s_name` of a disk element with a path. The name is looked up one level too deep, so only
    `<name><name>..</name></name>` gives one; `workload_basename` shortens the path in place. -/
def parseDiskName (node : Node) (path : Text) : Text × Text :=
  let name := workloadXmlTagData
    (workloadXmlSubNodeEx (workloadXmlSubNodeEx node "name".toList) "name".toList)
  if name = [] then workloadBasename path else (path, name)

/-- One round of the disk loop, behind its break test: the state and the next `s_id`. -/
def addDisk (env : LoadEnv) (k id : Nat) (node : Node) (s : State) : State × Nat :=
  let delay := parseFakeoff node
  let s := if delay = -1 then s else { s with useFakeoff := true }
  let subNode := workloadXmlSubNodeEx node "path".toList
  if workloadXmlTagData subNode = [] then (s, id)
  else
    let isCreatePath := workloadParseBooleanString (workloadXmlTagAttrValue subNode "create".toList) 0 != 0
    let (path, name) := parseDiskName node (workloadXmlTagData subNode)
    if s.diskHead.any fun d => (s.disks d).path == path && (s.disks d).name == name then (s, id)
    else
      match workloadNewDisk s id name path isCreatePath (env.newDisk k) with
      | (none, s) => (s, id)
      | (some d, s) =>
          let s := s.modifyDisk d fun disk => { disk with fakeoffDelay := delay }
          ({ s with diskHead := s.diskHead ++ [d] }, (id + 1) % 2 ^ 32)

/-- The disk loop over the remaining disk elements. -/
def diskLoop (env : LoadEnv) : List Node → Nat → Nat → State → Load
  | [], _, _, s => .ok s
  | node :: nodes, k, id, s =>
      if env.brkDisk k then .error (.returned (-1) s)
      else
        let (s, id) := addDisk env k id node s
        diskLoop env nodes (k + 1) id s

/-- `m_disk_head`, `s_tail_disk` and the links of the disks in the loop. -/
structure DiskChain where
  head : Option DiskPtr
  tail : Option DiskPtr
  links : Intrusive.Links DiskPtr

/-- The part `add disk` of a round. -/
def DiskChain.addDisk (c : DiskChain) (d : DiskPtr) : DiskChain where
  head := if c.tail = none then some d else c.head
  tail := some d
  links := c.links.pushBack c.tail d

/-- The pointers behind the loop, when the disks it added are `ds`. -/
def diskChain (links : Intrusive.Links DiskPtr) (ds : List DiskPtr) : DiskChain :=
  ds.foldl DiskChain.addDisk ⟨none, none, links⟩

/-- The disk elements the loop visits. -/
def diskNodes (doc : Document) : List Node :=
  nodesFrom "disk".toList doc.root.size (configNode doc ["storage".toList, "disk".toList])

/-- The stage that builds `m_disk_head` and `m_disk`. -/
def loadDisks (env : LoadEnv) (doc : Document) (s : State) : Load := do
  let s := workloadFreeDisk (workloadFreeDiskArray s)
  let s ← diskLoop env (diskNodes doc) 0 1 s
  let (result, s) := workloadUpdateDiskArray s env.diskArray
  if result = -1 then .error (.returned (-1) s) else .ok s

/-! ## Files -/

/-- The file loop, for `n` more files from `id` on. -/
def fileLoop (env : LoadEnv) : Nat → Nat → State → Load
  | 0, _, s => .ok s
  | n + 1, id, s =>
      if env.brkFile id then .error (.returned (-1) s)
      else
        match workloadNewFile s id (env.newFile id) with
        | (none, s) => .ok s
        | (some f, s) => fileLoop env n (id + 1) { s with fileHead := s.fileHead ++ [f] }

/-- The stage that builds `m_file_head` and its arrays. -/
def loadFiles (env : LoadEnv) (s : State) : Load := do
  let s := workloadFreeFileArray s
  let s := { workloadFreeFile s s.fileHead.head? ⟨true, true⟩ with fileHead := [] }
  let filecount := if s.cfg.filecount = 0 then defWorkloadConfigDefaultFiles else s.cfg.filecount
  let s := { s with cfg := { s.cfg with filecount := filecount } }
  let s ← fileLoop env filecount 1 s
  let (result, s) := workloadUpdateFileArray s env.fileArray
  if result = -1 then .error (.returned (-1) s) else .ok s

/-! ## Initial assignment -/

/-- `s_new_file` of round `id`. The even method deals `m_file_even` out from its end: the file drawn changes
    places with the last one not dealt. -/
def assignFile (s : State) (id rand : Nat) : FilePtr × State :=
  if s.cfg.filesAssignMethod = 2 then
    let even := s.fileEven
    let randomEven := rand % (s.fileCount - (id - 1))
    let tail := even.getD (s.fileCount - id) 0
    let file := even.getD randomEven 0
    (file, { s with fileEven := (even.set randomEven tail).set (s.fileCount - id) file })
  else (s.fileOrdered.getD (id - 1) 0, s)

/-- A quotient of `unsigned long long`, undefined for a zero divisor. -/
def div64 (a b : Nat) : Option Nat := if b = 0 then none else some (a % 2 ^ 64 / b)

/-- `s_assign_disk_id` of round `id` with file `f`, undefined for a zero divisor. -/
def assignDiskId (s : State) (f : FilePtr) (id rand : Nat) : Option Nat :=
  if s.cfg.filesAssignMethod = 1 then
    (div64 (sub64 (s.files f).id 1 * s.diskCount) s.cfg.filecount).map (· % 2 ^ 32)
  else if s.cfg.filesAssignMethod = 2 then
    (div64 ((id - 1) * s.diskCount) s.cfg.filecount).map (· % 2 ^ 32)
  else if s.diskCount % 2 ^ 32 = 0 then none
  else some (rand % (s.diskCount % 2 ^ 32))

/-- The assignment loop, for `n` more rounds from `id` on. -/
def assignLoop (env : LoadEnv) : Nat → Nat → State → Load
  | 0, _, s => .ok s
  | n + 1, id, s =>
      if env.brkAssign id then .error (.returned (-1) s)
      else
        let (f, s) := assignFile s id (env.rand id)
        match assignDiskId s f id (env.rand id) with
        | none => .error (.undefined s)
        | some diskId =>
            match s.disk[diskId]? with
            | none => .error (.undefined s)
            | some d =>
                let (result, s) := workloadAssignFileToDisk s (some f) (some d) (env.assignIo f)
                if result = -1 then .error (.returned (-1) s) else assignLoop env n (id + 1) s

/-- `m_next_file_index`: the running sum of the file counts of the disks. -/
def nextFileIndexLoop (s : State) : List DiskPtr → Nat → List Nat
  | [], _ => []
  | d :: ds, fileIndex =>
      let fileIndex := add64 fileIndex (s.disks d).assignFileCount
      fileIndex :: nextFileIndexLoop s ds fileIndex

/-- The stage behind the assignment loop. -/
def indexFiles (env : LoadEnv) (s : State) : State :=
  { s with
    nextFileIndex := if env.nextFileIndex then some (nextFileIndexLoop s s.disk 0) else none }

/-! ## Services -/

/-- Close what runs and open the service of one disk. -/
def openService (env : LoadEnv) (s : State) (d : DiskPtr) : State :=
  let s := closeService s d
  s.modifyDisk d fun disk =>
    { disk with service := if env.openService d then some .start else none }

/-- The stage that starts the services. -/
def startServices (env : LoadEnv) (s : State) : State :=
  s.disk.foldl (openService env) (s.setServiceCounts 0 0)

/-- The loop that waits until every service is ready. -/
def waitServices : List WaitEvent → State → Load
  | [], s => .error (.waiting s)
  | .service d io :: events, s => waitServices events (diskServiceStep s d io)
  | .poll brk :: events, s =>
      if brk then .error (.returned (-1) s)
      else if 0 < s.diskErrorCount then .error (.returned (-1) s)
      else if s.diskCount ≤ s.diskReadyCount then .ok s
      else waitServices events s

/-! ## The whole load -/

/-- The stages up to the files: the objects exist, nothing is assigned. -/
def loadObjects (env : LoadEnv) (doc : Document) (s : State) : Load := do
  let metaNode := configNode doc ["meta".toList]
  let s ← openMeta env metaNode s
  let s ← dumpMeta s
  let s ← resetMeta s
  let s := parseOperation doc metaNode s
  let s ← loadDisks env doc s
  loadFiles env s

/-- The stages up to the services: every file has its disk. -/
def loadAssigned (env : LoadEnv) (doc : Document) (s : State) : Load := do
  let s ← loadObjects env doc s
  let s ← assignLoop env s.fileCount 1 s
  .ok (startServices env (indexFiles env s))

/-- `__workload_parse_config`, with the last line's `return(0)`. -/
def parseConfig (env : LoadEnv) (doc : Document) (s : State) : Load := do
  let s ← loadAssigned env doc s
  waitServices env.events s

/-- `cg_conf_table` of `workload_load_config`, from the entry it starts with. -/
def confTable (opt : Opt) : List Text :=
  match opt.configFile with
  | some file => [file]
  | none => ["./workload.xml".toList, "/etc/workload.xml".toList]

/-- `workload_load_config`: the returned code and the state; `none` when the call divides by zero or reads
    a missing array, or is still waiting. -/
def workloadLoadConfig (env : LoadEnv) (s : State) : Option (Int × State) :=
  match s.xml with
  | some _ => some (-1, s)
  | none =>
      match (confTable s.opt).findSome? fun file => (env.openXml file).map fun doc => (file, doc) with
      | none => some (-1, { s with cfg := { s.cfg with configFile := s.opt.configFile } })
      | some (file, doc) =>
          let s := { s with xml := some doc, cfg := { s.cfg with configFile := some file } }
          match parseConfig env doc s with
          | .ok s => some (0, s)
          | .error (.returned code s) => some (code, s)
          | .error (.undefined _) => none
          | .error (.waiting _) => none

/-- `workload_unload_config`. -/
def workloadUnloadConfig (s : State) (io : DeassignIo) : State :=
  let s := workloadFreeFileArray { s with nextFileIndex := none }
  let s := { workloadFreeFile s s.fileHead.head? io with fileHead := [] }
  let s := workloadFreeDisk (workloadFreeDiskArray s)
  { s with
    writeCount := 0
    readCount := 0
    diskErrorCount := 0
    diskReadyCount := 0
    db := none
    xml := none
    cfg := { workloadInitConfig with accessThreads := s.cfg.accessThreads } }

end Workload
