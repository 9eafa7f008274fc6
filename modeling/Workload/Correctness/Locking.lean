import Workload.Model.Locks

/-!
# `Correctness.Locking` — the order of the mutexes

Every function takes its mutexes in one order: a file's lock or a service's, then the lock of the assignment, then
one of those that guard a single word or a single call, then the global timer. The files' locks share one rank, so
no function may hold two of them.

* `neutral_..` — every function is in order, from the rank of the first lock it takes on.
* **`no_deadlock`** — in no reachable state do threads wait for each other in a circle.
-/

namespace Workload

open Locking Code Relation

namespace Locks

/-- The order of the locks. -/
def rank : Lock → ℕ
  | .access _ => 0
  | .service _ => 0
  | .reassign => 1
  | .control => 2
  | .timeStamp => 2
  | .db => 2
  | .rand => 2
  | .terminal => 2
  | .timer => 3

variable {n : ℕ}

/-! ## From the timer up to the lock of the assignment -/

theorem neutral_leaf {l : Lock} (hn : n ≤ rank l) : Neutral rank n (within l [] : LockCode) :=
  neutral_within hn nofun

theorem neutral_rand (hn : n ≤ 2) : Neutral rank n rand := neutral_leaf hn

theorem neutral_srand (hn : n ≤ 2) : Neutral rank n srand := neutral_leaf hn

theorem neutral_fillRand (hn : n ≤ 2) : Neutral rank n fillRand := neutral_opt (neutral_leaf hn)

theorem neutral_timeStampMsec (hn : n ≤ 3) : Neutral rank n timeStampMsec := neutral_leaf hn

theorem neutral_getTerminalSize (hn : n ≤ 2) : Neutral rank n getTerminalSize := neutral_leaf hn

/-- The failing ways of the mysql branch return the lock by themselves. -/
theorem neutral_dbQuery (hn : n ≤ 2) : Neutral rank n dbQuery := by
  have hmysql : Returns rank .db (branch (unlock .db) (branch (unlock .db) (unlock .db)) : LockCode) :=
    returns_branch returns_unlock (returns_branch returns_unlock returns_unlock)
  have hlocked := neutral_lock (show n ≤ rank .db from hn) hmysql
  have hsqlite3 : Neutral rank n (within .db [] : LockCode) := neutral_leaf hn
  unfold dbQuery
  grind

theorem neutral_dbVquery (hn : n ≤ 2) : Neutral rank n dbVquery := neutral_opt (neutral_dbQuery hn)

theorem neutral_resetDb (hn : n ≤ 2) : Neutral rank n resetDb := by
  have hquery := neutral_dbVquery hn
  unfold resetDb
  grind

theorem neutral_updateDb (hn : n ≤ 2) : Neutral rank n updateDb := by
  have hquery := neutral_dbVquery hn
  unfold updateDb updateDbFile updateDbDisk
  grind

theorem neutral_updateMainTimeStamp (hn : n ≤ 2) : Neutral rank n updateMainTimeStamp := by
  have htimer : Neutral rank (rank .timeStamp + 1) timeStampMsec := neutral_timeStampMsec le_rfl
  exact neutral_within (show n ≤ rank .timeStamp from hn) (by simp [htimer])

theorem neutral_getMainTimeStamp (hn : n ≤ 2) : Neutral rank n getMainTimeStamp := neutral_leaf hn

theorem neutral_getMainDuration (hn : n ≤ 2) : Neutral rank n getMainDuration := neutral_leaf hn

theorem neutral_setMainPause (hn : n ≤ 2) : Neutral rank n setMainPause := neutral_leaf hn

theorem neutral_toggleMainPause (hn : n ≤ 2) : Neutral rank n toggleMainPause := neutral_leaf hn

theorem neutral_getMainPause (hn : n ≤ 2) : Neutral rank n getMainPause := neutral_leaf hn

theorem neutral_getMainRelocate (hn : n ≤ 2) : Neutral rank n getMainRelocate := neutral_leaf hn

/-! ## Under the lock of the assignment -/

/-- A section under `m_reassign_lock`. -/
theorem neutral_reassign {ps : List LockCode} (hn : n ≤ 1) (hps : ∀ p ∈ ps, Neutral rank 2 p) :
    Neutral rank n (within .reassign ps) :=
  neutral_within hn hps

theorem neutral_setMainRelocate (hn : n ≤ 1) : Neutral rank n setMainRelocate := by
  have hcontrol : Neutral rank n (within .control [] : LockCode) := neutral_leaf (hn.trans (by decide))
  have hupdate : Neutral rank 2 updateDb := neutral_updateDb le_rfl
  have hsection : Neutral rank n (within .reassign [loop updateDb]) := neutral_reassign hn (by simp [hupdate])
  unfold setMainRelocate
  grind

theorem neutral_toggleMainRelocate (hn : n ≤ 1) : Neutral rank n toggleMainRelocate := neutral_setMainRelocate hn

theorem neutral_resetFileAccessCount (hn : n ≤ 1) : Neutral rank n resetFileAccessCount := by
  have hupdate : Neutral rank 2 updateDb := neutral_updateDb le_rfl
  exact neutral_reassign hn (by simp [hupdate])

theorem neutral_assignFileToDisk (hn : n ≤ 1) : Neutral rank n assignFileToDisk := by
  have hstamp : Neutral rank 2 getMainTimeStamp := neutral_getMainTimeStamp le_rfl
  have hupdate : Neutral rank 2 updateDb := neutral_updateDb le_rfl
  have hsection : Neutral rank n
      (within .reassign [opt getMainTimeStamp, getMainTimeStamp, getMainTimeStamp, updateDb]) :=
    neutral_reassign hn (by simp [hstamp, hupdate])
  have hfill := neutral_fillRand (hn.trans (by decide))
  unfold assignFileToDisk moveAssignFile
  grind

theorem neutral_fileAccess (hn : n ≤ 1) : Neutral rank n fileAccess := by
  have hn2 : n ≤ 2 := hn.trans (by decide)
  have hstamp : Neutral rank 2 getMainTimeStamp := neutral_getMainTimeStamp le_rfl
  have hupdate : Neutral rank 2 updateDb := neutral_updateDb le_rfl
  have hsection : Neutral rank n (within .reassign [getMainTimeStamp, getMainTimeStamp, updateDb]) :=
    neutral_reassign hn (by simp [hstamp, hupdate])
  have hrand := neutral_rand hn2
  have hread := neutral_getMainTimeStamp hn2
  have hfill := neutral_fillRand hn2
  unfold fileAccess
  grind

theorem neutral_updateScreen (hn : n ≤ 1) : Neutral rank n updateScreen := by
  have hterminal : Neutral rank 2 getTerminalSize := neutral_getTerminalSize le_rfl
  have hstamp : Neutral rank 2 getMainTimeStamp := neutral_getMainTimeStamp le_rfl
  have hduration : Neutral rank 2 getMainDuration := neutral_getMainDuration le_rfl
  have hrelocate : Neutral rank 2 getMainRelocate := neutral_getMainRelocate le_rfl
  have hpause : Neutral rank 2 getMainPause := neutral_getMainPause le_rfl
  refine neutral_opt (neutral_reassign hn ?_)
  grind

/-! ## Under the lock of a file, or of a service -/

/-- A section under the lock of any one file, from no lock at all. -/
theorem neutral_files {ps : ℕ → List LockCode} (hps : ∀ file, ∀ p ∈ ps file, Neutral rank 1 p) :
    Neutral rank 0 (pick fun file => within (.access file) (ps file)) :=
  neutral_pick fun file => neutral_within (Nat.zero_le _) (hps file)

theorem neutral_fileRelocate : Neutral rank 0 fileRelocate := by
  have hassign : Neutral rank 1 assignFileToDisk := neutral_assignFileToDisk le_rfl
  exact neutral_loop (neutral_files (by simp [hassign]))

theorem neutral_breakService (id : ServiceId) : Neutral rank 0 (breakService id) := neutral_leaf (Nat.zero_le _)

theorem neutral_ackService (id : ServiceId) : Neutral rank 0 (ackService id) := neutral_leaf (Nat.zero_le _)

theorem neutral_closeService (id : ServiceId) : Neutral rank 0 (closeService id) := by
  have hround := neutral_breakService id
  unfold breakService at hround
  unfold closeService
  grind

theorem neutral_openService (id : ServiceId) : Neutral rank 0 (openService id) := by
  have hround := neutral_breakService id
  have hclose := neutral_closeService id
  unfold breakService at hround
  unfold openService
  grind

theorem neutral_serviceThread (id : ServiceId) {handler : LockCode} (hhandler : Neutral rank 0 handler) :
    Neutral rank 0 (serviceThread id handler) := by
  have hsection := neutral_breakService id
  unfold breakService at hsection
  unfold serviceThread
  grind

/-! ## The threads -/

theorem neutral_diskService (id : ServiceId) : Neutral rank 0 (diskService id) := by
  have hack := neutral_ackService id
  have hbreak := neutral_breakService id
  have hfill : Neutral rank 1 fillRand := neutral_fillRand (by decide)
  have hstamp : Neutral rank 2 getMainTimeStamp := neutral_getMainTimeStamp le_rfl
  have hupdate : Neutral rank 2 updateDb := neutral_updateDb le_rfl
  have hwrite : Neutral rank 0 (pick fun file => within (.access file) [loop fillRand]) :=
    neutral_files (by simp [hfill])
  have hfailed : Neutral rank 0 (pick fun file => within (.access file) [] : LockCode) := neutral_files nofun
  have hcount : Neutral rank 0 (within .reassign [getMainTimeStamp, getMainTimeStamp, updateDb]) :=
    neutral_reassign (Nat.zero_le _) (by simp [hstamp, hupdate])
  have hword : Neutral rank 0 (within .reassign [] : LockCode) := neutral_reassign (Nat.zero_le _) nofun
  have hround : Neutral rank 0 (diskServiceRound id) := by
    unfold diskServiceRound
    grind
  have hleave : Neutral rank 0 (diskServiceLeave id) := by
    unfold diskServiceLeave
    grind
  unfold diskService
  grind

theorem neutral_accessService (id : ServiceId) : Neutral rank 0 (accessService id) := by
  have hack := neutral_ackService id
  have hbreak := neutral_breakService id
  have hstamp : Neutral rank 0 getMainTimeStamp := neutral_getMainTimeStamp (Nat.zero_le _)
  have hpause : Neutral rank 0 getMainPause := neutral_getMainPause (Nat.zero_le _)
  have hrelocate : Neutral rank 0 getMainRelocate := neutral_getMainRelocate (Nat.zero_le _)
  have hrand : Neutral rank 2 rand := neutral_rand le_rfl
  have hchoose : Neutral rank 0 (within .reassign [accessRandomIndex]) :=
    neutral_reassign (Nat.zero_le _) (by simp [accessRandomIndex, hrand])
  have haccess : Neutral rank 1 fileAccess := neutral_fileAccess le_rfl
  have hfile : Neutral rank 0 (pick fun file => within (.access file) [fileAccess]) :=
    neutral_files (by simp [haccess])
  have hmove := neutral_fileRelocate
  have hround : Neutral rank 0 (block [within .reassign [accessRandomIndex],
      pick fun file => within (.access file) [fileAccess], getMainRelocate, opt fileRelocate]) := by
    grind
  unfold accessService
  grind

theorem neutral_cmd : Neutral rank 0 cmd := by
  have hgetRelocate : Neutral rank 0 getMainRelocate := neutral_getMainRelocate (Nat.zero_le _)
  have hgetPause : Neutral rank 0 getMainPause := neutral_getMainPause (Nat.zero_le _)
  have htogglePause : Neutral rank 0 toggleMainPause := neutral_toggleMainPause (Nat.zero_le _)
  have hsetPause : Neutral rank 0 setMainPause := neutral_setMainPause (Nat.zero_le _)
  have htoggle : Neutral rank 0 toggleMainRelocate := neutral_toggleMainRelocate (Nat.zero_le _)
  have hset : Neutral rank 0 setMainRelocate := neutral_setMainRelocate (Nat.zero_le _)
  have hreset : Neutral rank 0 resetFileAccessCount := neutral_resetFileAccessCount (Nat.zero_le _)
  have hmove := neutral_fileRelocate
  -- the status is read under the lock of the assignment
  have hstatus : Neutral rank 0 (within .reassign [getMainRelocate, getMainPause]) :=
    neutral_reassign (Nat.zero_le _) (by simp [neutral_getMainRelocate, neutral_getMainPause])
  apply neutral_oneOf
  simp only [List.mem_cons, List.not_mem_nil, or_false, forall_eq_or_imp, forall_eq]
  refine ⟨neutral_opt hstatus, ?_, ?_, ?_, ?_, hset, hsetPause, hreset⟩ <;> grind

theorem neutral_freeDisk : Neutral rank 0 freeDisk :=
  neutral_loop (neutral_pick fun _ => neutral_closeService _)

theorem neutral_parseConfig : Neutral rank 0 parseConfig := by
  have hquery : Neutral rank 0 dbVquery := neutral_dbVquery (Nat.zero_le _)
  have hreset : Neutral rank 0 resetDb := neutral_resetDb (Nat.zero_le _)
  have hrand : Neutral rank 0 rand := neutral_rand (Nat.zero_le _)
  have hassign : Neutral rank 0 assignFileToDisk := neutral_assignFileToDisk (Nat.zero_le _)
  have hpause : Neutral rank 0 getMainPause := neutral_getMainPause (Nat.zero_le _)
  have hword : Neutral rank 0 (within .reassign [] : LockCode) := neutral_reassign (Nat.zero_le _) nofun
  have hfree := neutral_freeDisk
  have hopen := neutral_openService
  have hclose := neutral_closeService
  have hassigned : Neutral rank 0 (loop (block [opt rand, assignFileToDisk])) := by grind
  have hstarted : Neutral rank 0
      (loop (pick fun i => block [opt (closeService (.disk i)), openService (.disk i)])) := by
    grind
  apply neutral_block
  simp only [List.mem_cons, List.not_mem_nil, or_false, forall_eq_or_imp, forall_eq]
  exact ⟨neutral_loop hquery, neutral_opt hreset, neutral_opt hfree, hassigned, neutral_opt hword, hstarted,
    neutral_loop hword, neutral_opt hpause⟩

theorem neutral_workloadMain : Neutral rank 0 workloadMain := by
  have hparse := neutral_parseConfig
  have hstamp : Neutral rank 0 updateMainTimeStamp := neutral_updateMainTimeStamp (Nat.zero_le _)
  have hword : Neutral rank 0 (within .timeStamp [] : LockCode) := neutral_leaf (Nat.zero_le _)
  have hduration : Neutral rank 0 getMainDuration := neutral_getMainDuration (Nat.zero_le _)
  have hscreen : Neutral rank 0 updateScreen := neutral_updateScreen (Nat.zero_le _)
  have hopen := neutral_openService
  have hclose := neutral_closeService
  have hfree := neutral_freeDisk
  have hcmd := neutral_cmd
  have hround : Neutral rank 0 mainRound := by
    unfold mainRound udp key
    grind
  have hload : Neutral rank 0 loadConfig := neutral_opt hparse
  refine neutral_block ?_
  simp only [List.mem_cons, List.not_mem_nil, or_false, forall_eq_or_imp, forall_eq]
  refine ⟨hload, neutral_opt (neutral_block ?_)⟩
  simp only [List.mem_cons, List.not_mem_nil, or_false, forall_eq_or_imp, forall_eq]
  exact ⟨hstamp, neutral_loop (neutral_pick fun _ => hopen _), hword, hscreen, neutral_loop hround, hscreen,
    neutral_loop (neutral_pick fun _ => hclose _), hfree⟩

theorem neutral_main : Neutral rank 0 main := by
  have htimer : Neutral rank 0 timeStampMsec := neutral_timeStampMsec (Nat.zero_le _)
  have hsrand : Neutral rank 0 srand := neutral_srand (Nat.zero_le _)
  have hmain := neutral_workloadMain
  have hfree := neutral_freeDisk
  unfold main init destroy unloadConfig
  grind

theorem neutral_program (t : Thread) : Neutral rank 0 (program t) := by
  match t with
  | .main => exact neutral_main
  | .service (.access i) => exact neutral_serviceThread _ (neutral_accessService _)
  | .service (.disk i) => exact neutral_serviceThread _ (neutral_diskService _)

/-- **No deadlock.** Over every interleaving of the main thread with any number of access threads and disk services,
    no thread ever waits for a lock it holds itself, and no threads wait for each other in a circle. -/
theorem no_deadlock (es : List (Thread × Choice ℕ)) (t : Thread) :
    ¬ WaitsFor (Trace.exec step start es) t t ∧ ¬ TransGen (WaitsFor (Trace.exec step start es)) t t := by
  have hordered : Ordered rank (Trace.exec step start es) := (ordered_of_neutral neutral_program).exec es
  have hcycle := no_cycle_of_ordered hordered t
  exact ⟨fun hself => hcycle (TransGen.single hself), hcycle⟩

/-- The main thread in its first section. -/
example : (Trace.exec step start (List.replicate 5 (.main, .first))).owner .timer = some .main := by decide

end Locks

end Workload
