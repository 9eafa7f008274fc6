import Workload.Lib.Locking

/-!
# `Model.Locks` — what every function does to the mutexes

The mutexes of the program, and for every function that takes one, or calls one that does, the locks and unlocks on
its ways. Data is left out: a branch is open to both sides, a loop to any number of rounds, and a `return` in the
middle leaves out what follows it. The functions are in the order of the calls, those called first.

The `for` loops over the chain of files and the choice of a file are `pick`s; so is the choice of a service.
-/

namespace Workload

open Locking Code

/-- A service, by the thread that runs it. -/
inductive ServiceId where
  | access (i : ℕ)
  | disk (i : ℕ)
  deriving DecidableEq

inductive Lock where
  /-- `m_access_lock` of a file -/
  | access (file : ℕ)
  | reassign
  | control
  | timeStamp
  /-- `m_lock` of `workload_db_t` -/
  | db
  /-- `g_workload_rand_lock` -/
  | rand
  /-- of `workload_get_terminal_size` -/
  | terminal
  /-- of `workload_time_stamp_msec`, taken for the global timer only -/
  | timer
  /-- `m_lock` of a service -/
  | service (id : ServiceId)
  deriving DecidableEq

inductive Thread where
  | main
  | service (id : ServiceId)
  deriving DecidableEq

namespace Locks

abbrev LockCode := Code Lock ℕ

/-! ## `random.c`, `timer.c`, `vt.c` -/

def srand : LockCode := within .rand []

def rand : LockCode := within .rand []

def fillRand : LockCode := opt (within .rand [])

/-- `workload_time_stamp_msec(NULL)`. -/
def timeStampMsec : LockCode := within .timer []

def getTerminalSize : LockCode := within .terminal []

/-! ## `service.c` -/

def breakService (id : ServiceId) : LockCode := within (.service id) []

def ackService (id : ServiceId) : LockCode := within (.service id) []

/-- `workload_close_service`: the rounds of its loop. -/
def closeService (id : ServiceId) : LockCode := block [within (.service id) [], loop (within (.service id) [])]

/-- `workload_open_service`: the rounds of its loop, none if the thread is not created. -/
def openService (id : ServiceId) : LockCode := block [loop (within (.service id) []), opt (closeService id)]

def serviceThread (id : ServiceId) (handler : LockCode) : LockCode :=
  block [within (.service id) [], handler, within (.service id) []]

/-! ## `db.c`, `workload_db.c` -/

def dbQuery : LockCode :=
  oneOf
    [ -- sqlite3
      within .db [],
      -- mysql: `mysql_query` failed, `mysql_affected_rows` failed, or neither
      seq (lock .db) (branch (unlock .db) (branch (unlock .db) (unlock .db)))]

/-- Also `workload_db_query_get` and `workload_db_query_set`. -/
def dbVquery : LockCode := opt dbQuery

def resetDb : LockCode := opt (block [dbVquery, opt dbVquery, opt dbVquery, opt dbVquery])

/-- The row is there, or it is inserted first. -/
def updateDbFile : LockCode := branch dbVquery (block [dbVquery, opt dbVquery])

def updateDbDisk : LockCode := branch dbVquery (block [dbVquery, opt dbVquery])

def updateDb : LockCode := opt (block [opt updateDbFile, opt updateDbDisk, opt updateDbDisk])

/-! ## `workload.c`: time stamp, pause and relocate -/

def updateMainTimeStamp : LockCode := within .timeStamp [timeStampMsec]

def getMainTimeStamp : LockCode := within .timeStamp []

def getMainDuration : LockCode := within .timeStamp []

def setMainPause : LockCode := within .control []

def toggleMainPause : LockCode := within .control []

def getMainPause : LockCode := within .control []

def setMainRelocate : LockCode := block [within .control [], within .reassign [loop updateDb]]

def toggleMainRelocate : LockCode := block [within .control [], within .reassign [loop updateDb]]

def getMainRelocate : LockCode := within .control []

/-! ## `workload_file.c`, `workload_relocate.c`, `workload_access.c` -/

def moveAssignFile : LockCode := loop fillRand

def assignFileToDisk : LockCode :=
  opt (block [moveAssignFile,
    opt (within .reassign [opt getMainTimeStamp, getMainTimeStamp, getMainTimeStamp, updateDb])])

def fileRelocate : LockCode := loop (pick fun file => within (.access file) [opt assignFileToDisk])

def fileAccess : LockCode :=
  opt (block [opt rand, opt getMainTimeStamp, loop fillRand,
    opt (within .reassign [getMainTimeStamp, getMainTimeStamp, updateDb])])

def resetFileAccessCount : LockCode := within .reassign [loop updateDb, loop updateDb]

/-! ## `workload_storage.c` -/

/-- A file is written and counted. -/
def diskServiceRound (id : ServiceId) : LockCode :=
  block [breakService id, pick fun file => within (.access file) [loop fillRand],
    within .reassign [getMainTimeStamp, getMainTimeStamp, updateDb]]

/-- The loop is left: no name for the file, no file to write to, told to stop, or at the end of the chain. -/
def diskServiceLeave (id : ServiceId) : LockCode :=
  opt (block [breakService id, oneOf
    [ within .reassign [],
      block [pick fun file => within (.access file) [], within .reassign []]]])

def diskService (id : ServiceId) : LockCode :=
  block [ackService id, branch
    -- no such directory
    (within .reassign [])
    (block [loop (diskServiceRound id), diskServiceLeave id, within .reassign [], loop (breakService id)])]

/-! ## `workload_view.c` -/

def updateScreen : LockCode :=
  opt (within .reassign [getTerminalSize,
    opt (block [getMainDuration, getMainRelocate, getMainPause, getMainTimeStamp]),
    -- for every disk: idle time and fakeoff status
    loop (block [getMainTimeStamp, opt (block [getMainTimeStamp, opt getMainTimeStamp])])])

/-! ## `workload.c`: commands, access threads, main loop -/

/-- `workload_cmd`; the answers to a datagram read the state again. -/
def cmd : LockCode :=
  oneOf
    [ -- '?'
      opt (within .reassign [getMainRelocate, getMainPause]),
      -- 'r'
      block [toggleMainRelocate, opt fileRelocate, opt getMainRelocate],
      -- 'o'
      block [fileRelocate, opt getMainRelocate],
      -- 'p'
      block [toggleMainPause, opt getMainPause],
      -- 'S'
      block [setMainRelocate, fileRelocate],
      -- 'K'
      setMainRelocate,
      -- 'P' and 'R'
      setMainPause,
      -- '!'
      resetFileAccessCount]

def key : LockCode := opt cmd

/-- The datagrams, and the lines of each. -/
def udp : LockCode := loop (loop cmd)

def accessRandomIndex : LockCode := loop rand

def accessService (id : ServiceId) : LockCode :=
  block [getMainTimeStamp, ackService id,
    loop (block [breakService id, getMainTimeStamp, getMainPause,
      opt (block [within .reassign [accessRandomIndex],
        pick fun file => within (.access file) [fileAccess],
        getMainRelocate, opt fileRelocate])]),
    opt (breakService id)]

/-- `workload_free_disk`: the services of the disks. -/
def freeDisk : LockCode := loop (pick fun i => closeService (.disk i))

/-- `__workload_parse_config`. -/
def parseConfig : LockCode :=
  block [loop dbVquery, opt resetDb, opt freeDisk,
    loop (block [opt rand, assignFileToDisk]),
    opt (within .reassign []),
    loop (pick fun i => block [opt (closeService (.disk i)), openService (.disk i)]),
    loop (within .reassign []),
    opt getMainPause]

def loadConfig : LockCode := opt parseConfig

def unloadConfig : LockCode := freeDisk

def init : LockCode := block [timeStampMsec, opt srand]

def destroy : LockCode := unloadConfig

/-- The body of the loop of `workload_main`. -/
def mainRound : LockCode :=
  block [updateMainTimeStamp, opt getMainDuration, opt getMainDuration, opt updateScreen, udp, key]

def workloadMain : LockCode :=
  block [loadConfig, opt (block [updateMainTimeStamp,
    loop (pick fun i => openService (.access i)),
    within .timeStamp [],
    updateScreen,
    loop mainRound,
    updateScreen,
    loop (pick fun i => closeService (.access i)),
    unloadConfig])]

/-- `main` of `main.c`: one round for every reload. -/
def main : LockCode := block [init, loop workloadMain, destroy]

/-- What every thread does. -/
def program : Thread → LockCode
  | .main => main
  | .service (.access i) => serviceThread (.access i) (accessService (.access i))
  | .service (.disk i) => serviceThread (.disk i) (diskService (.disk i))

/-- Any number of service threads stand in front of their first lock; one that is not created yet does not move. -/
def start : System Lock ℕ Thread := ⟨fun _ => none, fun t => [program t]⟩

end Locks

end Workload
