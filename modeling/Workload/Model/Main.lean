import Workload.Model.Control

/-!
# `Model.Main` — the loop of `main` and its two flags

`main` runs `workload_main` as long as the reload flag is set, and clears the break flag behind each run. The
signal handler and `workload_cmd` set the flags at any time. Here the main thread goes step by step between
the places where it reads or writes a flag, and a request is a step of its own. Of the load only its break
checks are kept: the configuration can be loaded.
-/

namespace Workload

/-- What is asked for from outside. -/
inductive Request where
  /-- `SIGINT`, `SIGTERM` and the commands `q` and escape -/
  | quit
  /-- `SIGHUP` and the command `Q` -/
  | restart
  deriving DecidableEq

/-- Where the main thread stands. -/
inductive MainPc where
  /-- in front of the test of `m_reload_ptr` in `main` -/
  | test
  /-- in `workload_main`, `m_reload_ptr` not yet cleared -/
  | entered
  /-- in front of `workload_load_config` -/
  | load
  /-- in `__workload_parse_config`; whether it has passed a break check -/
  | parse (checked : Bool)
  /-- behind the load, in front of the break test -/
  | loaded
  /-- in front of the loop test -/
  | loop
  /-- in the body of the loop -/
  | body
  /-- in front of `workload_unload_config` -/
  | unload
  /-- back in `main`, in front of clearing `m_break_ptr` -/
  | clear
  /-- behind the loop of `main` -/
  | left
  deriving DecidableEq

/-- The main thread, the flags, whether `m_xml` is set, and the most recent request. -/
structure MainState where
  pc : MainPc
  breakPtr : Bool
  reloadPtr : Bool
  xml : Bool
  last : Option Request

/-- What the environment decides in a step of the main thread: whether the load comes to its end, and whether
    the duration is over. -/
structure MainIo where
  finish : Bool
  expire : Bool

/-- A request, or a step of the main thread. -/
inductive MainEvent where
  | request (r : Request)
  | main (io : MainIo)

/-- `workload_init` has set `m_reload_ptr`. -/
def mainStart : MainState := ⟨.test, false, true, false, none⟩

/-- The flags a request sets. -/
def requestStep (s : MainState) : Request → MainState
  | .quit => { s with breakPtr := true, last := some .quit }
  | .restart => { s with breakPtr := true, reloadPtr := true, last := some .restart }

/-- One step of the main thread; `report` says whether it is only to report the database. -/
def threadStep (report : Bool) (s : MainState) (io : MainIo) : MainState :=
  match s.pc with
  | .test => { s with pc := if s.reloadPtr then .entered else .left }
  | .entered => { s with reloadPtr := false, pc := .load }
  | .load =>
      -- a document that is still open makes the load fail
      if s.xml then { s with pc := .left }
      else if report then { s with xml := true, breakPtr := true, pc := .loaded }
      else { s with xml := true, pc := .parse false }
  | .parse checked =>
      if checked ∧ io.finish then { s with pc := .loaded }
      else if s.breakPtr then { s with pc := .left }
      else { s with pc := .parse true }
  | .loaded => { s with pc := if s.breakPtr then .clear else .loop }
  | .loop => { s with pc := if s.breakPtr then .unload else .body }
  | .body => { s with breakPtr := s.breakPtr || io.expire, pc := .loop }
  | .unload => { s with xml := false, pc := .clear }
  | .clear => { s with breakPtr := false, pc := .test }
  | .left => s

/-- One step. -/
def mainStep (report : Bool) (s : MainState) : MainEvent → MainState
  | .request r => requestStep s r
  | .main io => threadStep report s io

end Workload
