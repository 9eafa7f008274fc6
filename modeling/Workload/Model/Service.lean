import Mathlib.Tactic.TypeStar

/-!
# `Model.Service` — `service.c`: a service thread and its owner

A service is a detached thread with a context that its owner, the thread that opens and closes it, shares with
it. What either does under the context's lock is one step. Of the context only `m_command` and `m_status` change;
the lock, the name, the handler and its argument are left out.

The context stays readable in the model when it is freed: whether a step touches freed memory is a question about
the step (`Service.Touches`), not about its outcome.
-/

namespace Workload

/-- The values of `m_command` and `m_status` in use (`def_workload_service_ctrl_..`). -/
inductive ServiceCtrl where
  | error
  | ack
  | ready
  | start
  | stop
  deriving DecidableEq

/-- `workload_service_ctx_t`. -/
structure ServiceCtx where
  command : ServiceCtrl
  status : ServiceCtrl

/-- Where the service thread stands. -/
inductive ThreadPc where
  /-- it has not been created -/
  | absent
  /-- in front of writing `m_command` -/
  | ack
  /-- in front of reading `m_handler` and `m_argument` -/
  | call
  | handler
  /-- back from the handler, in front of writing `m_status` -/
  | finish
  | ended
  deriving DecidableEq

/-- Where the owner stands. -/
inductive OwnerPc where
  /-- in `workload_open_service_ex`, in front of `workload_detached_thread_ex` -/
  | create
  /-- in the loop of `workload_open_service_ex` -/
  | wait
  /-- it has the handle -/
  | opened
  /-- in the loop of `workload_close_service_ex`, with or without a timeout -/
  | closing (suspend : Bool)
  /-- the context is freed, and NULL is returned -/
  | closed
  deriving DecidableEq

structure Service where
  ctx : ServiceCtx
  freed : Bool
  thread : ThreadPc
  owner : OwnerPc

/-- What a handler may do next: a call on its service handle, something of its own, or its return. -/
inductive HandlerCall where
  | breakService
  | ackService
  | errorService
  | work
  | ret
  deriving DecidableEq

inductive ServiceEvent where
  /-- the thread, outside the handler -/
  | thread
  | handler (call : HandlerCall)
  /-- `workload_detached_thread_ex`, with its success -/
  | create (ok : Bool)
  /-- one round of the loop of `workload_open_service_ex` -/
  | poll
  /-- `workload_close_service_ex` is called; `suspend` for the timeout `-1` -/
  | close (suspend : Bool)
  /-- one round of its loop, with the timer's answer -/
  | closeRound (expired : Bool)

namespace Service

/-- The context is initialised, the thread not created yet. -/
def init : Service := ⟨⟨.start, .ready⟩, false, .absent, .create⟩

/-- `workload_service_thread` outside the handler. -/
def threadStep (s : Service) : Service :=
  match s.thread with
  | .ack => { s with ctx := { s.ctx with command := .ack }, thread := .call }
  | .call => { s with thread := .handler }
  | .finish =>
      { s with
        ctx := { s.ctx with status := if s.ctx.status = .error then .error else .stop }
        thread := .ended }
  | _ => s

/-- What `workload_break_service` returns. -/
def breakService (s : Service) : Int := if s.ctx.command = .stop then 1 else 0

/-- `workload_ack_service`, `workload_error_service` and the others, called by the handler. -/
def handlerStep (s : Service) (call : HandlerCall) : Service :=
  if s.thread = .handler then
    match call with
    | .breakService => s
    | .ackService => { s with ctx := { s.ctx with status := .start } }
    | .errorService => { s with ctx := { s.ctx with status := .error } }
    | .work => s
    | .ret => { s with thread := .finish }
  else s

/-- `workload_open_service_ex` from the creation of the thread on. -/
def create (s : Service) (ok : Bool) : Service :=
  if s.owner = .create then
    if ok then { s with thread := .ack, owner := .wait } else { s with owner := .closing true }
  else s

def poll (s : Service) : Service :=
  if s.owner = .wait then
    if s.ctx.command = .ack then
      if s.ctx.status = .start then { s with owner := .opened }
      else if s.ctx.status ≠ .ready then { s with owner := .closing true }
      else s
    else s
  else s

/-- `workload_close_service_ex`. -/
def close (s : Service) (suspend : Bool) : Service :=
  if s.owner = .opened then { s with owner := .closing suspend } else s

def closeRound (s : Service) (expired : Bool) : Service :=
  match s.owner with
  | .closing suspend =>
      if s.ctx.status = .start then
        { s with
          ctx := { s.ctx with command := .stop }
          -- pending: the caller keeps the handle
          owner := if expired = true ∧ suspend = false then .opened else .closing suspend }
      else { s with freed := true, owner := .closed }
  | _ => s

/-- One step. -/
def step (s : Service) : ServiceEvent → Service
  | .thread => s.threadStep
  | .handler call => s.handlerStep call
  | .create ok => s.create ok
  | .poll => s.poll
  | .close suspend => s.close suspend
  | .closeRound expired => s.closeRound expired

/-- The step is one of the service thread, and reads or writes the context. -/
def Touches (s : Service) : ServiceEvent → Prop
  | .thread => s.thread = .ack ∨ s.thread = .call ∨ s.thread = .finish
  | .handler call => s.thread = .handler ∧ call ≠ .work ∧ call ≠ .ret
  | _ => False

end Service

end Workload
