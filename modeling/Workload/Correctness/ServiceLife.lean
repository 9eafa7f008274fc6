import Mathlib.Tactic.SplitIfs
import Workload.Lib.Trace
import Workload.Model.Service

/-!
# `Correctness.ServiceLife` — when a service is over, and when it is told to stop

The owner takes any status but `start` for the end of the service. It is the end when the thread has written
`stop` behind its handler; `error` is written by the handler itself, with the thread's own last section still
to come.

* **`service_context_alive`** — the thread never touches a freed context, exactly as long as no round of the
  closing loop finds `error` before the thread has ended.
* **`stop_never_lost`** — the handle is given out behind both acknowledgements, the command goes from `start` to
  `ack` to `stop` only, and a stop stays.
-/

namespace Workload

open Trace

namespace Service

variable {s : Service} {e : ServiceEvent}

/-! ## What every run keeps -/

/-- **Invariant of all runs**: command and status follow the thread, and the freeing follows the owner. -/
structure Follows (s : Service) : Prop where
  command : s.ctx.command = .start ↔ s.thread = .absent ∨ s.thread = .ack
  commands : s.ctx.command = .start ∨ s.ctx.command = .ack ∨ s.ctx.command = .stop
  early : s.thread = .absent ∨ s.thread = .ack ∨ s.thread = .call → s.ctx.status = .ready
  stopped : s.ctx.status = .stop → s.thread = .ended
  statuses : s.ctx.status ≠ .ack
  create : s.owner = .create → s.thread = .absent
  wait : s.owner = .wait → s.thread ≠ .absent
  /-- behind the opening the status has been written, if there is a thread -/
  written : s.owner ≠ .create → s.owner ≠ .wait → s.thread = .absent ∨ s.ctx.status ≠ .ready
  freed : s.freed = true → s.owner = .closed

theorem follows_init : Follows init := by
  constructor <;> simp [init]

/-- A thread that has written its status is past the call of its handler. -/
theorem Follows.past (h : Follows s) (hstatus : s.ctx.status ≠ .ready) :
    s.thread = .handler ∨ s.thread = .finish ∨ s.thread = .ended := by
  have hearly := mt h.early hstatus
  cases hthread : s.thread <;> simp_all

/-- While a service runs, its command is `ack` or `stop`. -/
theorem Follows.command_of_start (h : Follows s) (hstatus : s.ctx.status = .start) :
    s.ctx.command = .ack ∨ s.ctx.command = .stop := by
  have hpast := h.past (by simp [hstatus])
  rcases h.commands with hstart | hcommand
  · rcases h.command.mp hstart with hthread | hthread <;> simp [hthread] at hpast
  · exact hcommand

theorem Follows.threadStep (h : Follows s) : Follows s.threadStep := by
  obtain ⟨⟨command, status⟩, freed, thread, owner⟩ := s
  obtain ⟨hcommand, hcommands, hearly, hstopped, hstatuses, hcreate, hwait, hwritten, hfreed⟩ := h
  cases thread with
  | ack => constructor <;> simp_all [Service.threadStep]
  | call => constructor <;> simp_all [Service.threadStep]
  | finish => by_cases herror : status = .error <;> constructor <;> simp_all [Service.threadStep]
  | _ => exact ⟨hcommand, hcommands, hearly, hstopped, hstatuses, hcreate, hwait, hwritten, hfreed⟩

theorem Follows.handlerStep (h : Follows s) (call : HandlerCall) : Follows (s.handlerStep call) := by
  obtain ⟨⟨command, status⟩, freed, thread, owner⟩ := s
  obtain ⟨hcommand, hcommands, hearly, hstopped, hstatuses, hcreate, hwait, hwritten, hfreed⟩ := h
  by_cases hthread : thread = .handler
  · subst hthread
    cases call <;> constructor <;> simp_all [Service.handlerStep]
  · simp only [Service.handlerStep, if_neg hthread]
    exact ⟨hcommand, hcommands, hearly, hstopped, hstatuses, hcreate, hwait, hwritten, hfreed⟩

theorem Follows.createStep (h : Follows s) (ok : Bool) : Follows (s.create ok) := by
  obtain ⟨⟨command, status⟩, freed, thread, owner⟩ := s
  by_cases howner : owner = .create
  · subst howner
    obtain rfl : thread = .absent := h.create rfl
    obtain ⟨hcommand, hcommands, hearly, hstopped, hstatuses, hcreate, hwait, hwritten, hfreed⟩ := h
    cases ok <;> constructor <;> simp_all [Service.create]
  · simp only [Service.create, if_neg howner]
    exact h

theorem Follows.poll (h : Follows s) : Follows s.poll := by
  obtain ⟨⟨command, status⟩, freed, thread, owner⟩ := s
  obtain ⟨hcommand, hcommands, hearly, hstopped, hstatuses, hcreate, hwait, hwritten, hfreed⟩ := h
  unfold Service.poll
  split_ifs <;> constructor <;> simp_all

theorem Follows.close (h : Follows s) (suspend : Bool) : Follows (s.close suspend) := by
  obtain ⟨⟨command, status⟩, freed, thread, owner⟩ := s
  obtain ⟨hcommand, hcommands, hearly, hstopped, hstatuses, hcreate, hwait, hwritten, hfreed⟩ := h
  unfold Service.close
  split_ifs <;> constructor <;> simp_all

theorem Follows.closeRound (h : Follows s) (expired : Bool) : Follows (s.closeRound expired) := by
  by_cases howner : ∃ suspend, s.owner = .closing suspend
  · obtain ⟨suspend, howner⟩ := howner
    by_cases hstatus : s.ctx.status = .start
    · have hpast := h.past (by simp [hstatus])
      have hcommand := h.command_of_start hstatus
      obtain ⟨⟨command, status⟩, freed, thread, owner⟩ := s
      obtain ⟨hstart, hcommands, hearly, hstopped, hstatuses, hcreate, hwait, hwritten, hfreed⟩ := h
      subst howner hstatus
      cases expired <;> cases suspend <;> constructor <;> simp_all [Service.closeRound]
    · obtain ⟨⟨command, status⟩, freed, thread, owner⟩ := s
      obtain ⟨hcommand, hcommands, hearly, hstopped, hstatuses, hcreate, hwait, hwritten, hfreed⟩ := h
      subst howner
      constructor <;> simp_all [Service.closeRound]
  · have hround : s.closeRound expired = s := by
      unfold Service.closeRound
      split
      · rename_i suspend hclosing
        exact absurd ⟨suspend, hclosing⟩ howner
      · rfl
    rw [hround]
    exact h

/-- **Every step keeps the invariant.** -/
theorem Follows.step (h : Follows s) (e : ServiceEvent) : Follows (s.step e) := by
  cases e with
  | thread => exact h.threadStep
  | handler call => exact h.handlerStep call
  | create ok => exact h.createStep ok
  | poll => exact h.poll
  | close suspend => exact h.close suspend
  | closeRound expired => exact h.closeRound expired

theorem follows_step : ∀ s e, Follows s → True → Follows (step s e) := fun _ e h _ => h.step e

theorem follows_exec (es : List ServiceEvent) : Follows (exec step init es) :=
  exec_invariant follows_step follows_init (along_true init es)

/-! ## The context outlives the thread -/

/-- Whatever the thread does next, it does not touch a freed context. -/
def Safe (s : Service) : Prop := ∀ e, s.Touches e → s.freed = false

/-- No round of the closing loop finds `error` before the thread has ended. -/
def Settled (s : Service) : ServiceEvent → Prop
  | .closeRound _ => ∀ suspend, s.owner = .closing suspend → s.ctx.status = .error → s.thread = .ended
  | _ => True

theorem safe_of_alive (h : s.freed = false) : s.Safe := fun _ _ => h

/-- A freed context is safe from a thread that is not there, and from no other. -/
theorem safe_iff_of_freed (h : s.freed = true) : s.Safe ↔ s.thread = .absent ∨ s.thread = .ended := by
  constructor
  · intro hsafe
    cases hthread : s.thread with
    | absent => exact Or.inl rfl
    | ended => exact Or.inr rfl
    | handler =>
        have htouch : s.Touches (.handler .breakService) := ⟨hthread, nofun, nofun⟩
        exact absurd (hsafe _ htouch) (by simp [h])
    | _ =>
        have htouch : s.Touches .thread := by simp [Touches, hthread]
        exact absurd (hsafe _ htouch) (by simp [h])
  · rintro hthread e htouch
    cases e with
    | thread => rcases hthread with hthread | hthread <;> simp [Touches, hthread] at htouch
    | handler call => rcases hthread with hthread | hthread <;> simp [Touches, hthread] at htouch
    | _ => exact htouch.elim

/-- A freed context stays as it is, with its thread where it stands if that is over. -/
theorem step_of_freed (h : Follows s) (hfreed : s.freed = true)
    (hthread : s.thread = .absent ∨ s.thread = .ended) (e : ServiceEvent) : s.step e = s := by
  have howner : s.owner = .closed := h.freed hfreed
  cases e with
  | thread => rcases hthread with hthread | hthread <;> simp only [step, threadStep, hthread]
  | handler call => rcases hthread with hthread | hthread <;> simp [step, handlerStep, hthread]
  | create ok => simp [step, create, howner]
  | poll => simp [step, poll, howner]
  | close suspend => simp [step, close, howner]
  | closeRound expired => simp only [step, closeRound, howner]

/-- Only a closing round frees. -/
theorem freed_step_iff (e : ServiceEvent) : (s.step e).freed = true ↔
    s.freed = true ∨ (∃ expired, e = .closeRound expired) ∧ (∃ suspend, s.owner = .closing suspend) ∧
      s.ctx.status ≠ .start := by
  cases e with
  | thread => cases hthread : s.thread <;> simp [step, threadStep, hthread]
  | handler call => cases call <;> by_cases hthread : s.thread = .handler <;> simp [step, handlerStep, hthread]
  | create ok => cases ok <;> by_cases howner : s.owner = .create <;> simp [step, create, howner]
  | poll => simp only [step, poll]; split_ifs <;> simp
  | close suspend => simp only [step, close]; split_ifs <;> simp
  | closeRound expired =>
      cases howner : s.owner <;> by_cases hstatus : s.ctx.status = .start <;>
        simp [step, closeRound, howner, hstatus]

/-- A closing round leaves the thread where it stands. -/
theorem thread_closeRound (expired : Bool) : (s.closeRound expired).thread = s.thread := by
  unfold closeRound
  split
  · split_ifs <;> rfl
  · rfl

/-- **One step**: it keeps the context safe exactly when it is a settled one. -/
theorem safe_step_iff (h : Follows s) (hsafe : s.Safe) (e : ServiceEvent) :
    (s.step e).Safe ↔ s.Settled e := by
  by_cases hfreed : s.freed = true
  · have hthread := (safe_iff_of_freed hfreed).mp hsafe
    rw [step_of_freed h hfreed hthread]
    refine iff_of_true hsafe ?_
    cases e with
    | closeRound expired =>
        intro suspend hclosing
        simp [h.freed hfreed] at hclosing
    | _ => trivial
  · by_cases hfrees : (s.step e).freed = true
    · obtain hnow | ⟨⟨expired, rfl⟩, ⟨suspend, hclosing⟩, hstart⟩ := (freed_step_iff e).mp hfrees
      · exact absurd hnow hfreed
      have hsame : (s.step (.closeRound expired)).thread = s.thread := thread_closeRound expired
      rw [safe_iff_of_freed hfrees, hsame]
      constructor
      · rintro (habsent | hended) _ _ herror
        · -- without a thread nobody has written the status
          simp [h.early (Or.inl habsent)] at herror
        · exact hended
      · intro hsettled
        by_cases herror : s.ctx.status = .error
        · exact Or.inr (hsettled suspend hclosing herror)
        rcases h.written (by simp [hclosing]) (by simp [hclosing]) with habsent | hready
        · exact Or.inl habsent
        · have hack := h.statuses
          have hstop : s.ctx.status = .stop := by cases hstatus : s.ctx.status <;> simp_all
          exact Or.inr (h.stopped hstop)
    · refine iff_of_true (safe_of_alive (by simpa using hfrees)) ?_
      cases e with
      | closeRound expired =>
          intro suspend hclosing herror
          refine absurd ((freed_step_iff _).mpr (Or.inr ⟨⟨expired, rfl⟩, ⟨suspend, hclosing⟩, ?_⟩)) hfrees
          simp [herror]
      | _ => trivial

theorem always_safe_iff (es : List ServiceEvent) : Always step Safe init es ↔ Along step Settled init es := by
  refine always_iff_along follows_step ?_ follows_init (safe_of_alive rfl) (along_true init es)
  intro s e h hsafe _
  exact safe_step_iff h hsafe e

/-- **No access behind the freeing.** In every state of a run the thread's next step leaves a freed context alone,
    exactly when no round of the closing loop finds `error` before the thread has ended; and then no step of the run
    is such an access. -/
theorem service_context_alive (es : List ServiceEvent) :
    (Always step Safe init es ↔ Along step Settled init es) ∧
    (Along step Settled init es → Along step (fun s e => s.Touches e → s.freed = false) init es) := by
  refine ⟨always_safe_iff es, fun hsettled => ?_⟩
  have hkept : ∀ (s : Service) (e : ServiceEvent), Follows s ∧ s.Safe → s.Settled e →
      Follows (s.step e) ∧ (s.step e).Safe := by
    rintro s e ⟨h, hsafe⟩ hstep
    exact ⟨h.step e, (safe_step_iff h hsafe e).mpr hstep⟩
  exact along_of_invariant hkept (fun s e h _ => h.2 e) ⟨follows_init, safe_of_alive rfl⟩ hsettled

/-- A service that is opened, closed and ends by itself before the round that frees it. -/
def openedAndClosed : List ServiceEvent :=
  [.create true, .thread, .thread, .handler .ackService, .poll, .close true, .closeRound false,
    .handler .breakService, .handler .ret, .thread, .closeRound false]

theorem service_context_alive_small : (exec step init openedAndClosed).freed = true ∧
    Along step (fun s e => s.Touches e → s.freed = false) init openedAndClosed := by
  refine ⟨by decide, (service_context_alive openedAndClosed).2 ?_⟩
  simp [openedAndClosed, Settled, step, init, create, threadStep, handlerStep, poll, close, closeRound]

/-- **Who writes the status**: the thread at its end, and the handler. -/
theorem status_step (e : ServiceEvent) : (s.step e).ctx.status = s.ctx.status ∨
    (s.step e).ctx.status = .stop ∨
    (s.thread = .handler ∧ e = .handler .ackService) ∨
    (e = .handler .errorService) := by
  cases e with
  | thread =>
      cases hthread : s.thread with
      | finish =>
          by_cases herror : s.ctx.status = .error <;> simp [step, threadStep, hthread, herror]
      | _ => exact Or.inl (by simp only [step, threadStep, hthread])
  | handler call =>
      by_cases hthread : s.thread = .handler
      · cases call <;> simp [step, handlerStep, hthread]
      · exact Or.inl (by simp only [step, handlerStep, if_neg hthread])
  | create ok => refine Or.inl ?_; simp only [step, create]; split_ifs <;> rfl
  | poll => refine Or.inl ?_; simp only [step, poll]; split_ifs <;> rfl
  | close suspend => refine Or.inl ?_; simp only [step, close]; split_ifs <;> rfl
  | closeRound expired =>
      refine Or.inl ?_
      simp only [step, closeRound]
      split
      · split_ifs <;> rfl
      · rfl

/-- A status of `error` is the handler's. -/
theorem status_step_ne_error (hstatus : s.ctx.status ≠ .error) {e : ServiceEvent}
    (he : e ≠ .handler .errorService) : (s.step e).ctx.status ≠ .error := by
  rcases status_step (s := s) e with hsame | hstop | ⟨hthread, rfl⟩ | herror
  · exact hsame ▸ hstatus
  · simp [hstop]
  · simp [step, handlerStep, hthread]
  · exact absurd herror he

/-- A handler that reports no error, as the services of the program, is never left with a freed context. -/
theorem safe_of_no_error {es : List ServiceEvent} (hes : ∀ e ∈ es, e ≠ .handler .errorService) :
    Always step Safe init es := by
  rw [always_safe_iff]
  have hkept : ∀ (s : Service) (e : ServiceEvent), s.ctx.status ≠ .error → e ≠ .handler .errorService →
      (s.step e).ctx.status ≠ .error :=
    fun s e hstatus he => status_step_ne_error hstatus he
  have hsettled : ∀ (s : Service) (e : ServiceEvent), s.ctx.status ≠ .error → e ≠ .handler .errorService →
      s.Settled e := by
    intro s e hstatus _
    cases e with
    | closeRound expired => exact fun _ _ herror => absurd herror hstatus
    | _ => trivial
  exact along_of_invariant hkept hsettled (by simp [init]) (along_of_forall hes)

/-- The handler reports an error, the opening takes that for the end, and the handler goes on. -/
def errorThenBreak : List ServiceEvent :=
  [.create true, .thread, .thread, .handler .errorService, .poll, .closeRound false, .handler .breakService]

theorem service_context_freed :
    ¬ ∀ es, Along step (fun s e => s.Touches e → s.freed = false) init es := by
  intro h
  obtain ⟨_, _, _, _, _, _, hlast, _⟩ := h errorThenBreak
  have htouch : (exec step init (errorThenBreak.take 6)).Touches (.handler .breakService) := ⟨rfl, nofun, nofun⟩
  exact absurd (hlast htouch) (by decide)

/-! ## A stop is not lost -/

/-- The command goes from `start` to `ack` to `stop`. -/
def Onward (a b : ServiceCtrl) : Prop := b = a ∨ (a = .start ∧ b = .ack) ∨ (a = .ack ∧ b = .stop)

/-- **Who writes the command**: the thread once, and the closing of a running service. -/
theorem command_step (e : ServiceEvent) : (s.step e).ctx.command = s.ctx.command ∨
    ((s.thread = .ack ∧ e = .thread) ∧ (s.step e).ctx.command = .ack) ∨
    (s.ctx.status = .start ∧ (s.step e).ctx.command = .stop) := by
  cases e with
  | thread => cases hthread : s.thread <;> simp [step, threadStep, hthread]
  | handler call =>
      by_cases hthread : s.thread = .handler
      · cases call <;> exact Or.inl (by simp only [step, handlerStep, if_pos hthread])
      · exact Or.inl (by simp only [step, handlerStep, if_neg hthread])
  | create ok => refine Or.inl ?_; simp only [step, create]; split_ifs <;> rfl
  | poll => refine Or.inl ?_; simp only [step, poll]; split_ifs <;> rfl
  | close suspend => refine Or.inl ?_; simp only [step, close]; split_ifs <;> rfl
  | closeRound expired =>
      simp only [step, closeRound]
      split
      · by_cases hstatus : s.ctx.status = .start
        · exact Or.inr (Or.inr ⟨hstatus, by rw [if_pos hstatus]⟩)
        · exact Or.inl (by rw [if_neg hstatus])
      · exact Or.inl rfl

theorem onward_step (h : Follows s) (e : ServiceEvent) : Onward s.ctx.command (s.step e).ctx.command := by
  rcases command_step (s := s) e with hsame | ⟨⟨hthread, _⟩, hack⟩ | ⟨hstatus, hstop⟩
  · exact Or.inl hsame
  · exact Or.inr (Or.inl ⟨h.command.mpr (Or.inr hthread), hack⟩)
  · rcases h.command_of_start hstatus with hack | hstopped
    · exact Or.inr (Or.inr ⟨hack, hstop⟩)
    · exact Or.inl (hstop.trans hstopped.symm)

/-- Only the thread takes the command from `start`. -/
theorem acked_of_step (h : Follows s) {e : ServiceEvent} (hstart : s.ctx.command = .start)
    (hacked : (s.step e).ctx.command ≠ .start) : s.thread = .ack ∧ e = .thread := by
  rcases command_step (s := s) e with hsame | ⟨hthread, _⟩ | ⟨hstatus, _⟩
  · exact absurd (hsame.trans hstart) hacked
  · exact hthread
  · -- a service that is running has its acknowledgement behind it
    rcases h.command_of_start hstatus with hcommand | hcommand <;> simp [hcommand] at hstart

/-- Only the acknowledgement of the handler makes a service a running one. -/
theorem started_of_step {e : ServiceEvent} (hbefore : s.ctx.status ≠ .start)
    (hstarted : (s.step e).ctx.status = .start) : s.thread = .handler ∧ e = .handler .ackService := by
  rcases status_step (s := s) e with hsame | hstop | hack | rfl
  · exact absurd (hsame ▸ hstarted) hbefore
  · simp [hstop] at hstarted
  · exact hack
  · by_cases hthread : s.thread = .handler
    · simp [step, handlerStep, hthread] at hstarted
    · simp only [step, handlerStep, if_neg hthread] at hstarted
      exact absurd hstarted hbefore

/-- The opening ends well only in a poll that finds both words. -/
theorem opened_of_step {e : ServiceEvent} (hwait : s.owner = .wait) (hopened : (s.step e).owner = .opened) :
    s.ctx.command = .ack ∧ s.ctx.status = .start := by
  cases e with
  | thread => cases hthread : s.thread <;> simp [step, threadStep, hthread, hwait] at hopened
  | handler call => cases call <;> by_cases hthread : s.thread = .handler <;>
      simp [step, handlerStep, hthread, hwait] at hopened
  | create ok => simp [step, create, hwait] at hopened
  | poll =>
      by_cases hcommand : s.ctx.command = .ack
      · refine ⟨hcommand, ?_⟩
        cases hstatus : s.ctx.status <;> simp [step, poll, hwait, hcommand, hstatus] at hopened
        rfl
      · simp [step, poll, hwait, hcommand] at hopened
  | close suspend => simp [step, close, hwait] at hopened
  | closeRound expired => simp [step, closeRound, hwait] at hopened

/-- A command of `stop` stays. -/
theorem stop_exec (hs : s.ctx.command = .stop) (hfollows : Follows s) (es : List ServiceEvent) :
    (exec step s es).ctx.command = .stop := by
  have hkept : ∀ (s : Service) (e : ServiceEvent), Follows s ∧ s.ctx.command = .stop → True →
      Follows (s.step e) ∧ (s.step e).ctx.command = .stop := by
    rintro s e ⟨h, hstop⟩ _
    refine ⟨h.step e, ?_⟩
    rcases onward_step h e with hsame | ⟨hstart, _⟩ | ⟨hack, _⟩
    · exact hsame.trans hstop
    · simp [hstop] at hstart
    · simp [hstop] at hack
  exact (exec_invariant hkept ⟨hfollows, hs⟩ (along_true s es)).2

/-- **A stop request is never lost.** In every run: a step that hands the service to its owner comes behind the
    thread's acknowledgement and the handler's; the command only goes onward; and behind a closing round that
    wrote `stop` the handler reads a stop at every later moment. -/
theorem stop_never_lost (es : List ServiceEvent) :
    (∀ e, (exec step init es).owner = .wait → ((exec step init es).step e).owner = .opened →
      Once step (fun s e => s.thread = .ack ∧ e = .thread) init es ∧
      Once step (fun s e => s.thread = .handler ∧ e = .handler .ackService) init es) ∧
    Along step (fun s e => Onward s.ctx.command (s.step e).ctx.command) init es ∧
    (∀ suspend expired later, (exec step init es).owner = .closing suspend →
      (exec step init es).ctx.status = .start →
      (exec step init (es ++ .closeRound expired :: later)).breakService = 1) := by
  have hfollows := follows_exec es
  refine ⟨fun e hwait hopened => ?_, ?_, fun suspend expired later hclosing hstatus => ?_⟩
  · obtain ⟨hcommand, hstatus⟩ := opened_of_step hwait hopened
    constructor
    · refine once_of_turned (P := fun s => s.ctx.command ≠ .start) follows_step ?_
        follows_init (by simp [init]) (along_true init es) (by simp [hcommand])
      intro s e h _ hstart hacked
      exact acked_of_step h (by simpa using hstart) hacked
    · refine once_of_turned (P := fun s => s.ctx.status = .start) follows_step ?_
        follows_init (by simp [init]) (along_true init es) hstatus
      intro s e _ _ hbefore hstarted
      exact started_of_step hbefore hstarted
  · exact along_of_invariant follows_step (fun _ e h _ => onward_step h e) follows_init
      (along_true init es)
  · have hstop : ((exec step init es).step (.closeRound expired)).ctx.command = .stop := by
      simp [step, closeRound, hclosing, hstatus]
    have hlater := stop_exec hstop (hfollows.step _) later
    rw [exec_append, exec_cons]
    simp [breakService, hlater]

theorem stop_never_lost_small :
    Once step (fun s e => s.thread = .handler ∧ e = .handler .ackService) init (openedAndClosed.take 4) ∧
    (exec step init openedAndClosed).breakService = 1 := by
  constructor
  · exact ((stop_never_lost (openedAndClosed.take 4)).1 .poll (by decide) (by decide)).2
  · exact (stop_never_lost (openedAndClosed.take 6)).2.2 true false (openedAndClosed.drop 7) (by decide)
      (by decide)

end Service

end Workload
