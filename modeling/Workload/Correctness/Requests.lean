import Workload.Correctness.Services
import Workload.Lib.Trace
import Workload.Model.Main

/-!
# `Correctness.Requests` — quit and restart requests

A restart request sets both flags, a quit request only the break flag: a quit does not take back a restart
that has not been served. A restart that finds the main thread between `main`'s test and the end of the load is
lost: the break flag it sets ends the load, and with it `main`, or its reload flag is cleared.

* **`requests_honoured`** — requests are honoured as long as each arrives `InTime`.
* **`request_misses`** — a request that does not, with no other behind it, is lost or swapped.
-/

namespace Workload

open Trace

/-! ## The flags of the state -/

/-- The part of the state the main thread goes by. -/
def State.main (s : State) (pc : MainPc) (last : Option Request) : MainState :=
  ⟨pc, s.breakPtr, s.reloadPtr, s.xml.isSome, last⟩

/-- The commands are requests. -/
theorem workloadCmd_request (s : State) (ios : FilePtr → MoveIo) (pc : MainPc) (last : Option Request) :
    (workloadCmd s ['q'] ios).main pc (some .quit) = requestStep (s.main pc last) .quit ∧
    (workloadCmd s ['\x1b'] ios).main pc (some .quit) = requestStep (s.main pc last) .quit ∧
    (workloadCmd s ['Q'] ios).main pc (some .restart) = requestStep (s.main pc last) .restart :=
  ⟨rfl, rfl, rfl⟩

/-- The load fails when the last one has not been unloaded, and the unload makes way for the next. -/
theorem load_unload_xml (report : Bool) (env : LoadEnv) (s : State) (io : DeassignIo) (io' : MainIo)
    (last : Option Request) :
    (s.xml.isSome = true → workloadLoadConfig env s = some (-1, s)) ∧
    (workloadUnloadConfig s io).xml.isSome = (threadStep report (s.main .unload last) io').xml := by
  refine ⟨fun hxml => ?_, rfl⟩
  obtain ⟨doc, hdoc⟩ := Option.isSome_iff_exists.mp hxml
  unfold workloadLoadConfig
  rw [hdoc]

/-! ## Honoured requests -/

/-- `main` does not begin a run after a quit, and does not leave its loop after a restart. -/
def Honoured (report : Bool) (s : MainState) (e : MainEvent) : Prop :=
  (s.pc = .test → (mainStep report s e).pc = .entered → s.last ≠ some .quit) ∧
  (s.pc ≠ .left → (mainStep report s e).pc = .left → s.last ≠ some .restart)

/-- A quit arrives in time when no restart is pending, or the pending one is just being served. A restart
    arrives in time while the run goes on or ends, up to the clearing of the break flag. The duration is not to
    end a run that a restart began. -/
def InTime (s : MainState) : MainEvent → Prop
  | .request .quit => s.reloadPtr = false ∨ s.pc = .entered ∨ s.pc = .left
  | .request .restart =>
      s.pc = .loop ∨ s.pc = .body ∨ s.pc = .unload ∨ s.pc = .clear ∧ s.xml = false ∨ s.pc = .left
  | .main io => s.pc = .body → io.expire = true → s.last = some .restart → s.reloadPtr = true

/-- **Invariant** of the runs in which every request arrives in time. -/
structure Answered (report : Bool) (s : MainState) : Prop where
  /-- a quit has taken back no restart -/
  quit : s.last = some .quit → s.reloadPtr = false ∨ s.pc = .entered ∨ s.pc = .left
  /-- the last restart is going to be served, or has been -/
  restart : s.last = some .restart → s.pc ≠ .left → report = false ∧
    match s.pc with
    | .test => s.reloadPtr = true ∧ s.breakPtr = false ∧ s.xml = false
    | .entered => s.breakPtr = false ∧ s.xml = false
    | .load => s.breakPtr = false ∧ s.xml = false
    | .parse _ => s.breakPtr = false
    | .loaded => s.breakPtr = false
    | .loop => s.breakPtr = true → s.reloadPtr = true
    | .body => s.breakPtr = true → s.reloadPtr = true
    | .unload => s.reloadPtr = true
    | .clear => s.reloadPtr = true ∧ s.xml = false
    | .left => True
  /-- a report never gets to the loop -/
  report : report = true → match s.pc with
    | .parse _ => False
    | .loaded => s.breakPtr = true
    | .loop => False
    | .body => False
    | .unload => False
    | .clear => s.xml = true
    | _ => True
  /-- behind the load the document is open -/
  opened : match s.pc with
    | .parse _ => s.xml = true
    | .loaded => s.xml = true
    | _ => True
  /-- the reload flag is set by a restart in time only -/
  pending : s.reloadPtr = true →
    s.pc = .test ∨ s.pc = .entered ∨ s.pc = .loop ∨ s.pc = .body ∨ s.pc = .unload ∨ s.pc = .clear ∨ s.pc = .left

variable {report : Bool} {s : MainState}

theorem answered_start (report : Bool) : Answered report mainStart where
  quit := nofun
  restart h := nomatch h
  report _ := trivial
  opened := trivial
  pending _ := Or.inl rfl

/-- A request in time keeps the invariant. -/
theorem Answered.request (h : Answered report s) {r : Request} (htime : InTime s (.request r)) :
    Answered report (requestStep s r) := by
  obtain ⟨pc, brk, rel, xml, last⟩ := s
  obtain ⟨-, -, hreport, hopened, hpending⟩ := h
  cases r with
  | quit =>
      refine ⟨fun _ => htime, nofun, fun hreports => ?_, hopened, hpending⟩
      cases pc with
      | loaded => rfl
      | _ => exact hreport hreports
  | restart =>
      rcases htime with hpc | hpc | hpc | ⟨hpc, hxml⟩ | hpc <;> obtain rfl : pc = _ := hpc
      · -- in the loop: it is seen by the next test
        exact ⟨nofun, fun _ _ => ⟨by simpa using hreport, fun _ => rfl⟩, hreport, trivial,
          fun _ => by simp [requestStep]⟩
      · exact ⟨nofun, fun _ _ => ⟨by simpa using hreport, fun _ => rfl⟩, hreport, trivial,
          fun _ => by simp [requestStep]⟩
      · exact ⟨nofun, fun _ _ => ⟨by simpa using hreport, rfl⟩, hreport, trivial, fun _ => by simp [requestStep]⟩
      · -- behind the unload: the break flag is going to be cleared
        obtain rfl : xml = false := hxml
        exact ⟨nofun, fun _ _ => ⟨by simpa using hreport, rfl, rfl⟩, hreport, trivial,
          fun _ => by simp [requestStep]⟩
      · exact ⟨nofun, fun _ hleft => absurd rfl hleft, hreport, trivial, fun _ => by simp [requestStep]⟩

/-- A step of the main thread keeps the invariant. -/
theorem Answered.thread (h : Answered report s) {io : MainIo} (htime : InTime s (.main io)) :
    Answered report (threadStep report s io) := by
  obtain ⟨pc, brk, rel, xml, last⟩ := s
  obtain ⟨hquit, hrestart, hreport, hopened, hpending⟩ := h
  cases pc with
  | test => cases rel <;> constructor <;> simp_all [threadStep]
  | entered => constructor <;> simp_all [threadStep]
  | load => cases xml <;> cases report <;> constructor <;> simp_all [threadStep]
  | parse checked =>
      unfold threadStep
      dsimp only
      split_ifs <;> constructor <;> simp_all
  | loaded => cases brk <;> constructor <;> simp_all [threadStep]
  | loop => cases brk <;> constructor <;> simp_all [threadStep]
  | body =>
      cases hexpire : io.expire with
      | false => constructor <;> simp_all [threadStep]
      | true =>
          have hpend : last = some .restart → rel = true := htime rfl hexpire
          constructor <;> simp_all [threadStep]
  | unload => constructor <;> simp_all [threadStep]
  | clear => constructor <;> simp_all [threadStep]
  | left => exact ⟨hquit, hrestart, hreport, hopened, hpending⟩

theorem Answered.step (h : Answered report s) {e : MainEvent} (htime : InTime s e) :
    Answered report (mainStep report s e) := by
  cases e with
  | request r => exact h.request htime
  | main io => exact h.thread htime

/-- **Under the invariant every step honours the most recent request.** -/
theorem Answered.honoured (h : Answered report s) (e : MainEvent) : Honoured report s e := by
  obtain ⟨pc, brk, rel, xml, last⟩ := s
  obtain ⟨hquit, hrestart, -⟩ := h
  cases e with
  | request r =>
      refine ⟨fun hpc hbegin => ?_, fun hpc hleave => ?_⟩
      · cases r <;> exact absurd (hpc.symm.trans hbegin) nofun
      · cases r <;> exact absurd hleave hpc
  | main io =>
      constructor
      · intro hpc hbegin hlast
        obtain rfl : pc = .test := hpc
        rcases hquit hlast with hrel | hpc | hpc
        · obtain rfl : rel = false := hrel
          exact nomatch hbegin
        · exact nomatch hpc
        · exact nomatch hpc
      · intro hpc hleave hlast
        obtain ⟨rfl, htrack⟩ := hrestart hlast hpc
        cases pc with
        | test =>
            obtain ⟨hrel, -⟩ := htrack
            obtain rfl : rel = true := hrel
            exact nomatch hleave
        | load =>
            obtain ⟨-, hxml⟩ := htrack
            obtain rfl : xml = false := hxml
            exact nomatch hleave
        | parse checked =>
            obtain rfl : brk = false := htrack
            unfold mainStep threadStep at hleave
            dsimp only at hleave
            split_ifs at hleave
            all_goals simp_all
        | loaded => cases brk <;> exact nomatch hleave
        | loop => cases brk <;> exact nomatch hleave
        | left => exact hpc rfl
        | _ => exact nomatch hleave

/-! ## Requests that come too late -/

/-- The main thread makes no request. -/
theorem threadStep_last (report : Bool) (s : MainState) (io : MainIo) :
    (threadStep report s io).last = s.last := by
  unfold threadStep
  split <;> (try split_ifs) <;> rfl

/-- Only the test of the reload flag leads to another run. -/
theorem threadStep_entered {io : MainIo} (h : (threadStep report s io).pc = .entered) : s.pc = .test := by
  obtain ⟨pc, brk, rel, xml, last⟩ := s
  cases pc with
  | test => rfl
  | load => cases xml <;> cases report <;> exact nomatch h
  | parse checked =>
      unfold threadStep at h
      dsimp only at h
      split_ifs at h
  | loaded => cases brk <;> exact nomatch h
  | loop => cases brk <;> exact nomatch h
  | _ => exact nomatch h

/-- When the main thread goes on to leave its loop, it leaves it with the last request it had. -/
theorem leaves_unhonoured {ios : List MainIo} (hlast : s.last = some .restart) (hpc : s.pc ≠ .left)
    (hleft : (exec (mainStep report) s (ios.map .main)).pc = .left) :
    ¬ Along (mainStep report) (Honoured report) s (ios.map .main) := by
  induction ios generalizing s with
  | nil => exact absurd hleft hpc
  | cons io ios ih =>
      rintro ⟨hstep, hrest⟩
      by_cases hnow : (mainStep report s (.main io)).pc = .left
      · exact hstep.2 hpc hnow hlast
      · exact ih ((threadStep_last report s io).trans hlast) hnow hleft hrest

/-- When it goes on to begin a run, it begins it with the last request it had. -/
theorem begins_unhonoured {ios : List MainIo} (hlast : s.last = some .quit) (hpc : s.pc ≠ .entered)
    (hentered : (exec (mainStep report) s (ios.map .main)).pc = .entered) :
    ¬ Along (mainStep report) (Honoured report) s (ios.map .main) := by
  induction ios generalizing s with
  | nil => exact absurd hentered hpc
  | cons io ios ih =>
      rintro ⟨hstep, hrest⟩
      by_cases hnow : (mainStep report s (.main io)).pc = .entered
      · exact hstep.1 (threadStep_entered hnow) hnow hlast
      · exact ih ((threadStep_last report s io).trans hlast) hnow hentered hrest

/-- A step in which nothing comes to its end. -/
def goOn : MainIo := ⟨false, false⟩

/-- **What does not arrive in time is lost or swapped**, when nothing else arrives. -/
theorem Answered.misses (h : Answered report s) {e : MainEvent} (hlate : ¬ InTime s e) :
    ∃ n, ¬ Along (mainStep report) (Honoured report) (mainStep report s e)
      ((List.replicate n goOn).map .main) := by
  obtain ⟨pc, brk, rel, xml, last⟩ := s
  obtain ⟨-, -, -, hopened, hpending⟩ := h
  cases e with
  | request r =>
      cases r with
      | quit =>
          -- the pending restart is served after all
          obtain ⟨hrel, hpc⟩ := not_or.mp hlate
          obtain ⟨hentered, hleft⟩ := not_or.mp hpc
          obtain rfl : rel = true := by simpa using hrel
          have hbegins : ∀ n, (exec (mainStep report) (requestStep ⟨pc, brk, true, xml, last⟩ .quit)
              ((List.replicate n goOn).map .main)).pc = .entered →
                ∃ n, ¬ Along (mainStep report) (Honoured report)
                  (requestStep ⟨pc, brk, true, xml, last⟩ .quit) ((List.replicate n goOn).map .main) :=
            fun n hn => ⟨n, begins_unhonoured rfl hentered hn⟩
          rcases hpending rfl with hpc | hpc | hpc | hpc | hpc | hpc | hpc <;> obtain rfl : pc = _ := hpc
          · exact hbegins 1 rfl
          · exact absurd rfl hentered
          · exact hbegins 4 rfl
          · exact hbegins 5 rfl
          · exact hbegins 3 rfl
          · exact hbegins 2 rfl
          · exact absurd rfl hleft
      | restart =>
          have hleaves : ∀ n, pc ≠ .left →
              (exec (mainStep report) (requestStep ⟨pc, brk, rel, xml, last⟩ .restart)
                ((List.replicate n goOn).map .main)).pc = .left →
                  ∃ n, ¬ Along (mainStep report) (Honoured report)
                    (requestStep ⟨pc, brk, rel, xml, last⟩ .restart) ((List.replicate n goOn).map .main) :=
            fun n hpc hn => ⟨n, leaves_unhonoured rfl hpc hn⟩
          cases pc with
          | test =>
              cases xml with
              | true => exact hleaves 3 nofun rfl
              | false =>
                  cases report with
                  | true => exact hleaves 6 nofun rfl
                  | false => exact hleaves 4 nofun rfl
          | entered =>
              cases xml with
              | true => exact hleaves 2 nofun rfl
              | false =>
                  cases report with
                  | true => exact hleaves 5 nofun rfl
                  | false => exact hleaves 3 nofun rfl
          | load =>
              cases xml with
              | true => exact hleaves 1 nofun rfl
              | false =>
                  cases report with
                  | true => exact hleaves 6 nofun rfl
                  | false => exact hleaves 2 nofun rfl
          | parse checked => cases checked <;> exact hleaves 1 nofun rfl
          | loaded =>
              -- nothing has been unloaded, so the next load fails
              obtain rfl : xml = true := hopened
              exact hleaves 5 nofun rfl
          | clear =>
              cases xml with
              | true => exact hleaves 4 nofun rfl
              | false => exact absurd (by simp [InTime]) hlate
          | _ => exact absurd (by simp [InTime]) hlate
  | main io =>
      -- the duration ends a run that a restart began
      simp only [InTime, Classical.not_imp] at hlate
      obtain ⟨hpc, hexpire, hlast, hrel⟩ := hlate
      obtain rfl : pc = .body := hpc
      obtain rfl : rel = false := by simpa using hrel
      refine ⟨4, leaves_unhonoured hlast nofun ?_⟩
      cases brk <;> cases hio : io.expire <;> simp_all [mainStep, threadStep, exec, goOn]

/-- **Requests are neither lost nor swapped in a run in which each arrives in time**, and the first that does
    not is, unless another follows. -/
theorem requests_honoured (report : Bool) {es : List MainEvent}
    (hes : Along (mainStep report) InTime mainStart es) :
    Along (mainStep report) (Honoured report) mainStart es ∧
      ∀ e, ¬ InTime (exec (mainStep report) mainStart es) e →
        ∃ n, ¬ Along (mainStep report) (Honoured report) mainStart
          (es ++ e :: (List.replicate n goOn).map .main) := by
  refine ⟨along_of_invariant (fun _ _ h ht => h.step ht) (fun _ e h _ => h.honoured e)
    (answered_start report) hes, fun e hlate => ?_⟩
  have hanswered := exec_invariant (fun _ _ h ht => h.step ht) (answered_start report) hes
  obtain ⟨n, hmissed⟩ := hanswered.misses hlate
  refine ⟨n, fun hall => hmissed ?_⟩
  rw [along_append] at hall
  exact hall.2.2

/-- The first steps of the main thread, into the loop. -/
def intoLoop : List MainEvent := [goOn, goOn, goOn, goOn, ⟨true, false⟩, goOn].map .main

/-- A restart during the run, served, and then a quit. -/
theorem requests_honoured_small :
    Along (mainStep false) (Honoured false) mainStart
        (intoLoop ++ .request .restart :: (List.replicate 10 goOn).map .main ++ [.request .quit, .main goOn]) ∧
      ∀ e, ¬ InTime (exec (mainStep false) mainStart
          (intoLoop ++ .request .restart :: (List.replicate 10 goOn).map .main ++ [.request .quit, .main goOn])) e →
        ∃ n, ¬ Along (mainStep false) (Honoured false) mainStart
          (intoLoop ++ .request .restart :: (List.replicate 10 goOn).map .main ++ [.request .quit, .main goOn] ++
            e :: (List.replicate n goOn).map .main) := by
  refine requests_honoured false ?_
  simp [intoLoop, goOn, InTime, mainStart, mainStep, threadStep, requestStep, List.replicate]

/-- A restart and then a quit during the run, up to `main`'s test. -/
def restartThenQuit : MainState :=
  exec (mainStep false) mainStart (intoLoop ++ [.request .restart, .request .quit] ++
    (List.replicate 3 goOn).map .main)

/-- A restart during the load. -/
def restartInLoad : MainState :=
  exec (mainStep false) mainStart ((List.replicate 3 goOn).map .main ++ [.request .restart])

/-- **Both kinds of request get lost.** Behind a restart a quit does not keep `main` from another run, and a
    restart during the load ends `main`. -/
theorem requests_lost :
    (restartThenQuit.last = some .quit ∧ (mainStep false restartThenQuit (.main goOn)).pc = .entered ∧
      ¬ Honoured false restartThenQuit (.main goOn)) ∧
    restartInLoad.last = some .restart ∧ (mainStep false restartInLoad (.main goOn)).pc = .left ∧
      ¬ Honoured false restartInLoad (.main goOn) := by
  refine ⟨⟨rfl, rfl, fun h => ?_⟩, rfl, rfl, fun h => ?_⟩
  · exact h.1 rfl rfl rfl
  · exact h.2 nofun rfl rfl

end Workload
