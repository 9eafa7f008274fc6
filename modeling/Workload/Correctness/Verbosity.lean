import Workload.Correctness.Carried
import Workload.Correctness.Veils

/-!
# `Correctness.Verbosity` — the verbose option and the outcome of a load

Some thirty blocks of `__workload_parse_config` stand under `m_opt.m_verbose`. All but one only log. The block
behind the reset of the meta database holds a `return(-1)`, so a failure there ends the load in verbose mode
and is passed over otherwise.

* **`verbosity_silent`** — two loads that differ only in the option end the same way, exactly unless the
  program notices a failure of the reset.
-/

namespace Workload

/-! ## The option -/

/-- `m_opt.m_verbose`. -/
def State.setVerbose (s : State) (verbose : Bool) : State :=
  { s with opt := { s.opt with verbose := verbose } }

/-- How a load ends, apart from the option. -/
def Load.hush : Load → Load
  | .ok s => .ok (s.setVerbose false)
  | .error (.returned code s) => .error (.returned code (s.setVerbose false))
  | .error (.undefined s) => .error (.undefined (s.setVerbose false))
  | .error (.waiting s) => .error (.waiting (s.setVerbose false))

/-- The reset of the tables is attempted, and one of its four statements fails so that the program notices. -/
def ResetNoticed (env : LoadEnv) (doc : Document) (opt : Opt) : Prop :=
  opt.dumpDisk = false ∧ opt.dumpFile = false ∧
    ∃ db, metaDb env (configNode doc ["meta".toList]) = some db ∧ ∃ n < 4, db.noticed n = true

/-- The veil over the option. -/
def quiet : Veil := ⟨fun _ => false, id, id, false, id, id, id⟩

theorem quiet_on (s : State) : quiet.on s = s.setVerbose false := by
  have hflag : (s.useFakeoff || false) = s.useFakeoff := Bool.or_false _
  exact congrArg (fun flag => ({ s.setVerbose false with useFakeoff := flag } : State)) hflag

theorem quiet_load (x : Load) : quiet.load x = x.hush := by
  cases x with
  | ok s => exact congrArg Except.ok (quiet_on s)
  | error e =>
      cases e with
      | returned code s => exact congrArg (fun s => Except.error (LoadExit.returned code s)) (quiet_on s)
      | undefined s => exact congrArg (fun s => Except.error (LoadExit.undefined s)) (quiet_on s)
      | waiting s => exact congrArg (fun s => Except.error (LoadExit.waiting s)) (quiet_on s)

/-! ## The stages in front of the operation -/

/-- Nothing is composed yet. -/
theorem metaDb_composed {env : LoadEnv} {node : Node} {db : Db} (h : metaDb env node = some db) :
    db.composed = 0 := by
  have hopen : ∀ {α : Type} {backend : (Nat → α) → Backend} {opened : Option (DbOutcomes α)},
      workloadOpenDb backend opened = some db → db.composed = 0 := by
    intro α backend opened h
    obtain ⟨outcomes, -, rfl⟩ := Option.map_eq_some_iff.mp h
    rfl
  unfold metaDb at h
  cases node with
  | nil => exact nomatch h
  | cons x rest =>
      dsimp only at h
      split_ifs at h
      · exact hopen h
      · exact hopen h

/-! ## The reset -/

/-- The database of the reset is the one just opened, so the noticed failures are those of its first four
    statements. -/
theorem resetDb_failed {env : LoadEnv} {node : Node} {s : State} {db : Db}
    (hdb : metaDb env node = some db) :
    (workloadResetDb (s.setDb (metaDb env node))).1 = -1 ↔ ∃ n < 4, db.noticed n = true := by
  have hfailed := querySets_failed (s := s.setDb (metaDb env node)) hdb
    [.dropFile, .dropDisk, .createDisk, .createFile]
  rw [metaDb_composed hdb] at hfailed
  simp only [Nat.zero_add] at hfailed
  unfold workloadResetDb
  rw [show (s.setDb (metaDb env node)).db = some db from hdb]
  exact hfailed

/-- Without a noticed failure, or without the option, the load under the veil is the load from under it. -/
theorem hush_parseConfig {env : LoadEnv} {doc : Document} {s : State}
    (h : s.opt.verbose = false ∨ ¬ ResetNoticed env doc s.opt) :
    (parseConfig env doc s).hush = parseConfig env doc (s.setVerbose false) := by
  rw [← quiet_on, ← quiet_load, parseConfig_eq, parseConfig_eq, Veil.load_openMeta]
  rcases openMeta_cases env (configNode doc ["meta".toList]) s with hopen | ⟨hopen, -⟩
  · rw [hopen]
    generalize hs₁ : s.setDb (metaDb env (configNode doc ["meta".toList])) = s₁
    have hopt : s₁.opt = s.opt := hs₁ ▸ rfl
    change quiet.load (dumpMeta s₁ >>= _) = (dumpMeta (quiet.on s₁) >>= _)
    rw [Veil.load_dumpMeta]
    by_cases hdump : s₁.opt.dumpDisk = true ∨ s₁.opt.dumpFile = true
    · -- the report ends the load
      unfold dumpMeta
      simp only [hdump, if_true]
      rfl
    · have hok : dumpMeta s₁ = .ok s₁ := if_neg hdump
      rw [hok]
      change quiet.load (resetMeta s₁ >>= _) = (resetMeta (quiet.on s₁) >>= _)
      rw [Veil.load_resetMeta]
      · refine (Veil.load_bind fun s₂ => ?_).symm
        have hoperation : parseOperation doc (configNode doc ["meta".toList]) (quiet.on s₂) =
            quiet.on (parseOperation doc (configNode doc ["meta".toList]) s₂) := rfl
        rw [hoperation]
        exact veil_loadRest quiet env doc _
      · intro hopened hfailed
        rcases h with h | h
        · rw [hopt, h]
          rfl
        · refine absurd ?_ h
          push Not at hdump
          have hdisk : s.opt.dumpDisk = false := by simpa [hopt] using hdump.1
          have hfile : s.opt.dumpFile = false := by simpa [hopt] using hdump.2
          cases hdb : metaDb env (configNode doc ["meta".toList]) with
          | none =>
              rw [← hs₁, hdb] at hopened
              exact absurd rfl hopened
          | some db =>
              rw [← hs₁] at hfailed
              exact ⟨hdisk, hfile, db, hdb, (resetDb_failed hdb).mp hfailed⟩
  · rw [hopen]
    rfl

/-- A closed database stays closed. -/
theorem carried_dbClosed : Carried fun s : State => s.db.isNone where
  heap := by
    intros
    rfl
  disk := by
    intros
    rfl
  query s stmt := by
    unfold querySet
    cases hdb : s.db with
    | none => simp [hdb]
    | some db => rfl

/-- What no stage behind the operation matters to. -/
theorem loadRest_carried {α : Type*} {p : State → α} (hdisk : DiskCarried p) (hfile : FileCarried p)
    (htotals : ∀ s r w, p (State.setTotals s r w) = p s) (env : LoadEnv) (doc : Document) (s : State) :
    p (loadRest env doc s).state = p s := by
  refine Carried.bind (p := p) (hdisk.loadDisks env doc) fun s => ?_
  refine Carried.bind (p := p) (hfile.loadFiles env) fun s => ?_
  refine Carried.bind (p := p) (hfile.assignLoop env _ 1) fun s => ?_
  refine (hdisk.waitServices htotals env.events).trans ?_
  exact (hdisk.startServices env).trans (hdisk.indexFiles env)

theorem loadRest_dbClosed (env : LoadEnv) (doc : Document) (s : State) :
    (loadRest env doc s).state.db.isNone = s.db.isNone :=
  loadRest_carried (p := fun s : State => s.db.isNone) ⟨carried_dbClosed, by intros; rfl⟩
    ⟨carried_dbClosed, by intros; rfl⟩ (fun _ _ _ => rfl) env doc s

/-- A noticed failure leaves the database open in one mode, and closed in the other. -/
theorem noticed_db {env : LoadEnv} {doc : Document} {s : State} (h : ResetNoticed env doc s.opt) :
    (parseConfig env doc s).state.db.isNone = !s.opt.verbose := by
  obtain ⟨hdisk, hfile, db, hdb, hnoticed⟩ := h
  rw [parseConfig_eq]
  rcases openMeta_cases env (configNode doc ["meta".toList]) s with hopen | ⟨-, hnone⟩
  · have hfailed := (resetDb_failed (s := s) hdb).mpr hnoticed
    rw [hopen]
    generalize hs₁ : s.setDb (metaDb env (configNode doc ["meta".toList])) = s₁ at hfailed
    have hopt : s₁.opt = s.opt := hs₁ ▸ rfl
    have hsome : s₁.db = some db := by
      rw [← hs₁]
      exact hdb
    have hok : dumpMeta s₁ = .ok s₁ := by
      unfold dumpMeta
      rw [hopt, hdisk, hfile]
      rfl
    obtain ⟨reset, hstate, hisNone⟩ := querySets_snd [.dropFile, .dropDisk, .createDisk, .createFile] s₁
    have hsnd : (workloadResetDb s₁).2 = s₁.setDb reset := by
      unfold workloadResetDb
      rw [hsome]
      exact hstate
    rw [hsome] at hisNone
    change (Load.state (dumpMeta s₁ >>= _)).db.isNone = _
    rw [hok]
    change (Load.state (resetMeta s₁ >>= _)).db.isNone = _
    unfold resetMeta
    rw [hsome]
    dsimp only
    rw [if_pos hfailed, hsnd, show (s₁.setDb reset).opt = s.opt from hopt]
    cases s.opt.verbose with
    | true => exact hisNone
    | false => exact (loadRest_dbClosed env doc _).trans rfl
  · exact nomatch hnone.symm.trans hdb

/-- **Verbosity does not change how a load ends**, exactly unless the program notices a failure of the
    reset. -/
theorem verbosity_silent (env : LoadEnv) (doc : Document) (s : State) :
    (parseConfig env doc (s.setVerbose true)).hush = (parseConfig env doc (s.setVerbose false)).hush ↔
      ¬ ResetNoticed env doc s.opt := by
  constructor
  · intro hsame hnoticed
    have hloud := noticed_db (s := s.setVerbose true) hnoticed
    have hsilent := noticed_db (s := s.setVerbose false) hnoticed
    have hhush : ∀ x : Load, x.hush.state.db = x.state.db := by
      rintro (e | s)
      · cases e <;> rfl
      · rfl
    have hdb := congrArg (fun x => (Load.state x).db.isNone) hsame
    simp only [hhush, hloud, hsilent] at hdb
    exact nomatch hdb
  · intro h
    rw [hush_parseConfig (s := s.setVerbose true) (Or.inr h), hush_parseConfig (Or.inl rfl)]
    rfl

/-- A configuration with a meta database on mysql, whose server refuses every statement. -/
def refusedDocument : Document where
  root := smallDocument [.element "meta".toList [("type".toList, "mysql".toList)] []
    [.element "database".toList [] "w".toList []]]
  small := by decide

def refusedEnv : LoadEnv :=
  { smallEnv [] small_fits none with
    openMysql := some ⟨fun _ => ⟨1, 0⟩, fun _ => true, Tables.empty⟩ }

/-- **The refused reset ends the load in verbose mode** and is passed over otherwise. -/
theorem verbosity_speaks :
    (parseConfig refusedEnv refusedDocument (smallStart.setVerbose true)).isOk = false ∧
      (parseConfig refusedEnv refusedDocument (smallStart.setVerbose false)).isOk = true ∧
      (parseConfig refusedEnv refusedDocument (smallStart.setVerbose true)).hush ≠
        (parseConfig refusedEnv refusedDocument (smallStart.setVerbose false)).hush := by
  have hloud : (parseConfig refusedEnv refusedDocument (smallStart.setVerbose true)).isOk = false := by
    decide +kernel
  have hsilent : (parseConfig refusedEnv refusedDocument (smallStart.setVerbose false)).isOk = true := by
    decide +kernel
  have hhush : ∀ x : Load, x.hush.isOk = x.isOk := by
    rintro (e | s)
    · cases e <;> rfl
    · rfl
  refine ⟨hloud, hsilent, fun hsame => ?_⟩
  have hok := congrArg Except.isOk hsame
  rw [hhush, hhush, hloud, hsilent] at hok
  exact absurd hok (by decide)

end Workload
