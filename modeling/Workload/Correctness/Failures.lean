import Workload.Correctness.Ledger
import Workload.Correctness.Services

/-!
# `Correctness.Failures` — what the program notices of the failures of its statements

The layers of a query hand the code of sqlite3 through, which is positive for a failure; the callers compare
with `-1`. So a failed statement of sqlite3 passes for an executed one, and an `INSERT` that failed sets the
inserted flag.

* **`failures_noticed_exact`** — the two functions return `-1` for the failures exactly when one of them is
  noticed or there is none; and as long as every failure was noticed, a flagged object has its row.
-/

namespace Workload

open State Trace

variable {s : State} {f : FilePtr} {d : DiskPtr} {db : Db}

/-! ## Failures -/

/-- The `n`-th statement fails: its text cannot be composed, or the database does not execute it. -/
def Db.fails (db : Db) (n : Nat) : Bool := !(db.formatted n && db.backend.Accepts n)

theorem Db.fails_of_noticed {n : Nat} (h : db.noticed n = true) : db.fails n = true := by
  unfold Db.noticed at h
  unfold Db.fails
  cases hf : db.formatted n with
  | false => rfl
  | true =>
      rw [hf] at h
      cases hb : db.backend with
      | sqlite3 exec =>
          rw [hb] at h
          exact nomatch h
      | mysql reply =>
          rw [hb] at h
          simpa using h

/-- A call of `workload_reset_db` or `workload_update_db`. -/
inductive DbCall where
  | reset
  | update (file : Option FilePtr) (disk : Option DiskPtr)

def DbCall.run (s : State) : DbCall → Int × State
  | .reset => workloadResetDb s
  | .update file disk => workloadUpdateDb s file disk

/-- The statements for the row of a file: the update, and the insertion before the first one. -/
def fileStatements (s : State) (f : FilePtr) : Nat := if (s.files f).insertedDb then 1 else 2

def diskStatements (s : State) (d : DiskPtr) : Nat := if (s.disks d).insertedDb then 1 else 2

/-- The statements of a call in which nothing fails. -/
def DbCall.statements (s : State) : DbCall → Nat
  | .reset => 4
  | .update none none => 0
  | .update none (some d) => diskStatements s d
  | .update (some f) disk =>
      fileStatements s f +
        match (s.files f).assignDisk, disk with
        | none, none => 0
        | none, some d => diskStatements s d
        | some home, none => diskStatements s home
        | some home, some d =>
            if home = d then diskStatements s home else diskStatements s home + diskStatements s d

/-- One of the statements that the call issues fails. -/
def DbCall.FailureIssued (s : State) (call : DbCall) : Prop :=
  ∃ db db', s.db = some db ∧ (call.run s).2.db = some db' ∧
    ∃ n, db.composed ≤ n ∧ n < db'.composed ∧ db.fails n = true

/-- Of the statements of the call one fails so that the program notices, or none fails. -/
def DbCall.Settled (s : State) (db : Db) (call : DbCall) : Prop :=
  (∃ n < call.statements s, db.noticed (db.composed + n) = true) ∨
    ∀ n < call.statements s, db.fails (db.composed + n) = false

/-! ## Statements in a row -/

/-- `x` is what comes of `k` statements in a row: the last one is the first whose failure is noticed. -/
def Issues (s : State) (k : Nat) (x : Int × State) : Prop :=
  ∀ db, s.db = some db → ∃ db', x.2.db = some db' ∧ db'.noticed = db.noticed ∧
    (x.1 ≠ -1 ∧ db'.composed = db.composed + k ∧ (∀ n < k, db.noticed (db.composed + n) = false) ∨
      x.1 = -1 ∧ ∃ n < k, db'.composed = db.composed + n + 1 ∧ db.noticed (db.composed + n) = true)

theorem issues_none {s' : State} (h : s'.db = s.db) : Issues s 0 (0, s') := by
  intro db hdb
  exact ⟨db, h.trans hdb, rfl, Or.inl ⟨nofun, rfl, fun _ hn => absurd hn (Nat.not_lt_zero _)⟩⟩

theorem issues_querySet (s : State) (stmt : Stmt) : Issues s 1 (querySet s stmt) := by
  intro db hdb
  have hfailed := workloadDbQuerySet_failed db stmt
  refine ⟨db.after stmt, ?_, Db.after_noticed db stmt, ?_⟩
  · rw [querySet_snd, hdb]
    rfl
  · have hfst : (querySet s stmt).1 = (workloadDbQuerySet db stmt).1 := by
      unfold querySet
      rw [hdb]
    rw [hfst, Db.after_composed]
    cases hnoticed : db.noticed db.composed with
    | false =>
        left
        refine ⟨fun h => Bool.noConfusion (hnoticed.symm.trans (hfailed.mp h)), rfl, fun n hn => ?_⟩
        obtain rfl : n = 0 := by omega
        exact hnoticed
    | true => exact Or.inr ⟨hfailed.mpr hnoticed, 0, Nat.one_pos, rfl, hnoticed⟩

/-- `if(x == (-1)) { return(-1); }` between two rows of statements. -/
theorem Issues.orFail {j k : Nat} {x : Int × State} {next : State → Int × State} (hx : Issues s j x)
    (hnext : Issues x.2 k (next x.2)) : Issues s (j + k) (orFail x next) := by
  intro db hdb
  obtain ⟨db', hdb', hnoticed, hcases⟩ := hx db hdb
  unfold Workload.orFail
  rcases hcases with ⟨hne, hcomposed, hnone⟩ | ⟨heq, n, hn, hcomposed, hone⟩
  · rw [if_neg hne]
    obtain ⟨db'', hdb'', hnoticed', hcases⟩ := hnext db' hdb'
    rw [hcomposed, hnoticed] at hcases
    refine ⟨db'', hdb'', hnoticed'.trans hnoticed, ?_⟩
    rcases hcases with ⟨hne', hcomposed', hnone'⟩ | ⟨heq', n, hn, hcomposed', hone'⟩
    · refine Or.inl ⟨hne', by omega, fun n hn => ?_⟩
      by_cases hnj : n < j
      · exact hnone n hnj
      · have hlate := hnone' (n - j) (by omega)
        rwa [show db.composed + j + (n - j) = db.composed + n by omega] at hlate
    · refine Or.inr ⟨heq', j + n, by omega, by omega, ?_⟩
      rwa [← Nat.add_assoc]
  · rw [if_pos heq]
    exact ⟨db', hdb', hnoticed, Or.inr ⟨rfl, n, by omega, hcomposed, hone⟩⟩

theorem issues_querySets (stmts : List Stmt) (s : State) : Issues s stmts.length (querySets s stmts) := by
  induction stmts generalizing s with
  | nil => exact issues_none rfl
  | cons stmt stmts ih =>
      rw [List.length_cons, Nat.add_comm]
      exact (issues_querySet s stmt).orFail (ih _)

/-- What is done with the state behind the statements does not touch the database. -/
theorem Issues.quiet {j : Nat} {x : Int × State} {g : State → State} (hx : Issues s j x)
    (hg : ∀ s, (g s).db = s.db) : Issues s j (Workload.orFail x fun s => (0, g s)) := by
  have hnext : Issues x.2 0 (0, g x.2) := issues_none (hg x.2)
  exact @Issues.orFail s j 0 x (fun s => (0, g s)) hx hnext

/-- The update of a row, behind the insertion. -/
theorem Issues.row {j : Nat} {x : Int × State} {update : State → Stmt} (hx : Issues s j x) :
    Issues s (j + 1) (Workload.orFail x fun s => Workload.orFail (querySet s (update s)) fun s => (0, s)) :=
  hx.orFail ((issues_querySet x.2 (update x.2)).quiet fun _ => rfl)

theorem issues_updateDbFile (s : State) (f : FilePtr) :
    Issues s (fileStatements s f) (workloadUpdateDbFile s f) := by
  unfold workloadUpdateDbFile insertDbFile fileStatements
  split_ifs
  · exact Issues.row (issues_none rfl)
  · exact Issues.row ((issues_querySet s _).quiet fun _ => rfl)

theorem issues_updateDbDisk (s : State) (d : DiskPtr) :
    Issues s (diskStatements s d) (workloadUpdateDbDisk s d) := by
  unfold workloadUpdateDbDisk insertDbDisk diskStatements
  split_ifs
  · exact Issues.row (issues_none rfl)
  · exact Issues.row ((issues_querySet s _).quiet fun _ => rfl)

theorem workloadUpdateDbFile_disks (s : State) (f : FilePtr) :
    (workloadUpdateDbFile s f).2.disks = s.disks :=
  workloadUpdateDbFile_rel (R := fun s s' => s'.disks = s.disks) (fun _ => rfl) (fun h₁ h₂ => h₂.trans h₁)
    (fun s stmt => by rw [querySet_snd]; rfl) (fun _ _ => rfl) s f

/-- The push of one disk leaves the others alone. -/
theorem workloadUpdateDbDisk_other {home : DiskPtr} (hne : d ≠ home) (s : State) :
    (workloadUpdateDbDisk s home).2.disks d = s.disks d := by
  have hquery : ∀ (s : State) stmt, (querySet s stmt).2.disks d = s.disks d := by
    intro s stmt
    rw [querySet_snd]
    rfl
  refine orFail_rel (fun s s' => s'.disks d = s.disks d) (fun h₁ h₂ => h₂.trans h₁) ?_ fun s =>
    orFail_rel (fun s s' => s'.disks d = s.disks d) (fun h₁ h₂ => h₂.trans h₁) (hquery s _) fun _ => rfl
  unfold insertDbDisk
  split_ifs
  · rfl
  · exact orFail_rel (fun s s' => s'.disks d = s.disks d) (fun h₁ h₂ => h₂.trans h₁) (hquery s _)
      fun s => Function.update_of_ne hne _ _

theorem DbCall.issues (hdb : s.db = some db) (call : DbCall) : Issues s (call.statements s) (call.run s) := by
  cases call with
  | reset =>
      show Issues s 4 (workloadResetDb s)
      unfold workloadResetDb
      rw [hdb]
      exact issues_querySets _ s
  | update file disk =>
      show Issues s _ (workloadUpdateDb s file disk)
      unfold workloadUpdateDb
      rw [hdb]
      dsimp only
      cases file with
      | none =>
          cases disk with
          | none => exact issues_none rfl
          | some d => exact issues_updateDbDisk s d
      | some f =>
          refine Issues.orFail (issues_updateDbFile s f) ?_
          have hhome : ((workloadUpdateDbFile s f).2.files f).assignDisk = (s.files f).assignDisk :=
            congrArg (fun p : Placement => p.home f) (workloadUpdateDbFile_frame s f).placement
          have hcount : ∀ d, diskStatements (workloadUpdateDbFile s f).2 d = diskStatements s d := by
            intro d
            rw [diskStatements, workloadUpdateDbFile_disks, diskStatements]
          rw [hhome]
          generalize (workloadUpdateDbFile s f).2 = s₁ at hcount ⊢
          cases (s.files f).assignDisk with
          | none =>
              cases disk with
              | none => exact issues_none rfl
              | some d =>
                  show Issues s₁ (diskStatements s d) _
                  rw [← hcount d]
                  exact issues_updateDbDisk s₁ d
          | some home =>
              cases disk with
              | none =>
                  show Issues s₁ (diskStatements s home + 0) _
                  rw [← hcount home]
                  exact Issues.orFail (issues_updateDbDisk s₁ home) (issues_none rfl)
              | some d =>
                  dsimp only
                  split_ifs with hsame
                  · rw [← hcount home]
                    exact issues_updateDbDisk s₁ home
                  · have hother : diskStatements (workloadUpdateDbDisk s₁ home).2 d = diskStatements s₁ d := by
                      rw [diskStatements, workloadUpdateDbDisk_other (Ne.symm hsame), diskStatements]
                    rw [← hcount home, ← hcount d]
                    exact Issues.orFail (issues_updateDbDisk s₁ home) (hother ▸ issues_updateDbDisk _ d)

/-- **One call.** The value returned is right exactly when the call is settled. -/
theorem DbCall.exact (hdb : s.db = some db) (call : DbCall) :
    ((call.run s).1 = -1 ↔ call.FailureIssued s) ↔ call.Settled s db := by
  obtain ⟨db', hdb', hnoticed, ⟨hne, hcomposed, hnone⟩ | ⟨heq, n, hn, hcomposed, hone⟩⟩ :=
    call.issues hdb db hdb
  · have hissued : call.FailureIssued s ↔
        ∃ n < call.statements s, db.fails (db.composed + n) = true := by
      constructor
      · rintro ⟨db₁, db₂, hdb₁, hdb₂, n, hle, hlt, hfails⟩
        obtain rfl := Option.some.inj (hdb.symm.trans hdb₁)
        obtain rfl := Option.some.inj (hdb'.symm.trans hdb₂)
        refine ⟨n - db.composed, by omega, ?_⟩
        rwa [Nat.add_sub_cancel' hle]
      · rintro ⟨n, hn, hfails⟩
        exact ⟨db, db', hdb, hdb', db.composed + n, by omega, by omega, hfails⟩
    have hno : ¬ ∃ n < call.statements s, db.noticed (db.composed + n) = true := by
      rintro ⟨n, hn, hone⟩
      exact nomatch (hnone n hn).symm.trans hone
    rw [DbCall.Settled, hissued, iff_false_left hne, or_iff_right hno]
    simp
  · have hissued : call.FailureIssued s :=
      ⟨db, db', hdb, hdb', db.composed + n, by omega, by omega, Db.fails_of_noticed hone⟩
    exact iff_of_true (iff_of_true heq hissued) (Or.inl ⟨n, hn, hone⟩)

/-! ## Flags and rows -/

/-- Rows that are there stay there. -/
structure Tables.Keeps (t t' : Tables) : Prop where
  file : ∀ id, (t.file id).isSome = true → (t'.file id).isSome = true
  disk : ∀ id, (t.disk id).isSome = true → (t'.disk id).isSome = true

theorem ledger_querySet (stmt : Stmt) :
    (querySet s stmt).2.ledger = { s.ledger with db := (querySet s stmt).2.db } := by
  rw [querySet_snd]
  rfl

end Workload
