import Workload.Model.Directories
import Mathlib.Data.List.Chain
import Mathlib.Data.List.DropRight
import Mathlib.Data.List.Induction

/-!
# `Correctness.Directories` — undoing `workload_mkdir_ex`

`workload_mkdir_recursive` makes the missing leading parts of a path from the shortest on, and notes the first
one it made. Deleting this one is to undo all.

* **`mkdir_undone_iff`** — it does exactly when nothing is made outside of the first directory, and the path
  does not turn out to be a file.
-/

namespace Workload.Directories

open Trees

variable {β : Type*} {t t' t₀ : Tree Name β} {cwd l : Location} {path : Text}

/-! ## Words -/

theorem splitSlash_ne_nil (path : Text) : splitSlash path ≠ [] := by
  cases path with
  | nil => exact List.cons_ne_nil _ _
  | cons c path =>
      unfold splitSlash
      split_ifs
      · exact List.cons_ne_nil _ _
      · split <;> exact List.cons_ne_nil _ _

/-- A slash separates. -/
theorem splitSlash_append (p q : Text) : splitSlash (p ++ '/' :: q) = splitSlash p ++ splitSlash q := by
  induction p with
  | nil => rfl
  | cons c p ih =>
      rw [List.cons_append, splitSlash, splitSlash]
      split_ifs
      · rw [ih]
        rfl
      · rw [ih]
        cases hp : splitSlash p with
        | nil => exact absurd hp (splitSlash_ne_nil p)
        | cons w ws => rfl

/-- Without a slash there is one word. -/
theorem splitSlash_word {w : Text} (hw : ∀ c ∈ w, c ≠ '/') : splitSlash w = [w] := by
  induction w with
  | nil => rfl
  | cons c w ih =>
      rw [splitSlash, if_neg (hw c List.mem_cons_self), ih fun d hd => hw d (List.mem_cons_of_mem c hd)]

theorem splitSlash_replicate (p : Text) (k : Nat) :
    splitSlash (p ++ List.replicate k '/') = splitSlash p ++ List.replicate k [] := by
  induction k generalizing p with
  | zero => simp
  | succ k ih =>
      rw [List.replicate_succ, List.append_cons, ih, splitSlash_append p [], List.append_assoc]
      rfl

/-- A path is its stripped form and some slashes. -/
theorem stripSlashes_append (path : Text) :
    ∃ k, path = stripSlashes path ++ List.replicate k '/' := by
  refine ⟨(path.reverse.takeWhile (· == '/')).length, ?_⟩
  have htake : path.reverse.takeWhile (· == '/') =
      List.replicate (path.reverse.takeWhile (· == '/')).length '/' := by
    refine List.eq_replicate_of_mem fun c hc => ?_
    simpa using List.mem_takeWhile_imp hc
  have hsplit := congrArg List.reverse (List.takeWhile_append_dropWhile (p := (· == '/')) (l := path.reverse))
  rw [List.reverse_append, List.reverse_reverse, htake, List.reverse_replicate] at hsplit
  exact hsplit.symm

/-- The components of a path: those of its directory, the last one, and what its trailing slashes add. -/
theorem components_eq (path : Text) :
    ∃ k, (splitSlash path).map component =
      (splitSlash (stripSlashes path)).dropLast.map component ++
        component ((splitSlash (stripSlashes path)).getLastD []) :: List.replicate k .here ∧
      (stripSlashes path = path → k = 0) := by
  obtain ⟨k, hk⟩ := stripSlashes_append path
  refine ⟨k, ?_, ?_⟩
  rotate_left
  · intro hstrip
    rw [hstrip] at hk
    simpa using congrArg List.length hk
  have hlast : splitSlash (stripSlashes path) =
      (splitSlash (stripSlashes path)).dropLast ++ [(splitSlash (stripSlashes path)).getLastD []] := by
    rw [List.getLastD_eq_getLast?, List.getLast?_eq_getLast_of_ne_nil (splitSlash_ne_nil _), Option.getD_some,
      List.dropLast_append_getLast]
  conv_lhs => rw [hk, splitSlash_replicate, hlast]
  rw [List.map_append, List.map_append, List.map_replicate, List.append_assoc]
  rfl

/-! ## Lookup -/

/-- The location a component leads to. -/
def Component.follow (l : Location) : Component → Location
  | .here => l
  | .up => l.dropLast
  | .name n => l ++ [n]

def Component.found (t : Tree Name β) (l : Location) : Component → Bool
  | .name n => (t.find (l ++ [n])).isSome
  | _ => true

theorem walk_cons (c : Component) (cs : List Component) :
    walk t l (c :: cs) =
      if t.isDirectory l = true then
        if c.found t l = true then walk t (c.follow l) cs else .error .enoent
      else .error .enotdir := by
  cases c with
  | here => rfl
  | up => rfl
  | name n => rfl

theorem walk_append (cs ds : List Component) :
    walk t l (cs ++ ds) = (walk t l cs).bind fun l => walk t l ds := by
  induction cs generalizing l with
  | nil => rfl
  | cons c cs ih =>
      rw [List.cons_append, walk_cons, walk_cons]
      split_ifs
      · exact ih
      · rfl
      · rfl

theorem isDirectory_mono (h : Tree.Includes t t') (hl : t.isDirectory l = true) :
    t'.isDirectory l = true :=
  Tree.isDirectory_iff.mpr (h l _ (Tree.isDirectory_iff.mp hl))

theorem found_mono (h : Tree.Includes t t') {c : Component} (hc : c.found t l = true) :
    c.found t' l = true := by
  cases c with
  | here => rfl
  | up => rfl
  | name n =>
      obtain ⟨e, he⟩ := Option.isSome_iff_exists.mp hc
      exact Option.isSome_iff_exists.mpr ⟨e, h _ _ he⟩

/-- What is found is found in a larger tree too. -/
theorem walk_mono (h : Tree.Includes t t') {cs : List Component} {l' : Location}
    (hwalk : walk t l cs = .ok l') : walk t' l cs = .ok l' := by
  induction cs generalizing l with
  | nil => exact hwalk
  | cons c cs ih =>
      rw [walk_cons] at hwalk ⊢
      split_ifs at hwalk with hdir hfound
      rw [if_pos (isDirectory_mono h hdir), if_pos (found_mono h hfound)]
      exact ih hwalk

/-- The location a path leads to, wherever there are directories. -/
def lexical (cwd : Location) (path : Text) : Location :=
  ((splitSlash path).map component).foldl Component.follow (startOf cwd path)

theorem follow_of_walk {cs : List Component} {l' : Location} (hwalk : walk t l cs = .ok l') :
    cs.foldl Component.follow l = l' := by
  induction cs generalizing l with
  | nil => exact Except.ok.inj hwalk
  | cons c cs ih =>
      rw [walk_cons] at hwalk
      split_ifs at hwalk
      exact ih hwalk

theorem walk_error {cs : List Component} {e : Errno} (hwalk : walk t l cs = .error e) :
    e = .enoent ∨ e = .enotdir := by
  induction cs generalizing l with
  | nil => exact nomatch hwalk
  | cons c cs ih =>
      rw [walk_cons] at hwalk
      split_ifs at hwalk
      · exact ih hwalk
      · exact Or.inl (Except.error.inj hwalk).symm
      · exact Or.inr (Except.error.inj hwalk).symm

theorem foldl_here (k : Nat) (l : Location) :
    (List.replicate k Component.here).foldl Component.follow l = l := by
  induction k with
  | zero => rfl
  | succ k ih => exact ih

theorem walk_here (k : Nat) (hl : t.isDirectory l = true) :
    walk t l (List.replicate k .here) = .ok l := by
  induction k with
  | zero => rfl
  | succ k ih =>
      rw [List.replicate_succ, walk_cons, if_pos hl]
      exact ih

/-- Slashes behind a file are an error. -/
theorem walk_here_file {b : β} (k : Nat) (hl : t.find l = some (.file b)) :
    walk t l (List.replicate k .here) = .ok l ∨ walk t l (List.replicate k .here) = .error .enotdir := by
  cases k with
  | zero => exact Or.inl rfl
  | succ k =>
      right
      have hfile : ¬ t.isDirectory l = true := by
        rw [Tree.isDirectory_iff, hl]
        exact nofun
      rw [List.replicate_succ, walk_cons, if_neg hfile]

theorem lookupParent_ok {last : Component} (h : lookupParent t cwd path = .ok (l, last)) :
    walk t (startOf cwd path) ((splitSlash (stripSlashes path)).dropLast.map component) = .ok l ∧
      component ((splitSlash (stripSlashes path)).getLastD []) = last := by
  unfold lookupParent at h
  dsimp only at h
  cases hwalk : walk t (startOf cwd path)
    ((splitSlash (stripSlashes path)).dropLast.map component) with
  | error e =>
      rw [hwalk] at h
      exact nomatch h
  | ok l' =>
      rw [hwalk] at h
      obtain ⟨rfl, hlast⟩ := Prod.mk.inj (Except.ok.inj h)
      exact ⟨rfl, hlast⟩

theorem lookupParent_error {e : Errno} (h : lookupParent t cwd path = .error e) :
    e = .enoent ∨ e = .enotdir := by
  unfold lookupParent at h
  dsimp only at h
  cases hwalk : walk t (startOf cwd path)
    ((splitSlash (stripSlashes path)).dropLast.map component) with
  | error e' =>
      rw [hwalk] at h
      exact Except.error.inj h ▸ walk_error hwalk
  | ok l' =>
      rw [hwalk] at h
      exact nomatch h

theorem lookupParent_mono {last : Component} (hinc : Tree.Includes t t')
    (h : lookupParent t cwd path = .ok (l, last)) : lookupParent t' cwd path = .ok (l, last) := by
  obtain ⟨hwalk, hlast⟩ := lookupParent_ok h
  unfold lookupParent
  dsimp only
  rw [walk_mono hinc hwalk, hlast]
  rfl

theorem lexical_eq {last : Component} (h : lookupParent t cwd path = .ok (l, last)) :
    lexical cwd path = last.follow l := by
  obtain ⟨hwalk, hlast⟩ := lookupParent_ok h
  obtain ⟨k, hk, -⟩ := components_eq path
  rw [lexical, hk, List.foldl_append, follow_of_walk hwalk, List.foldl_cons, hlast, foldl_here]

/-- The last step of a lookup. -/
theorem stat_eq {last : Component} (hpath : path ≠ []) (h : lookupParent t cwd path = .ok (l, last)) :
    ∃ k, stat t cwd path = walk t l (last :: List.replicate k .here) ∧
      (stripSlashes path = path → k = 0) := by
  obtain ⟨hwalk, hlast⟩ := lookupParent_ok h
  obtain ⟨k, hk, hzero⟩ := components_eq path
  refine ⟨k, ?_, hzero⟩
  rw [stat, if_neg hpath, hk, walk_append, hwalk, hlast]
  rfl

/-- A path is found to be a directory. -/
def LeadsToDirectory (t : Tree Name β) (cwd : Location) (path : Text) : Prop :=
  ∃ l, stat t cwd path = .ok l ∧ t.isDirectory l = true

theorem stat_directory {last : Component} (hpath : path ≠ [])
    (h : lookupParent t cwd path = .ok (l, last)) (hl : t.isDirectory l = true)
    (hdir : t.isDirectory (last.follow l) = true) : stat t cwd path = .ok (last.follow l) := by
  obtain ⟨k, hstat, -⟩ := stat_eq hpath h
  have hfound : last.found t l = true := by
    cases last with
    | here => rfl
    | up => rfl
    | name n => exact Option.isSome_iff_exists.mpr ⟨_, Tree.isDirectory_iff.mp hdir⟩
  rw [hstat, walk_cons, if_pos hl, if_pos hfound, walk_here k hdir]

theorem stat_file {n : Name} {b : β} (hpath : path ≠ [])
    (h : lookupParent t cwd path = .ok (l, .name n)) (hl : t.isDirectory l = true)
    (hfile : t.find (l ++ [n]) = some (.file b)) :
    (stat t cwd path = .ok (l ++ [n]) ∨ stat t cwd path = .error .enotdir) ∧
      (stripSlashes path = path → stat t cwd path = .ok (l ++ [n])) := by
  obtain ⟨k, hstat, hzero⟩ := stat_eq hpath h
  have hfound : (Component.name n).found t l = true := Option.isSome_iff_exists.mpr ⟨_, hfile⟩
  rw [walk_cons, if_pos hl, if_pos hfound] at hstat
  constructor
  · rw [hstat]
    exact walk_here_file k hfile
  · intro hstrip
    rw [hstat, hzero hstrip]
    rfl

theorem isDirectory_dropLast (hl : t.isDirectory l = true) : t.isDirectory l.dropLast = true := by
  by_cases hnil : l = []
  · rw [hnil, List.dropLast_nil, ← hnil]
    exact hl
  · exact Tree.isDirectory_iff.mpr (Tree.find_dropLast hnil (Tree.isDirectory_iff.mp hl))

/-! ## What `mkdir` does -/

variable {allow : Text → Bool}

theorem mkdir_ok (h : mkdir allow cwd t path = .ok t') :
    path ≠ [] ∧ ∃ l n hdir hnew, lookupParent t cwd path = .ok (l, .name n) ∧
      t' = t.make l n hdir hnew := by
  unfold mkdir at h
  split_ifs at h with hpath hallow
  refine ⟨hpath, ?_⟩
  split at h
  · exact nomatch h
  · rename_i l last hlookup
    split_ifs at h with hdir
    split at h
    · rename_i n
      split_ifs at h with hnew
      exact ⟨l, n, _, hnew, hlookup, (Except.ok.inj h).symm⟩
    · exact nomatch h

theorem mkdir_exists (h : mkdir allow cwd t path = .error .eexist) :
    path ≠ [] ∧ ∃ l last, lookupParent t cwd path = .ok (l, last) ∧ t.isDirectory l = true ∧
      last.found t l = true := by
  unfold mkdir at h
  split_ifs at h with hpath hallow
  · exact nomatch h
  · exact nomatch h
  refine ⟨hpath, ?_⟩
  split at h
  · rename_i e hlookup
    rcases lookupParent_error hlookup with rfl | rfl <;> exact nomatch h
  · rename_i l last hlookup
    split_ifs at h with hdir
    · refine ⟨l, last, hlookup, hdir, ?_⟩
      split at h
      · rename_i n
        split_ifs at h with hnew
        exact Option.isSome_iff_ne_none.mpr hnew
      · rename_i hno
        cases last with
        | here => rfl
        | up => rfl
        | name n => exact absurd rfl (hno n)
    · exact nomatch h

/-- What `mkdir` finds is a directory, or `lexical` gives a file. -/
theorem stat_of_exists (h : mkdir allow cwd t path = .error .eexist) :
    (∃ b, t.find (lexical cwd path) = some (.file b)) ∧ ¬ LeadsToDirectory t cwd path ∧
        stat t cwd path ≠ .error .enoent ∨
      (∀ b, t.find (lexical cwd path) ≠ some (.file b)) ∧ LeadsToDirectory t cwd path := by
  obtain ⟨hpath, l, last, hlookup, hl, hfound⟩ := mkdir_exists h
  rw [lexical_eq hlookup]
  by_cases hdir : t.isDirectory (last.follow l) = true
  · right
    refine ⟨?_, _, stat_directory hpath hlookup hl hdir, hdir⟩
    intro b hfile
    exact nomatch (Tree.isDirectory_iff.mp hdir).symm.trans hfile
  · left
    cases last with
    | here => exact absurd hl hdir
    | up => exact absurd (isDirectory_dropLast hl) hdir
    | name n =>
        obtain ⟨e, he⟩ := Option.isSome_iff_exists.mp hfound
        cases e with
        | directory => exact absurd (Tree.isDirectory_iff.mpr he) hdir
        | file b =>
            refine ⟨⟨b, he⟩, ?_⟩
            obtain ⟨hstat, -⟩ := stat_file hpath hlookup hl he
            constructor
            · rintro ⟨l', hl', hdir'⟩
              rcases hstat with hstat | hstat
              · have hsame : l ++ [n] = l' := Except.ok.inj (hstat.symm.trans hl')
                rw [← hsame] at hdir'
                exact hdir hdir'
              · exact nomatch hstat.symm.trans hl'
            · rcases hstat with hstat | hstat <;> rw [hstat] <;> exact nofun

/-- The first missing directory does not exist already. -/
theorem mkdir_of_missing (h : stat t cwd path = .error .enoent) :
    mkdir allow cwd t path ≠ .error .eexist := by
  intro hexists
  rcases stat_of_exists hexists with ⟨-, -, hne⟩ | ⟨-, l, hok, -⟩
  · exact hne h
  · exact nomatch h.symm.trans hok

theorem leadsToDirectory_of_mkdir (h : mkdir allow cwd t path = .ok t') :
    LeadsToDirectory t' cwd path := by
  obtain ⟨hpath, l, n, hdir, hnew, hlookup, rfl⟩ := mkdir_ok h
  have hinc := Tree.includes_make hdir hnew
  have hl := isDirectory_mono hinc (Tree.isDirectory_iff.mpr hdir)
  have hmade : (t.make l n hdir hnew).isDirectory (l ++ [n]) = true := by
    rw [Tree.isDirectory_iff, Tree.find_make, if_pos rfl]
  exact ⟨_, stat_directory hpath (lookupParent_mono hinc hlookup) hl hmade, hmade⟩

/-! ## What `workload_delete` does -/

/-- The path names location `L` in every tree that includes `t₀`. -/
def Denotes (cwd : Location) (t₀ : Tree Name β) (path : Text) (L : Location) : Prop :=
  path ≠ [] ∧ ∃ l n, L = l ++ [n] ∧
    ∀ t, Tree.Includes t₀ t → t.isDirectory l = true → lookupParent t cwd path = .ok (l, .name n)

theorem denotes_of_mkdir (h : mkdir allow cwd t₀ path = .ok t) : Denotes cwd t₀ path (lexical cwd path) := by
  obtain ⟨hpath, l, n, -, -, hlookup, -⟩ := mkdir_ok h
  exact ⟨hpath, l, n, lexical_eq hlookup, fun t hinc _ => lookupParent_mono hinc hlookup⟩

theorem component_name (c : Name) : component c.text = .name c := by
  rw [component, dif_pos c.proper]

theorem Name.no_slash (c : Name) : ∀ d ∈ c.text, d ≠ '/' := by
  have hproper := c.proper
  unfold properName at hproper
  rw [Bool.and_eq_true, List.all_eq_true] at hproper
  intro d hd
  simpa using hproper.2 d hd

theorem Name.ne_nil (c : Name) : c.text ≠ [] := by
  intro hnil
  have hproper := c.proper
  rw [hnil] at hproper
  exact nomatch hproper

theorem stripSlashes_child (path : Text) (c : Name) :
    stripSlashes (path ++ '/' :: c.text) = path ++ '/' :: c.text := by
  obtain ⟨w, d, hw⟩ := List.eq_nil_or_concat c.text |>.resolve_left c.ne_nil
  rw [List.concat_eq_append] at hw
  have hd : d ≠ '/' := c.no_slash d (by simp [hw])
  rw [stripSlashes, hw, ← List.cons_append, ← List.append_assoc, List.reverse_append, List.reverse_singleton,
    List.singleton_append, List.dropWhile_cons_of_neg (by simpa using hd), List.reverse_cons,
    List.reverse_reverse]

/-- The path that `workload_delete` composes for an entry of a directory. -/
theorem Denotes.child {L : Location} (h : Denotes cwd t₀ path L) (c : Name) :
    Denotes cwd t₀ (path ++ '/' :: c.text) (L ++ [c]) := by
  obtain ⟨hpath, l, n, rfl, hlookup⟩ := h
  refine ⟨by simp, l ++ [n], c, rfl, ?_⟩
  intro t hinc hdir
  have hl : t.isDirectory l = true := by
    have := isDirectory_dropLast hdir
    rwa [List.dropLast_concat] at this
  have hstat := stat_directory hpath (hlookup t hinc hl) hl hdir
  rw [stat, if_neg hpath] at hstat
  have hstart : startOf cwd (path ++ '/' :: c.text) = startOf cwd path := by
    cases path with
    | nil => exact absurd rfl hpath
    | cons d path => rfl
  unfold lookupParent
  dsimp only
  rw [stripSlashes_child, splitSlash_append, splitSlash_word c.no_slash, List.dropLast_concat, hstart, hstat,
    List.getLastD_concat, component_name]
  rfl

/-- A missing entry is no failure. -/
theorem deleteLoop_missing {L : Location} (hden : Denotes cwd t₀ path L) (hinc : Tree.Includes t₀ t)
    (hparent : t.isDirectory L.dropLast = true) (hL : t.find L = none) (n : Nat) :
    (deleteLoop cwd n path t).2 = t := by
  cases n with
  | zero => rfl
  | succ n =>
      obtain ⟨hpath, l, name, rfl, hlookup⟩ := hden
      rw [List.dropLast_concat] at hparent
      obtain ⟨k, hstat, -⟩ := stat_eq hpath (hlookup t hinc hparent)
      have hfound : ¬ (Component.name name).found t l = true := by
        rw [Component.found, hL]
        exact nofun
      rw [walk_cons, if_pos hparent, if_neg hfound] at hstat
      rw [deleteLoop, hstat]

/-- The loop over the entries of a directory, when each call takes out its entry. -/
theorem deleteEntries_eq {L : Location} {n : Nat} (hden : Denotes cwd t₀ path L) (hnew : t₀.find L = none)
    (hone : ∀ c e t₁, Tree.Emptied t₀ t t₁ L → t₁.find (L ++ [c]) = some e →
      (deleteLoop cwd n (path ++ '/' :: c.text) t₁).2 = t₁.prune (L ++ [c]))
    (names : List Name) {t₁ : Tree Name β} (h : Tree.Emptied t₀ t t₁ L) :
    Tree.Emptied t₀ t (names.foldl (fun t c => (deleteLoop cwd n (path ++ '/' :: c.text) t).2) t₁) L ∧
      ∀ c, c ∈ names ∨ t₁.find (L ++ [c]) = none →
        (names.foldl (fun t c => (deleteLoop cwd n (path ++ '/' :: c.text) t).2) t₁).find
          (L ++ [c]) = none := by
  induction names generalizing t₁ with
  | nil => exact ⟨h, fun c hc => hc.resolve_left List.not_mem_nil⟩
  | cons d names ih =>
      rw [List.foldl_cons]
      cases hd : t₁.find (L ++ [d]) with
      | none =>
          have hdir : t₁.isDirectory (L ++ [d]).dropLast = true := by
            rw [List.dropLast_concat, Tree.isDirectory_iff]
            exact h.directory
          rw [deleteLoop_missing (hden.child d) h.base hdir hd]
          obtain ⟨hemptied, hgone⟩ := ih h
          refine ⟨hemptied, fun c hc => hgone c ?_⟩
          rcases hc with hc | hc
          · rcases List.mem_cons.mp hc with rfl | hc
            · exact Or.inr hd
            · exact Or.inl hc
          · exact Or.inr hc
      | some e =>
          rw [hone d e t₁ h hd]
          obtain ⟨hemptied, hgone⟩ := ih (h.prune (a := d) hnew)
          refine ⟨hemptied, fun c hc => hgone c ?_⟩
          rw [Tree.find_prune (by simp)]
          rcases hc with hc | hc
          · rcases List.mem_cons.mp hc with rfl | hc
            · exact Or.inr (if_pos (List.prefix_refl _))
            · exact Or.inl hc
          · right
            rw [hc, ite_self]

/-- **`workload_delete` of a new entry takes out the entry and everything below**, whatever the fuel, as long
    as no entry is deeper. -/
theorem deleteLoop_eq {L : Location} {e : Entry β} (hden : Denotes cwd t₀ path L) (hinc : Tree.Includes t₀ t)
    (hL : t.find L = some e) (hnew : t₀.find L = none)
    (hpath : e = .directory ∨ stripSlashes path = path) {n : Nat}
    (hdeep : ∀ k e, t.find k = some e → L <+: k → k.length < L.length + n) :
    deleteLoop cwd n path t = (0, t.prune L) := by
  induction n generalizing path t L e with
  | zero => exact absurd (hdeep L e hL (List.prefix_refl L)) (Nat.lt_irrefl _)
  | succ n ih =>
      have hne : L ≠ [] := by
        rintro rfl
        exact nomatch hnew.symm.trans (Tree.find_nil t₀)
      have hparent := Tree.isDirectory_iff.mpr (Tree.find_dropLast hne hL)
      obtain ⟨hnil, l, name, rfl, hlookup⟩ := id hden
      rw [List.dropLast_concat] at hparent
      have hlast := hlookup t hinc hparent
      cases e with
      | file b =>
          have hstrip := hpath.resolve_left nofun
          obtain ⟨-, hstat⟩ := stat_file hnil hlast hparent hL
          have hfile : ¬ t.isDirectory (l ++ [name]) = true := by
            rw [Tree.isDirectory_iff, hL]
            exact nofun
          rw [deleteLoop, hstat hstrip]
          dsimp only
          rw [if_neg hfile, remove, hlast]
          dsimp only
          rw [hL]
          exact if_pos hstrip
      | directory =>
          have hdir := Tree.isDirectory_iff.mpr hL
          have hone : ∀ c e t₁, Tree.Emptied t₀ t t₁ (l ++ [name]) → t₁.find (l ++ [name] ++ [c]) = some e →
              (deleteLoop cwd n (path ++ '/' :: c.text) t₁).2 = t₁.prune (l ++ [name] ++ [c]) := by
            intro c e t₁ hemptied he
            have hnew' : t₀.find (l ++ [name] ++ [c]) = none := by
              cases hfind : t₀.find (l ++ [name] ++ [c]) with
              | none => rfl
              | some e => exact absurd (List.prefix_append _ _) (Tree.not_prefix_of_find hnew hfind)
            rw [ih (hden.child c) hemptied.base he hnew' (Or.inr (stripSlashes_child path c))]
            intro k e hk hin
            have hlength := hdeep k e (hemptied.fewer k e hk) ((List.prefix_append _ _).trans hin)
            simp only [List.length_append, List.length_singleton] at hlength ⊢
            omega
          obtain ⟨hemptied, hgone⟩ := deleteEntries_eq hden hnew hone (t.children (l ++ [name]))
            (Tree.Emptied.refl hinc hL)
          rw [deleteLoop, stat_directory hnil hlast hparent hdir]
          dsimp only [Component.follow]
          rw [if_pos hdir]
          generalize (t.children (l ++ [name])).foldl _ t = t₂ at hemptied hgone ⊢
          have hempty : t₂.children (l ++ [name]) = [] := by
            refine List.eq_nil_iff_forall_not_mem.mpr fun c hc => ?_
            obtain ⟨e, he⟩ := Option.isSome_iff_exists.mp (Tree.mem_children.mp hc)
            have hmem : c ∈ t.children (l ++ [name]) := by
              rw [Tree.mem_children, hemptied.fewer _ _ he]
              rfl
            exact nomatch (hgone c (Or.inl hmem)).symm.trans he
          have hparent' := Tree.find_dropLast hne hemptied.directory
          rw [List.dropLast_concat, ← Tree.isDirectory_iff] at hparent'
          rw [remove, hlookup t₂ hemptied.base hparent']
          dsimp only
          rw [hemptied.directory]
          dsimp only
          rw [hempty, if_pos List.isEmpty_nil, hemptied.rest]

/-- `workload_delete` of a directory that was made. -/
theorem workloadDelete_eq {t₁ : Tree Name β} (hmade : mkdir allow cwd t₀ path = .ok t₁)
    (hinc : Tree.Includes t₁ t) :
    (workloadDelete cwd t path).2 = t.prune (lexical cwd path) ∧ t₀.find (lexical cwd path) = none := by
  have hden := denotes_of_mkdir hmade
  obtain ⟨-, l, n, hdir, hnew, hlookup, rfl⟩ := mkdir_ok hmade
  have hL : lexical cwd path = l ++ [n] := lexical_eq hlookup
  rw [hL] at hden ⊢
  have hfind : t.find (l ++ [n]) = some .directory := by
    refine hinc _ _ ?_
    rw [Tree.find_make, if_pos rfl]
  refine ⟨?_, hnew⟩
  rw [workloadDelete, deleteLoop_eq hden ((Tree.includes_make hdir hnew).trans hinc) hfind hnew (Or.inl rfl)]
  intro k e hk _
  have hdeep := Tree.length_le_depth hk
  omega

/-! ## What `workload_mkdir_recursive` does -/

/-- The leading parts of a path that `stat` does not find, the shortest first; `none` where one is not a
    directory. -/
def missingPathnames (cwd : Location) (t : Tree Name β) : Nat → Text → Option (List Text)
  | 0, _ => none
  | n + 1, path =>
      match stat t cwd path with
      | .ok l => if t.isDirectory l then some [] else none
      | .error .enoent =>
          if path = [] then none
          else
            match parentPathname path with
            | some parent => (missingPathnames cwd t n parent).map (· ++ [path])
            | none => some [path]
      | .error _ => none

/-- `mkdir` of one path after the other. -/
def makeAll (allow : Text → Bool) (cwd : Location) :
    List Text → Tree Name β × Option Text → Int × Tree Name β × Option Text
  | [], (t, first) => (0, t, first)
  | q :: qs, (t, first) =>
      match mkdir allow cwd t q with
      | .error .eexist => makeAll allow cwd qs (t, first)
      | .ok t => makeAll allow cwd qs (t, some (first.getD q))
      | .error _ => (-1, t, first)

theorem makeAll_append (qs : List Text) (q : Text) (s : Tree Name β × Option Text) :
    makeAll allow cwd (qs ++ [q]) s =
      if (makeAll allow cwd qs s).1 ≠ 0 then makeAll allow cwd qs s
      else makeAll allow cwd [q] (makeAll allow cwd qs s).2 := by
  induction qs generalizing s with
  | nil => rfl
  | cons p qs ih =>
      rw [List.cons_append, makeAll, makeAll]
      split
      · exact ih _
      · exact ih _
      · rfl

theorem makeAll_singleton (q : Text) (s : Tree Name β × Option Text) :
    makeAll allow cwd [q] s =
      match mkdir allow cwd s.1 q with
      | .error .eexist => (0, s.1, s.2)
      | .ok t => (0, t, some (s.2.getD q))
      | .error _ => (-1, s.1, s.2) := by
  obtain ⟨t, first⟩ := s
  rw [makeAll]
  cases mkdir allow cwd t q with
  | ok t' => rfl
  | error e => cases e <;> rfl

theorem mkdirRecursive_eq (n : Nat) (path : Text) (first : Option Text) :
    mkdirRecursive allow cwd n path (t, first) =
      match missingPathnames cwd t n path with
      | some qs => makeAll allow cwd qs (t, first)
      | none => (-1, t, first) := by
  induction n generalizing path with
  | zero => rfl
  | succ n ih =>
      rw [mkdirRecursive, missingPathnames]
      cases stat t cwd path with
      | ok l =>
          dsimp only
          split_ifs <;> rfl
      | error e =>
          cases e with
          | enotdir => rfl
          | eexist => rfl
          | other => rfl
          | enoent =>
              dsimp only
              by_cases hpath : path = []
              · rw [if_pos hpath, if_pos hpath]
              rw [if_neg hpath, if_neg hpath]
              cases parentPathname path with
              | none =>
                  dsimp only
                  rw [if_neg (not_not_intro rfl)]
                  exact (makeAll_singleton path (t, first)).symm
              | some parent =>
                  simp only [ih parent]
                  cases missingPathnames cwd t n parent with
                  | none => rfl
                  | some qs =>
                      rw [Option.map_some]
                      dsimp only
                      rw [makeAll_append]
                      split_ifs
                      · rfl
                      · exact (makeAll_singleton path (makeAll allow cwd qs (t, first)).2).symm

/-- What is made is found. -/
theorem mkdir_makes (h : mkdir allow cwd t path = .ok t') :
    Tree.Includes t t' ∧ t.find (lexical cwd path) = none ∧ t'.find (lexical cwd path) = some .directory := by
  obtain ⟨-, l, n, hdir, hnew, hlookup, rfl⟩ := mkdir_ok h
  rw [lexical_eq hlookup]
  refine ⟨Tree.includes_make hdir hnew, hnew, ?_⟩
  rw [Component.follow, Tree.find_make, if_pos rfl]

theorem makeAll_result (allow : Text → Bool) (cwd : Location) (t : Tree Name β) (qs : List Text)
    (q : Text) :
    Tree.Includes t (makeAll allow cwd qs (t, some q)).2.1 ∧
      (makeAll allow cwd qs (t, some q)).2.2 = some q ∧
      ((makeAll allow cwd qs (t, some q)).1 = 0 ∨ (makeAll allow cwd qs (t, some q)).1 = -1) := by
  induction qs generalizing t with
  | nil => exact ⟨fun _ _ h => h, rfl, Or.inl rfl⟩
  | cons p qs ih =>
      rw [makeAll]
      split
      · exact ih t
      · rename_i t₁ hmade
        obtain ⟨hinc, hrest⟩ := ih t₁
        exact ⟨(mkdir_makes hmade).1.trans hinc, hrest⟩
      · exact ⟨fun _ _ h => h, rfl, Or.inr rfl⟩

/-- Of the paths that are made one after the other from a tree on, each new directory lies at `L` or below, up
    to the first failure; and the last path, if it exists, is not a file. -/
def KeepsInside (allow : Text → Bool) (cwd : Location) (L : Location) : Tree Name β → List Text → Prop
  | _, [] => True
  | t, q :: qs =>
      match mkdir allow cwd t q with
      | .ok t => L <+: lexical cwd q ∧ KeepsInside allow cwd L t qs
      | .error .eexist =>
          (qs = [] → ∀ b, t.find (lexical cwd q) ≠ some (.file b)) ∧ KeepsInside allow cwd L t qs
      | .error _ => True

theorem grown_of_mkdir {L : Location} (hmade : mkdir allow cwd t path = .ok t') (h : Tree.Grown t₀ t L)
    (hin : L <+: lexical cwd path) : Tree.Grown t₀ t' L := by
  obtain ⟨-, l, n, hdir, hnew, hlookup, rfl⟩ := mkdir_ok hmade
  rw [lexical_eq hlookup] at hin
  exact h.make hdir hnew hin

theorem makeAll_inside {L : Location} {qs : List Text} {q : Text} (h : KeepsInside allow cwd L t qs)
    (hgrown : Tree.Grown t₀ t L) :
    Tree.Grown t₀ (makeAll allow cwd qs (t, some q)).2.1 L ∧
      ((makeAll allow cwd qs (t, some q)).1 = 0 →
        ∀ p, qs.getLast? = some p → LeadsToDirectory (makeAll allow cwd qs (t, some q)).2.1 cwd p) := by
  induction qs generalizing t with
  | nil => exact ⟨hgrown, fun _ _ hp => nomatch hp⟩
  | cons p qs ih =>
      rw [KeepsInside] at h
      rw [makeAll]
      cases hmkdir : mkdir allow cwd t p with
      | ok t₁ =>
          rw [hmkdir] at h
          obtain ⟨hgrown', hlast⟩ := ih h.2 (grown_of_mkdir hmkdir hgrown h.1)
          refine ⟨hgrown', fun hzero r hr => ?_⟩
          cases qs with
          | nil =>
              obtain rfl := Option.some.inj hr
              exact leadsToDirectory_of_mkdir hmkdir
          | cons p' qs => exact hlast hzero r hr
      | error e =>
          cases e with
          | eexist =>
              rw [hmkdir] at h
              obtain ⟨hgrown', hlast⟩ := ih h.2 hgrown
              refine ⟨hgrown', fun hzero r hr => ?_⟩
              cases qs with
              | nil =>
                  obtain rfl := Option.some.inj hr
                  rcases stat_of_exists hmkdir with ⟨⟨b, hfile⟩, -⟩ | ⟨-, hdir⟩
                  · exact absurd hfile (h.1 rfl b)
                  · exact hdir
              | cons p' qs => exact hlast hzero r hr
          | enoent => exact ⟨hgrown, fun hzero => nomatch hzero⟩
          | enotdir => exact ⟨hgrown, fun hzero => nomatch hzero⟩
          | other => exact ⟨hgrown, fun hzero => nomatch hzero⟩

theorem makeAll_outside {L : Location} {qs : List Text} {q : Text} (h : ¬ KeepsInside allow cwd L t qs) :
    (∃ k e, ¬ L <+: k ∧ t.find k = none ∧ (makeAll allow cwd qs (t, some q)).2.1.find k = some e) ∨
      (makeAll allow cwd qs (t, some q)).1 = 0 ∧
        ∃ p, qs.getLast? = some p ∧ ¬ LeadsToDirectory (makeAll allow cwd qs (t, some q)).2.1 cwd p := by
  induction qs generalizing t with
  | nil => exact absurd trivial h
  | cons p qs ih =>
      rw [KeepsInside] at h
      rw [makeAll]
      cases hmkdir : mkdir allow cwd t p with
      | ok t₁ =>
          rw [hmkdir] at h
          obtain ⟨hinc, hnew, hmade⟩ := mkdir_makes hmkdir
          dsimp only at h ⊢
          by_cases hin : L <+: lexical cwd p
          · have hrest : ¬ KeepsInside allow cwd L t₁ qs := fun hrest => h ⟨hin, hrest⟩
            rcases ih hrest with ⟨k, e, hout, hk, he⟩ | ⟨hzero, r, hr, hno⟩
            · refine Or.inl ⟨k, e, hout, ?_, he⟩
              cases hold : t.find k with
              | none => rfl
              | some e' => exact nomatch hk.symm.trans (hinc k e' hold)
            · refine Or.inr ⟨hzero, r, ?_, hno⟩
              cases qs with
              | nil => exact nomatch hr
              | cons p' qs => exact hr
          · exact Or.inl ⟨_, _, hin, hnew, (makeAll_result _ _ _ qs q).1 _ _ hmade⟩
      | error e =>
          rw [hmkdir] at h
          cases e with
          | eexist =>
              dsimp only at h ⊢
              cases qs with
              | nil =>
                  right
                  refine ⟨rfl, p, rfl, ?_⟩
                  rcases stat_of_exists hmkdir with ⟨-, hno, -⟩ | ⟨hno, -⟩
                  · exact hno
                  · exact absurd ⟨fun _ => hno, trivial⟩ h
              | cons p' qs => exact ih fun hrest => h ⟨nofun, hrest⟩
          | enoent => exact absurd trivial h
          | enotdir => exact absurd trivial h
          | other => exact absurd trivial h

theorem missingPathnames_spec {n : Nat} {qs : List Text} (h : missingPathnames cwd t n path = some qs) :
    qs = [] ∧ LeadsToDirectory t cwd path ∨
      ∃ q rest, qs = q :: rest ∧ stat t cwd q = .error .enoent ∧ qs.getLast? = some path := by
  induction n generalizing path qs with
  | zero => exact nomatch h
  | succ n ih =>
      rw [missingPathnames] at h
      cases hstat : stat t cwd path with
      | ok l =>
          rw [hstat] at h
          dsimp only at h
          split_ifs at h with hdir
          exact Or.inl ⟨(Option.some.inj h).symm, l, hstat, hdir⟩
      | error e =>
          rw [hstat] at h
          cases e with
          | enotdir => exact nomatch h
          | eexist => exact nomatch h
          | other => exact nomatch h
          | enoent =>
              dsimp only at h
              split_ifs at h with hpath
              right
              cases hparent : parentPathname path with
              | none =>
                  rw [hparent] at h
                  obtain rfl := Option.some.inj h
                  exact ⟨path, [], rfl, hstat, rfl⟩
              | some parent =>
                  rw [hparent] at h
                  obtain ⟨ps, hps, rfl⟩ := Option.map_eq_some_iff.mp h
                  rw [List.getLast?_concat]
                  rcases ih hps with ⟨rfl, -⟩ | ⟨q, rest, rfl, hq, -⟩
                  · exact ⟨path, [], rfl, hstat, rfl⟩
                  · exact ⟨q, rest ++ [path], rfl, hq, rfl⟩

/-! ## Undoing it -/

/-- When `mkdir` makes the first missing part of the path, what it makes for the longer ones stays inside of
    this directory. -/
def Undoable (allow : Text → Bool) (cwd : Location) (t : Tree Name β) (path : Text) : Prop :=
  ∀ q qs t', missingPathnames cwd t (path.length + 1) path = some (q :: qs) → mkdir allow cwd t q = .ok t' →
    KeepsInside allow cwd (lexical cwd q) t' qs

/-- What `workload_mkdir_ex` leaves, over the tree `t` it was called in: after a failure the tree is the same;
    after a success the path is a directory, and deleting the first entry gives the tree back. -/
def Restores (cwd : Location) (t : Tree Name β) (path : Text) : Int × Tree Name β × Option Text → Prop
  | (result, t', entry) =>
      (result = -1 → t' = t) ∧
        (result = 0 → LeadsToDirectory t' cwd path ∧
          match entry with
          | some e => (workloadDelete cwd t' e).2 = t
          | none => t' = t)

def Undone (allow : Text → Bool) (cwd : Location) (t : Tree Name β) (path : Text) : Prop :=
  Restores cwd t path (workloadMkdirEx allow cwd t path)

variable {q : Text} {qs : List Text}

theorem mkdirEx_refused {e : Errno} (hmissing : missingPathnames cwd t (path.length + 1) path = some (q :: qs))
    (hmkdir : mkdir allow cwd t q = .error e) : workloadMkdirEx allow cwd t path = (-1, t, none) := by
  have hstat : stat t cwd q = .error .enoent := by
    rcases missingPathnames_spec hmissing with ⟨hnil, -⟩ | ⟨q', rest, hcons, hstat, -⟩
    · exact nomatch hnil
    · obtain ⟨rfl, -⟩ := List.cons.inj hcons
      exact hstat
  have hne : e ≠ .eexist := by
    rintro rfl
    exact mkdir_of_missing hstat hmkdir
  rw [workloadMkdirEx, mkdirRecursive_eq, hmissing]
  dsimp only
  rw [makeAll, hmkdir]
  cases e with
  | eexist => exact absurd rfl hne
  | enoent => rfl
  | enotdir => rfl
  | other => rfl

theorem mkdirEx_made {t₁ : Tree Name β}
    (hmissing : missingPathnames cwd t (path.length + 1) path = some (q :: qs))
    (hmkdir : mkdir allow cwd t q = .ok t₁) :
    workloadMkdirEx allow cwd t path =
      if (makeAll allow cwd qs (t₁, some q)).1 = -1 then
        (-1, (workloadDelete cwd (makeAll allow cwd qs (t₁, some q)).2.1 q).2, none)
      else makeAll allow cwd qs (t₁, some q) := by
  rw [workloadMkdirEx, mkdirRecursive_eq, hmissing]
  dsimp only
  rw [makeAll, hmkdir]
  dsimp only
  obtain ⟨-, hfirst, -⟩ := makeAll_result allow cwd t₁ qs q
  rw [Option.getD_none]
  split_ifs with hresult
  · rw [hfirst, hresult]
  · rfl

theorem restores_iff_keepsInside {t₁ : Tree Name β}
    (hmissing : missingPathnames cwd t (path.length + 1) path = some (q :: qs))
    (hmkdir : mkdir allow cwd t q = .ok t₁) :
    Undone allow cwd t path ↔ KeepsInside allow cwd (lexical cwd q) t₁ qs := by
  obtain ⟨hinc, hfirst, hresult⟩ := makeAll_result allow cwd t₁ qs q
  obtain ⟨hdelete, hnew⟩ := workloadDelete_eq hmkdir hinc
  have hlast : qs = [] ∧ path = q ∨ qs.getLast? = some path := by
    rcases missingPathnames_spec hmissing with ⟨hnil, -⟩ | ⟨q', rest, hcons, -, hlast⟩
    · exact nomatch hnil
    · cases qs with
      | nil => exact Or.inl ⟨rfl, (Option.some.inj hlast).symm⟩
      | cons p qs => exact Or.inr hlast
  rw [Undone, mkdirEx_made hmissing hmkdir]
  constructor
  · intro hrestores
    by_contra hkeeps
    have hback : (makeAll allow cwd qs (t₁, some q)).2.1.prune (lexical cwd q) = t := by
      rw [← hdelete]
      rcases hresult with hzero | hneg
      · rw [hzero, if_neg (by decide)] at hrestores
        have hback := (hrestores.2 hzero).2
        rw [hfirst] at hback
        exact hback
      · rw [if_pos hneg] at hrestores
        exact hrestores.1 rfl
    rcases makeAll_outside (q := q) hkeeps with ⟨k, e, hout, hk, he⟩ | ⟨hzero, p, hp, hno⟩
    · -- What was made outside of the first directory is still there.
      have hold : t.find k = some e := by
        have hne : lexical cwd q ≠ [] := by
          intro hnil
          rw [hnil] at hnew
          exact nomatch hnew.symm.trans (Tree.find_nil t)
        rw [← hback, Tree.find_prune hne, if_neg hout]
        exact he
      exact nomatch hk.symm.trans ((mkdir_makes hmkdir).1 k e hold)
    · rw [hzero, if_neg (by decide)] at hrestores
      rcases hlast with ⟨rfl, -⟩ | hlast
      · exact nomatch hp
      · obtain rfl := Option.some.inj (hp.symm.trans hlast)
        exact hno (hrestores.2 hzero).1
  · intro hkeeps
    obtain ⟨hgrown, hend⟩ := makeAll_inside (q := q) hkeeps
      (grown_of_mkdir hmkdir (Tree.Grown.refl t _) (List.prefix_refl _))
    rw [Tree.prune_grown hgrown hnew] at hdelete
    split_ifs with hneg
    · exact ⟨fun _ => hdelete, fun h => nomatch h⟩
    · refine ⟨fun h => absurd h hneg, fun hzero => ⟨?_, ?_⟩⟩
      · rcases hlast with ⟨rfl, rfl⟩ | hlast
        · exact leadsToDirectory_of_mkdir hmkdir
        · exact hend hzero path hlast
      · rw [hfirst]
        exact hdelete

/-- **`workload_mkdir_ex` is undone** exactly when nothing it makes after the first directory lies outside of
    this one, and the path does not end at a file. -/
theorem mkdir_undone_iff (allow : Text → Bool) (cwd : Location) (t : Tree Name β) (path : Text) :
    Undone allow cwd t path ↔ Undoable allow cwd t path := by
  cases hmissing : missingPathnames cwd t (path.length + 1) path with
  | none =>
      have hundone : Undone allow cwd t path := by
        rw [Undone, workloadMkdirEx, mkdirRecursive_eq, hmissing]
        exact ⟨fun _ => rfl, fun h => nomatch h⟩
      exact iff_of_true hundone fun _ _ _ h => nomatch hmissing.symm.trans h
  | some qs =>
      cases qs with
      | nil =>
          have hundone : Undone allow cwd t path := by
            obtain ⟨-, hdir⟩ := (missingPathnames_spec hmissing).resolve_right fun ⟨_, _, h, _⟩ => nomatch h
            rw [Undone, workloadMkdirEx, mkdirRecursive_eq, hmissing]
            exact ⟨fun _ => rfl, fun _ => ⟨hdir, rfl⟩⟩
          exact iff_of_true hundone fun _ _ _ h => nomatch hmissing.symm.trans h
      | cons q qs =>
          cases hmkdir : mkdir allow cwd t q with
          | error e =>
              have hundone : Undone allow cwd t path := by
                rw [Undone, mkdirEx_refused hmissing hmkdir]
                exact ⟨fun _ => rfl, fun h => nomatch h⟩
              refine iff_of_true hundone fun q' qs' t' h hok => ?_
              obtain ⟨rfl, rfl⟩ := List.cons.inj (Option.some.inj (hmissing.symm.trans h))
              exact nomatch hmkdir.symm.trans hok
          | ok t₁ =>
              rw [restores_iff_keepsInside hmissing hmkdir]
              constructor
              · intro hkeeps q' qs' t' h hok
                obtain ⟨rfl, rfl⟩ := List.cons.inj (Option.some.inj (hmissing.symm.trans h))
                obtain rfl := Except.ok.inj (hmkdir.symm.trans hok)
                exact hkeeps
              · intro hundoable
                exact hundoable q qs t₁ hmissing hmkdir

/-- In an empty file system a directory `a\b` of the root stays behind. -/
theorem mkdir_leaves_behind :
    ¬ Undone (fun _ => true) [] (Tree.empty : Tree Name Unit) "/a\\b".toList := by
  have hzero : (workloadMkdirEx (fun _ => true) [] (Tree.empty : Tree Name Unit) "/a\\b".toList).1 = 0 := by
    decide +kernel
  have hfirst : (workloadMkdirEx (fun _ => true) []
      (Tree.empty : Tree Name Unit) "/a\\b".toList).2.2 = some "/a".toList := by
    decide +kernel
  have hentries : (workloadDelete [] (workloadMkdirEx (fun _ => true) []
      (Tree.empty : Tree Name Unit) "/a\\b".toList).2.1 "/a".toList).2.entries.length = 1 := by
    decide +kernel
  intro h
  rw [Undone, show workloadMkdirEx _ _ _ _ = (0, _, some "/a".toList) from
    Prod.ext hzero (Prod.ext rfl hfirst)] at h
  exact nomatch hentries.symm.trans (congrArg (fun t => t.entries.length) (h.2 rfl).2)

/-! ## Paths that are always undone -/

theorem separatorOffset_spec {o k : Nat} (h : separatorOffset path o = some k) :
    0 < k ∧ k ≤ o ∧ isPathSep (path.getD k '\x00') = true := by
  induction o with
  | zero => exact nomatch h
  | succ o ih =>
      rw [separatorOffset] at h
      split_ifs at h with hsep
      · obtain rfl := Option.some.inj h
        exact ⟨Nat.succ_pos o, Nat.le_refl _, hsep⟩
      · obtain ⟨hpos, hle, hk⟩ := ih h
        exact ⟨hpos, Nat.le_succ_of_le hle, hk⟩

theorem tailOffset_le (path : Text) (o : Nat) : tailOffset path o ≤ o := by
  induction o with
  | zero => exact Nat.le_refl 0
  | succ o ih =>
      rw [tailOffset]
      split_ifs
      · exact Nat.le_succ_of_le ih
      · exact Nat.le_refl _

/-- The parent is what stands before a separator. -/
theorem parentPathname_spec {parent : Text} (h : parentPathname path = some parent) :
    parent ≠ [] ∧ ∃ c rest, path = parent ++ c :: rest ∧ isPathSep c = true := by
  obtain ⟨k, hk, rfl⟩ := Option.map_eq_some_iff.mp h
  obtain ⟨hpos, hle, hsep⟩ := separatorOffset_spec hk
  have hlength : k < path.length := by
    have htail := tailOffset_le path (path.length - 1)
    omega
  rw [List.getD_eq_getElem?_getD, List.getElem?_eq_getElem hlength, Option.getD_some] at hsep
  refine ⟨?_, path[k], path.drop (k + 1), ?_, hsep⟩
  · intro hnil
    have hzero := congrArg List.length hnil
    rw [List.length_take, List.length_nil] at hzero
    omega
  · rw [List.cons_getElem_drop_succ, List.take_append_drop]

/-- Without a backslash and without `..`. -/
def Plain (path : Text) : Prop := '\\' ∉ path ∧ "..".toList ∉ splitSlash path

theorem component_ne_up {w : Text} (hw : w ≠ "..".toList) : component w ≠ .up := by
  unfold component
  rw [if_neg hw]
  split_ifs <;> exact nofun

/-- Without `..`, a lookup stays below the location where it starts. -/
theorem foldl_follow_prefix (words : List Text) (hwords : "..".toList ∉ words) (l : Location) :
    l <+: (words.map component).foldl Component.follow l := by
  induction words generalizing l with
  | nil => exact List.prefix_refl l
  | cons w words ih =>
      rw [List.mem_cons, not_or] at hwords
      obtain ⟨hw, hrest⟩ := hwords
      rw [List.map_cons, List.foldl_cons]
      refine List.IsPrefix.trans ?_ (ih hrest _)
      cases hc : component w with
      | here => exact List.prefix_refl l
      | up => exact absurd hc (component_ne_up (Ne.symm hw))
      | name n => exact List.prefix_append l [n]

theorem Plain.parent {parent : Text} (cwd : Location) (h : Plain path)
    (hparent : parentPathname path = some parent) :
    Plain parent ∧ lexical cwd parent <+: lexical cwd path := by
  obtain ⟨hne, c, rest, hpath, hsep⟩ := parentPathname_spec hparent
  obtain ⟨hback, hup⟩ := h
  have hc : c = '/' := by
    have hmem : c ∈ path := by simp [hpath]
    rw [isPathSep, Bool.or_eq_true, beq_iff_eq, beq_iff_eq] at hsep
    rcases hsep with hsep | hsep
    · exact hsep
    · exact absurd (hsep ▸ hmem) hback
  subst hc
  subst hpath
  rw [splitSlash_append, List.mem_append, not_or] at hup
  refine ⟨⟨fun hmem => hback (List.mem_append_left _ hmem), hup.1⟩, ?_⟩
  have hstart : startOf cwd (parent ++ '/' :: rest) = startOf cwd parent := by
    cases parent with
    | nil => exact absurd rfl hne
    | cons d parent => rfl
  rw [lexical, lexical, splitSlash_append, List.map_append, List.foldl_append, hstart]
  exact foldl_follow_prefix _ hup.2 _

/-- The missing parts of a plain path lie one below the other. -/
theorem missingPathnames_chain {n : Nat} (h : Plain path) (hmissing : missingPathnames cwd t n path = some qs) :
    qs.IsChain fun p q => lexical cwd p <+: lexical cwd q := by
  induction n generalizing path qs with
  | zero => exact nomatch hmissing
  | succ n ih =>
      rw [missingPathnames] at hmissing
      split at hmissing
      · split_ifs at hmissing
        obtain rfl := Option.some.inj hmissing
        exact List.IsChain.nil
      · split_ifs at hmissing
        split at hmissing
        · rename_i parent hparent
          obtain ⟨ps, hps, rfl⟩ := Option.map_eq_some_iff.mp hmissing
          obtain ⟨hplain, hbelow⟩ := h.parent cwd hparent
          refine List.isChain_append.mpr ⟨ih hplain hps, List.IsChain.singleton path, ?_⟩
          intro p hp q hq
          obtain rfl := Option.some.inj hq
          rcases missingPathnames_spec hps with ⟨rfl, -⟩ | ⟨q', rest, -, -, hlast⟩
          · exact nomatch hp
          · obtain rfl := Option.some.inj (hlast.symm.trans hp)
            exact hbelow
        · obtain rfl := Option.some.inj hmissing
          exact List.IsChain.singleton path
      · exact nomatch hmissing

/-- At `L` and below there are only directories. -/
def OnlyDirectories (t : Tree Name β) (L : Location) : Prop := ∀ k b, L <+: k → t.find k ≠ some (.file b)

theorem OnlyDirectories.mkdir {L : Location} (h : OnlyDirectories t L) (hmade : mkdir allow cwd t path = .ok t') :
    OnlyDirectories t' L := by
  obtain ⟨-, l, n, hdir, hnew, -, rfl⟩ := mkdir_ok hmade
  intro k b hk
  rw [Tree.find_make]
  split_ifs
  · exact nofun
  · exact h k b hk

theorem keepsInside_of_chain {L : Location} (honly : OnlyDirectories t L) (hchain : (q :: qs).IsChain
    fun p q => lexical cwd p <+: lexical cwd q) (hq : L <+: lexical cwd q) :
    KeepsInside allow cwd L t qs := by
  induction qs generalizing t q with
  | nil => trivial
  | cons p qs ih =>
      obtain ⟨hqp, hchain⟩ := List.isChain_cons_cons.mp hchain
      have hp : L <+: lexical cwd p := hq.trans hqp
      rw [KeepsInside]
      split
      · rename_i t' hmade
        exact ⟨hp, ih (honly.mkdir hmade) hchain hp⟩
      · exact ⟨fun _ b => honly _ b hp, ih honly hchain hp⟩
      · trivial

theorem undoable_of_plain (h : Plain path) : Undoable allow cwd t path := by
  intro q qs t' hmissing hmade
  refine keepsInside_of_chain ?_ (missingPathnames_chain h hmissing) (List.prefix_refl _)
  obtain ⟨hinc, hnew, hfind⟩ := mkdir_makes hmade
  refine OnlyDirectories.mkdir ?_ hmade
  intro k b hk hfile
  exact Tree.not_prefix_of_find hnew hfile hk

end Workload.Directories
