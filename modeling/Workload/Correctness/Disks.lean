import Workload.Lib.Firsts
import Workload.Correctness.Reloading

/-!
# `Correctness.Disks` — the chain of disks against the storage section

A disk element is taken when it has a path and its pair of path and name is new. The sample configuration has the
name in a child `<name>` of the element; the loop looks one level deeper (`parseDiskName`), so the pairs it
compares and stores are others than the documented ones. Apart from the choice of the elements the chain is in
order for every document.

* **`disks_as_documented`** — the chain is the documented one behind every round, exactly when the two pairs
  agree on every element that is new.
-/

namespace Workload

open Firsts Intrusive Trace

/-! ## Keys -/

/-- The path and the name an element stands for: its child `name` if there is a text in it, else the base name of
    the path. Then the path is the one `workload_basename` leaves, without the separators at its end. -/
def documentedName (node : Node) (path : Text) : Text × Text :=
  let name := workloadXmlTagData (workloadXmlSubNodeEx node "name".toList)
  if name = [] then workloadBasename path else (path, name)

/-- The pair of an element with a path. -/
def diskKey (named : Node → Text → Text × Text) (node : Node) : Option (Text × Text) :=
  let path := workloadXmlTagData (workloadXmlSubNodeEx node "path".toList)
  if path = [] then none else some (named node path)

/-- What a disk shows of its element. -/
structure DiskEntry where
  key : Option (Text × Text)
  createPath : Bool
  fakeoffDelay : Int
  deriving DecidableEq

/-- The entry of an element. -/
def nodeEntry (named : Node → Text → Text × Text) (node : Node) : DiskEntry where
  key := diskKey named node
  createPath :=
    workloadParseBooleanString
      (workloadXmlTagAttrValue (workloadXmlSubNodeEx node "path".toList) "create".toList) 0 != 0
  fakeoffDelay := parseFakeoff node

/-- The entry of a disk. -/
def Disk.entry (disk : Disk) : DiskEntry := ⟨some (disk.path, disk.name), disk.createPath, disk.fakeoffDelay⟩

/-- The entries of the chain. -/
def State.entries (s : State) : List DiskEntry := s.diskHead.map fun d => (s.disks d).entry

/-- The entries of the elements that are taken when `named` gives the pairs. -/
def takenEntries (named : Node → Text → Text × Text) (nodes : List Node) : List DiskEntry :=
  (firsts (diskKey named) nodes).map (nodeEntry named)

theorem takenEntries_keys (named : Node → Text → Text × Text) (nodes : List Node) :
    (takenEntries named nodes).map DiskEntry.key = (firsts (diskKey named) nodes).map (diskKey named) := by
  unfold takenEntries
  rw [List.map_map]
  rfl

/-! ## Rounds -/

/-- The chain behind the elements `nodes`. -/
structure DisksTaken (nodes : List Node) (s : State) : Prop where
  entries : s.entries = takenEntries parseDiskName nodes
  nodup : s.diskHead.Nodup
  allocated : ∀ d ∈ s.diskHead, d < s.nextDisk
  id : ∀ i d, s.diskHead[i]? = some d → (s.disks d).id = i + 1

theorem parseDiskName_ne_nil (node : Node) {path : Text} (hpath : path ≠ []) :
    (parseDiskName node path).2 ≠ [] := by
  unfold parseDiskName
  dsimp only
  split_ifs with hname
  · unfold workloadBasename
    rw [if_neg hpath]
    dsimp only
    split_ifs with hdrop
    · exact List.cons_ne_nil _ _
    · exact hdrop
  · exact hname

/-- The duplicate check looks for the pair among those of the chain. -/
theorem duplicate_iff {nodes : List Node} {s : State} (h : DisksTaken nodes s) (path name : Text) :
    (s.diskHead.any fun d => (s.disks d).path == path && (s.disks d).name == name) = true ↔
      some (path, name) ∈ (firsts (diskKey parseDiskName) nodes).map (diskKey parseDiskName) := by
  rw [← takenEntries_keys, ← h.entries, State.entries, List.map_map, List.any_eq_true, List.mem_map]
  refine exists_congr fun d => and_congr_right fun _ => ?_
  rw [Bool.and_eq_true, beq_iff_eq, beq_iff_eq]
  constructor
  · rintro ⟨rfl, rfl⟩
    rfl
  · intro hpair
    exact Prod.mk.inj (Option.some.inj hpair)

/-- A skipped element leaves the chain as it is. -/
theorem DisksTaken.skip {nodes : List Node} {node : Node} {s : State} (h : DisksTaken nodes s)
    (hold : Old (diskKey parseDiskName) nodes node) (useFakeoff : Bool) :
    DisksTaken (nodes ++ [node]) { s with useFakeoff := useFakeoff } := by
  refine ⟨?_, h.nodup, h.allocated, h.id⟩
  unfold takenEntries
  rw [firsts_concat_of_old hold]
  exact h.entries

/-- A new disk at the tail of the chain. -/
theorem DisksTaken.add {nodes : List Node} {node : Node} {s : State} (h : DisksTaken nodes s)
    (hnew : ¬ Old (diskKey parseDiskName) nodes node) {disk : Disk}
    (hentry : disk.entry = nodeEntry parseDiskName node) (hid : disk.id = s.diskHead.length + 1)
    (useFakeoff : Bool) :
    DisksTaken (nodes ++ [node]) { s with
      useFakeoff := useFakeoff
      disks := Function.update s.disks s.nextDisk disk
      nextDisk := s.nextDisk + 1
      diskHead := s.diskHead ++ [s.nextDisk] } := by
  have hfresh : s.nextDisk ∉ s.diskHead := fun hmem => Nat.lt_irrefl _ (h.allocated _ hmem)
  have hold : ∀ d ∈ s.diskHead, Function.update s.disks s.nextDisk disk d = s.disks d := by
    intro d hd
    have hne : d ≠ s.nextDisk := fun heq => hfresh (heq ▸ hd)
    exact Function.update_of_ne hne _ _
  constructor
  · show (s.diskHead ++ [s.nextDisk]).map (fun d => (Function.update s.disks s.nextDisk disk d).entry) = _
    unfold takenEntries
    rw [firsts_concat_of_new hnew, List.map_append, List.map_append, List.map_singleton, List.map_singleton,
      Function.update_self, hentry]
    congr 1
    refine Eq.trans (List.map_congr_left fun d hd => ?_) h.entries
    rw [hold d hd]
  · show (s.diskHead ++ [s.nextDisk]).Nodup
    rw [List.nodup_append_comm, List.singleton_append]
    exact List.nodup_cons.mpr ⟨hfresh, h.nodup⟩
  · show ∀ d ∈ s.diskHead ++ [s.nextDisk], d < s.nextDisk + 1
    intro d hd
    rcases List.mem_append.mp hd with hd | hd
    · exact Nat.lt_succ_of_lt (h.allocated d hd)
    · rw [List.mem_singleton.mp hd]
      exact Nat.lt_succ_self _
  · intro i d hi
    show (Function.update s.disks s.nextDisk disk d).id = i + 1
    rcases getElem?_concat_cases hi with hi | ⟨rfl, rfl⟩
    · rw [hold d (List.mem_of_getElem? hi)]
      exact h.id i d hi
    · rw [Function.update_self]
      exact hid

/-- **A round takes its element** if its pair is new. -/
theorem DisksTaken.addDisk {env : LoadEnv} {nodes : List Node} {s : State} {k : Nat}
    (h : DisksTaken nodes s) (node : Node) (hnew : env.newDisk k = true) (hlen : s.diskHead.length + 2 < 2 ^ 32) :
    DisksTaken (nodes ++ [node]) (addDisk env k (s.diskHead.length + 1) node s).1 ∧
      (addDisk env k (s.diskHead.length + 1) node s).2 =
        (addDisk env k (s.diskHead.length + 1) node s).1.diskHead.length + 1 := by
  obtain ⟨u, hu⟩ : ∃ u, (if parseFakeoff node = -1 then s else { s with useFakeoff := true }) =
      { s with useFakeoff := u } := by
    split_ifs
    · exact ⟨s.useFakeoff, rfl⟩
    · exact ⟨true, rfl⟩
  unfold Workload.addDisk
  dsimp only
  rw [hu]
  by_cases hpath : workloadXmlTagData (workloadXmlSubNodeEx node "path".toList) = []
  · -- an element without a path has no pair
    rw [if_pos hpath]
    exact ⟨h.skip (Or.inl (if_pos hpath)) u, rfl⟩
  · have hkey : diskKey parseDiskName node =
        some (parseDiskName node (workloadXmlTagData (workloadXmlSubNodeEx node "path".toList))) := if_neg hpath
    have hname := parseDiskName_ne_nil node hpath
    rw [if_neg hpath]
    generalize hpair : parseDiskName node (workloadXmlTagData (workloadXmlSubNodeEx node "path".toList)) = pair
      at hkey hname ⊢
    obtain ⟨path, name⟩ := pair
    have hdup := duplicate_iff h path name
    rw [← hkey] at hdup
    by_cases hold : (s.diskHead.any fun d => (s.disks d).path == path && (s.disks d).name == name) = true
    · -- the search finds a disk exactly when the pair was there before
      rw [if_pos hold]
      exact ⟨h.skip (mem_keep_iff.mp (Or.inr (hdup.mp hold))) u, rfl⟩
    · rw [if_neg hold]
      have hkept : ¬ Old (diskKey parseDiskName) nodes node := by
        intro hmem
        rcases mem_keep_iff.mpr hmem with hnone | hmem
        · rw [hkey] at hnone
          exact nomatch hnone
        · exact hold (hdup.mpr hmem)
      unfold workloadNewDisk
      rw [if_pos hnew, if_neg hname]
      simp only [State.modifyDisk, Function.update_self, Function.update_idem]
      refine ⟨h.add hkept ?_ rfl u, ?_⟩
      · unfold Disk.entry nodeEntry
        rw [hkey]
      · rw [List.length_append, List.length_singleton]
        exact Nat.mod_eq_of_lt hlen

/-- **The disk loop** behind the elements `nodes`. -/
theorem DisksTaken.diskLoop {env : LoadEnv} (hnew : ∀ k, env.newDisk k = true) {nodes rest : List Node}
    {k : Nat} {s s' : State} (h : DisksTaken nodes s) (hlen : s.diskHead.length + rest.length + 1 < 2 ^ 32)
    (hloop : diskLoop env rest k (s.diskHead.length + 1) s = .ok s') : DisksTaken (nodes ++ rest) s' := by
  induction rest generalizing nodes k s with
  | nil =>
      obtain rfl := Except.ok.inj hloop
      rw [List.append_nil]
      exact h
  | cons node rest ih =>
      unfold Workload.diskLoop at hloop
      split_ifs at hloop
      rw [List.length_cons] at hlen
      obtain ⟨hround, hid⟩ := h.addDisk node (hnew k) (by omega)
      dsimp only at hloop
      rw [hid] at hloop
      have hgrow : (Workload.addDisk env k (s.diskHead.length + 1) node s).1.diskHead.length ≤
          s.diskHead.length + 1 := by
        obtain ⟨u, hadd⟩ | ⟨u, disk, hadd, -⟩ := addDisk_cases env k (s.diskHead.length + 1) node s
        · rw [hadd]
          exact Nat.le_succ _
        · rw [hadd]
          exact (List.length_append).le
      rw [List.append_cons]
      exact ih hround (by omega) hloop

/-! ## The stage -/

/-- The pointers behind a run of appends. -/
theorem diskChain_isList (links : Links DiskPtr) {ds : List DiskPtr} (h : ds.Nodup) :
    (diskChain links ds).tail = ds.getLast? ∧ IsList (diskChain links ds).links (diskChain links ds).head ds := by
  induction ds using List.reverseRecOn with
  | nil => exact ⟨rfl, isList_nil _⟩
  | append_singleton ds d ih =>
      rw [List.nodup_append_comm, List.singleton_append] at h
      obtain ⟨hd, hnodup⟩ := List.nodup_cons.mp h
      obtain ⟨htail, hlist⟩ := ih hnodup
      have hstep : diskChain links (ds ++ [d]) = (diskChain links ds).addDisk d := List.foldl_concat ..
      have hhead : (if (diskChain links ds).tail = none then some d else (diskChain links ds).head) =
          (ds ++ [d]).head? := by
        rw [htail, hlist.1.head_eq]
        cases ds with
        | nil => rfl
        | cons c ds => simp
      rw [hstep]
      refine ⟨by simp [DiskChain.addDisk], ?_⟩
      unfold DiskChain.addDisk
      rw [hhead, htail]
      exact hlist.pushBack hd

/-- What the stage leaves whichever elements it takes: the links, the ids, the array and the longest name. -/
structure DisksInOrder (s : State) : Prop where
  linked : ∀ links, IsList (diskChain links s.diskHead).links (diskChain links s.diskHead).head s.diskHead
  inverse : ∀ links, ∀ a ∈ s.diskHead, ∀ b ∈ s.diskHead,
    (diskChain links s.diskHead).links.next a = some b ↔ (diskChain links s.diskHead).links.prev b = some a
  id : ∀ i d, s.diskHead[i]? = some d → (s.disks d).id = i + 1
  count : s.diskCount = s.diskHead.length
  disk : ∀ d ∈ s.diskHead, s.disk[(s.disks d).id - 1]? = some d
  name_le : ∀ d ∈ s.diskHead, (s.disks d).name.length ≤ s.maxNameSize
  name_eq : s.maxNameSize = 0 ∨ ∃ d ∈ s.diskHead, (s.disks d).name.length = s.maxNameSize

theorem foldl_max_name (name : DiskPtr → Text) (ds : List DiskPtr) (m : Nat) :
    m ≤ ds.foldl (fun m d => max m (name d).length) m ∧
      (∀ d ∈ ds, (name d).length ≤ ds.foldl (fun m d => max m (name d).length) m) ∧
      (ds.foldl (fun m d => max m (name d).length) m = m ∨
        ∃ d ∈ ds, (name d).length = ds.foldl (fun m d => max m (name d).length) m) := by
  induction ds generalizing m with
  | nil => exact ⟨le_rfl, nofun, Or.inl rfl⟩
  | cons c ds ih =>
      obtain ⟨hle, hall, hex⟩ := ih (max m (name c).length)
      refine ⟨(Nat.le_max_left _ _).trans hle, fun d hd => ?_, ?_⟩
      · rcases List.mem_cons.mp hd with rfl | hd
        · exact (Nat.le_max_right _ _).trans hle
        · exact hall d hd
      · rcases hex with heq | ⟨d, hd, heq⟩
        · rcases Nat.le_total m (name c).length with hm | hm
          · exact Or.inr ⟨c, List.mem_cons_self, by rw [List.foldl_cons, heq, Nat.max_eq_right hm]⟩
          · exact Or.inl (heq.trans (Nat.max_eq_left hm))
        · exact Or.inr ⟨d, List.mem_cons_of_mem c hd, heq⟩

/-- Behind `workload_update_disk_array` the chain is in order. -/
theorem DisksTaken.inOrder {nodes : List Node} {s : State} {ok : Bool} (h : DisksTaken nodes s)
    (hsizes : s.diskSizes = ([], 0, 0)) (hok : (workloadUpdateDiskArray s ok).1 ≠ -1) :
    DisksInOrder (workloadUpdateDiskArray s ok).2 ∧ (workloadUpdateDiskArray s ok).2.entries = s.entries := by
  have hdisk : s.disk = [] := congrArg (·.1) hsizes
  have hcount : s.diskCount = 0 := congrArg (·.2.1) hsizes
  have hname : s.maxNameSize = 0 := congrArg (·.2.2) hsizes
  have hlinked := fun links => (diskChain_isList links h.nodup).2
  have hinverse := fun links => fun a ha b hb => (hlinked links).next_iff_prev (a := a) (b := b) ha hb
  have hplace : ∀ d ∈ s.diskHead, s.diskHead[(s.disks d).id - 1]? = some d := by
    intro d hd
    obtain ⟨i, hi⟩ := List.mem_iff_getElem?.mp hd
    rw [h.id i d hi, Nat.add_sub_cancel]
    exact hi
  unfold workloadUpdateDiskArray at hok ⊢
  rw [show workloadFreeDiskArray s = s from if_pos hdisk] at hok ⊢
  dsimp only at hok ⊢
  rw [hcount, Nat.zero_add, hname] at hok ⊢
  by_cases hempty : s.diskHead.length = 0
  · -- without disks there is no array
    rw [if_pos hempty]
    have hnil := List.eq_nil_of_length_eq_zero hempty
    refine ⟨⟨hlinked, hinverse, h.id, hempty.symm ▸ rfl, fun d hd => ?_, fun d hd => ?_, Or.inl rfl⟩, rfl⟩
    all_goals exact absurd (hnil ▸ hd : d ∈ ([] : List DiskPtr)) List.not_mem_nil
  · rw [if_neg hempty] at hok ⊢
    cases ok with
    | false => exact absurd rfl hok
    | true =>
        obtain ⟨-, hle, heq⟩ := foldl_max_name (fun d => (s.disks d).name) s.diskHead 0
        exact ⟨⟨hlinked, hinverse, h.id, rfl, hplace, hle, heq⟩, rfl⟩

/-- The stages of `__workload_parse_config` up to the disks. -/
def loadChain (env : LoadEnv) (doc : Document) (s : State) : Load := do
  let metaNode := configNode doc ["meta".toList]
  let s ← openMeta env metaNode s
  let s ← dumpMeta s
  let s ← resetMeta s
  loadDisks env doc (parseOperation doc metaNode s)

theorem loadObjects_eq (env : LoadEnv) (doc : Document) (s : State) :
    loadObjects env doc s = loadChain env doc s >>= loadFiles env := by
  unfold loadObjects loadChain
  simp only [bind_assoc]

/-- The loop takes the documented elements, wherever it starts and however far it gets. -/
def TakesDocumented (env : LoadEnv) (doc : Document) : Prop :=
  ∀ s nodes s', nodes <+: diskNodes doc →
    diskLoop env nodes 0 1 (workloadFreeDisk (workloadFreeDiskArray s)) = .ok s' →
    s'.entries = takenEntries documentedName nodes

/-- The loop takes the elements with a new pair, as it reads the pairs. -/
theorem diskLoop_taken {env : LoadEnv} (hnew : ∀ k, env.newDisk k = true) {doc : Document} {nodes : List Node}
    {s s' : State} (hnodes : nodes <+: diskNodes doc)
    (h : diskLoop env nodes 0 1 (workloadFreeDisk (workloadFreeDiskArray s)) = .ok s') :
    DisksTaken nodes s' := by
  have hstart : DisksTaken [] (workloadFreeDisk (workloadFreeDiskArray s)) := by
    constructor
    · rfl
    · exact List.nodup_nil
    · exact nofun
    · exact nofun
  have hlen : nodes.length < 2 ^ 20 := hnodes.length_le.trans_lt (length_diskNodes doc)
  refine hstart.diskLoop hnew ?_ h
  show 0 + nodes.length + 1 < 2 ^ 32
  omega

/-- A loop that gets through gets through every prefix. -/
theorem diskLoop_prefix {env : LoadEnv} {nodes rest : List Node} {k id : Nat} {s s' : State}
    (h : diskLoop env (nodes ++ rest) k id s = .ok s') : ∃ s₁, diskLoop env nodes k id s = .ok s₁ := by
  induction nodes generalizing k id s with
  | nil => exact ⟨s, rfl⟩
  | cons node nodes ih =>
      rw [List.cons_append, diskLoop] at h
      rw [diskLoop]
      split_ifs at h ⊢
      exact ih h

/-- The loop takes the documented elements exactly when the pairs agree. -/
theorem takesDocumented_iff {env : LoadEnv} (hnew : ∀ k, env.newDisk k = true) {doc : Document} {s s' : State}
    (h : diskLoop env (diskNodes doc) 0 1 (workloadFreeDisk (workloadFreeDiskArray s)) = .ok s') :
    TakesDocumented env doc ↔ Agree (diskKey documentedName) (diskKey parseDiskName) (diskNodes doc) := by
  constructor
  · intro htakes
    rw [← map_firsts_eq_iff]
    intro nodes hnodes
    obtain ⟨rest, hrest⟩ := hnodes
    rw [← hrest] at h
    -- the loop over the prefix ends too, and takes both lists
    obtain ⟨s₁, hs₁⟩ := diskLoop_prefix h
    have hprefix : nodes <+: diskNodes doc := ⟨rest, hrest⟩
    rw [← takenEntries_keys, ← takenEntries_keys, ← (diskLoop_taken hnew hprefix hs₁).entries,
      htakes s nodes s₁ hprefix hs₁]
  · intro hagree s₁ nodes s₂ hnodes hloop
    obtain ⟨hsame, hkeys⟩ := (show Agree (diskKey documentedName) (diskKey parseDiskName) nodes from
      fun p node hp => hagree p node (hp.trans hnodes)).firsts_eq
    rw [(diskLoop_taken hnew hnodes hloop).entries]
    unfold takenEntries
    rw [← hsame]
    refine List.map_congr_left fun node hnode => ?_
    unfold nodeEntry
    rw [hkeys node hnode]

/-- **The chain of disks.** It is in order, and it is the documented one exactly when the pairs agree. -/
theorem disks_as_documented (timeStamp : Nat) (directory : Text → Text) (fs : Text → Text → Option Bytes)
    (options : List (Text × Text)) (ops : List Op) {env : LoadEnv} {doc : Document} {s : State}
    (hnew : ∀ k, env.newDisk k = true)
    (h : loadChain env doc (exec Op.run (workloadInit timeStamp directory fs options) ops) = .ok s) :
    DisksInOrder s ∧
      (TakesDocumented env doc ↔ Agree (diskKey documentedName) (diskKey parseDiskName) (diskNodes doc)) ∧
      (Agree (diskKey documentedName) (diskKey parseDiskName) (diskNodes doc) →
        s.entries = takenEntries documentedName (diskNodes doc)) := by
  have htidy := (tidy_exec timeStamp directory fs options ops).disk
  generalize exec Op.run (workloadInit timeStamp directory fs options) ops = s₀ at h htidy
  -- the stages in front of the disks only touch the database and the configuration
  obtain ⟨s₁, hopen, h⟩ := load_bind_ok.mp h
  obtain ⟨s₂, hdump, h⟩ := load_bind_ok.mp h
  obtain ⟨s₃, hreset, hdisks⟩ := load_bind_ok.mp h
  obtain ⟨db₁, rfl⟩ := openMeta_ok hopen
  obtain rfl := (dumpMeta_ok hdump).1
  obtain ⟨db₃, rfl⟩ := resetMeta_ok hreset
  generalize hs₄ : parseOperation doc (configNode doc ["meta".toList]) ((s₀.setDb db₁).setDb db₃) = s₄ at hdisks
  have hsizes : s₄.diskSizes = s₀.diskSizes := by
    rw [← hs₄]
    rfl
  have hdisk : s₄.disk = s₀.disk := congrArg (·.1) hsizes
  have hfree := freeDisks_sizes fun hnil => hsizes.trans (htidy (hdisk.symm.trans hnil))
  obtain ⟨s₅, hloop, hupdate⟩ := load_bind_ok.mp hdisks
  have hiff := takesDocumented_iff hnew hloop
  have htaken := diskLoop_taken hnew List.prefix_rfl hloop
  have hloopSizes : s₅.diskSizes = ([], 0, 0) := by
    have hkeep := diskLoop_sizes env (diskNodes doc) 0 1 (workloadFreeDisk (workloadFreeDiskArray s₄))
    rw [hloop] at hkeep
    exact hkeep.trans hfree
  dsimp only at hupdate
  split_ifs at hupdate with hcode
  obtain rfl := Except.ok.inj hupdate
  obtain ⟨horder, hentries⟩ := htaken.inOrder hloopSizes hcode
  exact ⟨horder, hiff, fun hagree =>
    hentries.trans ((hiff.mpr hagree) s₄ (diskNodes doc) s₅ List.prefix_rfl hloop)⟩

/-- Two disks without names. -/
theorem disks_as_documented_small : ∃ s,
    loadChain (smallEnv [] small_fits none) ⟨smallDocument [], small_fits⟩
      (exec Op.run (workloadInit 0 id (fun _ _ => none) []) []) = .ok s ∧
    DisksInOrder s ∧
      (TakesDocumented (smallEnv [] small_fits none) ⟨smallDocument [], small_fits⟩ ↔
        Agree (diskKey documentedName) (diskKey parseDiskName) (diskNodes ⟨smallDocument [], small_fits⟩)) ∧
      (Agree (diskKey documentedName) (diskKey parseDiskName) (diskNodes ⟨smallDocument [], small_fits⟩) →
        s.entries = takenEntries documentedName (diskNodes ⟨smallDocument [], small_fits⟩)) := by
  have hok := load_eq_of_isOk (x := loadChain (smallEnv [] small_fits none) ⟨smallDocument [], small_fits⟩
    (exec Op.run (workloadInit 0 id (fun _ _ => none) []) [])) (by decide +kernel)
  exact ⟨_, hok, disks_as_documented 0 id (fun _ _ => none) [] [] (fun _ => rfl) hok⟩

/-- One disk with a name, written as in the sample configuration. -/
def namedDocument : Document where
  root := .element "workload".toList [] [] [.element "config".toList [] []
    [.element "storage".toList [] [] [.element "disk".toList [] []
      [.element "path".toList [] "a".toList [], .element "name".toList [] "volume1".toList []]]]]
  small := by decide

/-- **The name of the configuration is not read**: the disk gets the base name of its path. -/
theorem name_is_not_read : ∃ s,
    loadChain (smallEnv [] small_fits none) namedDocument (exec Op.run (workloadInit 0 id (fun _ _ => none) []) []) =
      .ok s ∧
    s.entries = [⟨some ("a".toList, "a".toList), false, -1⟩] ∧
    takenEntries documentedName (diskNodes namedDocument) =
      [⟨some ("a".toList, "volume1".toList), false, -1⟩] ∧
    s.entries ≠ takenEntries documentedName (diskNodes namedDocument) := by
  have hok := load_eq_of_isOk (x := loadChain (smallEnv [] small_fits none) namedDocument
    (exec Op.run (workloadInit 0 id (fun _ _ => none) []) [])) (by decide +kernel)
  have htaken : takenEntries documentedName (diskNodes namedDocument) =
      [⟨some ("a".toList, "volume1".toList), false, -1⟩] := by decide +kernel
  have hentries : (loadChain (smallEnv [] small_fits none) namedDocument
      (exec Op.run (workloadInit 0 id (fun _ _ => none) []) [])).state.entries =
        [⟨some ("a".toList, "a".toList), false, -1⟩] := by decide +kernel
  refine ⟨_, hok, hentries, htaken, ?_⟩
  rw [hentries, htaken]
  decide

end Workload
