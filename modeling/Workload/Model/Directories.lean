import Workload.Lib.Trees
import Workload.Model.Text

/-!
# `Model.Directories` — `workload_mkdir_ex` and `workload_delete` of `io.c`

The file system is a `Tree` of names without symbolic links. `walk` is the lookup of a path: a slash alone
separates, empty words and `.` stay, `..` goes up, everything that is passed has to be a directory. Each
`mkdir` may fail for a reason of its own (`allow`); allocations succeed, and what `workload_delete` opens can
be opened. The file modes are left out: nothing here reads them.
-/

namespace Workload.Directories

open Trees

variable {β : Type*}

/-! ## Lookup -/

/-- A word between slashes that names an entry. -/
def properName (w : Text) : Bool :=
  w != [] && w != ".".toList && w != "..".toList && w.all (· != '/')

structure Name where
  text : Text
  proper : properName text = true
  deriving DecidableEq

abbrev Location := List Name

inductive Component where
  | here
  | up
  | name (n : Name)

def component (w : Text) : Component :=
  if h : properName w = true then .name ⟨w, h⟩
  else if w = "..".toList then .up
  else .here

/-- The words between the slashes. -/
def splitSlash : Text → List Text
  | [] => [[]]
  | c :: t =>
      if c = '/' then [] :: splitSlash t
      else
        match splitSlash t with
        | [] => [[c]]
        | w :: ws => (c :: w) :: ws

inductive Errno where
  | enoent
  | enotdir
  | eexist
  | other
  deriving DecidableEq

/-- Follow components from a location on. -/
def walk (t : Tree Name β) : Location → List Component → Except Errno Location
  | l, [] => .ok l
  | l, c :: cs =>
      if t.isDirectory l then
        match c with
        | .here => walk t l cs
        | .up => walk t l.dropLast cs
        | .name n => if (t.find (l ++ [n])).isSome then walk t (l ++ [n]) cs else .error .enoent
      else .error .enotdir

/-- Where the lookup of a path begins. -/
def startOf (cwd : Location) (path : Text) : Location := if path.head? = some '/' then [] else cwd

/-- `stat`, which is `lstat` without symbolic links: the location found. -/
def stat (t : Tree Name β) (cwd : Location) (path : Text) : Except Errno Location :=
  if path = [] then .error .enoent else walk t (startOf cwd path) ((splitSlash path).map component)

/-- The path without trailing slashes. -/
def stripSlashes (path : Text) : Text := (path.reverse.dropWhile (· == '/')).reverse

/-- The directory a path leads to, and the last component in it. -/
def lookupParent (t : Tree Name β) (cwd : Location) (path : Text) :
    Except Errno (Location × Component) :=
  let words := splitSlash (stripSlashes path)
  (walk t (startOf cwd path) (words.dropLast.map component)).map
    fun l => (l, component (words.getLastD []))

/-! ## System calls -/

/-- `mkdir`. -/
def mkdir (allow : Text → Bool) (cwd : Location) (t : Tree Name β) (path : Text) :
    Except Errno (Tree Name β) :=
  if path = [] then .error .enoent
  else if allow path = false then .error .other
  else
    match lookupParent t cwd path with
    | .error e => .error e
    | .ok (l, last) =>
        if hdir : t.isDirectory l = true then
          match last with
          | .name n =>
              if hnew : t.find (l ++ [n]) = none then
                .ok (t.make l n (Tree.isDirectory_iff.mp hdir) hnew)
              else .error .eexist
          | _ => .error .eexist
        else .error .enotdir

/-- `remove`: an empty directory, or a file whose path ends with its name. -/
def remove (cwd : Location) (t : Tree Name β) (path : Text) : Int × Tree Name β :=
  match lookupParent t cwd path with
  | .ok (l, .name n) =>
      match t.find (l ++ [n]) with
      | none => (-1, t)
      | some .directory =>
          if (t.children (l ++ [n])).isEmpty then (0, t.prune (l ++ [n])) else (-1, t)
      | some (.file _) => if stripSlashes path = path then (0, t.prune (l ++ [n])) else (-1, t)
  | _ => (-1, t)

/-! ## `workload_delete` -/

/-- `workload_delete`, for a tree that is `n` levels deep. -/
def deleteLoop (cwd : Location) : Nat → Text → Tree Name β → Int × Tree Name β
  | 0, _, t => (-1, t)
  | n + 1, path, t =>
      match stat t cwd path with
      | .error _ => (0, t)
      | .ok l =>
          if t.isDirectory l then
            let t := (t.children l).foldl
              (fun t name => (deleteLoop cwd n (path ++ '/' :: name.text) t).2) t
            remove cwd t path
          else remove cwd t path

/-- `workload_delete`. -/
def workloadDelete (cwd : Location) (t : Tree Name β) (path : Text) : Int × Tree Name β :=
  deleteLoop cwd (t.depth + 1) path t

/-! ## `workload_mkdir_ex` -/

/-- The offset of the last character that is not a separator, or `0`. -/
def tailOffset (path : Text) : Nat → Nat
  | 0 => 0
  | o + 1 => if isPathSep (path.getD (o + 1) '\x00') then tailOffset path o else o + 1

/-- The last offset behind `0` with a separator. -/
def separatorOffset (path : Text) : Nat → Option Nat
  | 0 => none
  | o + 1 => if isPathSep (path.getD (o + 1) '\x00') then some (o + 1) else separatorOffset path o

/-- `s_parent_pathname`, if there is one. -/
def parentPathname (path : Text) : Option Text :=
  (separatorOffset path (tailOffset path (path.length - 1))).map path.take

/-- `workload_mkdir_recursive`, for a path of less than `n` characters: the result, the tree, and
    `*s_first_entry`. -/
def mkdirRecursive (allow : Text → Bool) (cwd : Location) :
    Nat → Text → Tree Name β × Option Text → Int × Tree Name β × Option Text
  | 0, _, (t, first) => (-1, t, first)
  | n + 1, path, (t, first) =>
      match stat t cwd path with
      | .ok l => if t.isDirectory l then (0, t, first) else (-1, t, first)
      | .error .enoent =>
          if path = [] then (-1, t, first)
          else
            let (result, t, first) := match parentPathname path with
              | some parent => mkdirRecursive allow cwd n parent (t, first)
              | none => (0, t, first)
            if result ≠ 0 then (result, t, first)
            else
              match mkdir allow cwd t path with
              | .error .eexist => (0, t, first)
              | .ok t => (0, t, some (first.getD path))
              | .error _ => (-1, t, first)
      | .error _ => (-1, t, first)

/-- `workload_mkdir_ex`: the result, the tree, and what it leaves in `*s_first_entry`. -/
def workloadMkdirEx (allow : Text → Bool) (cwd : Location) (t : Tree Name β) (path : Text) :
    Int × Tree Name β × Option Text :=
  let (check, t, entry) := mkdirRecursive allow cwd (path.length + 1) path (t, none)
  if check = -1 then
    match entry with
    | some e => (check, (workloadDelete cwd t e).2, none)
    | none => (check, t, none)
  else (check, t, entry)

end Workload.Directories
