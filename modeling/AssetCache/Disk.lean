import AssetCache.Bytes
import AssetCache.Failure

namespace AssetCache

namespace Disk

abbrev Path := List String

namespace Path

/-- Splits at slashes; empty names and single dots lead nowhere. Two dots are worked off in the text
alone: they take back the name in front of them, whether or not there is a folder of that name on the
disk. -/
def ofText (text : String) : Path :=
  let walk := fun (names : Path) (name : List Char) =>
    if name = [] ∨ name = ['.'] then names
    else if name = ['.', '.'] then names.drop 1
    else String.ofList name :: names
  ((text.toList.splitOn '/').foldl walk []).reverse

end Path

inductive Entry where
  | file (bytes : ByteArray)
  | folder
deriving DecidableEq

/-- How an access goes wrong. Of a write, `written` bytes reach the disk all the same, and of a path's
folders that many are made. -/
structure Mishap where
  error : SystemError
  written : Option Nat
deriving DecidableEq

end Disk

/-- A folder with all that is in it. Any access to it may go wrong: `mishaps` tells of those to come,
in order, which ones do; all do well once it is used up. -/
structure Disk where
  entries : List (Disk.Path × Disk.Entry)
  mishaps : List (Option Disk.Mishap)
deriving DecidableEq

namespace Disk

def empty : Disk := ⟨[], []⟩

def at? (d : Disk) (p : Path) : Option Entry :=
  if p = [] then some .folder else d.entries.lookup p

def set (d : Disk) (p : Path) (e : Entry) : Disk :=
  { d with entries := (p, e) :: d.entries.filter fun q => q.1 ≠ p }

def erase (d : Disk) (p : Path) : Disk :=
  { d with entries := d.entries.filter fun q => q.1 ≠ p }

def access (d : Disk) : Option Mishap × Disk :=
  match d.mishaps with
  | [] => (none, d)
  | m :: rest => (m, { d with mishaps := rest })

/-- Why nothing can be reached below a path: a part of it is missing, or is a file. `done` is the
part that has been passed. -/
def blockedFrom (d : Disk) (done : Path) : Path → Option SystemError
  | [] => none
  | name :: rest =>
    match d.at? done with
    | none => some .notFound
    | some (.file _) => some .notFolder
    | some .folder => d.blockedFrom (done ++ [name]) rest

def blocked (d : Disk) (p : Path) : Option SystemError := d.blockedFrom [] p

def find (d : Disk) (p : Path) : Except SystemError Entry :=
  match d.blocked p with
  | some e => .error e
  | none =>
    match d.at? p with
    | none => .error .notFound
    | some e => .ok e

def existsAt (d : Disk) (p : Path) : Except SystemError Bool :=
  match d.find p with
  | .ok _ => .ok true
  | .error e => if e = .notFound then .ok false else .error e

def bytesAt (d : Disk) (p : Path) : Except SystemError ByteArray :=
  match d.find p with
  | .ok (.file bytes) => .ok bytes
  | .ok .folder => .error .isFolder
  | .error e => .error e

def exists? (d : Disk) (p : Path) : Except SystemError Bool × Disk :=
  match d.access with
  | (some m, d) => (.error m.error, d)
  | (none, d) => (d.existsAt p, d)

def read (d : Disk) (p : Path) : Except SystemError ByteArray × Disk :=
  match d.access with
  | (some m, d) => (.error m.error, d)
  | (none, d) => (d.bytesAt p, d)

inductive Step where
  | makeFolders (p : Path)
  | write (p : Path) (bytes : ByteArray)
  | rename (source target : Path)
  | remove (p : Path)
deriving DecidableEq

def makeFoldersFrom (d : Disk) (done : Path) : Path → Except SystemError Unit × Disk
  | [] => (.ok (), d)
  | name :: rest =>
    let p := done ++ [name]
    match d.at? p with
    | none => (d.set p .folder).makeFoldersFrom p rest
    | some .folder => d.makeFoldersFrom p rest
    | some (.file _) => (.error (if rest.isEmpty then .alreadyThere else .notFolder), d)

def makeFolders (d : Disk) (p : Path) : Except SystemError Unit × Disk := d.makeFoldersFrom [] p

def unwritable (d : Disk) (p : Path) : Option SystemError :=
  match d.blocked p with
  | some e => some e
  | none => if d.at? p = some .folder then some .isFolder else none

def writeFile (d : Disk) (p : Path) (bytes : ByteArray) : Except SystemError Unit × Disk :=
  match d.unwritable p with
  | some e => (.error e, d)
  | none => (.ok (), d.set p (.file bytes))

def renameFile (d : Disk) (source target : Path) : Except SystemError Unit × Disk :=
  match d.find source with
  | .error e => (.error e, d)
  | .ok e =>
    match d.unwritable target with
    | some e => (.error e, d)
    | none => (.ok (), (d.erase source).set target e)

def removeFile (d : Disk) (p : Path) : Except SystemError Unit × Disk :=
  match d.find p with
  | .error e => (.error e, d)
  | .ok .folder => (.error .isFolder, d)
  | .ok (.file _) => (.ok (), d.erase p)

def perform (d : Disk) : Step → Except SystemError Unit × Disk
  | .makeFolders p => d.makeFolders p
  | .write p bytes => d.writeFile p bytes
  | .rename source target => d.renameFile source target
  | .remove p => d.removeFile p

/-- A change that goes wrong: a write may leave a part of its bytes and a path some of its folders;
nothing else leaves a trace. -/
def spoil (d : Disk) (m : Mishap) : Step → Disk
  | .makeFolders p =>
    match m.written with
    | none => d
    | some n => (d.makeFolders (p.take n)).2
  | .write p bytes =>
    match m.written with
    | none => d
    | some n => (d.writeFile p (bytes.extract 0 n)).2
  | _ => d

def step (d : Disk) (s : Step) : Except SystemError Unit × Disk :=
  match d.access with
  | (some m, d) => (.error m.error, d.spoil m s)
  | (none, d) => d.perform s

def run (d : Disk) : List Step → Except SystemError Unit × Disk
  | [] => (.ok (), d)
  | s :: rest =>
    match d.step s with
    | (.error e, d) => (.error e, d)
    | (.ok (), d) => d.run rest

def names (d : Disk) (p : Path) : List String :=
  d.entries.filterMap fun q =>
    if q.1.dropLast = p ∧ q.1 ≠ [] then q.1.getLast? else none

def prune (d : Disk) (p : Path) : Disk :=
  { d with entries := d.entries.filter fun q => !p.isPrefixOf q.1 }

end Disk

end AssetCache
