import AssetCache.Disk
import AssetCache.Settings.Decode
import AssetCache.Toml.Reader

namespace AssetCache.Settings

/-- Where settings are looked for. Paths are relative to `folder`, the working folder, unless they
begin with a slash. -/
structure Surroundings where
  folder : String
  home : String
  environment : List (String × String)
  disk : Disk

inductive FileFormat where
  | toml
  | json
deriving DecidableEq, Repr

namespace FileFormat

def extension? (name : List Char) : Option (List Char) :=
  match name.reverse.dropWhile (· != '.') with
  | _ :: _ :: _ => some (name.reverse.takeWhile (· != '.')).reverse
  | _ => none

def ofName? (name : String) : Option FileFormat :=
  match extension? name.toList with
  | none => none
  | some e => if e = "toml".toList then some toml else if e = "json".toList then some json else none

def withoutMark (cs : List Char) : List Char :=
  match cs with
  | '\ufeff' :: rest => rest
  | cs => cs

def read (source : String) (cs : List Char) : FileFormat → Except String Layer
  | toml =>
    match Toml.read (String.ofList cs) with
    | none => .error "TOML parse error"
    | some members => .ok (Tree.ofTomlMembers source members)
  | json =>
    let doc := Json.Document.ofChars cs
    match doc.root.readFault 127 with
    | some f => .error (f.message ++ " in " ++ source)
    | none =>
      if doc.trailing then .error (Json.Fault.malformed.message ++ " in " ++ source)
      else
        match Tree.ofJson source doc.root with
        | .table _ members => .ok members
        | t =>
          .error ("invalid type: " ++ t.described ++ ", expected a map in " ++ source ++ " in " ++
            source)

end FileFormat

namespace Surroundings

def isAbsolute (path : String) : Bool := path.toList.head? == some '/'

def namesOf (path : String) : List (List Char) :=
  (path.toList.splitOn '/').filter fun name => name ≠ [] ∧ name ≠ ['.']

def leadFrom : List (List Char) → List (List Char) → List (List Char)
  | a :: here, b :: there =>
    if a = b then leadFrom here there else (a :: here).map (fun _ => "..".toList) ++ b :: there
  | here, there => here.map (fun _ => "..".toList) ++ there

def relative (s : Surroundings) (path : String) : String :=
  let names := namesOf path
  let names := if isAbsolute path then leadFrom (namesOf s.folder) names else names
  String.ofList (['/'].intercalate names)

def whole (s : Surroundings) (path : String) : String :=
  if isAbsolute path then path else s.folder ++ "/" ++ path

def place (s : Surroundings) (path : String) : Disk.Path := .ofText (s.relative path)

def isFile (s : Surroundings) (path : String) : Bool :=
  (s.disk.bytesAt (s.place path)).toOption.isSome

/-- The file that a path means: the one it names, or else one with an extension added. -/
def find (s : Surroundings) (path : String) : Except String (String × FileFormat) :=
  if s.isFile path then
    match (s.place path).getLast?.bind FileFormat.ofName? with
    | some format => .ok (path, format)
    | none =>
      .error ("configuration file \"" ++ s.whole path ++ "\" is not of a registered file format")
  else if s.isFile (path ++ ".toml") then .ok (path ++ ".toml", .toml)
  else if s.isFile (path ++ ".json") then .ok (path ++ ".json", .json)
  else .error ("configuration file \"" ++ path ++ "\" not found")

def contents (s : Surroundings) (path : String) : Except String (String × FileFormat × List Char) :=
  match s.find path with
  | .error e => .error e
  | .ok (found, format) =>
    match s.disk.bytesAt (s.place found) with
    | .error e => .error e.message
    | .ok bytes =>
      match String.fromUTF8? bytes with
      | none => .error "stream did not contain valid UTF-8"
      | some text => .ok (s.relative found, format, FileFormat.withoutMark text.toList)

def requiredFile (s : Surroundings) (path : String) : Except String Layer :=
  match s.contents path with
  | .error e => .error e
  | .ok (source, format, cs) => format.read source cs

def optionalFile (s : Surroundings) (path : String) : Except String Layer :=
  match s.contents path with
  | .error _ => .ok []
  | .ok (source, format, cs) => format.read source cs

end Surroundings

/-- A value as it is written, unless it is a truth value or a number. -/
def scalarOfText (s : String) : Scalar :=
  let word := Text.lower s.toList
  if word = "true".toList then .bool true
  else if word = "false".toList then .bool false
  else
    match Decimal.int64? s with
    | some n => .int n
    | none =>
      match Decimal.Binary64.ofText? s with
      | some x => .float x
      | none => .text s

def pointed : List Char → List Char
  | '_' :: '_' :: rest => '.' :: pointed rest
  | c :: rest => c :: pointed rest
  | [] => []

def variablePrefix : List Char := "precache_".toList

def variableKey? (name : String) : Option String :=
  let cs := (Tree.foldName name).toList
  if variablePrefix.isPrefixOf cs then
    some (String.ofList (pointed (cs.drop variablePrefix.length)))
  else none

def environmentLayer (environment : List (String × String)) : Layer :=
  environment.filterMap fun (name, value) =>
    (variableKey? name).map fun key => (key, .scalar (some "the environment") (scalarOfText value))

def userFile (home : String) : String := home ++ "/.precache/config.toml"

def fileLayer (path : Option String) (s : Surroundings) : Except String Layer :=
  match path with
  | some path => s.requiredFile path
  | none => s.optionalFile (userFile s.home)

def gather (path : Option String) (s : Surroundings) : Except String Tree :=
  match fileLayer path s with
  | .error e => .error e
  | .ok layer => .ok ((default.toTree.overlay layer).overlay (environmentLayer s.environment))

def load [Idna] (path : Option String) (s : Surroundings) : Except CacheError Settings :=
  match gather path s with
  | .error e => .error (.config e)
  | .ok tree =>
    match decode tree with
    | .error e => .error (.config e.message)
    | .ok settings =>
      match settings.validate with
      | .error e => .error e
      | .ok () => .ok settings

end AssetCache.Settings
