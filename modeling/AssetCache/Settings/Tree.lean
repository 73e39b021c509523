import AssetCache.Decimal.Shortest
import AssetCache.Json.Shape
import AssetCache.Toml.Value

namespace AssetCache.Settings

open Decimal (Binary64)

inductive Scalar where
  | nothing
  | bool (b : Bool)
  | int (n : Int)
  | float (x : Binary64)
  | text (s : String)
deriving DecidableEq, Repr

inductive Tree where
  | scalar (source : Option String) (s : Scalar)
  | list (source : Option String) (items : List Tree)
  | table (source : Option String) (members : List (String × Tree))

namespace Tree

def nothing : Tree := .scalar none .nothing

def text (s : String) : Tree := .scalar none (.text s)

def int (n : Int) : Tree := .scalar none (.int n)

def members : Tree → List (String × Tree)
  | table _ ms => ms
  | _ => []

def items : Tree → List Tree
  | list _ ts => ts
  | _ => []

/-- The source of a table; what becomes a table in place of something else has none. -/
def tableSource : Tree → Option String
  | table source _ => source
  | _ => none

def listSource : Tree → Option String
  | list source _ => source
  | _ => none

def setMember (ms : List (String × Tree)) (name : String) (t : Tree) : List (String × Tree) :=
  if ms.any (·.1 == name) then ms.map fun p => if p.1 = name then (name, t) else p
  else ms ++ [(name, t)]

/-- Names are compared without case; beside the ASCII letters the Kelvin sign has a small letter
among them. -/
def foldName (name : String) : String :=
  String.ofList (name.toList.map fun c => if c = '\u212a' then 'k' else c.toLower)

mutual

def put (target : Tree) (name : String) (value : Tree) : Tree :=
  match value with
  | table _ incoming =>
    let name := foldName name
    let inner := (target.members.lookup name).getD (table none [])
    table target.tableSource (setMember target.members name (putAll inner incoming))
  | value => table target.tableSource (setMember target.members (foldName name) value)

def putAll (target : Tree) : List (String × Tree) → Tree
  | [] => target
  | (name, value) :: rest => putAll (target.put name value) rest

end

end Tree

/-- A step into a tree: to a member, or to an item by its place, counted from the end if
negative. -/
inductive Step where
  | member (name : String)
  | item (n : Int)
deriving DecidableEq, Repr

namespace Tree

def placeOf (length : Nat) : Int → Option Nat
  | .ofNat n => some n
  | .negSucc n => if n < length then some (length - (n + 1)) else none

/-- Changes an item; items that are missing before it are filled up. -/
def changeItem (change : Tree → Tree) (t : Tree) (n : Int) : Tree :=
  let ts := t.items
  match placeOf ts.length n with
  | none => t
  | some i =>
    list t.listSource ((ts ++ List.replicate (i + 1 - ts.length) nothing).modify i change)

def putAt (value : Tree) : List Step → Tree → Tree
  | [], _ => value
  | [.member name], t => t.put name value
  | .member name :: rest, t =>
    let name := foldName name
    let inner := (t.members.lookup name).getD nothing
    table t.tableSource (setMember t.members name (putAt value rest inner))
  | .item n :: rest, t => t.changeItem (putAt value rest) n

end Tree

def isNameChar (c : Char) : Bool := c.isAlphanum || c == ' ' || c == '_' || c == '-'

def place? (cs : List Char) : Option Int :=
  let isSpace := fun c : Char => c == ' ' || c == '\t'
  let cs := (cs.dropWhile isSpace).reverse.dropWhile isSpace |>.reverse
  let (negative, ds) := match cs with
    | '-' :: ds => (true, ds)
    | ds => (false, ds)
  if ds.isEmpty || !ds.all Char.isDigit then none
  else
    let n : Int := ds.foldl (fun n d => n * 10 + (d.toNat - '0'.toNat)) 0
    some (if negative then -n else n)

def steps? : Nat → List Char → Option (List Step)
  | _, [] => some []
  | 0, _ :: _ => none
  | n + 1, '.' :: cs =>
    match cs.takeWhile isNameChar with
    | [] => none
    | name =>
      (steps? n (cs.dropWhile isNameChar)).map fun rest => .member (String.ofList name) :: rest
  | n + 1, '[' :: cs =>
    match place? (cs.takeWhile (· != ']')), cs.dropWhile (· != ']') with
    | some i, _ :: rest => (steps? n rest).map fun rest => .item i :: rest
    | _, _ => none
  | _ + 1, _ => none

/-- A key as a path; a key that is none is a name as it stands. -/
def pathOf (key : String) : List Step :=
  let cs := key.toList
  match cs.takeWhile isNameChar with
  | [] => [.member key]
  | name =>
    match steps? cs.length (cs.dropWhile isNameChar) with
    | none => [.member key]
    | some steps => .member (String.ofList name) :: steps

abbrev Layer := List (String × Tree)

def Tree.overlay (t : Tree) (layer : Layer) : Tree :=
  layer.foldl (fun t p => putAt p.2 (pathOf p.1) t) t

namespace Tree

mutual

def ofToml (source : String) : Toml.Value → Tree
  | .text s => .scalar (some source) (.text s)
  | .int n => .scalar (some source) (.int n)
  | .float x => .scalar (some source) (.float x)
  | .bool b => .scalar (some source) (.bool b)
  | .moment m => .scalar (some source) (.text m.text)
  | .list items => .list (some source) (ofTomlItems source items)
  | .table members => .table (some source) (ofTomlMembers source members)

def ofTomlItems (source : String) : List Toml.Value → List Tree
  | [] => []
  | v :: rest => ofToml source v :: ofTomlItems source rest

def ofTomlMembers (source : String) : List (String × Toml.Value) → List (String × Tree)
  | [] => []
  | (name, v) :: rest => (name, ofToml source v) :: ofTomlMembers source rest

end

def scalarOfNumber (n : Json.Number) : Scalar :=
  match n.int? with
  | some i =>
    if i < (Nat.pow 2 63 : Nat) then .int i
    else .float (.ofDecimal n.negative n.mantissa n.exponent)
  | none => .float (.ofDecimal n.negative n.mantissa n.exponent)

mutual

/-- A tree of JSON that has no fault. Of members with one name the last counts. -/
def ofJson (source : String) : Json.Node → Tree
  | .null | .broken _ => .scalar (some source) .nothing
  | .bool b => .scalar (some source) (.bool b)
  | .number n => .scalar (some source) (scalarOfNumber n)
  | .text t => .scalar (some source) (.text (String.ofList t.chars))
  | .list items _ => .list (some source) (ofJsonItems source items)
  | .record members _ => .table (some source) (ofJsonMembers source members [])

def ofJsonItems (source : String) : List Json.Node → List Tree
  | [] => []
  | v :: rest => ofJson source v :: ofJsonItems source rest

def ofJsonMembers (source : String) :
    List (Json.Text × Json.Node) → List (String × Tree) → List (String × Tree)
  | [], ms => ms
  | (key, v) :: rest, ms =>
    ofJsonMembers source rest (Tree.setMember ms (String.ofList key.chars) (ofJson source v))

end

end Tree

end AssetCache.Settings
