import AssetCache.Digest.Hex
import AssetCache.Digest.Sha256
import AssetCache.Disk
import AssetCache.Resource.Record
import AssetCache.Store.Entries

namespace AssetCache.Snapshot

/-- The name of a bucket's file: the digest of the bucket's name, so that no two buckets share a
file and any name will do. -/
def stem (name : String) : String :=
  String.ofList (Digest.hex (Digest.Sha256.digest name.toUTF8.data.toList))

def fileName (name : String) : String := stem name ++ ".json"

/-- The file that is written first and then takes the snapshot's place. -/
def draftName (name : String) : String := fileName name ++ ".tmp"

def path (home : String) (name : String) : Disk.Path := Disk.Path.ofText home ++ [fileName name]

def draftPath (home : String) (name : String) : Disk.Path :=
  Disk.Path.ofText home ++ [draftName name]

def shownPath (home : String) (name : String) : String :=
  if home.isEmpty ∨ home.endsWith "/" then home ++ fileName name
  else home ++ "/" ++ fileName name

def entryToJson (e : Key × Response) : Json.Value :=
  .record
    [("method", .text e.1.method), ("url", .text e.1.url), ("response", e.2.toJson)]

def toJson (name : String) (entries : Entries) : Json.Value :=
  .record [("name", .text name), ("entries", .list (entries.list.map entryToJson))]

def text (name : String) (entries : Entries) : String :=
  String.ofList ((toJson name entries).pretty 0)

def encode (name : String) (entries : Entries) : ByteArray := (text name entries).toUTF8

def maxLevels : Nat := 127

/-- The members of an entry up to its response, which is read where it stands; the others are kept
and looked at in the end. -/
def readMembers (others : List (Json.Text × Json.Node)) (response : Option Response) :
    List (Json.Text × Json.Node) → Option Json.Fault →
      Except Json.Fault (List (Json.Text × Json.Node) × Response)
  | [], some f => .error f
  | [], none =>
    match response with
    | none => .error .mismatch
    | some r => .ok (others.reverse, r)
  | (key, v) :: rest, broken =>
    match key.fault? with
    | some f => .error f
    | none =>
      if key.chars = "response".toList then
        if response.isSome then .error .mismatch
        else
          match Response.ofNode v with
          | .error f => .error f
          | .ok r => readMembers others (some r) rest broken
      else
        match v.readFault (maxLevels - 3) with
        | some f => .error f
        | none => readMembers ((key, v) :: others) response rest broken

structure KeyParts where
  method : Option String
  url : Option String

def KeyParts.fields : List (Json.Node.Field KeyParts) :=
  [⟨"method", fun p => p.method.isSome, fun v p =>
      v.asText.map fun s => { p with method := some s }⟩,
   ⟨"url", fun p => p.url.isSome, fun v p => v.asText.map fun s => { p with url := some s }⟩]

def KeyParts.key : KeyParts → Except Json.Fault Key
  | ⟨some method, some url⟩ => .ok ⟨method, url⟩
  | _ => .error .mismatch

def entryOfNode : Json.Node → Except Json.Fault (Key × Response)
  | .record members broken => do
    let (others, response) ← readMembers [] none members broken
    let key ← (← Json.Node.readMembers KeyParts.fields ⟨none, none⟩ others none).key
    pure (key, response)
  | v => .error v.otherFault

structure Parts where
  name : Option String
  entries : Option (List (Key × Response))

def Parts.fields : List (Json.Node.Field Parts) :=
  [⟨"name", fun p => p.name.isSome, fun v p => v.asText.map fun s => { p with name := some s }⟩,
   ⟨"entries", fun p => p.entries.isSome, fun v p =>
      (v.asList entryOfNode).map fun es => { p with entries := some es }⟩]

def Parts.whole : Parts → Except Json.Fault (String × List (Key × Response))
  | ⟨some name, some entries⟩ => .ok (name, entries)
  | _ => .error .mismatch

def ofNode (v : Json.Node) : Except Json.Fault (String × List (Key × Response)) := do
  (← v.asFields Parts.fields ⟨none, none⟩).whole

def decode (bytes : ByteArray) : Except Json.Fault (String × List (Key × Response)) :=
  match String.fromUTF8? bytes with
  | none => .error .malformed
  | some s => Json.read ofNode s.toList

def load (home name : String) (bytes : ByteArray) : Except CacheError Entries :=
  match decode bytes with
  | .error f => .error (.json f)
  | .ok (owner, entries) =>
    if owner = name then .ok (.ofList entries)
    else
      .error (.storage ("snapshot " ++ shownPath home name ++ " belongs to bucket " ++
        Text.quoted owner ++ ", not " ++ Text.quoted name))

def commit (home name : String) (entries : Entries) : List Disk.Step :=
  [.makeFolders (Disk.Path.ofText home),
   .write (draftPath home name) (encode name entries),
   .rename (draftPath home name) (path home name)]

end AssetCache.Snapshot
