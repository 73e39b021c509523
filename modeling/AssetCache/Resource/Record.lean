import AssetCache.Base64
import AssetCache.Json.Shape
import AssetCache.Json.Value
import AssetCache.Resource

namespace AssetCache

def Header.toJson (h : Header) : Json.Value := .list [.text h.1, .text h.2]

namespace Response

def bodyText (r : Response) : String := String.ofList (Base64.encode r.body.data.toList)

def toJson (r : Response) : Json.Value :=
  .record
    [("status", .number r.status.toNat),
     ("headers", .list (r.headers.map Header.toJson)),
     ("body", .text r.bodyText)]

def bodyOfNode (v : Json.Node) : Except Json.Fault ByteArray :=
  match v.asText with
  | .error f => .error f
  | .ok s =>
    match Base64.decode s.toList with
    | some bytes => .ok ⟨bytes.toArray⟩
    | none => .error .mismatch

structure Parts where
  status : Option UInt16
  headers : Option (List Header)
  body : Option ByteArray

namespace Parts

def fields : List (Json.Node.Field Parts) :=
  [⟨"status", fun p => p.status.isSome, fun v p =>
      (v.asNat 65536).map fun n => { p with status := some (UInt16.ofNat n) }⟩,
   ⟨"headers", fun p => p.headers.isSome, fun v p =>
      (v.asList (Json.Node.asPair Json.Node.asText Json.Node.asText)).map fun hs =>
        { p with headers := some hs }⟩,
   ⟨"body", fun p => p.body.isSome, fun v p =>
      (bodyOfNode v).map fun b => { p with body := some b }⟩]

def response : Parts → Except Json.Fault Response
  | ⟨some status, some headers, some body⟩ => .ok ⟨status, headers, body⟩
  | _ => .error .mismatch

end Parts

def ofNode (v : Json.Node) : Except Json.Fault Response := do
  (← v.asFields Parts.fields ⟨none, none, none⟩).response

def ofJson (cs : List Char) : Except Json.Fault Response := Json.read ofNode cs

end Response

end AssetCache
