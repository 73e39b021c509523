import AssetCache.Failure
import AssetCache.Http.HopByHop
import AssetCache.Http.Target
import AssetCache.Json.Value
import AssetCache.Resource

namespace AssetCache.Http

structure Inbound where
  method : Method
  target : Target
  headers : List Field
  body : ByteArray

structure Page where
  status : UInt16
  headers : List Field
  body : ByteArray
deriving DecidableEq

namespace Page

def field? (p : Page) (name : String) : Option ByteArray := p.headers.lookup name

def withField (p : Page) (name : String) (value : ByteArray) : Page :=
  { p with headers := p.headers ++ [(name, value)] }

def measured (p : Page) : Page :=
  if (p.field? "content-length").isSome then p
  else p.withField "content-length" (Nat.repr p.body.size).toUTF8

def ofText (status : UInt16) (contentType text : String) : Page :=
  ⟨status, [("content-type", contentType.toUTF8)], text.toUTF8⟩

def ofJson (status : UInt16) (v : Json.Value) : Page :=
  ofText status "application/json" (String.ofList v.compact)

def ofError (e : CacheError) : Page :=
  ofJson e.status <|
    .record
      [("error", .record [("message", .text e.message), ("type", .text e.pageKind)]),
       ("type", .text "error")]

def isOwn (name : String) : Bool := isHopByHop name || Text.sameLetters name "content-length"

def faultText : FieldFault → String
  | .name => "invalid HTTP header name"
  | .value => "failed to parse header value"

def fieldsOf : List Header → Except CacheError (List Field)
  | [] => .ok []
  | (name, value) :: rest =>
    if isOwn name then fieldsOf rest
    else
      match field name value.toUTF8 with
      | .error f => .error (.internal ("failed to build response: " ++ faultText f))
      | .ok f => (fieldsOf rest).map (f :: ·)

/-- A stored response as a page. Its status and what is taken over of its headers have to be
legal. -/
def ofResponse (r : Response) : Except CacheError Page :=
  if r.status < 100 ∨ 999 < r.status then
    .error (.internal ("invalid stored status " ++ Nat.repr r.status.toNat ++
      ": invalid status code"))
  else (fieldsOf r.headers).map fun fields => ⟨r.status, fields, r.body⟩

end Page

end AssetCache.Http
