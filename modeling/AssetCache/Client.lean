import AssetCache.Base64
import AssetCache.Http.HopByHop
import AssetCache.Http.Target
import AssetCache.Network
import AssetCache.Settings.Basic

namespace AssetCache

namespace Client

/-- A request as it is sent: its URL holds no user info, its headers are legal. -/
structure Outbound where
  method : Http.Method
  url : Url
  headers : List Http.Field
  body : Option ByteArray

inductive Loss where
  | lost
  | late
deriving DecidableEq, Repr, Inhabited

structure Reply where
  status : UInt16
  headers : List Http.Field
  body : Except Loss ByteArray
  status_mem : 100 ≤ status ∧ status ≤ 999
  legal_headers : ∀ f ∈ headers, Http.IsLegal f

abbrev Transport (m : Type → Type) := Outbound → m (Except Loss Reply)

structure Credentials where
  name : String
  password : Option String

def unescaped? (cs : List Char) : Option String := String.fromUTF8? ⟨(Url.unescape cs).toArray⟩

def credentials? (userinfo : List Char) : Option Credentials := do
  let name ← unescaped? (userinfo.takeWhile (· != ':'))
  let password := match userinfo.dropWhile (· != ':') with
    | [] => none
    | _ :: cs => unescaped? cs
  if name.isEmpty && password.isNone then none else some ⟨name, password⟩

def Credentials.field (c : Credentials) : Http.Field :=
  let plain := c.name ++ ":" ++ c.password.getD ""
  ("authorization", "Basic ".toUTF8 ++ (String.ofList (Base64.encode plain.toUTF8.toList)).toUTF8)

def withoutCredentials (u : Url) : Option Credentials × Url :=
  match u.authority with
  | none => (none, u)
  | some a =>
    match credentials? a.userinfo with
    | none => (none, u)
    | some c => (some c, { u with authority := some { a with userinfo := [] } })

/-- Headers that concern one connection, and those that follow from the rest of the request. -/
def isDerived (name : String) : Bool :=
  Http.isHopByHop name || Text.sameLetters name "host" || Text.sameLetters name "content-length"

def fieldsOf? (headers : List Header) : Option (List Http.Field) :=
  (headers.filter fun h => !isDerived h.1).mapM fun h => (Http.field h.1 h.2.toUTF8).toOption

def unbuilt : FetchError := .invalidRequest "builder error"

def unbuiltFor (u : Url) : FetchError :=
  .invalidRequest ("builder error for url (" ++ u.text ++ ")")

def filledIn (defaults given : List Http.Field) : List Http.Field :=
  given ++ defaults.filter fun f => (given.lookup f.1).isNone

def isReachable (u : Url) : Bool := u.isHttp && (Http.Target.ofString? u.text).isSome

def prepare (defaults : List Http.Field) (r : Request) : Except FetchError Outbound :=
  let (credentials, url) := withoutCredentials r.url
  match fieldsOf? r.headers with
  | none => .error unbuilt
  | some fields =>
    if isReachable url then
      let given := (credentials.map Credentials.field).toList ++ fields
      .ok ⟨r.method, url, filledIn defaults given, r.body⟩
    else .error (unbuiltFor url)

def Loss.error (text : String) : Loss → FetchError
  | lost => .transport text
  | late => .timeout text

def unsent (u : Url) : String := "error sending request for url (" ++ u.text ++ ")"

def unread : String := "error decoding response body"

def Reply.next? [Idna] (r : Reply) (u : Url) : Option Url :=
  if r.status ∈ [301, 302, 303, 307, 308] then
    (r.headers.lookup "location").bind fun v =>
      (String.fromUTF8? v).bind fun s => (u.join s).toOption
  else none

def bodyNames : List String :=
  ["transfer-encoding", "content-encoding", "content-type", "content-length"]

/-- Headers that are meant for one server only. -/
def secretNames : List String :=
  ["authorization", "cookie", "cookie2", "proxy-authorization", "www-authenticate"]

def without (names : List String) (fields : List Http.Field) : List Http.Field :=
  fields.filter fun f => !names.contains f.1

def serverOf (u : Url) : Option (List Char × Option Nat) :=
  u.authority.map fun a => (a.host, a.port <|> defaultPort u.scheme)

def referrer? (u next : Url) : Option Http.Field :=
  if u.scheme = "https".toList ∧ next.scheme = "http".toList then none
  else
    let authority := u.authority.map fun a => { a with userinfo := [] }
    some ("referer", (Url.text { u with authority, fragment := none }).toUTF8)

/-- The request to the next place. Only two statuses keep the method and the body as they are. -/
def Outbound.redirected (o : Outbound) (status : UInt16) (next : Url) : Outbound :=
  let isKept := status = 307 ∨ status = 308
  let isRead := o.method.name = "GET" ∨ o.method.name = "HEAD"
  let headers := if isKept then o.headers else without bodyNames o.headers
  let headers := match referrer? o.url next with
    | none => headers
    | some f => without [f.1] headers ++ [f]
  { method := if isKept ∨ isRead then o.method else .get
    url := next
    headers := if serverOf o.url = serverOf next then headers else without secretNames headers
    body := if isKept then o.body else none }

def tooFar (u : Url) : FetchError :=
  .transport ("error following redirect for url (" ++ u.text ++ ")")

/-- Asks, and goes on to where the replies send it, `n` times at most. -/
def travel [Idna] {m : Type → Type} [Monad m] (t : Transport m) :
    Nat → Outbound → m (Except FetchError Reply)
  | n, out => do
    match ← t out with
    | .error loss => return .error (loss.error (unsent out.url))
    | .ok reply =>
      match reply.next? out.url with
      | none => return .ok reply
      | some next =>
        match n with
        | 0 => return .error (tooFar out.url)
        | n + 1 =>
          if isReachable next then travel t n (out.redirected reply.status next)
          else return .error (unbuiltFor next)

def maxRedirects : Nat := 10

/-- The headers that are kept of a reply: those that are text and concern more than the
connection. -/
def Reply.keptHeaders (r : Reply) : List Header :=
  r.headers.filterMap fun f =>
    if Http.isHopByHop f.1 then none else (Http.visible? f.2).map fun v => (f.1, v)

def Reply.kept (r : Reply) : Except FetchError Response :=
  match r.body with
  | .error loss => .error (loss.error unread)
  | .ok body => .ok ⟨r.status, r.keptHeaders, body⟩

end Client

structure Client where
  defaults : List Http.Field

namespace Client

def ofSettings (s : NetworkSettings) : Except CacheError Client :=
  if Http.isHeaderValue s.userAgent.toUTF8 then
    .ok ⟨[("accept", "*/*".toUTF8), ("user-agent", s.userAgent.toUTF8)]⟩
  else .error (.internal "Failed to create HTTP client: builder error")

def fetch [Idna] {m : Type → Type} [Monad m] (c : Client) (t : Transport m) (r : Request) :
    m (Except FetchError Response) :=
  match prepare c.defaults r with
  | .error e => return .error e
  | .ok out => return (← travel t maxRedirects out) >>= Reply.kept

def outcome : Except FetchError Response → Outcome
  | .error e => .failure e
  | .ok response => .response response

def network [Idna] (c : Client) (t : Transport Id) : Network :=
  fun r => ⟨0, outcome (c.fetch t r).run⟩

def silence : Transport Id := fun _ => .error .lost

end Client

end AssetCache
