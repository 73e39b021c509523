import AssetCache.Dispatcher
import AssetCache.Http.Message
import AssetCache.Manager

namespace AssetCache

def CacheError.page (e : CacheError) : Http.Page := .ofError e

/-- What a worker does that is the manager itself: an install that went well begins to serve. -/
def Manager.worker [Idna] (net : Network) : Worker Manager where
  install := (Manager.installTask net).bind fun
    | .error e => .done (.error e)
    | .ok () => .act Manager.activate fun _ => .done (.ok ())
  fetch := Manager.fetchTask net

structure Site where
  origin : Url
  dispatcher : Dispatcher Manager

/-- What a request meets with besides its content: an identifier that is its own, and the time. -/
structure Circumstances where
  requestId : String
  time : String

namespace Site

def manager (s : Site) : Manager := s.dispatcher.shared

def withManager (s : Site) (m : Manager) : Site :=
  { s with dispatcher := { s.dispatcher with shared := m } }

/-- The URL of a target: its path and query after the origin's path. It has to begin with the
origin's text, so that no path leads out of it. -/
def locate (origin : Url) (t : Http.Target) : Except CacheError Url :=
  let path := origin.path.text ++ t.path.dropWhile (· == '/')
  let url := ((origin.withPath path).withQuery t.query).withoutFragment
  if origin.chars.isPrefixOf url.chars then .ok url
  else
    .error (.invalidRequest (t.text ++ " resolves outside of " ++ origin.text))

def phaseStatus : Phase → String
  | .serving => "healthy"
  | .populated => "degraded"
  | .uninitialized => "unhealthy"

def healthRecord (m : Manager) (entries : Nat) (time : String) : Json.Value :=
  .record
    [("status", .text (phaseStatus m.phase)),
     ("bucket", .text m.name),
     ("phase", .text m.phase.name),
     ("entries", .number entries),
     ("stats", .record
       [("hits", .number m.stats.hits), ("misses", .number m.stats.misses),
        ("network_errors", .number m.stats.networkErrors)]),
     ("timestamp", .text time)]

def health (s : Site) (time : String) : Http.Page × Site :=
  match s.manager.bucket with
  | (.error e, m) => (e.page, s.withManager m)
  | (.ok h, m) =>
    let status := if m.phase = .uninitialized then 503 else 200
    (.ofJson status (healthRecord m (m.entries h).size time), s.withManager m)

def metrics (s : Site) : Http.Page :=
  .ofText 200 "text/plain; version=0.0.4" s.manager.metrics.page

def bodyLimit : Nat := 2097152

def tooLarge : Http.Page :=
  .ofText 413 "text/plain; charset=utf-8"
    "Failed to buffer the request body: length limit exceeded"

def request (r : Http.Inbound) (url : Url) : Request where
  method := r.method
  url := url
  headers := r.headers.filterMap fun f => (Http.visible? f.2).map fun v => (f.1, v)
  body := if r.body.isEmpty then none else some r.body

def forward (w : Worker Manager) (s : Site) (r : Http.Inbound) : Http.Page × Site :=
  if bodyLimit < r.body.size then (tooLarge, s)
  else
    match locate s.origin r.target with
    | .error e => (e.page, s)
    | .ok url =>
      match s.dispatcher.fetch w (request r url) with
      | (.error e, dispatcher) => (e.page, { s with dispatcher })
      | (.ok response, dispatcher) =>
        match Http.Page.ofResponse response with
        | .error e => (e.page, { s with dispatcher })
        | .ok page => (page, { s with dispatcher })

def readOnly (r : Http.Inbound) (page : Unit → Http.Page × Site) (s : Site) : Http.Page × Site :=
  if r.method.name = "GET" then
    let (p, s) := page ()
    (p.measured, s)
  else if r.method.name = "HEAD" then
    let (p, s) := page ()
    ({ p.measured with body := .empty }, s)
  else (⟨405, [("allow", "GET,HEAD".toUTF8), ("content-length", "0".toUTF8)], .empty⟩, s)

def route (w : Worker Manager) (s : Site) (r : Http.Inbound) (time : String) : Http.Page × Site :=
  if r.target.path = "/_precache/health".toList then readOnly r (fun () => s.health time) s
  else if r.target.path = "/_precache/metrics".toList then readOnly r (fun () => (s.metrics, s)) s
  else
    let (p, s) := s.forward w r
    (p.measured, s)

def requestIdName : String := "x-request-id"

/-- Answers a request. Its identifier, or one of its own if it has none, goes along with the fetch
event and with the page, unless the page has one. -/
def answer (w : Worker Manager) (s : Site) (r : Http.Inbound) (c : Circumstances) :
    Http.Page × Site :=
  let given := r.headers.lookup requestIdName
  let id := given.getD c.requestId.toUTF8
  let headers := if given.isSome then r.headers else r.headers ++ [(requestIdName, id)]
  let (page, s) := s.route w { r with headers := Http.grouped headers } c.time
  (if (page.field? requestIdName).isSome then page else page.withField requestIdName id, s)

end Site

end AssetCache
