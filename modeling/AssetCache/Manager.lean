import AssetCache.Manifest
import AssetCache.Metrics
import AssetCache.Network
import AssetCache.Store
import AssetCache.Task

namespace AssetCache

inductive Phase where
  | uninitialized
  | populated
  | serving
deriving DecidableEq, Repr

def Phase.name : Phase → String
  | uninitialized => "uninitialized"
  | populated => "populated"
  | serving => "serving"

structure Stats where
  hits : Nat
  misses : Nat
  networkErrors : Nat
deriving DecidableEq, Repr

/-- `calls` lists the requests that were sent to the network, the latest first. -/
structure Manager where
  name : String
  manifest : Manifest
  origin : Url
  store : Store
  phase : Phase
  stats : Stats
  metrics : Metrics
  calls : List Request

namespace Manager

def begin (name : String) (manifest : Manifest) (origin : Url) (store : Store) : Manager :=
  ⟨name, manifest, origin, store, .uninitialized, ⟨0, 0, 0⟩, .empty, []⟩

def bucket (m : Manager) : Except CacheError Handle × Manager :=
  let (h, store) := m.store.openBucket m.name
  (h, { m with store })

def entries (m : Manager) (h : Handle) : Entries := m.store.entries h

/-- Fetches are not timed: each counts as done at once. -/
def elapsed : Decimal.Binary64 := .zero

def call (m : Manager) (r : Request) : Manager := { m with calls := r :: m.calls }

def withMetrics (m : Manager) (f : Metrics → Metrics) : Manager := { m with metrics := f m.metrics }

def hasWildcardVary (r : Response) : Bool :=
  r.headers.any fun h =>
    Text.sameLetters h.1 "vary" &&
      (h.2.toList.splitOn ',').any fun field => Text.trimWhere Text.isBlank field == ['*']

def unfit (url : Url) (r : Response) : Option InstallError :=
  if !r.isSuccess then some (.badStatus url.text r.status)
  else if hasWildcardVary r then some (.uncacheable url.text "Vary: * cannot be matched")
  else none

inductive Round where
  | goesOn
  | fails (e : InstallError)
  | crashes

def verdict (r : Request) : Outcome → Round
  | .crash => .crashes
  | .failure e => .fails (.network r.url.text e)
  | .response response =>
    match unfit r.url response with
    | some e => .fails e
    | none => .goesOn

def countAnswer (m : Manager) : Outcome → Manager
  | .crash => m
  | .failure _ => m.withMetrics (·.addFetch "install" false)
  | .response _ => m.withMetrics (·.addFetch "install" true)

/-- The answers that are in by the look at the place `i` in the round `n`, taken in the order of
their places up to the first that is still out. -/
def taken (net : Network) (n i : Nat) : List (Request × Nat) → Round
  | [] => .goesOn
  | (r, k) :: rest =>
    if (net r).delay < n ∨ (net r).delay = n ∧ k ≤ i then
      match verdict r (net r).outcome with
      | .goesOn => taken net n i rest
      | ended => ended
    else .goesOn

/-- What the answer to the fetch at one place comes to for all of them. Of up to thirty fetches each
speaks for itself; of more a failure is not told before all answers in front of it are in. -/
def upshot (net : Network) (requests : List Request) (p : Request × Nat) : Round :=
  match (net p.1).outcome with
  | .crash => .crashes
  | outcome =>
    if requests.length ≤ 30 then verdict p.1 outcome
    else taken net (net p.1).delay p.2 requests.zipIdx

/-- Looks after the fetches at these places in their order; in the first round they are begun. -/
def round (net : Network) (requests : List Request) (n : Nat) :
    List (Request × Nat) → Manager → Round × Manager
  | [], m => (.goesOn, m)
  | p :: rest, m =>
    let m := if n = 0 then m.call p.1 else m
    if (net p.1).delay = n then
      let m := m.countAnswer (net p.1).outcome
      match upshot net requests p with
      | .goesOn => round net requests n rest m
      | ended => (ended, m)
    else round net requests n rest m

def rounds (net : Network) (requests : List Request) (n : Nat) :
    Nat → Task Manager (Except InstallError Unit)
  | 0 => .done (.ok ())
  | count + 1 =>
    .act (round net requests n requests.zipIdx) fun
      | .fails e => .done (.error e)
      | .crashes => .crash
      | .goesOn =>
        match count with
        | 0 => .done (.ok ())
        | count + 1 => .wait (rounds net requests (n + 1) (count + 1))

def longestDelay (net : Network) (requests : List Request) : Nat :=
  (requests.map fun r => (net r).delay).foldl max 0

def gather (net : Network) (requests : List Request) : Task Manager (Except InstallError Unit) :=
  rounds net requests 0 (longestDelay net requests + 1)

def harvest (net : Network) (requests : List Request) : List (Key × Response) :=
  requests.filterMap fun r => (net r).response?.map fun response => (r.key, response)

def failed (e : CacheError) : InstallError := .storage e.message

def storeAll (h : Handle) (batch : List (Key × Response)) (m : Manager) :
    Except InstallError Unit × Manager :=
  match m.store.putAll h batch with
  | (.error e, store) => (.error (failed e), { m with store })
  | (.ok (), store) =>
    let m := { m with store }
    (.ok (), m.withMetrics (·.setSize m.name (m.entries h).size))

def populate [Idna] (net : Network) : Task Manager (Except InstallError Unit) :=
  .act (fun m => (Manifest.resolve m.origin m.manifest, m)) fun
    | .error e => .done (.error e)
    | .ok requests =>
      .act bucket fun
        | .error e => .done (.error (failed e))
        | .ok h =>
          (gather net requests).bind fun
            | .error e => .done (.error e)
            | .ok () => .perform (storeAll h (harvest net requests))

/-- Records how an install ended; the first that does well begins the next phase. -/
def recordInstall (result : Except InstallError Unit) (m : Manager) : Manager :=
  match result with
  | .error _ => m.withMetrics (·.addInstall false)
  | .ok () =>
    let m := m.withMetrics (·.addInstall true)
    if m.phase = .uninitialized then { m with phase := .populated } else m

def installTask [Idna] (net : Network) : Task Manager (Except InstallError Unit) :=
  (populate net).bind fun result => .act (fun m => (result, m.recordInstall result)) .done

def activate (m : Manager) : Phase × Manager :=
  let m := if m.phase = .populated then { m with phase := .serving } else m
  (m.phase, m)

def countHit (m : Manager) : Manager :=
  { m with
    stats := { m.stats with hits := m.stats.hits + 1 }
    metrics := m.metrics.addHit elapsed }

def countMiss (m : Manager) : Manager :=
  { m with stats := { m.stats with misses := m.stats.misses + 1 } }

def recordMiss (ok : Bool) (m : Manager) : Manager :=
  let m := m.withMetrics (·.addMiss ok elapsed)
  if ok then m
  else { m with stats := { m.stats with networkErrors := m.stats.networkErrors + 1 } }

def forward (net : Network) (r : Request) : Task Manager (Except CacheError Response) :=
  .act (fun m => ((), m.countMiss.call r)) fun () =>
    .waits (net r).delay <|
      match (net r).outcome with
      | .crash => .crash
      | .response response => .act (fun m => ((), m.recordMiss true)) fun () => .done (.ok response)
      | .failure e => .act (fun m => ((), m.recordMiss false)) fun () => .done (.error (.fetch e))

def fetchTask (net : Network) (r : Request) : Task Manager (Except CacheError Response) :=
  .act bucket fun
    | .error e => .done (.error e)
    | .ok h =>
      .act (fun m => ((m.entries h).get? r.key, m)) fun
        | some response => .act (fun m => ((), m.countHit)) fun () => .done (.ok response)
        | none => forward net r

/-- Installs at once. No result means that the network crashed. -/
def install [Idna] (net : Network) (m : Manager) : Option (Except InstallError Unit) × Manager :=
  (installTask net).run m

def fetch (net : Network) (r : Request) (m : Manager) :
    Option (Except CacheError Response) × Manager :=
  (fetchTask net r).run m

end Manager

end AssetCache
