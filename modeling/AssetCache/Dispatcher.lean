import AssetCache.Failure
import AssetCache.Resource
import AssetCache.Task

namespace AssetCache

structure Worker (σ : Type) where
  install : Task σ (Except InstallError Unit)
  fetch : Request → Task σ (Except CacheError Response)

inductive Event where
  | install
  | fetch (r : Request)
deriving DecidableEq

/-- What the sender of an event is told. An event is dropped if its work crashed or never began. -/
inductive Reply where
  | installed (result : Except InstallError Unit)
  | fetched (result : Except CacheError Response)
  | dropped

namespace Reply

def toInstall : Reply → Except CacheError Unit
  | installed (.ok ()) => .ok ()
  | installed (.error e) => .error (.install e)
  | _ => .error (.internal "Install event dropped")

def toFetch : Reply → Except CacheError Response
  | fetched result => result
  | _ => .error (.internal "Fetch event dropped")

end Reply

/-- Events bear the number of those sent before them. `running` tells whether events are taken at
all; once it is false it stays so. -/
structure Dispatcher (σ : Type) where
  capacity : Nat
  running : Bool
  sent : Nat
  queue : List (Nat × Event)
  installing : Option (Nat × Task σ (Except InstallError Unit))
  fetching : List (Nat × Task σ (Except CacheError Response))
  replies : List (Nat × Reply)
  shared : σ

namespace Dispatcher

variable {σ : Type}

/-- A queue has room for one event at least. -/
def begin (capacity : Nat) (shared : σ) : Dispatcher σ :=
  ⟨max capacity 1, true, 0, [], none, [], [], shared⟩

def hasRoom (d : Dispatcher σ) : Bool := d.queue.length < d.capacity

/-- One step of a sender, of the dispatcher or of a fetch. -/
inductive Action where
  | send (e : Event)
  | take
  | install
  | fetch (ticket : Nat)
deriving DecidableEq

def enqueue (d : Dispatcher σ) (e : Event) : Dispatcher σ :=
  { d with queue := d.queue ++ [(d.sent, e)], sent := d.sent + 1 }

def reply (d : Dispatcher σ) (ticket : Nat) (r : Reply) : Dispatcher σ :=
  { d with replies := (ticket, r) :: d.replies }

def stop (d : Dispatcher σ) : Dispatcher σ :=
  { d with
    running := false
    queue := []
    installing := none
    replies := (d.queue.map fun q => (q.1, .dropped)).reverse ++ d.replies }

def take (w : Worker σ) (d : Dispatcher σ) : Dispatcher σ :=
  match d.queue with
  | [] => d
  | (ticket, .install) :: queue => { d with queue, installing := some (ticket, w.install) }
  | (ticket, .fetch r) :: queue =>
    { d with queue, fetching := d.fetching ++ [(ticket, w.fetch r)] }

def afterInstall (d : Dispatcher σ) (ticket : Nat) :
    Task σ (Except InstallError Unit) → Dispatcher σ
  | .done result => { d with installing := none }.reply ticket (.installed result)
  | .crash => (d.reply ticket .dropped).stop
  | rest => { d with installing := some (ticket, rest) }

def afterFetch (d : Dispatcher σ) (ticket : Nat) (rest : Task σ (Except CacheError Response)) :
    Dispatcher σ :=
  let others := d.fetching.filter fun f => f.1 ≠ ticket
  match rest with
  | .done result => { d with fetching := others }.reply ticket (.fetched result)
  | .crash => { d with fetching := others }.reply ticket .dropped
  | rest =>
    { d with fetching := d.fetching.map fun f => if f.1 = ticket then (ticket, rest) else f }

/-- The state after an action, if the action is possible. -/
def step (w : Worker σ) (d : Dispatcher σ) : Action → Option (Dispatcher σ)
  | .send e => if d.running && d.hasRoom then some (d.enqueue e) else none
  | .take =>
    if d.running && d.installing.isNone && !d.queue.isEmpty then some (d.take w) else none
  | .install =>
    match d.installing with
    | none => none
    | some (ticket, task) =>
      let (rest, shared) := task.advance d.shared
      some ({ d with shared }.afterInstall ticket rest)
  | .fetch ticket =>
    match d.fetching.lookup ticket with
    | none => none
    | some task =>
      let (rest, shared) := task.advance d.shared
      some ({ d with shared }.afterFetch ticket rest)

def pollInstall (d : Dispatcher σ) : Dispatcher σ :=
  match d.installing with
  | none => d
  | some (ticket, task) =>
    let (rest, shared) := task.poll d.shared
    { d with shared }.afterInstall ticket rest

def endInstall (d : Dispatcher σ) : Dispatcher σ :=
  match d.installing with
  | none => d
  | some (ticket, task) =>
    match task.run d.shared with
    | (some result, shared) => { d with shared }.afterInstall ticket (.done result)
    | (none, shared) => { d with shared }.afterInstall ticket .crash

/-- Takes up to `n` events, but none while an install waits. -/
def takeUpTo (w : Worker σ) : Nat → Dispatcher σ → Dispatcher σ
  | 0, d => d
  | n + 1, d =>
    if d.running && d.installing.isNone then takeUpTo w n (d.take w).pollInstall else d

def makeRoom (w : Worker σ) (d : Dispatcher σ) : Dispatcher σ :=
  let d := d.endInstall
  d.takeUpTo w d.queue.length

def send (w : Worker σ) (d : Dispatcher σ) (e : Event) : Bool × Dispatcher σ :=
  if !d.running then (false, d)
  else if d.hasRoom then (true, d.enqueue e)
  else
    let d := d.makeRoom w
    if d.running then (true, d.enqueue e) else (false, d)

def sendAll (w : Worker σ) (d : Dispatcher σ) : List Event → Bool × Dispatcher σ
  | [] => (true, d)
  | e :: rest =>
    match d.send w e with
    | (false, d) => (false, d)
    | (true, d) => d.sendAll w rest

def runFetches (d : Dispatcher σ) : List (Nat × Task σ (Except CacheError Response)) → Dispatcher σ
  | [] => d
  | (ticket, task) :: rest =>
    match task.run d.shared with
    | (some result, shared) => ({ d with shared }.afterFetch ticket (.done result)).runFetches rest
    | (none, shared) => ({ d with shared }.afterFetch ticket .crash).runFetches rest

def drainUpTo (w : Worker σ) : Nat → Dispatcher σ → Dispatcher σ
  | 0, d => d
  | n + 1, d => if d.running then drainUpTo w n (d.take w).endInstall else d

def drain (w : Worker σ) (d : Dispatcher σ) : Dispatcher σ :=
  let d := d.endInstall
  let d := d.drainUpTo w d.queue.length
  d.runFetches d.fetching

def replyTo (d : Dispatcher σ) (ticket : Nat) : Reply := (d.replies.lookup ticket).getD .dropped

/-- Forgets the replies, which have reached their senders. -/
def settled (d : Dispatcher σ) : Dispatcher σ := { d with replies := [] }

def closed : CacheError := .internal "Worker event channel closed"

def install (w : Worker σ) (d : Dispatcher σ) : Except CacheError Unit × Dispatcher σ :=
  match d.send w .install with
  | (false, d) => (.error closed, d)
  | (true, d') =>
    let d' := d'.drain w
    ((d'.replyTo d.sent).toInstall, d'.settled)

def fetch (w : Worker σ) (d : Dispatcher σ) (r : Request) :
    Except CacheError Response × Dispatcher σ :=
  match d.send w (.fetch r) with
  | (false, d) => (.error closed, d)
  | (true, d') =>
    let d' := d'.drain w
    ((d'.replyTo d.sent).toFetch, d'.settled)

/-- Sends all events before it waits for any reply; the replies in the order of the events. -/
def batch (w : Worker σ) (d : Dispatcher σ) (events : List Event) :
    Except CacheError (List Reply) × Dispatcher σ :=
  match d.sendAll w events with
  | (false, d) => (.error closed, (d.drain w).settled)
  | (true, d') =>
    let d' := d'.drain w
    (.ok ((List.range events.length).map fun i => d'.replyTo (d.sent + i)), d'.settled)

end Dispatcher

end AssetCache
