import AssetCache.Address
import AssetCache.Http.Wire
import Std.Async.DNS
import Std.Async.TCP
import Std.Async.Timer

namespace AssetCache.Connection

open Client (Loss Outbound)
open Http (Inbound Page)
open Http.Wire (Arrival)
open Std.Async
open Std.Net

def systemError (e : IO.Error) : SystemError :=
  match e with
  | .otherError code _ | .resourceBusy code _ | .unsupportedOperation code _
  | .permissionDenied _ code _ | .noFileOrDirectory _ code _ | .inappropriateType _ code _
  | .alreadyExists _ code _ | .resourceExhausted _ code _ | .invalidArgument _ code _
  | .noSuchThing _ code _ | .hardwareFault code _ | .timeExpired code _ | .interrupted _ code _ =>
    .code (code.toInt32.toInt.natAbs : Nat)
  | e => .other (toString e)

def address : Endpoint → SocketAddress
  | ⟨.v4 a b c d, port, _⟩ => .v4 ⟨.ofParts a b c d, port⟩
  | ⟨.v6 groups, port, _⟩ => .v6 ⟨⟨groups⟩, port⟩

def addressAt (port : UInt16) : IPAddr → SocketAddress
  | .v4 ip => .v4 ⟨ip, port⟩
  | .v6 ip => .v6 ⟨ip, port⟩

def chunkSize : UInt64 := 65536

def next (socket : TCP.Socket.Client) : Async (Except Loss ByteArray) := do
  match ← socket.recv? chunkSize with
  | none => return .error .lost
  | some piece => return .ok piece

def joined (pieces : List ByteArray) : ByteArray := pieces.reverse.foldl (· ++ ·) .empty

/-- Receives until so many bytes are no longer missing, or nothing more comes. `pieces` are those
that are there, the last first. -/
partial def gather (next : Async (Except Loss ByteArray)) (pieces : List ByteArray)
    (missing : Nat) : Async (ByteArray × Option Loss) := do
  match ← next with
  | .error loss => return (joined pieces, some loss)
  | .ok piece =>
    if piece.size < missing then gather next (piece :: pieces) (missing - piece.size)
    else return (joined (piece :: pieces), none)

/-- Receives until what has arrived can be read: `none` if it cannot. -/
partial def receive {α : Type} (next : Async (Except Loss ByteArray))
    (read : Option Loss → ByteArray → Arrival α) (bytes : ByteArray) (missing : Nat) :
    Async (Except Loss (Option α)) := do
  let (bytes, ended) ← gather next [bytes] missing
  match read ended bytes, ended with
  | .complete a, _ => return .ok (some a)
  | .malformed, _ => return .ok none
  | .more missing, none => receive next read bytes missing
  | .more _, some loss => return .error loss

def clock (seconds : UInt64) : Async Sleep :=
  Sleep.mk (Std.Time.Millisecond.Offset.ofNat (min seconds.toNat 31536000 * 1000))

def before {α : Type} (clock : Sleep) (work : Async (Except Loss α)) : Async (Except Loss α) :=
  let watched : Async (Except Loss α) := do
    try work
    catch _ => return .error .lost
  Async.race watched (do clock.wait; return .error .late)

def connect : List SocketAddress → Async (Except Loss TCP.Socket.Client)
  | [] => return .error .lost
  | there :: others => do
    try
      let socket ← TCP.Socket.Client.mk
      socket.connect there
      return .ok socket
    catch _ => connect others

def hostName (u : Url) : String :=
  String.ofList ((u.authority.elim [] (·.host)).filter fun c => c ≠ '[' ∧ c ≠ ']')

def reach (u : Url) : Async (Except Loss TCP.Socket.Client) := do
  let port := UInt16.ofNat (((Client.serverOf u).bind (·.2)).getD 80)
  let found ← DNS.getAddrInfo (hostName u) ""
  connect (found.toList.map (addressAt port))

def askOver (clock : Sleep) (socket : TCP.Socket.Client) (o : Outbound) :
    Async (Except Loss Client.Reply) := do
  let sent ← before clock (do socket.send (Http.Wire.ofOutbound o); return .ok ())
  match sent with
  | .error loss => return .error loss
  | .ok () =>
    match ← receive (before clock (next socket)) (Http.Wire.replyOf o.method) .empty 1 with
    | .error loss => return .error loss
    | .ok none => return .error .lost
    | .ok (some reply) => return .ok reply

def transport (s : NetworkSettings) : Client.Transport Async := fun o => do
  if o.url.scheme ≠ "http".toList then return .error .lost
  let whole ← clock s.timeoutSeconds
  let opening ← clock s.connectTimeoutSeconds
  let reached ← before whole (before opening (reach o.url))
  opening.stop
  let result ← match reached with
    | .error loss => pure (.error loss)
    | .ok socket => askOver whole socket o
  whole.stop
  return result

def askAll [Idna] (client : Client) (t : Client.Transport Async) (requests : List Request) :
    Async (List (Request × Outcome)) := do
  let ask := fun r => do return (r, Client.outcome (← client.fetch t r))
  return (← Async.concurrentlyAll (requests.map ask).toArray).toList

/-- Receives what is left, so that the other side can read to the end what it has been sent. -/
partial def drain (socket : TCP.Socket.Client) : Async Unit := do
  match ← socket.recv? chunkSize with
  | some _ => drain socket
  | none => return

/-- One exchange. `active` counts those that are not at their end. -/
def exchange (limit : Nat) (answer : Inbound → Async Page) (active : IO.Ref Nat)
    (socket : TCP.Socket.Client) : Async Unit := do
  match ← receive (next socket) (fun _ => Http.Wire.inboundOf limit) .empty 1 with
  | .error _ => return
  | .ok r =>
    active.modify (· + 1)
    try
      match r with
      | none => socket.send Http.Wire.refusal
      | some r => socket.send (Http.Wire.ofPage r.method (← answer r))
    finally
      active.modify (· - 1)
    socket.shutdown
    drain socket

def listenAt (endpoint : Endpoint) : IO TCP.Socket.Server := do
  let server ← TCP.Socket.Server.mk
  server.bind (address endpoint)
  server.listen 1024
  return server

partial def acceptAll (server : TCP.Socket.Server) (serve : TCP.Socket.Client → Async Unit) :
    Async Unit := do
  try
    let socket ← server.accept
    background (serve socket)
  catch _ => sleep 1000
  acceptAll server serve

partial def settle (active : IO.Ref Nat) : Async Unit := do
  if (← active.get) = 0 then return
  sleep 10
  settle active

end AssetCache.Connection
