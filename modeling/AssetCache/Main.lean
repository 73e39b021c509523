import AssetCache.Connection
import AssetCache.Front.Calls
import AssetCache.Program
import AssetCache.Uuid
import Std.Async.Signal
import Std.Time

namespace AssetCache.Main

open Std.Async

def variablesOf (block : String) : List (String × String) :=
  (block.toList.splitOn '\x00').filterMap fun cs =>
    match cs.dropWhile (· != '=') with
    | _ :: value => some (String.ofList (cs.takeWhile (· != '=')), String.ofList value)
    | [] => none

def finish (e : Program.Exit) : IO UInt32 := do
  IO.print e.output
  IO.eprint e.errors
  return UInt32.ofNat e.code

def withFile (d : Disk) (place : Disk.Path) (bytes : ByteArray) : Disk :=
  ((d.makeFolders place.dropLast).2.writeFile place bytes).2

def bringIn (path : String) (place : Disk.Path) (d : Disk) : IO Disk := do
  match ← EIO.toBaseIO (IO.FS.readBinFile path) with
  | .ok bytes => return withFile d place bytes
  | .error _ => return d

def candidates (path : String) : List String := [path, path ++ ".toml", path ++ ".json"]

def bringInSettings (s : Settings.Surroundings) (line : CommandLine) :
    IO Settings.Surroundings := do
  let mut disk := s.disk
  for path in candidates (line.config.getD (Settings.userFile s.home)) do
    disk ← bringIn path (s.place path) disk
  return { s with disk }

def leadingTo (path : String) : List String :=
  let names := path.splitOn "/"
  (List.range names.length).map fun n => "/".intercalate (names.take (n + 1))

/-- Brings in the bucket's snapshot, or a file that stands where its folder should be. -/
def bringInSnapshot (s : CacheSettings) (d : Disk) : IO Disk :=
  match s.persistDir with
  | none => return d
  | some home => do
    let mut d := d
    for path in leadingTo (Snapshot.shownPath home s.name) do
      d ← bringIn path (Disk.Path.ofText path) d
    return d

def writeSnapshot (home name : String) (bytes : ByteArray) : IO Unit := do
  let target := Snapshot.shownPath home name
  IO.FS.createDirAll home
  IO.FS.writeBinFile (target ++ ".tmp") bytes
  IO.FS.rename (target ++ ".tmp") target

def carryOut (s : CacheSettings) (before after : Disk) : IO (Option IO.Error) :=
  match s.persistDir with
  | none => return none
  | some home => do
    match (after.bytesAt (Snapshot.path home s.name)).toOption with
    | none => return none
    | some bytes =>
      if (before.bytesAt (Snapshot.path home s.name)).toOption = some bytes then return none
      match ← EIO.toBaseIO (writeSnapshot home s.name bytes) with
      | .ok () => return none
      | .error e => return some e

def circumstances : IO Circumstances := do
  let bytes ← IO.getRandomBytes 16
  let now := Std.Time.DateTime.ofTimestamp (← Std.Time.Timestamp.now) .UTC
  return ⟨Uuid.text bytes.data.toList, now.format "uuuu-MM-dd'T'HH:mm:ss.nnnnnnnnnxxx"⟩

abbrev Ask := List Request → Async (List (Request × Outcome))

/-- Answers a request, for which the network is asked before. The site's manager is the one in
`cell`. -/
def answer (site : Site) (cell : IO.Ref Manager) (ask : Ask) (r : Http.Inbound) :
    Async Http.Page := do
  let c ← circumstances
  let net := Network.recorded (← ask ((site.withManager (← cell.get)).answerCalls r c))
  cell.modifyGet fun m =>
    let (page, site) := (site.withManager m).answer (Manager.worker net) r c
    (page, site.withoutCalls.manager)

def signalled (signals : List Signal) : Async Unit := do
  let waiters ← signals.mapM fun signal => Signal.Waiter.mk signal false
  let tasks ← waiters.mapM (·.wait)
  Async.raceAll (tasks.map fun task => (discard (await task) : Async Unit))

def serve (site : Site) (ask : Ask) (server : TCP.Socket.Server) : Async Unit := do
  let cell ← IO.mkRef site.manager
  let active ← IO.mkRef 0
  background (Connection.acceptAll server
    (Connection.exchange Site.bodyLimit (answer site cell ask) active))
  signalled [.sigterm, .sigint]
  Connection.settle active

def runFrom (surroundings : Settings.Surroundings) (line : CommandLine) (start : Program.Start) :
    IO UInt32 := do
  let settings := start.settings
  let disk ← bringInSnapshot settings.cache surroundings.disk
  let ask := Connection.askAll start.client (Connection.transport settings.network)
  let site := Program.site settings start.origin disk
  let net := Network.recorded (← (ask site.installCalls).block)
  let world : World := ⟨{ surroundings with disk }, fun _ => Client.silence, fun _ => none⟩
  let ending := Program.install world settings line.installOnly start.origin net
  match ← carryOut settings.cache disk ending.disk with
  | some e =>
    let failure := Manager.failed (.io (Connection.systemError e))
    finish (Program.installFailed settings.cache.name (.install failure))
  | none =>
    match ending with
    | .exit e _ => finish e
    | .serving endpoint site _ =>
      match ← EIO.toBaseIO (Connection.listenAt endpoint) with
      | .error e => finish (Program.refused (Connection.systemError e))
      | .ok server =>
        (serve site ask server).block
        return 0

def runWith (surroundings : Settings.Surroundings) (line : CommandLine) : IO UInt32 := do
  let surroundings ← bringInSettings surroundings line
  match Program.begin surroundings line with
  | .error e => finish e
  | .ok start => runFrom surroundings line start

end AssetCache.Main

def main (args : List String) : IO UInt32 := do
  let folder := (← IO.currentDir).toString
  let home := (← IO.getEnv "HOME").getD "."
  let block ← EIO.toBaseIO (IO.FS.readFile "/proc/self/environ")
  let environment := AssetCache.Main.variablesOf (block.toOption.getD "")
  let fallback := environment.lookup AssetCache.CommandLine.configVariable
  match AssetCache.CommandLine.parse fallback args with
  | .error stop => AssetCache.Main.finish (AssetCache.Program.stopped fallback stop)
  | .ok line => AssetCache.Main.runWith ⟨folder, home, environment, .empty⟩ line
