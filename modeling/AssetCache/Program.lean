import AssetCache.Address
import AssetCache.Client
import AssetCache.CommandLine
import AssetCache.Front
import AssetCache.LogFormat
import AssetCache.Settings.Load
import AssetCache.Settings.Printer

namespace AssetCache

/-- What the program meets with: files and an environment, a network, and a system that lets it
listen or tells why not. -/
structure World where
  surroundings : Settings.Surroundings
  transport : NetworkSettings → Client.Transport Id
  refusal : Endpoint → Option SystemError

namespace Program

structure Exit where
  code : Nat
  output : String
  errors : String
deriving DecidableEq, Repr

inductive Ending where
  | exit (e : Exit) (disk : Disk)
  | serving (endpoint : Endpoint) (site : Site) (net : Network)

def Ending.disk : Ending → Disk
  | exit _ disk => disk
  | serving _ site _ => site.manager.store.disk

def indented (width : Nat) (s : String) : String :=
  String.ofList <| s.toList.flatMap fun c => if c = '\n' then c :: List.replicate width ' ' else [c]

def numbered : Nat → List String → String
  | _, [] => ""
  | n, cause :: rest =>
    let number := Nat.repr n
    let blanks := String.ofList (List.replicate (5 - number.length) ' ')
    "\n" ++ blanks ++ number ++ ": " ++ indented 7 cause ++ numbered (n + 1) rest

def report (head : String) (causes : List String) : String :=
  let below := match causes with
    | [] => ""
    | [cause] => "\n\nCaused by:\n    " ++ indented 4 cause
    | causes => "\n\nCaused by:" ++ numbered 0 causes
  "Error: " ++ head ++ below ++ "\n"

def failure (head : String) (causes : List String) : Exit := ⟨1, "", report head causes⟩

def failureOf (e : CacheError) : Exit := failure e.message e.sources

def printed (text : String) : Exit := ⟨0, text, ""⟩

def stopped (fallback : Option String) : CommandLine.Stop → Exit
  | .help => printed (CommandLine.helpText fallback)
  | .version => printed CommandLine.versionText
  | stop => ⟨2, "", "error: " ++ stop.message ++ "\n\nFor more information, try '--help'.\n"⟩

def printSettings (s : Settings) : Exit :=
  match s.print with
  | .ok text => printed text
  | .error e => failure e []

def queueLength : Nat := 1024

def site (s : Settings) (origin : Url) (disk : Disk) : Site :=
  let manager := Manager.begin s.cache.name s.cache.manifest origin (.begin s.cache.persistDir disk)
  ⟨origin, .begin queueLength manager⟩

def refused (e : SystemError) : Exit := failure e.message []

def installFailed (name : String) (e : CacheError) : Exit :=
  failure ("install of bucket " ++ name ++ " failed") (e.message :: e.sources)

def listen (w : World) (s : Settings) (site : Site) (net : Network) : Ending :=
  let disk := site.manager.store.disk
  match Endpoint.ofText? (Endpoint.join s.server.host s.server.port) with
  | none => .exit (failure "invalid socket address syntax" []) disk
  | some endpoint =>
    match w.refusal endpoint with
    | some e => .exit (refused e) disk
    | none => .serving endpoint site net

def install [Idna] (w : World) (s : Settings) (installOnly : Bool) (origin : Url) (net : Network) :
    Ending :=
  let site := site s origin w.surroundings.disk
  let (result, dispatcher) := site.dispatcher.install (Manager.worker net)
  let site := { site with dispatcher }
  let disk := site.manager.store.disk
  match result with
  | .error e => .exit (installFailed s.cache.name e) disk
  | .ok () => if installOnly then .exit (printed "") disk else listen w s site net

/-- What has to be right before anything is installed: the log's format, the origin and the
client's name. -/
def prepare [Idna] (s : Settings) : Except CacheError (Url × Client) := do
  let _ ← LogFormat.ofName s.logging.format
  let origin ← s.originUrl
  let client ← Client.ofSettings s.network
  .ok (origin, client)

structure Start where
  settings : Settings
  origin : Url
  client : Client

/-- All that comes before the install. The run ends here if something is not right, or if only the
settings were asked for. -/
def begin [Idna] (surroundings : Settings.Surroundings) (line : CommandLine) : Except Exit Start :=
  match Settings.load line.config surroundings with
  | .error e => .error (failureOf e)
  | .ok s =>
    let s := line.apply s
    if line.printConfig then .error (printSettings s)
    else
      match prepare s with
      | .error e => .error (failureOf e)
      | .ok (origin, client) => .ok ⟨s, origin, client⟩

def runWith [Idna] (w : World) (line : CommandLine) : Ending :=
  match begin w.surroundings line with
  | .error e => .exit e w.surroundings.disk
  | .ok start =>
    let net := start.client.network (w.transport start.settings.network)
    install w start.settings line.installOnly start.origin net

def run [Idna] (w : World) (args : List String) : Ending :=
  let fallback := w.surroundings.environment.reverse.lookup CommandLine.configVariable
  match CommandLine.parse fallback args with
  | .error stop => .exit (stopped fallback stop) w.surroundings.disk
  | .ok line => runWith w line

end Program

/-- The program is built without the tables of international names, and refuses a host that needs
them. -/
instance : Idna := .empty

end AssetCache
