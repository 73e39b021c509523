import AssetCache.Decimal.Reader
import AssetCache.Settings.Basic
import AssetCache.Settings.Tree

namespace AssetCache.Settings

open Decimal (Binary64)

/-- A value of another kind than the one expected, with its key and its source as far as they are
known. -/
structure Mismatch where
  found : String
  expected : String
  key : Option String
  source : Option String
deriving DecidableEq, Repr

def Mismatch.message (m : Mismatch) : String :=
  "invalid type: " ++ m.found ++ ", expected " ++ m.expected ++
    (m.key.elim "" fun k => " for key \x60" ++ k ++ "\x60") ++
    (m.source.elim "" fun s => " in " ++ s)

def ticked (s : String) : String := "\x60" ++ s ++ "\x60"

def boolText (b : Bool) : String := if b then "true" else "false"

def floatText : Binary64 → String
  | x@(.finite ..) => if x.text.toList.contains '.' then x.text else x.text ++ ".0"
  | x => x.text

def Tree.described : Tree → String
  | .scalar _ .nothing => "unit value"
  | .scalar _ (.bool b) => "boolean " ++ ticked (boolText b)
  | .scalar _ (.int n) => "integer " ++ ticked (Int.repr n)
  | .scalar _ (.float x) => "floating point " ++ ticked (floatText x)
  | .scalar _ (.text s) => "string " ++ Text.quoted s
  | .list .. => "sequence"
  | .table .. => "map"

def Tree.source : Tree → Option String
  | .scalar source _ | .list source _ | .table source _ => source

def asText (key : String) (t : Tree) : Except Mismatch String :=
  match t with
  | .scalar _ (.text s) => .ok s
  | .scalar _ (.bool b) => .ok (boolText b)
  | .scalar _ (.int n) => .ok (Int.repr n)
  | .scalar _ (.float x) => .ok x.text
  | t => .error ⟨t.described, "a string", some key, t.source⟩

def natOfText (s : String) : Option Nat :=
  let word := String.ofList (Text.lower s.toList)
  if word = "true" ∨ word = "on" ∨ word = "yes" then some 1
  else if word = "false" ∨ word = "off" ∨ word = "no" then some 0
  else Decimal.nat64? s

/-- A whole number of 64 bits; floats are rounded and cut to the range. -/
def asNat (key : String) (t : Tree) : Except Mismatch Nat :=
  match t with
  | .scalar _ (.int (.ofNat n)) => .ok n
  | .scalar source (.int n) =>
    .error ⟨"64-bit integer " ++ ticked (Int.repr n), "an unsigned 64 bit or less integer",
      some key, source⟩
  | .scalar source (.text s) =>
    match natOfText s with
    | some n => .ok n
    | none => .error ⟨"string " ++ Text.quoted s, "an integer", some key, source⟩
  | .scalar _ (.bool b) => .ok (if b then 1 else 0)
  | .scalar _ (.float x) => .ok (x.toNatClamped (Nat.pow 2 64 - 1))
  | t => .error ⟨t.described, "an integer", some key, t.source⟩

def asUInt64 (key : String) (t : Tree) : Except Mismatch UInt64 :=
  (asNat key t).map UInt64.ofNat

def asUInt16 (key : String) (t : Tree) : Except Mismatch UInt16 :=
  match asNat key t with
  | .error e => .error e
  | .ok n =>
    if n < 65536 then .ok (UInt16.ofNat n)
    else
      .error ⟨"64-bit unsigned integer " ++ ticked (Nat.repr n), "an unsigned 16 bit integer",
        some key, none⟩

def itemKey (key : String) (i : Nat) : String := key ++ "[" ++ Nat.repr i ++ "]"

def asTextsFrom (key : String) (i : Nat) : List Tree → Except Mismatch (List String)
  | [] => .ok []
  | t :: rest => do
    let s ← asText (itemKey key i) t
    let ss ← asTextsFrom key (i + 1) rest
    pure (s :: ss)

def asTexts (key : String) (t : Tree) : Except Mismatch (List String) :=
  match t with
  | .list _ items => asTextsFrom key 0 items
  | t => .error ⟨t.described, "a sequence", none, none⟩

def asOptionalText (key : String) (t : Tree) : Except Mismatch (Option String) :=
  match t with
  | .scalar _ .nothing => .ok none
  | t => (asText key t).map some

structure Field (σ : Type) where
  name : String
  read : String → Tree → σ → Except Mismatch σ

def readMembers {σ : Type} (section' : String) (ms : List (String × Tree)) :
    List (Field σ) → σ → Except Mismatch σ
  | [], s => .ok s
  | f :: rest, s =>
    match ms.lookup f.name with
    | none => readMembers section' ms rest s
    | some t => do readMembers section' ms rest (← f.read (section' ++ "." ++ f.name) t s)

def readItems {σ : Type} (section' : String) (i : Nat) :
    List (Field σ) → List Tree → σ → Except Mismatch σ
  | f :: fields, t :: ts, s => do
    readItems section' (i + 1) fields ts (← f.read (itemKey section' i) t s)
  | _, _, s => .ok s

/-- A section: its fields by name, or in order; `structName` is what it is called where something
else stands in its place. -/
def readSection {σ : Type} (section' structName : String) (fields : List (Field σ)) (start : σ)
    (t : Tree) : Except Mismatch σ :=
  match t with
  | .table _ ms => readMembers section' ms fields start
  | .list _ items => readItems section' 0 fields items start
  | t => .error ⟨t.described, "struct " ++ structName, none, none⟩

def serverFields : List (Field ServerSettings) :=
  [⟨"host", fun key t s => (asText key t).map fun v => { s with host := v }⟩,
   ⟨"port", fun key t s => (asUInt16 key t).map fun v => { s with port := v }⟩]

def cacheFields : List (Field CacheSettings) :=
  [⟨"name", fun key t s => (asText key t).map fun v => { s with name := v }⟩,
   ⟨"manifest", fun key t s => (asTexts key t).map fun v => { s with manifest := v }⟩,
   ⟨"origin", fun key t s => (asText key t).map fun v => { s with origin := v }⟩,
   ⟨"persist_dir", fun key t s => (asOptionalText key t).map fun v => { s with persistDir := v }⟩]

def networkFields : List (Field NetworkSettings) :=
  [⟨"timeout_seconds", fun key t s =>
      (asUInt64 key t).map fun v => { s with timeoutSeconds := v }⟩,
   ⟨"connect_timeout_seconds", fun key t s =>
      (asUInt64 key t).map fun v => { s with connectTimeoutSeconds := v }⟩,
   ⟨"user_agent", fun key t s => (asText key t).map fun v => { s with userAgent := v }⟩]

def loggingFields : List (Field LoggingSettings) :=
  [⟨"level", fun key t s => (asText key t).map fun v => { s with level := v }⟩,
   ⟨"format", fun key t s => (asText key t).map fun v => { s with format := v }⟩]

def settingsFields : List (Field Settings) :=
  [⟨"server", fun _ t s =>
      (readSection "server" "ServerConfig" serverFields default.server t).map fun v =>
        { s with server := v }⟩,
   ⟨"cache", fun _ t s =>
      (readSection "cache" "CacheSettings" cacheFields default.cache t).map fun v =>
        { s with cache := v }⟩,
   ⟨"network", fun _ t s =>
      (readSection "network" "NetworkConfig" networkFields default.network t).map fun v =>
        { s with network := v }⟩,
   ⟨"logging", fun _ t s =>
      (readSection "logging" "LoggingConfig" loggingFields default.logging t).map fun v =>
        { s with logging := v }⟩]

def decode (t : Tree) : Except Mismatch Settings := readMembers "" t.members settingsFields default

def toTree (s : Settings) : Tree :=
  .table none
    [("server", .table none [("host", .text s.server.host), ("port", .int s.server.port.toNat)]),
     ("cache", .table none <|
       [("name", .text s.cache.name), ("manifest", .list none (s.cache.manifest.map .text)),
        ("origin", .text s.cache.origin)] ++
         (s.cache.persistDir.elim [] fun d => [("persist_dir", .text d)])),
     ("network", .table none
       [("timeout_seconds", .int s.network.timeoutSeconds.toNat),
        ("connect_timeout_seconds", .int s.network.connectTimeoutSeconds.toNat),
        ("user_agent", .text s.network.userAgent)]),
     ("logging", .table none
       [("level", .text s.logging.level), ("format", .text s.logging.format)])]

end AssetCache.Settings
