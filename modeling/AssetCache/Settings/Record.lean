import AssetCache.Json.Shape
import AssetCache.Json.Value
import AssetCache.Settings.Basic

namespace AssetCache.Settings

namespace Record

structure Draft (σ : Type) where
  value : σ
  set : List String

def field {σ α : Type} (name : String) (read : Json.Node → Except Json.Fault α)
    (put : α → σ → σ) : Json.Node.Field (Draft σ) where
  name := name
  isSet d := d.set.contains name
  read v d := (read v).map fun a => ⟨put a d.value, name :: d.set⟩

def structureOf {σ : Type} (fields : List (Json.Node.Field (Draft σ))) (start : σ)
    (v : Json.Node) : Except Json.Fault σ :=
  (v.asFields fields ⟨start, []⟩).map Draft.value

def asUInt16 (v : Json.Node) : Except Json.Fault UInt16 := (v.asNat 65536).map UInt16.ofNat

def asUInt64 (v : Json.Node) : Except Json.Fault UInt64 := (v.asNat (Nat.pow 2 64)).map UInt64.ofNat

def asText (v : Json.Node) : Except Json.Fault String := v.asText

def server : Json.Node → Except Json.Fault ServerSettings :=
  structureOf
    [field "host" asText fun v s => { s with host := v },
     field "port" asUInt16 fun v s => { s with port := v }] default.server

def cache : Json.Node → Except Json.Fault CacheSettings :=
  structureOf
    [field "name" asText fun v s => { s with name := v },
     field "manifest" (Json.Node.asList asText) fun v s => { s with manifest := v },
     field "origin" asText fun v s => { s with origin := v },
     field "persist_dir" (Json.Node.asOptional asText) fun v s => { s with persistDir := v }]
    default.cache

def network : Json.Node → Except Json.Fault NetworkSettings :=
  structureOf
    [field "timeout_seconds" asUInt64 fun v s => { s with timeoutSeconds := v },
     field "connect_timeout_seconds" asUInt64 fun v s => { s with connectTimeoutSeconds := v },
     field "user_agent" asText fun v s => { s with userAgent := v }]
    default.network

def logging : Json.Node → Except Json.Fault LoggingSettings :=
  structureOf
    [field "level" asText fun v s => { s with level := v },
     field "format" asText fun v s => { s with format := v }] default.logging

def settings : Json.Node → Except Json.Fault Settings :=
  structureOf
    [field "server" server fun v s => { s with server := v },
     field "cache" cache fun v s => { s with cache := v },
     field "network" network fun v s => { s with network := v },
     field "logging" logging fun v s => { s with logging := v }]
    default

end Record

def ofJson (cs : List Char) : Except Json.Fault Settings := Json.read Record.settings cs

def toJson (s : Settings) : Json.Value :=
  .record
    [("server", .record
       [("host", .text s.server.host), ("port", .number s.server.port.toNat)]),
     ("cache", .record <|
       [("name", .text s.cache.name), ("manifest", .list (s.cache.manifest.map .text)),
        ("origin", .text s.cache.origin)] ++
         s.cache.persistDir.elim [] fun d => [("persist_dir", .text d)]),
     ("network", .record
       [("timeout_seconds", .number s.network.timeoutSeconds.toNat),
        ("connect_timeout_seconds", .number s.network.connectTimeoutSeconds.toNat),
        ("user_agent", .text s.network.userAgent)]),
     ("logging", .record
       [("level", .text s.logging.level), ("format", .text s.logging.format)])]

end AssetCache.Settings
