import AssetCache.Failure
import AssetCache.Manifest

namespace AssetCache

structure ServerSettings where
  host : String
  port : UInt16
deriving DecidableEq, Repr

structure CacheSettings where
  name : String
  manifest : Manifest
  origin : String
  persistDir : Option String
deriving DecidableEq, Repr

structure NetworkSettings where
  timeoutSeconds : UInt64
  connectTimeoutSeconds : UInt64
  userAgent : String
deriving DecidableEq, Repr

structure LoggingSettings where
  level : String
  format : String
deriving DecidableEq, Repr

structure Settings where
  server : ServerSettings
  cache : CacheSettings
  network : NetworkSettings
  logging : LoggingSettings
deriving DecidableEq, Repr

namespace Settings

def default : Settings where
  server := ⟨"127.0.0.1", 8080⟩
  cache :=
    ⟨"app-cache-v1", ["cengine.html", "cengine.js", "cengine.wasm", "cengine.data"],
     "http://127.0.0.1:8000/", none⟩
  network := ⟨30, 10, "precache/0.1.0"⟩
  logging := ⟨"info", "pretty"⟩

/-- The origin as the base of all that is fetched. It ends in a slash, so that a relative reference
comes after it and does not replace its last part. -/
def originUrl [Idna] (s : Settings) : Except CacheError Url :=
  let origin := s.cache.origin
  let text := if origin.toList.getLast? = some '/' then origin else origin ++ "/"
  match Url.parse text with
  | .error e =>
    .error (.config ("invalid cache.origin " ++ Text.quoted origin ++ ": " ++ e.message))
  | .ok url =>
    if url.isHttp then .ok url
    else
      .error (.config ("cache.origin must be http or https, got " ++ String.ofList url.scheme))

/-- What the types leave open: the origin can be used, and the bucket has a name. -/
def validate [Idna] (s : Settings) : Except CacheError Unit :=
  match s.originUrl with
  | .error e => .error e
  | .ok _ =>
    if Text.isAllBlank s.cache.name then .error (.config "cache.name must not be empty")
    else .ok ()

end Settings

end AssetCache
