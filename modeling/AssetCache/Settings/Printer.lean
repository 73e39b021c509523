import AssetCache.Settings.Basic
import AssetCache.Toml.Written

namespace AssetCache.Settings

inductive Written where
  | text (s : String)
  | number (n : Nat)
  | texts (ss : List String)

namespace Written

/-- Two texts or more stand one on a line. -/
def chars : Written → List Char
  | text s => Toml.writeString s
  | number n => (Nat.repr n).toList
  | texts [] => ['[', ']']
  | texts [s] => '[' :: (Toml.writeString s ++ [']'])
  | texts ss =>
    let items := ss.flatMap fun s => "    ".toList ++ Toml.writeString s ++ ",\n".toList
    "[\n".toList ++ items ++ [']']

/-- TOML has whole numbers of 64 bits with a sign. -/
def fits : Written → Bool
  | number n => n < Nat.pow 2 63
  | _ => true

end Written

def sections (s : Settings) : List (String × List (String × Written)) :=
  [("server", [("host", .text s.server.host), ("port", .number s.server.port.toNat)]),
   ("cache",
     [("name", .text s.cache.name), ("manifest", .texts s.cache.manifest),
      ("origin", .text s.cache.origin)] ++
       s.cache.persistDir.elim [] fun d => [("persist_dir", .text d)]),
   ("network",
     [("timeout_seconds", .number s.network.timeoutSeconds.toNat),
      ("connect_timeout_seconds", .number s.network.connectTimeoutSeconds.toNat),
      ("user_agent", .text s.network.userAgent)]),
   ("logging", [("level", .text s.logging.level), ("format", .text s.logging.format)])]

def lineChars (line : String × Written) : List Char :=
  line.1.toList ++ " = ".toList ++ line.2.chars ++ ['\n']

def sectionChars (part : String × List (String × Written)) : List Char :=
  '[' :: (part.1.toList ++ "]\n".toList ++ part.2.flatMap lineChars)

def chars (s : Settings) : List Char := ['\n'].intercalate (s.sections.map sectionChars)

def isPrintable (s : Settings) : Bool :=
  s.sections.all fun part => part.2.all fun line => line.2.fits

def print (s : Settings) : Except String String :=
  if s.isPrintable then .ok (String.ofList s.chars) else .error "out-of-range value for u64 type"

end AssetCache.Settings
