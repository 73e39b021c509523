import AssetCache.Toml.Text

namespace AssetCache.Toml

structure Traits where
  hasControl : Bool
  hasBackslash : Bool
  hasQuote : Bool
  hasNewline : Bool
  /-- the longest run of double quotes -/
  quotes : Nat
  /-- the longest run of single quotes -/
  apostrophes : Nat
deriving DecidableEq, Repr

def longestRun (c : Char) (now best : Nat) : List Char → Nat
  | [] => best
  | d :: ds =>
    if d = c then longestRun c (now + 1) (max best (now + 1)) ds else longestRun c 0 best ds

def Traits.of (cs : List Char) : Traits where
  hasControl := cs.any fun c => isControl c && c != '\n'
  hasBackslash := cs.contains '\\'
  hasQuote := cs.contains '"'
  hasNewline := cs.contains '\n'
  quotes := longestRun '"' 0 0 cs
  apostrophes := longestRun '\'' 0 0 cs

inductive Quotes where
  | basic
  | literal
  | lines
  | literalLines
deriving DecidableEq, Repr

def Traits.choose (t : Traits) : Quotes :=
  if !t.hasControl && !t.hasBackslash && !t.hasQuote && !t.hasNewline then .basic
  else if !t.hasControl && t.apostrophes = 0 && !t.hasNewline then .literal
  else if !t.hasControl && !t.hasBackslash && t.quotes ≤ 2 then .lines
  else if !t.hasControl && t.apostrophes ≤ 2 then .literalLines
  else if t.hasNewline then .lines
  else .basic

def hexDigit (n : Nat) : Char := if n < 10 then Nat.digitChar n else Char.ofNat (n + 55)

def escape (c : Char) : List Char :=
  if c = '\x08' then ['\\', 'b']
  else if c = '\t' then ['\\', 't']
  else if c = '\n' then ['\\', 'n']
  else if c = '\x0c' then ['\\', 'f']
  else if c = '\r' then ['\\', 'r']
  else if c = '"' then ['\\', '"']
  else if c = '\\' then ['\\', '\\']
  else if isControl c then
    ['\\', 'u', '0', '0', hexDigit (c.toNat / 16 % 16), hexDigit (c.toNat % 16)]
  else [c]

/-- On several lines newlines stand for themselves, and of quotes in a row only every third is
escaped; `run` counts the quotes before that are not. -/
def escapeLines (run : Nat) : List Char → List Char
  | [] => []
  | c :: cs =>
    if c = '"' then
      if run = 2 then '\\' :: '"' :: escapeLines 0 cs else '"' :: escapeLines (run + 1) cs
    else if c = '\n' then '\n' :: escapeLines 0 cs
    else escape c ++ escapeLines 0 cs

def opening (t : Traits) (quote : Char) : List Char :=
  List.replicate 3 quote ++ if t.hasNewline then ['\n'] else []

def writeString (s : String) : List Char :=
  let cs := s.toList
  let t := Traits.of cs
  match t.choose with
  | .basic => '"' :: (cs.flatMap escape ++ ['"'])
  | .literal => '\'' :: (cs ++ ['\''])
  | .lines => opening t '"' ++ escapeLines 0 cs ++ List.replicate 3 '"'
  | .literalLines => opening t '\'' ++ cs ++ List.replicate 3 '\''

end AssetCache.Toml
