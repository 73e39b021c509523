namespace AssetCache.Json

inductive Value where
  | null
  | number (n : Nat)
  | text (s : String)
  | list (items : List Value)
  | record (members : List (String × Value))

def hexDigit (n : Nat) : Char := (Nat.digitChar (n % 16))

/-- A character inside quotes: a quote, a backslash and the controls are escaped, nothing else. -/
def escapeChar (c : Char) : List Char :=
  if c = '"' then ['\\', '"']
  else if c = '\\' then ['\\', '\\']
  else if c = '\x08' then ['\\', 'b']
  else if c = '\t' then ['\\', 't']
  else if c = '\n' then ['\\', 'n']
  else if c = '\x0c' then ['\\', 'f']
  else if c = '\r' then ['\\', 'r']
  else if c.toNat < 0x20 then
    ['\\', 'u', '0', '0', hexDigit (c.toNat / 16), hexDigit c.toNat]
  else [c]

def writeText (s : String) : List Char := '"' :: (s.toList.flatMap escapeChar ++ ['"'])

def commaSeparated : List (List Char) → List Char
  | [] => []
  | [x] => x
  | x :: rest => x ++ ',' :: commaSeparated rest

namespace Value

mutual

def compact : Value → List Char
  | null => "null".toList
  | number n => Nat.toDigits 10 n
  | text s => writeText s
  | list items => '[' :: (commaSeparated (compactItems items) ++ [']'])
  | record members => '\x7b' :: (commaSeparated (compactMembers members) ++ ['\x7d'])

def compactItems : List Value → List (List Char)
  | [] => []
  | v :: rest => v.compact :: compactItems rest

def compactMembers : List (String × Value) → List (List Char)
  | [] => []
  | (name, v) :: rest => (writeText name ++ ':' :: v.compact) :: compactMembers rest

end

def newline (level : Nat) : List Char := '\n' :: List.replicate (2 * level) ' '

def block (level : Nat) (open' close : Char) (items : List (List Char)) : List Char :=
  if items.isEmpty then [open', close]
  else
    open' :: (commaSeparated (items.map (newline (level + 1) ++ ·)) ++ newline level ++ [close])

mutual

def pretty (level : Nat) : Value → List Char
  | null => "null".toList
  | number n => Nat.toDigits 10 n
  | text s => writeText s
  | list items => block level '[' ']' (prettyItems (level + 1) items)
  | record members => block level '\x7b' '\x7d' (prettyMembers (level + 1) members)

def prettyItems (level : Nat) : List Value → List (List Char)
  | [] => []
  | v :: rest => v.pretty level :: prettyItems level rest

def prettyMembers (level : Nat) : List (String × Value) → List (List Char)
  | [] => []
  | (name, v) :: rest =>
    (writeText name ++ ':' :: ' ' :: v.pretty level) :: prettyMembers level rest

end

end Value

end AssetCache.Json
