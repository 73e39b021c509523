import AssetCache.Text.Property

namespace AssetCache.Text

def hexDigits (n : Nat) : List Char := Nat.toDigits 16 n

/-- One character inside quotes: five short escapes, a code point in braces for what has no glyph
or joins its neighbour, all else as it is. -/
def quoteChar (c : Char) : List Char :=
  if c = '\x00' then ['\\', '0']
  else if c = '\t' then ['\\', 't']
  else if c = '\r' then ['\\', 'r']
  else if c = '\n' then ['\\', 'n']
  else if c = '"' then ['\\', '"']
  else if c = '\\' then ['\\', '\\']
  else if joinsPrevious c || glyphless c then ['\\', 'u', '\x7b'] ++ hexDigits c.toNat ++ ['\x7d']
  else [c]

def quoted (s : String) : String :=
  String.ofList ('"' :: s.toList.flatMap quoteChar ++ ['"'])

end AssetCache.Text
