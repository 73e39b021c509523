import AssetCache.Digest.Hex

namespace AssetCache.Uuid

def marked (bytes : List UInt8) : List UInt8 :=
  (bytes.modify 6 fun b => (b &&& 0x0f) ||| 0x40).modify 8 fun b => (b &&& 0x3f) ||| 0x80

def grouped : List Nat → List Char → List Char
  | [], ds => ds
  | n :: lengths, ds => ds.take n ++ '-' :: grouped lengths (ds.drop n)

def text (bytes : List UInt8) : String :=
  String.ofList (grouped [8, 4, 4, 4] (Digest.hex (marked bytes)))

end AssetCache.Uuid
