import AssetCache.Base64

namespace AssetCache.Base64

theorem symbol_ne_pad {n : Nat} (h : n < 64) : symbol n ≠ '=' := by
  intro he
  have hv := value_symbol h
  rw [he] at hv
  cases hv

theorem byte_eq {a : UInt8} {n : Nat} (h : n = a.toNat) : byte n = a := by
  rw [byte, h, UInt8.ofNat_toNat]

theorem encodeOnto_eq : ∀ (bytes : List UInt8) (acc : List Char),
    encodeOnto acc bytes = acc.reverse ++ encode bytes
  | [], acc => by simp [encode, encodeOnto]
  | [a], acc => by simp [encode, encodeOnto]
  | [a, b], acc => by simp [encode, encodeOnto]
  | a :: b :: c :: rest, acc => by
    rw [encode, encodeOnto, encodeOnto, encodeOnto_eq rest, encodeOnto_eq rest [_, _, _, _]]
    simp

theorem encode_cons (a b c : UInt8) (rest : List UInt8) :
    encode (a :: b :: c :: rest) =
      symbol (a.toNat / 4) :: symbol (a.toNat % 4 * 16 + b.toNat / 16) ::
        symbol (b.toNat % 16 * 4 + c.toNat / 64) :: symbol (c.toNat % 64) :: encode rest := by
  have ha := a.toNat_lt
  have hb := b.toNat_lt
  have hc := c.toNat_lt
  rw [encode, encodeOnto, encodeOnto_eq rest]
  have h₁ : ((a.toNat * 256 + b.toNat) * 256 + c.toNat) / 262144 = a.toNat / 4 := by omega
  have h₂ : ((a.toNat * 256 + b.toNat) * 256 + c.toNat) / 4096 % 64 =
      a.toNat % 4 * 16 + b.toNat / 16 := by omega
  have h₃ : ((a.toNat * 256 + b.toNat) * 256 + c.toNat) / 64 % 64 =
      b.toNat % 16 * 4 + c.toNat / 64 := by omega
  have h₄ : ((a.toNat * 256 + b.toNat) * 256 + c.toNat) % 64 = c.toNat % 64 := by omega
  rw [h₁, h₂, h₃, h₄]
  simp

theorem decodeOnto_cons {w x y z : Nat} (hw : w < 64) (hx : x < 64) (hy : y < 64) (hz : z < 64)
    (acc : List UInt8) (rest : List Char) :
    decodeOnto acc (symbol w :: symbol x :: symbol y :: symbol z :: rest) =
      decodeOnto (byte (y % 4 * 64 + z) :: byte (x % 16 * 16 + y / 4) :: byte (w * 4 + x / 16) ::
        acc) rest := by
  rw [decodeOnto]
  · simp only [value_symbol hw, value_symbol hx, value_symbol hy, value_symbol hz]
  · intro _ he
    exact absurd he (symbol_ne_pad hz)
  · intro he
    exact absurd he (symbol_ne_pad hz)

theorem decodeOnto_encode : ∀ (bytes acc : List UInt8),
    decodeOnto acc (encode bytes) = some (acc.reverse ++ bytes)
  | [], acc => by simp [encode, encodeOnto, decodeOnto]
  | [a], acc => by
    have ha := a.toNat_lt
    have hw := value_symbol (n := a.toNat * 16 / 64) (by omega)
    have hx := value_symbol (n := a.toNat * 16 % 64) (by omega)
    have hlast : decodeLast (a.toNat * 16 / 64) (a.toNat * 16 % 64) none = some [a] := by
      rw [decodeLast, if_pos (by omega), byte_eq (a := a) (by omega)]
    change decodeOnto acc [symbol (a.toNat * 16 / 64), symbol (a.toNat * 16 % 64), '=', '='] = _
    rw [decodeOnto, hw, hx]
    simp [hlast]
  | [a, b], acc => by
    have ha := a.toNat_lt
    have hb := b.toNat_lt
    have hy' := symbol_ne_pad (n := (a.toNat * 256 + b.toNat) * 4 % 64) (by omega)
    have hw := value_symbol (n := (a.toNat * 256 + b.toNat) * 4 / 4096) (by omega)
    have hx := value_symbol (n := (a.toNat * 256 + b.toNat) * 4 / 64 % 64) (by omega)
    have hy := value_symbol (n := (a.toNat * 256 + b.toNat) * 4 % 64) (by omega)
    have hlast : decodeLast ((a.toNat * 256 + b.toNat) * 4 / 4096)
        ((a.toNat * 256 + b.toNat) * 4 / 64 % 64)
        (some ((a.toNat * 256 + b.toNat) * 4 % 64)) = some [a, b] := by
      rw [decodeLast, if_pos (by omega), byte_eq (a := a) (by omega), byte_eq (a := b) (by omega)]
    change decodeOnto acc [symbol ((a.toNat * 256 + b.toNat) * 4 / 4096),
      symbol ((a.toNat * 256 + b.toNat) * 4 / 64 % 64),
      symbol ((a.toNat * 256 + b.toNat) * 4 % 64), '='] = _
    rw [decodeOnto, hw, hx, hy]
    · simp [hlast]
    · exact hy'
  | a :: b :: c :: rest, acc => by
    have ha := a.toNat_lt
    have hb := b.toNat_lt
    have hc := c.toNat_lt
    rw [encode_cons, decodeOnto_cons (by omega) (by omega) (by omega) (by omega),
      decodeOnto_encode rest, byte_eq (a := c) (by omega), byte_eq (a := b) (by omega),
      byte_eq (a := a) (by omega)]
    simp

theorem decode_encode (bytes : List UInt8) : decode (encode bytes) = some bytes :=
  decodeOnto_encode bytes []

end AssetCache.Base64
