import AssetCache.Address
import AssetCache.Proofs.Url.Host
import Mathlib.Data.List.Basic

namespace AssetCache

namespace IpAddress

def ofChars? (cs : List Char) : Option IpAddress :=
  match Endpoint.bytes? cs with
  | some (⟨a, b, c, d⟩, rest) => if rest.isEmpty then some (.v4 a b c d) else none
  | none =>
    match Endpoint.eight? cs with
    | some (gs, rest) => if rest.isEmpty then Endpoint.v6OfList? gs else none
    | none => none

def ofText? (s : String) : Option IpAddress := ofChars? s.toList

variable {cs : List Char} {a b c d : UInt8} {groups : Vector UInt16 8} {gs : List UInt16}

theorem v6OfList?_eq_some_iff : Endpoint.v6OfList? gs = some (.v6 groups) ↔ gs = groups.toList := by
  rw [Endpoint.v6OfList?]
  constructor
  · intro h
    split at h
    · cases h
      rfl
    · cases h
  · rintro rfl
    rw [dif_pos groups.length_toList]
    rfl

theorem v6OfList?_ne_v4 : Endpoint.v6OfList? gs ≠ some (.v4 a b c d) := by
  rw [Endpoint.v6OfList?]
  split <;> exact fun h => nomatch h

theorem ofChars?_eq_v4_iff :
    ofChars? cs = some (.v4 a b c d) ↔ Endpoint.bytes? cs = some (⟨a, b, c, d⟩, []) := by
  rw [ofChars?]
  cases Endpoint.bytes? cs with
  | some p =>
    obtain ⟨⟨a', b', c', d'⟩, rest⟩ := p
    cases rest <;> simp
  | none =>
    refine iff_of_false (fun h => ?_) nofun
    dsimp only at h
    split at h
    · split at h
      · exact v6OfList?_ne_v4 h
      · cases h
    · cases h

theorem ofChars?_eq_v6_iff : ofChars? cs = some (.v6 groups) ↔
    Endpoint.bytes? cs = none ∧ Endpoint.eight? cs = some (groups.toList, []) := by
  rw [ofChars?]
  cases Endpoint.bytes? cs with
  | some p =>
    obtain ⟨⟨a, b, c, d⟩, rest⟩ := p
    cases rest <;> simp
  | none =>
    cases Endpoint.eight? cs with
    | some p =>
      obtain ⟨gs, rest⟩ := p
      cases rest <;> simp [v6OfList?_eq_some_iff]
    | none => simp

end IpAddress

namespace Endpoint

variable {α : Type} {c : Char} {cs rest : List Char} {ip : IpAddress} {b : Bytes} {gs : List UInt16}
  {port : UInt16}

/-- A text that no number goes on into, and no dot follows. -/
def Stops (rest : List Char) : Prop := ∀ c, rest.head? = some c → Url.hexValue c = none ∧ c ≠ '.'

theorem stops_cons (hdigit : Url.hexValue c = none) (hdot : c ≠ '.') (rest : List Char) :
    Stops (c :: rest) := by
  intro d hd
  cases hd
  exact ⟨hdigit, hdot⟩

def leaving (rest : List Char) (p : α × List Char) : α × List Char := (p.1, p.2 ++ rest)

theorem spanDigits_append (h : Stops rest) (radix : Nat) (cs : List Char) :
    spanDigits radix (cs ++ rest) = leaving rest (spanDigits radix cs) := by
  induction cs with
  | nil =>
    cases rest with
    | nil => rfl
    | cons c rest =>
      rw [List.nil_append, spanDigits.eq_2, (h c rfl).1]
      rfl
  | cons c cs ih =>
    rw [List.cons_append, spanDigits, spanDigits]
    split
    · rfl
    · split
      · rw [ih]
        rfl
      · rfl

theorem digits_append (h : Stops rest) (radix : Nat) (cs : List Char) :
    (spanDigits radix (cs ++ rest)).1 = (spanDigits radix cs).1 := by
  rw [spanDigits_append h, leaving]

theorem number?_append (h : Stops rest) (radix limit : Nat) (cs : List Char) :
    number? radix limit (cs ++ rest) = (number? radix limit cs).map (leaving rest) := by
  rw [number?, number?]
  dsimp only
  rw [digits_append h, spanDigits_append h, leaving]
  split <;> rfl

theorem after?_append (h : rest.head? ≠ some c) (cs : List Char) :
    after? c (cs ++ rest) = (after? c cs).map (· ++ rest) := by
  cases cs with
  | nil =>
    cases rest with
    | nil => rfl
    | cons d rest => exact if_neg fun hd => h (congrArg some hd)
  | cons d cs =>
    rw [List.cons_append, after?, after?]
    split <;> rfl

theorem byte?_append (h : Stops rest) (cs : List Char) :
    byte? (cs ++ rest) = (byte? cs).map (leaving rest) := by
  rw [byte?, byte?, digits_append h, number?_append h]
  by_cases hzero : (spanDigits 10 cs).1.head? = some 0 ∧ (spanDigits 10 cs).1 ≠ [0]
  · rw [if_pos hzero, if_pos hzero]
    rfl
  · rw [if_neg hzero, if_neg hzero, Option.map_map, Option.map_map]
    rfl

theorem group?_append (h : Stops rest) (cs : List Char) :
    group? (cs ++ rest) = (group? cs).map (leaving rest) := by
  rw [group?, group?, digits_append h, number?_append h]
  by_cases hlong : 4 < (spanDigits 16 cs).1.length
  · rw [if_pos hlong, if_pos hlong]
    rfl
  · rw [if_neg hlong, if_neg hlong, Option.map_map, Option.map_map]
    rfl

def nextByte? (cs : List Char) : Option (UInt8 × List Char) := (after? '.' cs).bind byte?

theorem nextByte?_append (h : Stops rest) (cs : List Char) :
    nextByte? (cs ++ rest) = (nextByte? cs).map (leaving rest) := by
  have hdot : rest.head? ≠ some '.' := fun hd => (h '.' hd).2 rfl
  rw [nextByte?, nextByte?, after?_append hdot, Option.bind_map, Option.map_bind]
  exact Option.bind_congr fun cs _ => byte?_append h cs

theorem bytes?_eq (cs : List Char) : bytes? cs =
    (byte? cs).bind fun a => (nextByte? a.2).bind fun b => (nextByte? b.2).bind fun c =>
      (nextByte? c.2).map fun d => (⟨a.1, b.1, c.1, d.1⟩, d.2) := by
  simp only [bytes?, nextByte?, Option.bind_eq_bind, Option.bind_assoc, Option.map_eq_bind,
    Function.comp_def]

theorem bytes?_append (h : Stops rest) (cs : List Char) :
    bytes? (cs ++ rest) = (bytes? cs).map (leaving rest) := by
  simp only [bytes?_eq, byte?_append h, leaving, nextByte?_append h, Option.bind_map,
    Option.map_bind, Option.map_map, Function.comp_def]

theorem groups_append (h : Stops rest) (hcolon : rest.head? ≠ some ':') (first : Bool) (room : Nat)
    (cs : List Char) : groups first room (cs ++ rest) = leaving rest (groups first room cs) := by
  induction room generalizing first cs with
  | zero => rfl
  | succ room ih =>
    have hinner : (if first then some (cs ++ rest) else after? ':' (cs ++ rest)) =
        (if first then some cs else after? ':' cs).map (· ++ rest) := by
      cases first with
      | false => exact after?_append hcolon cs
      | true => rfl
    rw [groups, groups, hinner]
    cases (if first then some cs else after? ':' cs) with
    | none => rfl
    | some inner =>
      have hbytes : (if room = 0 then none else bytes? (inner ++ rest)) =
          (if room = 0 then none else bytes? inner).map (leaving rest) := by
        rw [bytes?_append h]
        split <;> rfl
      rw [Option.map_some]
      dsimp only
      rw [hbytes, group?_append h]
      cases (if room = 0 then none else bytes? inner) with
      | some p => rfl
      | none =>
        cases group? inner with
        | none => rfl
        | some p =>
          dsimp only [Option.map_none, Option.map_some, leaving]
          rw [ih]
          rfl

theorem eight?_append (h : Stops rest) (hcolon : rest.head? ≠ some ':') (cs : List Char) :
    eight? (cs ++ rest) = (eight? cs).map (leaving rest) := by
  rw [eight?, eight?, groups_append h hcolon]
  dsimp only [leaving]
  split
  · rfl
  · split
    · rfl
    · rw [after?_append hcolon]
      cases after? ':' (groups true 8 cs).2 with
      | none => rfl
      | some inner =>
        rw [Option.map_some, Option.bind_eq_bind, Option.bind_some, after?_append hcolon]
        cases hlast : after? ':' inner with
        | none => simp [hlast]
        | some last =>
          simp only [Option.map_some, Option.bind_some, hlast, groups_append h hcolon, leaving]

section Numbers

variable {radix limit n : Nat}

def digits (radix n : Nat) : List Nat := (Nat.toDigits radix n).filterMap Url.hexValue

theorem hexValue_digitChar : ∀ d < 16, Url.hexValue (Nat.digitChar d) = some d := by decide

theorem digits_eq (hradix : 1 < radix) (hle : radix ≤ 16) (n : Nat) :
    digits radix n = if n < radix then [n] else digits radix (n / radix) ++ [n % radix] := by
  rw [digits, Nat.toDigits_eq_if hradix]
  split
  · next hn => simp [hexValue_digitChar n (by omega)]
  · have hlast : n % radix < 16 := by
      have hmod := Nat.mod_lt n (by omega : 0 < radix)
      omega
    simp [digits, hexValue_digitChar _ hlast]

theorem digitsValue_digits (hradix : 1 < radix) (hle : radix ≤ 16) (n : Nat) :
    digitsValue radix (digits radix n) = n := by
  induction n using Nat.strongRecOn with
  | _ n ih =>
    rw [digits_eq hradix hle]
    split
    · simp [digitsValue]
    · next hn =>
      have hfront := ih (n / radix) (Nat.div_lt_self (by omega) hradix)
      rw [digitsValue] at hfront
      rw [digitsValue, List.foldl_append, hfront, List.foldl_cons, List.foldl_nil, Nat.mul_comm,
        Nat.div_add_mod]

theorem digits_ne_nil (hradix : 1 < radix) (hle : radix ≤ 16) (n : Nat) : digits radix n ≠ [] := by
  rw [digits_eq hradix hle]
  split <;> simp

theorem head?_digits (hradix : 1 < radix) (hle : radix ≤ 16) (hn : 0 < n) :
    (digits radix n).head? ≠ some 0 := by
  induction n using Nat.strongRecOn with
  | _ n ih =>
    rw [digits_eq hradix hle]
    split
    · simpa using Nat.ne_of_gt hn
    · next hlt =>
      have hfront := ih (n / radix) (Nat.div_lt_self hn hradix) (Nat.div_pos (by omega) (by omega))
      rwa [List.head?_append_of_ne_nil _ (digits_ne_nil hradix hle _)]

theorem length_digits_le (hradix : 1 < radix) (hle : radix ≤ 16) {k : Nat}
    (hn : n < Nat.pow radix (k + 1)) : (digits radix n).length ≤ k + 1 := by
  induction k generalizing n with
  | zero =>
    have hlt : n < 1 * radix := hn
    rw [digits_eq hradix hle, if_pos (by omega)]
    exact Nat.le_refl 1
  | succ k ih =>
    rw [digits_eq hradix hle]
    split
    · simp
    · have hlt : n < Nat.pow radix (k + 1) * radix := hn
      have hfront := ih (Nat.div_lt_of_lt_mul (Nat.mul_comm radix _ ▸ hlt))
      rw [List.length_append, List.length_singleton]
      omega

theorem spanDigits_of_digits (hcs : ∀ c ∈ cs, ∃ d < radix, Url.hexValue c = some d)
    (hrest : spanDigits radix rest = ([], rest)) :
    spanDigits radix (cs ++ rest) = (cs.filterMap Url.hexValue, rest) := by
  induction cs with
  | nil => exact hrest
  | cons c cs ih =>
    obtain ⟨d, hd, hc⟩ := hcs c List.mem_cons_self
    rw [List.cons_append, spanDigits, hc]
    dsimp only
    rw [if_pos hd, ih fun c hc => hcs c (List.mem_cons_of_mem _ hc), List.filterMap_cons, hc]

theorem spanDigits_toDigits (hradix : 1 < radix) (hle : radix ≤ 16) (n : Nat)
    (hrest : spanDigits radix rest = ([], rest)) :
    spanDigits radix (Nat.toDigits radix n ++ rest) = (digits radix n, rest) := by
  refine spanDigits_of_digits (fun c hc => ?_) hrest
  obtain ⟨d, hd, rfl⟩ := Url.exists_digitChar hradix hc
  exact ⟨d, hd, hexValue_digitChar d (by omega)⟩

theorem number?_toDigits (hradix : 1 < radix) (hle : radix ≤ 16) (hn : n < limit)
    (hrest : spanDigits radix rest = ([], rest)) :
    number? radix limit (Nat.toDigits radix n ++ rest) = some (n, rest) := by
  rw [number?, spanDigits_toDigits hradix hle n hrest]
  dsimp only
  rw [digitsValue_digits hradix hle, if_neg]
  simpa [digits_ne_nil hradix hle] using hn

theorem byte?_toDigits (n : UInt8) (hrest : spanDigits 10 rest = ([], rest)) :
    byte? (Nat.toDigits 10 n.toNat ++ rest) = some (n, rest) := by
  have hn := n.toNat_lt
  rw [byte?, spanDigits_toDigits (by decide) (by decide) _ hrest,
    number?_toDigits (by decide) (by decide) hn hrest]
  dsimp only
  rw [if_neg, Option.map_some, UInt8.ofNat_toNat]
  rintro ⟨hzero, hmore⟩
  obtain hn0 | hpos := Nat.eq_zero_or_pos n.toNat
  · rw [hn0] at hmore
    exact hmore rfl
  · exact head?_digits (by decide) (by decide) hpos hzero

theorem group?_toDigits (n : UInt16) (hrest : spanDigits 16 rest = ([], rest)) :
    group? (Nat.toDigits 16 n.toNat ++ rest) = some (n, rest) := by
  have hn := n.toNat_lt
  have hlength : (digits 16 n.toNat).length ≤ 3 + 1 := length_digits_le (by decide) (by decide) hn
  rw [group?, spanDigits_toDigits (by decide) (by decide) _ hrest,
    number?_toDigits (by decide) (by decide) hn hrest]
  dsimp only
  rw [if_neg (by omega), Option.map_some, UInt16.ofNat_toNat]

end Numbers

def portText (port : UInt16) : List Char := ':' :: Nat.toDigits 10 port.toNat

theorem port?_portText (port : UInt16) : port? (portText port) = some port := by
  have hnil : spanDigits 10 [] = ([], []) := rfl
  have hread := number?_toDigits (by decide) (by decide) port.toNat_lt hnil
  have hafter : after? ':' (portText port) = some (Nat.toDigits 10 port.toNat) := rfl
  rw [List.append_nil] at hread
  simp only [port?, hafter, Option.bind_eq_bind, Option.bind_some, hread]
  rw [List.isEmpty_nil, if_pos rfl, UInt16.ofNat_toNat]

theorem toList_join (host : String) (port : UInt16) :
    (join host port).toList = host.toList ++ portText port := by
  rw [join, String.toList_append, String.toList_append, Nat.toList_repr]
  simp [portText]

theorem ofChars?_of_head (h : cs.head? ≠ some '[') : ofChars? cs =
    (bytes? cs).bind fun p => (port? p.2).map fun port => ⟨.v4 p.1.a p.1.b p.1.c p.1.d, port, 0⟩ := by
  rw [ofChars?.eq_2 _ fun rest hcs => h (by rw [hcs]; rfl)]
  simp only [Option.bind_eq_bind, Option.map_eq_bind, Function.comp_def]

theorem head?_of_ofChars? (h : IpAddress.ofChars? cs = some ip) : cs.head? ≠ some '[' := by
  intro hhead
  obtain ⟨rest, rfl⟩ := List.head?_eq_some_iff.mp hhead
  cases h

variable {host : String}

theorem ofText?_join (h : IpAddress.ofText? host = some ip) (port : UInt16) :
    ofText? (join host port) = ((bytes? host.toList).map (leaving (portText port))).bind fun p =>
      (port? p.2).map fun port => ⟨.v4 p.1.a p.1.b p.1.c p.1.d, port, 0⟩ := by
  have hhead : (host.toList ++ portText port).head? ≠ some '[' := by
    have hhost := head?_of_ofChars? h
    cases hcs : host.toList with
    | nil => exact fun h => nomatch h
    | cons c cs => rwa [hcs] at hhost
  have hstops : Stops (portText port) := stops_cons rfl (by decide) _
  rw [ofText?, toList_join, ofChars?_of_head hhead, bytes?_append hstops]

/-- An address of four bytes ends at the colon in front of the port. -/
theorem ofText?_of_v4 {a b c d : UInt8} (h : IpAddress.ofText? host = some (.v4 a b c d))
    (port : UInt16) : ofText? (join host port) = some ⟨.v4 a b c d, port, 0⟩ := by
  rw [ofText?_join h, IpAddress.ofChars?_eq_v4_iff.mp h, Option.map_some, Option.bind_some, leaving,
    List.nil_append, port?_portText]
  rfl

/-- In an address of eight groups the first colon is too early for that. -/
theorem ofText?_of_v6 {groups : Vector UInt16 8} (h : IpAddress.ofText? host = some (.v6 groups))
    (port : UInt16) : ofText? (join host port) = none := by
  rw [ofText?_join h, (IpAddress.ofChars?_eq_v6_iff.mp h).1]
  rfl

theorem ofText?_of_bracketed {groups : Vector UInt16 8}
    (h : IpAddress.ofText? host = some (.v6 groups)) (port : UInt16) :
    ofText? (join ("[" ++ host ++ "]") port) = some ⟨.v6 groups, port, 0⟩ := by
  have htext : (join ("[" ++ host ++ "]") port).toList =
      '[' :: (host.toList ++ ']' :: portText port) := by
    rw [toList_join, String.toList_append, String.toList_append]
    simp
  have hstops : Stops (']' :: portText port) := stops_cons rfl (by decide) _
  have hcolon : (']' :: portText port).head? ≠ some ':' := fun h => nomatch h
  have hlink : link? (']' :: portText port) = some (0, ']' :: portText port) := rfl
  have hafter : after? ']' (']' :: portText port) = some (portText port) := rfl
  rw [ofText?, htext, ofChars?, eight?_append hstops hcolon,
    (IpAddress.ofChars?_eq_v6_iff.mp h).2]
  simp only [Option.map_some, leaving, List.nil_append, Option.bind_eq_bind, Option.bind_some, hlink,
    hafter, port?_portText, IpAddress.v6OfList?_eq_some_iff.mpr rfl]

end Endpoint

end AssetCache
