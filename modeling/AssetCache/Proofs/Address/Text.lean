import AssetCache.Proofs.Address.Reader
import Mathlib.Data.List.TakeWhile

namespace AssetCache

open Endpoint

variable {cs rest : List Char} {l front back : List UInt16} {ns : List Nat}

namespace Endpoint

theorem spanDigits_stops (h : Stops rest) (radix : Nat) : spanDigits radix rest = ([], rest) :=
  spanDigits_append h radix []

theorem nextByte?_toDigits (n : UInt8) (hrest : spanDigits 10 rest = ([], rest)) :
    nextByte? ('.' :: (Nat.toDigits 10 n.toNat ++ rest)) = some (n, rest) :=
  byte?_toDigits n hrest

theorem v4Text_eq (a b c d : UInt8) : IpAddress.v4Text a b c d ++ rest =
    Nat.toDigits 10 a.toNat ++ '.' :: (Nat.toDigits 10 b.toNat ++ '.' :: (Nat.toDigits 10 c.toNat ++
      '.' :: (Nat.toDigits 10 d.toNat ++ rest))) := by
  simp [IpAddress.v4Text, List.intercalate]

theorem bytes?_v4Text (a b c d : UInt8) :
    bytes? (IpAddress.v4Text a b c d) = some (⟨a, b, c, d⟩, []) := by
  have hdot : ∀ rest, spanDigits 10 ('.' :: rest) = ([], '.' :: rest) := fun rest => rfl
  have hnil : spanDigits 10 [] = ([], []) := rfl
  rw [← List.append_nil (IpAddress.v4Text a b c d), bytes?_eq, v4Text_eq, byte?_toDigits a (hdot _)]
  simp only [Option.bind_some, Option.map_some, nextByte?_toDigits, hdot, hnil]

theorem subset_of_byte? {p : UInt8 × List Char} (h : byte? cs = some p) : p.2 ⊆ cs := by
  have hspan : ∀ cs, (spanDigits 10 cs).2 ⊆ cs := by
    intro cs
    induction cs with
    | nil => exact List.Subset.refl []
    | cons c cs ih =>
      rw [spanDigits]
      split
      · exact List.Subset.refl _
      · split
        · exact List.subset_cons_of_subset c ih
        · exact List.Subset.refl _
  rw [byte?] at h
  split at h
  · cases h
  · rw [number?] at h
    dsimp only at h
    split at h
    · cases h
    · cases h
      exact hspan cs

theorem dot_ne_digitChar : ∀ d < 16, '.' ≠ Nat.digitChar d := by decide

theorem bytes?_of_no_dot (h : '.' ∉ cs) : bytes? cs = none := by
  rw [bytes?_eq]
  cases hbyte : byte? cs with
  | none => rfl
  | some p =>
    have hnext : nextByte? p.2 = none := by
      rw [nextByte?]
      cases hp : p.2 with
      | nil => rfl
      | cons c rest =>
        have hc : c ≠ '.' := fun hc => h (subset_of_byte? hbyte (by rw [hp, hc]; exact List.mem_cons_self))
        rw [after?, if_neg hc]
        rfl
    rw [Option.bind_some, hnext]
    rfl

theorem bytes?_toDigits (n : Nat) (h : Stops rest) : bytes? (Nat.toDigits 16 n ++ rest) = none := by
  have hdot : '.' ∉ Nat.toDigits 16 n :=
    Url.not_mem_toDigits dot_ne_digitChar (by decide) (by decide) n
  rw [bytes?_append h, bytes?_of_no_dot hdot]
  rfl

theorem groups_step (first : Bool) {n : UInt16} (room : Nat) (h : Stops rest)
    (hcs : (if first then some cs else after? ':' cs) = some (Nat.toDigits 16 n.toNat ++ rest)) :
    groups first (room + 1) cs =
      (⟨n :: (groups false room rest).1.list, (groups false room rest).1.closed⟩,
        (groups false room rest).2) := by
  have hbytes : (if room = 0 then none else bytes? (Nat.toDigits 16 n.toNat ++ rest)) = none := by
    rw [bytes?_toDigits _ h, ite_self]
  rw [groups, hcs]
  dsimp only
  rw [hbytes, group?_toDigits n (spanDigits_stops h 16)]

def behindColons (l : List UInt16) : List Char := l.flatMap fun n => ':' :: Nat.toDigits 16 n.toNat

theorem stops_behindColons (h : Stops rest) (l : List UInt16) : Stops (behindColons l ++ rest) := by
  cases l with
  | nil => exact h
  | cons n l => exact stops_cons rfl (by decide) _

theorem hexText_cons (n : UInt16) (l : List UInt16) :
    Url.Ipv6.hexText ((n :: l).map UInt16.toNat) = Nat.toDigits 16 n.toNat ++ behindColons l := by
  induction l generalizing n with
  | nil => simp [Url.Ipv6.hexText, Url.joinWith, behindColons]
  | cons n' l ih =>
    have htail := ih n'
    simp only [Url.Ipv6.hexText, List.map_cons] at htail ⊢
    rw [Url.joinWith.eq_3 _ _ _ (List.cons_ne_nil _ _), htail]
    rfl

/-- No group begins in such a text, with a colon in front or without. -/
structure Ends (rest : List Char) : Prop where
  stops : Stops rest
  groups : ∀ first room, groups first room rest = (⟨[], false⟩, rest)

theorem Ends.intro (h : Stops rest) (hbytes : bytes? rest = none) (hgroup : group? rest = none)
    (hafter : ∀ inner, after? ':' rest = some inner → bytes? inner = none ∧ group? inner = none) :
    Ends rest where
  stops := h
  groups first room := by
    have hinner : ∀ inner, (if first then some rest else after? ':' rest) = some inner →
        bytes? inner = none ∧ group? inner = none := by
      intro inner hinner
      cases first with
      | false => exact hafter inner hinner
      | true =>
        cases hinner
        exact ⟨hbytes, hgroup⟩
    cases room with
    | zero => rfl
    | succ room =>
      rw [Endpoint.groups]
      split
      · rfl
      · next inner heq =>
        obtain ⟨hb, hg⟩ := hinner inner heq
        rw [hb, ite_self, hg]

theorem ends_nil : Ends [] := .intro (fun _ h => nomatch h) rfl rfl (fun _ h => nomatch h)

theorem ends_colons (rest : List Char) : Ends (':' :: ':' :: rest) := by
  refine .intro (stops_cons rfl (by decide) _) rfl rfl fun inner h => ?_
  cases h
  exact ⟨rfl, rfl⟩

theorem groups_behindColons (h : Ends rest) {room : Nat} (hroom : l.length ≤ room) :
    groups false room (behindColons l ++ rest) = (⟨l, false⟩, rest) := by
  induction l generalizing room with
  | nil => exact h.groups false room
  | cons n l ih =>
    obtain ⟨room, rfl⟩ := Nat.exists_eq_succ_of_ne_zero (Nat.ne_of_gt (Nat.zero_lt_of_lt hroom))
    have hcs : (if false then some (behindColons (n :: l) ++ rest)
        else after? ':' (behindColons (n :: l) ++ rest)) =
          some (Nat.toDigits 16 n.toNat ++ (behindColons l ++ rest)) := by
      rw [behindColons, List.flatMap_cons, List.append_assoc]
      rfl
    rw [groups_step false room (stops_behindColons h.stops l) hcs,
      ih (Nat.le_of_succ_le_succ hroom)]

theorem groups_hexText (h : Ends rest) {room : Nat} (hroom : l.length ≤ room) :
    groups true room (Url.Ipv6.hexText (l.map UInt16.toNat) ++ rest) = (⟨l, false⟩, rest) := by
  cases l with
  | nil => exact h.groups true room
  | cons n l =>
    obtain ⟨room, rfl⟩ := Nat.exists_eq_succ_of_ne_zero (Nat.ne_of_gt (Nat.zero_lt_of_lt hroom))
    rw [hexText_cons, List.append_assoc, groups_step true room
      (stops_behindColons h.stops l) rfl, groups_behindColons h (Nat.le_of_succ_le_succ hroom)]

theorem eight?_hexText (h : l.length = 8) :
    eight? (Url.Ipv6.hexText (l.map UInt16.toNat)) = some (l, []) := by
  have hread := groups_hexText ends_nil (Nat.le_of_eq h)
  rw [List.append_nil] at hread
  rw [eight?, hread]
  exact if_pos h

theorem eight?_colons (hroom : front.length + back.length ≤ 7) :
    eight? (Url.Ipv6.hexText (front.map UInt16.toNat) ++
      ':' :: ':' :: Url.Ipv6.hexText (back.map UInt16.toNat)) =
        some (front ++ List.replicate (8 - front.length - back.length) 0 ++ back, []) := by
  have hfront := groups_hexText (l := front) (ends_colons (Url.Ipv6.hexText (back.map UInt16.toNat)))
    (show front.length ≤ 8 by omega)
  have hback := groups_hexText (l := back) ends_nil (show back.length ≤ 7 - front.length by omega)
  rw [List.append_nil] at hback
  rw [eight?, hfront]
  dsimp only
  rw [if_neg (by omega), if_neg Bool.false_ne_true]
  simp only [after?, if_true, Option.bind_eq_bind, Option.bind_some, hback]

theorem groupOf_halves (n : UInt16) : groupOf (n >>> 8).toUInt8 n.toUInt8 = n := by
  have hn : n.toNat < 65536 := n.toNat_lt
  have hhigh : n.toNat / 256 % 256 * 256 % 65536 = n.toNat / 256 * 256 := by omega
  have hor := Nat.shiftLeft_add_eq_or_of_lt (show n.toNat % 256 < 2 ^ 8 by omega) (n.toNat / 256)
  have hwhole : n.toNat / 256 * 256 + n.toNat % 256 = n.toNat := by omega
  apply UInt16.toNat_inj.mp
  simp only [groupOf, UInt16.toNat_or, UInt16.toNat_shiftLeft, UInt8.toNat_toUInt16,
    UInt16.toNat_toUInt8, UInt16.toNat_shiftRight, Nat.shiftLeft_eq, Nat.shiftRight_eq_div_pow]
  rw [Nat.shiftLeft_eq] at hor
  exact (congrArg (· ||| n.toNat % 256) hhigh).trans (hor.symm.trans hwhole)

theorem eight?_v4Text (x y : UInt16) :
    eight? ("::ffff:".toList ++
      IpAddress.v4Text (x >>> 8).toUInt8 x.toUInt8 (y >>> 8).toUInt8 y.toUInt8) =
        some ([0, 0, 0, 0, 0, 0xffff, x, y], []) := by
  generalize hdotted :
    IpAddress.v4Text (x >>> 8).toUInt8 x.toUInt8 (y >>> 8).toUInt8 y.toUInt8 = dotted
  have hbytes : bytes? dotted =
      some (⟨(x >>> 8).toUInt8, x.toUInt8, (y >>> 8).toUInt8, y.toUInt8⟩, []) := by
    rw [← hdotted, bytes?_v4Text]
  have hhead := (ends_colons ("ffff:".toList ++ dotted)).groups true 8
  have hgroup : Nat.toDigits 16 (0xffff : UInt16).toNat = "ffff".toList := by decide
  have hquad : groups false 6 (':' :: dotted) = (⟨[x, y], true⟩, []) := by
    rw [groups, if_neg Bool.false_ne_true, after?, if_pos rfl]
    dsimp only
    rw [if_neg (by decide), hbytes]
    dsimp only
    rw [groupOf_halves, groupOf_halves]
  have htail : groups true 7 ("ffff:".toList ++ dotted) = (⟨[0xffff, x, y], true⟩, []) := by
    have hcs : (if true then some ("ffff:".toList ++ dotted) else after? ':' ("ffff:".toList ++ dotted)) =
        some (Nat.toDigits 16 (0xffff : UInt16).toNat ++ ':' :: dotted) := by
      rw [hgroup]
      rfl
    rw [groups_step true 6 (stops_cons rfl (by decide) _) hcs, hquad]
  have htext : "::ffff:".toList ++ dotted = ':' :: ':' :: ("ffff:".toList ++ dotted) := rfl
  rw [htext, eight?, hhead]
  dsimp only
  rw [if_neg (by decide), if_neg Bool.false_ne_true]
  simp only [after?, if_true, Option.bind_eq_bind, Option.bind_some]
  rw [List.length_nil, Nat.sub_zero, htail]
  rfl

end Endpoint

namespace Url.Ipv6

theorem longestZeros_spec (i : Nat) (ns : List Nat) : (longestZeros i ns).2 = 0 ∨
    ∃ front back, ns = front ++ List.replicate (longestZeros i ns).2 0 ++ back ∧
      (longestZeros i ns).1 = i + front.length := by
  induction ns generalizing i with
  | nil => exact .inl rfl
  | cons n ns ih =>
    rw [longestZeros]
    split
    · refine .inr ⟨[], (n :: ns).dropWhile (· == 0), ?_, rfl⟩
      have hzeros : (n :: ns).takeWhile (· == 0) =
          List.replicate ((n :: ns).takeWhile (· == 0)).length 0 :=
        List.eq_replicate_iff.mpr ⟨rfl, fun m hm => by simpa using List.mem_takeWhile_imp hm⟩
      rw [List.nil_append, ← hzeros, List.takeWhile_append_dropWhile]
    · obtain hnone | ⟨front, back, hns, hstart⟩ := ih (i + 1)
      · next hlt => omega
      · refine .inr ⟨n :: front, back, ?_, ?_⟩
        · rw [List.cons_append, List.cons_append, ← hns]
        · rw [hstart, List.length_cons]
          omega

/-- Groups are written out, or a double colon stands for some zeros among them. -/
theorem text_cases (l : List UInt16) : text (l.map UInt16.toNat) = hexText (l.map UInt16.toNat) ∨
    ∃ front back length, 2 ≤ length ∧ l = front ++ List.replicate length 0 ++ back ∧
      text (l.map UInt16.toNat) =
        hexText (front.map UInt16.toNat) ++ ':' :: ':' :: hexText (back.map UInt16.toNat) := by
  rw [text]
  dsimp only
  split
  · exact .inl rfl
  · next hlong =>
    obtain hnone | ⟨front, back, hl, hstart⟩ := longestZeros_spec 0 (l.map UInt16.toNat)
    · omega
    · refine .inr ?_
      rw [hstart, Nat.zero_add]
      generalize (longestZeros 0 (l.map UInt16.toNat)).2 = length at hl hlong
      obtain ⟨filled, back', rfl, hfilled, rfl⟩ := List.map_eq_append_iff.mp hl
      obtain ⟨front', zeros, rfl, rfl, hzeros⟩ := List.map_eq_append_iff.mp hfilled
      have hlength : zeros.length = length := by
        rw [← List.length_map, hzeros, List.length_replicate]
      have hall : zeros = List.replicate length 0 := by
        refine List.eq_replicate_iff.mpr ⟨hlength, fun n hn => ?_⟩
        have hzero : n.toNat ∈ List.replicate length 0 := hzeros ▸ List.mem_map_of_mem hn
        exact UInt16.toNat_inj.mp (List.eq_of_mem_replicate hzero)
      refine ⟨front', back', length, by omega, by rw [hall], ?_⟩
      have hlead : front'.length + zeros.length = (front' ++ zeros).length := List.length_append.symm
      rw [List.map_append, List.map_append, ← hlength, List.length_map, List.append_assoc,
        List.take_left' (List.length_map _), ← List.append_assoc, ← List.map_append,
        List.drop_left' (by rw [List.length_map, hlead])]

end Url.Ipv6

namespace IpAddress

theorem eight?_v6Text (l : List UInt16) (h : l.length = 8) : eight? (v6Text l) = some (l, []) := by
  rw [v6Text.eq_def]
  split
  · exact eight?_v4Text _ _
  · obtain htext | ⟨front, back, length, hlong, rfl, htext⟩ := Url.Ipv6.text_cases l
    · rw [htext]
      exact eight?_hexText h
    · simp only [List.length_append, List.length_replicate] at h
      have hlength : 8 - front.length - back.length = length := by omega
      rw [htext, eight?_colons (by omega), hlength]

/-- There is a dot only where a double colon comes first. -/
theorem bytes?_v6Text (l : List UInt16) : bytes? (v6Text l) = none := by
  rw [v6Text.eq_def]
  split
  · rfl
  · exact bytes?_of_no_dot (Url.not_mem_ipv6 dot_ne_digitChar (by decide) _)

/-- The standard text of an address is read as the address. -/
theorem ofText?_text (ip : IpAddress) : ofText? ip.text = some ip := by
  rw [ofText?, text, String.toList_ofList]
  cases ip with
  | v4 a b c d => exact ofChars?_eq_v4_iff.mpr (bytes?_v4Text a b c d)
  | v6 groups =>
    have hlength := groups.length_toList
    exact ofChars?_eq_v6_iff.mpr ⟨bytes?_v6Text _, eight?_v6Text _ hlength⟩

end IpAddress

end AssetCache
