import AssetCache.Proofs.Url.Path

namespace AssetCache.Url

variable {set : Char → Bool} {cs s : List Char} {c : Char} {bs : List UInt8}

def startsHex : List Char → Bool
  | a :: b :: _ => (hexValue a).isSome && (hexValue b).isSome
  | _ => false

theorem toNat_of_hexValue {n : Nat} (h : hexValue c = some n) :
    (c.toNat = n + 48 ∧ n < 10) ∨ (c.toNat = n + 87 ∧ 10 ≤ n ∧ n < 16) ∨
      (c.toNat = n + 55 ∧ 10 ≤ n ∧ n < 16) := by
  have hle : ∀ a b : Char, a ≤ b ↔ a.toNat ≤ b.toNat := fun _ _ => Iff.rfl
  have hvals : '0'.toNat = 48 ∧ '9'.toNat = 57 ∧ 'a'.toNat = 97 ∧ 'f'.toNat = 102 ∧
      'A'.toNat = 65 ∧ 'F'.toNat = 70 := by decide
  rw [hexValue] at h
  simp only [hle, hvals] at h
  split at h
  · cases h
    omega
  · split at h
    · cases h
      omega
    · split at h
      · cases h
        omega
      · cases h

theorem hexValue_upperHex {n : Nat} (hn : n < 16) : hexValue (upperHex n) = some n := by
  revert n
  decide

theorem unescape_hex {a b : Char} {x y : Nat} (ha : hexValue a = some x) (hb : hexValue b = some y)
    (cs : List Char) : unescape ('%' :: a :: b :: cs) = UInt8.ofNat (x * 16 + y) :: unescape cs := by
  rw [unescape, ha, hb]

theorem unescape_percent (h : startsHex cs = false) :
    unescape ('%' :: cs) = String.utf8EncodeChar '%' ++ unescape cs := by
  obtain _ | ⟨a, _ | ⟨b, cs⟩⟩ := cs
  · rfl
  · rfl
  · rw [unescape]
    rw [startsHex, Bool.and_eq_false_iff] at h
    split
    · next ha hb =>
      rw [ha, hb] at h
      cases h <;> contradiction
    · rfl

theorem unescape_cons (h : c ≠ '%') (cs : List Char) :
    unescape (c :: cs) = String.utf8EncodeChar c ++ unescape cs := by
  rw [unescape.eq_def]
  split
  · next heq => cases heq
  · next heq => exact absurd (List.cons.inj heq).1 h
  · next heq =>
    cases heq
    rfl

theorem unescape_escapeByte (b : UInt8) (cs : List Char) :
    unescape (escapeByte b ++ cs) = b :: unescape cs := by
  have hb := b.toNat_lt
  have hhigh := hexValue_upperHex (n := b.toNat / 16) (by omega)
  have hlow := hexValue_upperHex (n := b.toNat % 16) (by omega)
  have hval : b.toNat / 16 * 16 + b.toNat % 16 = b.toNat := by omega
  rw [escapeByte, List.cons_append, List.cons_append, List.cons_append, List.nil_append,
    unescape_hex hhigh hlow, hval, UInt8.ofNat_toNat]

theorem unescape_escapeBytes (bs : List UInt8) (cs : List Char) :
    unescape (bs.flatMap escapeByte ++ cs) = bs ++ unescape cs := by
  induction bs with
  | nil => rfl
  | cons b bs ih =>
    rw [List.flatMap_cons, List.append_assoc, unescape_escapeByte, ih, List.cons_append]

theorem startsHex_escape (hset : ∀ c, (hexValue c).isSome → set c = false) (cs : List Char) :
    startsHex (escape set cs) = startsHex cs := by
  have hpercent : ∀ c cs, set c = true →
      ∃ more, escape set (c :: cs) = '%' :: more := by
    intro c cs hc
    obtain ⟨b, bs, hb, -⟩ := utf8EncodeChar_head c
    rw [escape_cons]
    simp only [escape, hc, if_true, hb, List.flatMap_cons, escapeByte]
    exact ⟨_, rfl⟩
  have hnot : ∀ c, set c = true → hexValue c = none := by
    intro c hc
    cases h : hexValue c with
    | none => rfl
    | some n =>
      rw [hset c (by rw [h]; rfl)] at hc
      cases hc
  have hnone : hexValue '%' = none := by decide
  obtain _ | ⟨a, cs⟩ := cs
  · rfl
  by_cases ha : set a = true
  · obtain ⟨more, hmore⟩ := hpercent a cs ha
    have hleft : ∀ more, startsHex ('%' :: more) = false := by
      intro more
      cases more <;> simp [startsHex, hnone]
    rw [hmore, hleft]
    cases cs <;> simp [startsHex, hnot a ha]
  · rw [escape_of_not_mem (Bool.eq_false_iff.mpr ha)]
    obtain _ | ⟨b, cs⟩ := cs
    · rfl
    by_cases hb : set b = true
    · obtain ⟨more, hmore⟩ := hpercent b cs hb
      rw [hmore, startsHex, startsHex, hnone, hnot b hb]
    · rw [escape_of_not_mem (Bool.eq_false_iff.mpr hb)]
      rfl

/-- Escaping is not seen in what a text stands for, as long as it leaves escapes alone. -/
theorem unescape_escape (hpercent : set '%' = false)
    (hset : ∀ c, (hexValue c).isSome → set c = false) (cs : List Char) :
    unescape (escape set cs) = unescape cs := by
  fun_induction unescape cs with
  | case1 => rfl
  | case2 a b rest x y hb ha ih =>
    have hdigit : ∀ {c n}, hexValue c = some n → set c = false := fun h => hset _ (by rw [h]; rfl)
    rw [escape_of_not_mem hpercent, escape_of_not_mem (hdigit ha), escape_of_not_mem (hdigit hb),
      unescape_hex ha hb, ih]
  | case3 a b rest hno ih =>
    have hstart : startsHex (a :: b :: rest) = false := by
      cases ha : hexValue a with
      | none => simp [startsHex, ha]
      | some x =>
        cases hb : hexValue b with
        | none => simp [startsHex, hb]
        | some y => exact absurd hb (hno x y ha)
    rw [escape_of_not_mem hpercent, unescape_percent (by rw [startsHex_escape hset, hstart]), ih]
  | case4 c rest hno ih =>
    by_cases hc : set c = true
    · rw [escape_cons]
      simp only [escape, List.flatMap_singleton, hc, if_true] at ih ⊢
      rw [unescape_escapeBytes, ih]
    · rw [escape_of_not_mem (Bool.eq_false_iff.mpr hc)]
      by_cases hp : c = '%'
      · subst hp
        have hstart : startsHex rest = false := by
          obtain _ | ⟨a, _ | ⟨b, rest⟩⟩ := rest
          · rfl
          · rfl
          · exact absurd rfl (hno a b rest rfl)
        rw [unescape_percent (by rw [startsHex_escape hset, hstart]), ih]
      · rw [unescape_cons hp, ih]

theorem utf8EncodeChar_ne_nil (c : Char) : String.utf8EncodeChar c ≠ [] := by
  obtain ⟨b, bs, hb, -⟩ := utf8EncodeChar_head c
  rw [hb]
  exact List.cons_ne_nil b bs

theorem unescape_eq_nil (h : unescape cs = []) : cs = [] := by
  cases cs with
  | nil => rfl
  | cons c cs =>
    rw [unescape.eq_def] at h
    split at h
    · assumption
    · split at h
      · cases h
      · exact absurd (List.append_eq_nil_iff.mp h).1 (utf8EncodeChar_ne_nil _)
    · exact absurd (List.append_eq_nil_iff.mp h).1 (utf8EncodeChar_ne_nil _)

/-- What stands for a text that begins with a dot begins with one of the spellings of a dot. -/
theorem exists_of_unescape_dot (h : unescape s = 0x2e :: bs) :
    ∃ piece ∈ singleDots, ∃ s', s = piece ++ s' ∧ unescape s' = bs := by
  have hdot : ∀ c cs, String.utf8EncodeChar c ++ unescape cs = 0x2e :: bs →
      c = '.' ∧ unescape cs = bs := by
    intro c cs hc
    obtain ⟨b, more, hb, hval⟩ := utf8EncodeChar_head c
    rw [hb, List.cons_append, List.cons.injEq] at hc
    obtain ⟨rfl, hrest⟩ := hc
    have hbyte : (0x2e : UInt8).toNat = 46 := rfl
    have hc : c = '.' := Char.toNat_inj.mp (show c.toNat = 46 by omega)
    subst hc
    cases hb
    exact ⟨rfl, hrest⟩
  rw [unescape.eq_def] at h
  split at h
  · cases h
  · next a b rest =>
    split at h
    · next x y hx hy =>
      rw [List.cons.injEq] at h
      obtain ⟨hbyte, hrest⟩ := h
      have hx' := toNat_of_hexValue hx
      have hy' := toNat_of_hexValue hy
      have hval : (x * 16 + y) % 256 = 46 := by
        rw [← UInt8.toNat_ofNat', hbyte]
        rfl
      have ha : a = '2' := Char.toNat_inj.mp (show a.toNat = 50 by omega)
      have hb : b = 'e' ∨ b = 'E' := by
        have hb : b.toNat = 101 ∨ b.toNat = 69 := by omega
        exact hb.imp Char.toNat_inj.mp Char.toNat_inj.mp
      subst ha
      obtain rfl | rfl := hb
      · exact ⟨['%', '2', 'e'], by decide, rest, rfl, hrest⟩
      · exact ⟨['%', '2', 'E'], by decide, rest, rfl, hrest⟩
    · exact absurd (hdot _ _ h).1 (by decide)
  · next c rest _ =>
    obtain ⟨rfl, hrest⟩ := hdot c rest h
    exact ⟨['.'], by decide, rest, rfl, hrest⟩

theorem isSingleDot_of_unescape (h : unescape s = [0x2e]) : isSingleDot s = true := by
  obtain ⟨piece, hp, s', rfl, hs'⟩ := exists_of_unescape_dot h
  rw [unescape_eq_nil hs', List.append_nil]
  exact List.contains_iff_mem.mpr hp

theorem isDoubleDot_of_unescape (h : unescape s = [0x2e, 0x2e]) : isDoubleDot s = true := by
  obtain ⟨a, ha, s', rfl, hs'⟩ := exists_of_unescape_dot h
  obtain ⟨b, hb, s'', rfl, hs''⟩ := exists_of_unescape_dot hs'
  rw [unescape_eq_nil hs'', List.append_nil]
  exact isDoubleDot_iff.mpr ⟨a, ha, b, hb, rfl⟩

end AssetCache.Url
