import AssetCache.Json.Token
import AssetCache.Json.Value

namespace AssetCache.Json

variable {cs rest : List Char}

theorem next?_space {space : List Char} (h : ∀ c ∈ space, isSpace c = true) (cs : List Char) :
    next? (space ++ cs) = next? cs := by
  rw [next?, next?, List.dropWhile_append_of_pos h]

theorem next?_of_not_space {c : Char} (h : isSpace c = false) (cs : List Char) :
    next? (c :: cs) = some (tokenAt c cs) := by
  rw [next?, List.dropWhile_cons_of_neg (by simp [h])]

theorem hexValue?_hexDigit (n : Nat) : hexValue? (hexDigit n) = some (n % 16) := by
  have hall : ∀ m < 16, hexValue? (Nat.digitChar m) = some m := by decide
  exact hall _ (Nat.mod_lt n (by decide))

theorem readEscape_control {c : Char} (hc : c.toNat < 0x20) (rest : List Char) :
    readEscape ('u' :: '0' :: '0' :: hexDigit (c.toNat / 16) :: hexDigit c.toNat :: rest) =
      (.char c, rest) := by
  have hzero : hexValue? '0' = some 0 := by decide
  have hvalue : ((0 * 16 + 0) * 16 + c.toNat / 16 % 16) * 16 + c.toNat % 16 = c.toNat := by omega
  have hlead : isLead c.toNat = false := by simp [isLead]; omega
  have htrail : isTrail c.toNat = false := by simp [isTrail]; omega
  simp only [readEscape, readUnit, hzero, hexValue?_hexDigit, hvalue, hlead, htrail,
    Bool.false_eq_true, if_false, Char.ofNat_toNat]

theorem readText_backslash {c : Char} (h : readEscape cs = (.char c, rest)) (read : List Char)
    (unpaired : Bool) :
    readText read unpaired ('\\' :: cs) = readText (c :: read) unpaired rest := by
  rw [readText, if_neg (by decide), if_pos rfl]
  simp only [h]

theorem readText_escapeChar (read : List Char) (unpaired : Bool) (c : Char) (rest : List Char) :
    readText read unpaired (escapeChar c ++ rest) = readText (c :: read) unpaired rest := by
  have hshort : ∀ d : Char, readEscape (d :: rest) = (.char c, rest) →
      readText read unpaired (['\\', d] ++ rest) = readText (c :: read) unpaired rest :=
    fun d h => readText_backslash h read unpaired
  rw [escapeChar]
  split
  · next h => exact hshort _ (by rw [h]; rfl)
  · next hquote =>
    split
    · next h => exact hshort _ (by rw [h]; rfl)
    · next hback =>
      split
      · next h => exact hshort _ (by rw [h]; rfl)
      · split
        · next h => exact hshort _ (by rw [h]; rfl)
        · split
          · next h => exact hshort _ (by rw [h]; rfl)
          · split
            · next h => exact hshort _ (by rw [h]; rfl)
            · split
              · next h => exact hshort _ (by rw [h]; rfl)
              · split
                · next h => exact readText_backslash (readEscape_control h rest) read unpaired
                · next h =>
                  rw [List.singleton_append, readText, if_neg hquote, if_neg hback, if_neg h]

theorem readText_flatMap (cs read : List Char) (unpaired : Bool) (rest : List Char) :
    readText read unpaired (cs.flatMap escapeChar ++ '"' :: rest) =
      (⟨read.reverse ++ cs, unpaired, none⟩, rest) := by
  induction cs generalizing read with
  | nil =>
    rw [List.flatMap_nil, List.nil_append, readText, if_pos rfl, List.append_nil]
  | cons c cs ih =>
    rw [List.flatMap_cons, List.append_assoc, readText_escapeChar, ih]
    simp

theorem next?_writeText (s : String) (rest : List Char) :
    next? (writeText s ++ rest) = some (.text ⟨s.toList, false, none⟩, rest) := by
  have htext := readText_flatMap s.toList [] false rest
  rw [writeText, List.cons_append, next?_of_not_space (by decide)]
  simp only [List.append_assoc, List.singleton_append, tokenAt, htext, List.reverse_nil,
    List.nil_append]

/-- A number that stands before this is at its end. -/
def EndsNumber (rest : List Char) : Prop :=
  ∀ c ∈ rest.head?, c.isDigit = false ∧ c ≠ '.' ∧ c ≠ 'e' ∧ c ≠ 'E'

theorem eq_zero_of_head?_toDigits {n : Nat} (h : (Nat.toDigits 10 n).head? = some '0') : n = 0 := by
  induction n using Nat.strongRecOn with
  | _ n ih =>
    by_cases hn : n < 10
    · rw [Nat.toDigits_of_lt_base hn] at h
      exact Nat.digitChar_eq_zero.mp (Option.some.inj h)
    · have hle : 10 ≤ n := by omega
      have hsome : (Nat.toDigits 10 (n / 10)).head?.isSome := by
        rw [List.isSome_head?]
        exact Nat.toDigits_ne_nil
      rw [Nat.toDigits_of_base_le (by decide) hle, List.head?_append,
        Option.or_of_isSome hsome] at h
      have hzero := ih (n / 10) (by omega) h
      omega

theorem digitsNat_toDigits (n : Nat) : digitsNat (Nat.toDigits 10 n) = n := by
  have hfold : ∀ ds : List Char, digitsNat ds = Nat.ofDigitChars 10 ds 0 := fun ds => by
    simp only [digitsNat, Nat.ofDigitChars_eq_foldl, Nat.mul_comm]
  rw [hfold, Nat.ofDigitChars_ten_toDigits]

theorem wantDigits_append {ds : List Char} (hne : ds ≠ []) (hds : ∀ c ∈ ds, c.isDigit = true)
    (hrest : EndsNumber rest) : wantDigits (ds ++ rest) = .ok (ds, rest) := by
  obtain ⟨d, ds, rfl⟩ := List.exists_cons_of_ne_nil hne
  have htail : ∀ c ∈ ds, c.isDigit = true := fun c hc => hds c (List.mem_cons_of_mem _ hc)
  have htake : rest.takeWhile Char.isDigit = [] := by
    cases rest with
    | nil => rfl
    | cons c rest => rw [List.takeWhile_cons_of_neg (by simp [(hrest c rfl).1])]
  have hdrop : rest.dropWhile Char.isDigit = rest := by
    cases rest with
    | nil => rfl
    | cons c rest => rw [List.dropWhile_cons_of_neg (by simp [(hrest c rfl).1])]
  rw [List.cons_append, wantDigits, if_pos (hds d List.mem_cons_self),
    List.takeWhile_append_of_pos htail, List.dropWhile_append_of_pos htail, htake, hdrop,
    List.append_nil]

theorem readFraction_of_ends (hrest : EndsNumber rest) : readFraction rest = .ok ([], rest) := by
  rw [readFraction.eq_def]
  split
  · exact absurd rfl (hrest _ rfl).2.1
  · rfl

theorem readExponent_of_ends (hrest : EndsNumber rest) : readExponent rest = .ok (none, rest) := by
  cases rest with
  | nil => rfl
  | cons c rest =>
    obtain ⟨_, _, he, hE⟩ := hrest c rfl
    rw [readExponent.eq_def]
    simp only [he, hE, or_self, if_false]

theorem next?_toDigits (n : Nat) (hrest : EndsNumber rest) :
    next? (Nat.toDigits 10 n ++ rest) = some (.number ⟨false, n, 0, true⟩, rest) := by
  have hdigits : ∀ c ∈ Nat.toDigits 10 n, c.isDigit = true := fun c hc =>
    Nat.isDigit_of_mem_toDigits (by decide) (by decide) hc
  have hnumber : readNumber false (Nat.toDigits 10 n ++ rest) =
      .ok (⟨false, n, 0, true⟩, rest) := by
    have hzero : ¬ ((Nat.toDigits 10 n).head? = some '0' ∧ (Nat.toDigits 10 n).length ≠ 1) := by
      rintro ⟨hhead, hlength⟩
      rw [eq_zero_of_head?_toDigits hhead] at hlength
      exact hlength rfl
    rw [readNumber, wantDigits_append Nat.toDigits_ne_nil hdigits hrest]
    simp only [if_neg hzero, readFraction_of_ends hrest, readExponent_of_ends hrest,
      List.append_nil, digitsNat_toDigits]
    rfl
  obtain ⟨d, ds, hds⟩ := List.exists_cons_of_ne_nil (Nat.toDigits_ne_nil (n := n) (b := 10))
  have hd : d.isDigit = true := hdigits d (by rw [hds]; exact List.mem_cons_self)
  have hspace : isSpace d = false := by
    cases hs : isSpace d with
    | false => rfl
    | true =>
      simp only [isSpace, Bool.or_eq_true, beq_iff_eq] at hs
      rcases hs with ((rfl | rfl) | rfl) | rfl <;> cases hd
  have htoken : ∀ cs, tokenAt d cs = ofNumber (readNumber false (d :: cs)) := by
    intro cs
    rw [tokenAt.eq_def]
    split <;> first | exact absurd hd (by decide) | rw [if_pos hd]
  rw [hds, List.cons_append] at hnumber ⊢
  rw [next?_of_not_space hspace, htoken, hnumber, ofNumber]

end AssetCache.Json
