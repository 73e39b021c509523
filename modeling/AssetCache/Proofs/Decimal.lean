import AssetCache.Decimal.Reader
import AssetCache.Decimal.Shortest
import AssetCache.Proofs.Json.Token
import Mathlib.Data.List.Induction

namespace AssetCache.Decimal

variable {ds : List Char} {c : Char}

theorem digitsValue_append (ds : List Char) (c : Char) :
    digitsValue (ds ++ [c]) = digitsValue ds * 10 + (c.toNat - '0'.toNat) := by
  rw [digitsValue, List.foldl_append]
  rfl

theorem digit_cases (hc : c.isDigit = true) :
    ∃ k < 10, c.toNat - '0'.toNat = k ∧ Nat.digitChar k = c := by
  have hrange : 48 ≤ c.toNat ∧ c.toNat ≤ 57 := by
    simpa [Char.isDigit, UInt32.le_iff_toNat_le] using hc
  have hchar : ∀ k < 10, Nat.digitChar k = Char.ofNat (48 + k) := by decide
  refine ⟨c.toNat - 48, by omega, rfl, ?_⟩
  rw [hchar _ (by omega), Nat.add_sub_cancel' hrange.1, Char.ofNat_toNat]

theorem toDigits_digitsValue (hne : ds ≠ []) (hds : ∀ c ∈ ds, c.isDigit = true)
    (hzero : ds.head? = some '0' → ds = ['0']) : Nat.toDigits 10 (digitsValue ds) = ds := by
  induction ds using List.reverseRecOn with
  | nil => exact absurd rfl hne
  | append_singleton ds c ih =>
    have hc := hds c (List.mem_append_right _ List.mem_cons_self)
    obtain ⟨k, hk, hvalue, hchar⟩ := digit_cases hc
    rw [digitsValue_append, hvalue]
    by_cases hnil : ds = []
    · subst hnil
      rw [digitsValue, List.foldl_nil, Nat.zero_mul, Nat.zero_add, Nat.toDigits_of_lt_base hk,
        hchar]
      rfl
    · have hlead : ds.head? ≠ some '0' := fun h => by
        have hone := congrArg List.length (hzero (by rw [List.head?_append, h]; rfl))
        have hlength := List.length_pos_iff.mpr hnil
        rw [List.length_append, List.length_singleton, List.length_singleton] at hone
        omega
      have hself := ih hnil (fun c hc => hds c (List.mem_append_left _ hc)) fun h => absurd h hlead
      have hpos : digitsValue ds ≠ 0 := fun h => by
        rw [h] at hself
        exact hlead (by rw [← hself]; rfl)
      have hdiv : (digitsValue ds * 10 + k) / 10 = digitsValue ds := by omega
      have hmod : (digitsValue ds * 10 + k) % 10 = k := by omega
      rw [Nat.toDigits_of_base_le (by decide) (by omega), hdiv, hmod, hself, hchar]

/-- A whole number without a plus sign and without a zero in front; zero itself has no sign. -/
def IsShort (v : String) : Prop :=
  v.toList.head? ≠ some '+' ∧ ((splitSign v.toList).2.head? = some '0' → v = "0")

instance (v : String) : Decidable (IsShort v) := inferInstanceAs (Decidable (_ ∧ _))

theorem splitSign_digits (hds : ∀ c ∈ ds, c.isDigit = true) : splitSign ds = (false, ds) := by
  cases ds with
  | nil => rfl
  | cons c ds =>
    have hc := hds c List.mem_cons_self
    rw [splitSign]
    · intro _ h
      rw [(List.cons.inj h).1] at hc
      exact absurd hc (by decide)
    · intro _ h
      rw [(List.cons.inj h).1] at hc
      exact absurd hc (by decide)

theorem toList_repr_negSucc (m : Nat) :
    (Int.repr (.negSucc m)).toList = '-' :: Nat.toDigits 10 (m + 1) := by
  rw [Int.repr, String.toList_append, Nat.toList_repr]
  rfl

theorem isShort_repr (n : Int) : IsShort (Int.repr n) := by
  have hdigits : ∀ m, ∀ c ∈ Nat.toDigits 10 m, c.isDigit = true := fun m c hc =>
    Nat.isDigit_of_mem_toDigits (b := 10) (by decide) (by decide) hc
  cases n with
  | ofNat m =>
    refine ⟨fun hplus => ?_, fun hzero => ?_⟩
    · rw [Int.repr, Nat.toList_repr] at hplus
      exact absurd (hdigits m '+' (List.mem_of_head? hplus)) (by decide)
    · rw [Int.repr, Nat.toList_repr, splitSign_digits (hdigits m)] at hzero
      rw [Json.eq_zero_of_head?_toDigits hzero]
      rfl
  | negSucc m =>
    refine ⟨fun hplus => ?_, fun hzero => ?_⟩
    · rw [toList_repr_negSucc] at hplus
      cases hplus
    · rw [toList_repr_negSucc] at hzero
      cases Json.eq_zero_of_head?_toDigits hzero

theorem digits?_eq_some {n : Nat} (h : digits? ds = some n) :
    ds ≠ [] ∧ (∀ c ∈ ds, c.isDigit = true) ∧ n = digitsValue ds := by
  rw [digits?] at h
  split at h
  · next hds =>
    cases h
    rw [Bool.and_eq_true, Bool.not_eq_true', List.isEmpty_eq_false_iff] at hds
    exact ⟨hds.1, List.all_eq_true.mp hds.2, rfl⟩
  · cases h

theorem splitSign_cases (cs : List Char) :
    (∃ ds, cs = '-' :: ds ∧ splitSign cs = (true, ds)) ∨ cs.head? = some '+' ∨
      splitSign cs = (false, cs) := by
  rw [splitSign.eq_def]
  split
  · exact .inl ⟨_, rfl, rfl⟩
  · exact .inr (.inl rfl)
  · exact .inr (.inr rfl)

theorem int64?_eq_some {v : String} {n : Int} (h : int64? v = some n) :
    (splitSign v.toList).2 ≠ [] ∧ (∀ c ∈ (splitSign v.toList).2, c.isDigit = true) ∧
      n = if (splitSign v.toList).1 then -(digitsValue (splitSign v.toList).2 : Int)
        else digitsValue (splitSign v.toList).2 := by
  rw [int64?] at h
  generalize splitSign v.toList = split at h ⊢
  obtain ⟨negative, ds⟩ := split
  dsimp only at h ⊢
  cases hm : digits? ds with
  | none => rw [hm] at h; cases h
  | some m =>
    obtain ⟨hne, hdigits, rfl⟩ := digits?_eq_some hm
    rw [hm] at h
    obtain ⟨-, heq⟩ := Option.ite_none_right_eq_some.mp h
    exact ⟨hne, hdigits, (Option.some.inj heq).symm⟩

/-- A text is the one that its whole number is written as if it is short, and only then. -/
theorem eq_repr_iff {v : String} {n : Int} (h : int64? v = some n) :
    v = Int.repr n ↔ IsShort v := by
  refine ⟨fun hv => hv ▸ isShort_repr n, fun ⟨hplus, hzero⟩ => ?_⟩
  obtain ⟨hne, hdigits, hn⟩ := int64?_eq_some h
  by_cases hv : v = "0"
  · subst hv
    cases h
    rfl
  have hself := toDigits_digitsValue hne hdigits fun h => absurd (hzero h) hv
  have hpos : digitsValue (splitSign v.toList).2 ≠ 0 := fun h => by
    rw [h] at hself
    exact hv (hzero (by rw [← hself]; rfl))
  refine String.toList_inj.mp ?_
  obtain ⟨ds, hds, hsplit⟩ | hhead | hsplit := splitSign_cases v.toList
  · rw [hsplit] at hn hself hpos
    dsimp only at hn hself hpos
    obtain ⟨k, hk⟩ := Nat.exists_eq_succ_of_ne_zero hpos
    rw [if_pos rfl, hk] at hn
    rw [hk] at hself
    rw [hds, hn, Int.neg_ofNat_succ, ← hself, toList_repr_negSucc]
  · exact absurd hhead hplus
  · rw [hsplit] at hn hself
    rw [if_neg Bool.false_ne_true] at hn
    rw [hn]
    exact (Nat.toList_repr.trans hself).symm

/-- The characters of numbers that are written: digits, a sign, a point, and the letters of the two
that are no numbers. -/
def inNumber (c : Char) : Bool := c.isDigit || "-.infNa".toList.contains c

theorem inNumber_of_isDigit (hc : c.isDigit = true) : inNumber c = true := by
  rw [inNumber, hc, Bool.true_or]

theorem inNumber_toDigits {n : Nat} (hc : c ∈ Nat.toDigits 10 n) : inNumber c = true :=
  inNumber_of_isDigit (Nat.isDigit_of_mem_toDigits (b := 10) (by decide) (by decide) hc)

theorem inNumber_repr {n : Int} (hc : c ∈ (Int.repr n).toList) : inNumber c = true := by
  cases n with
  | ofNat m =>
    rw [Int.repr, Nat.toList_repr] at hc
    exact inNumber_toDigits hc
  | negSucc m =>
    rw [toList_repr_negSucc] at hc
    obtain rfl | hc := List.mem_cons.mp hc
    · decide
    · exact inNumber_toDigits hc

theorem inNumber_shortest {m : Nat} {e : Int} (hc : c ∈ (shortest m e).1) :
    inNumber c = true := by
  rw [shortest] at hc
  dsimp only at hc
  split at hc
  · cases List.mem_singleton.mp hc
    decide
  · exact inNumber_toDigits hc

theorem inNumber_positional {point : Int} (hds : ∀ c ∈ ds, inNumber c = true)
    (hc : c ∈ positional ds point) : inNumber c = true := by
  have hshort : ∀ c ∈ (ds.reverse.dropWhile (· == '0')).reverse, inNumber c = true := by
    intro c hc
    exact hds c (List.mem_reverse.mp ((List.dropWhile_sublist _).subset (List.mem_reverse.mp hc)))
  have hzeros : ∀ {n : Nat}, ∀ c ∈ List.replicate n '0', inNumber c = true := by
    intro n c hc
    rw [List.eq_of_mem_replicate hc]
    decide
  rw [positional] at hc
  split at hc
  · obtain rfl | hc := List.mem_cons.mp hc
    · decide
    obtain rfl | hc := List.mem_cons.mp hc
    · decide
    exact (List.mem_append.mp hc).elim (hzeros c) (hshort c)
  · split at hc
    · exact (List.mem_append.mp hc).elim (hshort c) (hzeros c)
    · obtain hc | hc := List.mem_append.mp hc
      · exact hshort c (List.mem_of_mem_take hc)
      obtain rfl | hc := List.mem_cons.mp hc
      · decide
      · exact hshort c (List.mem_of_mem_drop hc)

theorem inNumber_text {x : Binary64} (hc : c ∈ x.text.toList) : inNumber c = true := by
  have hword : Binary64.nan.text.toList.all inNumber = true := by decide
  have hwords : ∀ negative, (Binary64.infinite negative).text.toList.all inNumber = true := by
    decide
  cases x with
  | nan => exact List.all_eq_true.mp hword c hc
  | infinite negative => exact List.all_eq_true.mp (hwords negative) c hc
  | finite negative m e =>
    have hbody : ∀ c ∈ (if m = 0 then ['0'] else positional (shortest m e).1 (shortest m e).2),
        inNumber c = true := by
      intro c hc
      split at hc
      · cases List.mem_singleton.mp hc
        decide
      · exact inNumber_positional (fun c hc => inNumber_shortest hc) hc
    rw [Binary64.text, String.toList_ofList] at hc
    split at hc
    · obtain rfl | hc := List.mem_cons.mp hc
      · decide
      · exact hbody c hc
    · exact hbody c hc

end AssetCache.Decimal
