import AssetCache.Proofs.Decimal.Whole
import AssetCache.Toml.Reader
import Mathlib.Data.List.TakeWhile

namespace AssetCache.Toml

open Decimal

variable {cs ds rest : List Char} {c : Char} {n : Int}

/-- A run of characters of a class ends where one of another stands behind it. -/
theorem takeWhile_run {p : Char → Bool} (hcs : ∀ c ∈ cs, p c = true)
    (hrest : ∀ c, rest.head? = some c → p c = false) :
    (cs ++ rest).takeWhile p = cs ∧ (cs ++ rest).dropWhile p = rest := by
  rw [List.takeWhile_append_of_pos hcs, List.dropWhile_append_of_pos hcs]
  cases rest with
  | nil => exact ⟨List.append_nil cs, rfl⟩
  | cons c rest =>
    have hc := Bool.eq_false_iff.mp (hrest c rfl)
    rw [List.takeWhile_cons_of_neg hc, List.dropWhile_cons_of_neg hc]
    exact ⟨List.append_nil cs, rfl⟩

theorem digits?_eq_some {k m : Nat} (h : digits? k cs = some (m, rest)) : rest = cs.drop k := by
  rw [digits?] at h
  obtain ⟨-, h⟩ := Option.ite_none_right_eq_some.mp h
  cases h
  rfl

theorem digits?_of_not_digit {k : Nat} (hc : c.isDigit = false) :
    digits? (k + 1) (c :: cs) = none := by
  rw [digits?, List.take_succ_cons, List.all_cons, hc]
  exact if_neg fun h => Bool.false_ne_true h.2

theorem expect_of_digits (hc : c.isDigit = false) (hds : ∀ c ∈ ds, c.isDigit = true) :
    expect c ds = none := by
  cases ds with
  | nil => rfl
  | cons d ds =>
    refine if_neg fun hd => ?_
    rw [← hd, hds d List.mem_cons_self] at hc
    cases hc

theorem date?_digits (h : ∀ c ∈ ds, c.isDigit = true) : date? ds = none := by
  rw [date?]
  cases hyear : digits? 4 ds with
  | none => rfl
  | some p =>
    obtain ⟨year, rest⟩ := p
    have hrest : ∀ c ∈ rest, c.isDigit = true := fun c hc =>
      h c (List.mem_of_mem_drop (digits?_eq_some hyear ▸ hc))
    simp only [Option.bind_eq_bind, Option.bind_some, expect_of_digits (c := '-') rfl hrest,
      Option.bind_none]

theorem time?_digits (h : ∀ c ∈ ds, c.isDigit = true) : time? ds = none := by
  rw [time?]
  cases hhour : digits? 2 ds with
  | none => rfl
  | some p =>
    obtain ⟨hour, rest⟩ := p
    have hrest : ∀ c ∈ rest, c.isDigit = true := fun c hc =>
      h c (List.mem_of_mem_drop (digits?_eq_some hhour ▸ hc))
    simp only [Option.bind_eq_bind, Option.bind_some, expect_of_digits (c := ':') rfl hrest,
      Option.bind_none]

theorem date?_of_not_digit (hc : c.isDigit = false) : date? (c :: cs) = none := by
  rw [date?, digits?_of_not_digit hc]
  rfl

theorem time?_of_not_digit (hc : c.isDigit = false) : time? (c :: cs) = none := by
  rw [time?, digits?_of_not_digit hc]
  rfl

theorem date?_spells (h : Spells cs n) : date? cs = none := by
  cases h with
  | plain hds => exact date?_digits hds.isDigit
  | plus => exact date?_of_not_digit rfl
  | minus => exact date?_of_not_digit rfl

theorem moment_spells (h : Spells cs n) : Moment.ofChars? cs = none := by
  have htime : time? cs = none := by
    cases h with
    | plain hds => exact time?_digits hds.isDigit
    | plus => exact time?_of_not_digit rfl
    | minus => exact time?_of_not_digit rfl
  rw [Moment.ofChars?, date?_spells h]
  dsimp only
  rw [htime]

theorem digitOf_digit (hc : c.isDigit = true) : digitOf c = c.toNat - '0'.toNat := if_pos hc

theorem valueIn_digits (h : ∀ c ∈ ds, c.isDigit = true) : valueIn 10 ds = digitsValue ds := by
  have hfold : ∀ m, ds.foldl (fun n d => n * 10 + digitOf d) m =
      ds.foldl (fun n d => n * 10 + (d.toNat - '0'.toNat)) m := by
    induction ds with
    | nil => exact fun _ => rfl
    | cons d ds ih =>
      obtain ⟨hd, hds⟩ := List.forall_mem_cons.mp h
      intro m
      rw [List.foldl_cons, List.foldl_cons, ih hds, digitOf_digit hd]
  exact hfold 0

theorem grouped?_digits (h : AreDigits ds) : grouped? Char.isDigit ds = some ds := by
  obtain ⟨hne, hds⟩ := h
  induction ds with
  | nil => exact absurd rfl hne
  | cons d ds ih =>
    obtain ⟨hd, hds⟩ := List.forall_mem_cons.mp hds
    cases ds with
    | nil => exact if_pos hd
    | cons e ds =>
      have htail : AreDigits (e :: ds) := ⟨List.cons_ne_nil e ds, hds⟩
      rw [grouped?, if_pos hd, ih htail.ne_nil hds, Option.map_some]
      · exact List.cons_ne_nil e ds
      · intro rest heq
        exact htail.ne_of_head? (c := '_') (congrArg List.head? heq) rfl rfl

theorem splitSign_digits (h : ∀ c ∈ ds, c.isDigit = true) : splitSign ds = (false, ds) :=
  Decimal.splitSign_digits h

def digitsOf (cs : List Char) : List Char := (splitSign cs).2

theorem decimal?_digits (h : AreDigits ds) :
    decimal? ds = if hasLeadingZero ds then none else some ds := by
  rw [decimal?, grouped?_digits h]

theorem splitSign_spells (h : Spells cs n) :
    ∃ negative ds, AreDigits ds ∧ splitSign cs = (negative, ds) ∧
      n = if negative then -(digitsValue ds : Int) else digitsValue ds :=
  Decimal.splitSign_spells h

theorem int?_spells (h : Spells cs n) :
    int? cs = if hasLeadingZero (digitsOf cs) then none else bounded n := by
  have hbase : ∀ {c : Char} {tail : List Char}, c.isDigit = false → cs ≠ '0' :: c :: tail := by
    rintro c tail hc rfl
    cases h with
    | plain hds =>
      rw [hds.isDigit c (List.mem_cons_of_mem _ List.mem_cons_self)] at hc
      cases hc
  obtain ⟨negative, ds, hds, hsplit, rfl⟩ := splitSign_spells h
  rw [int?, digitsOf, hsplit]
  · dsimp only
    rw [decimal?_digits hds]
    split
    · rfl
    · rw [Option.bind_some, valueIn_digits hds.isDigit]
  · exact fun _ => hbase rfl
  · exact fun _ => hbase rfl
  · exact fun _ => hbase rfl

theorem decimalFloat?_spells (h : Spells cs n) : decimalFloat? cs = none := by
  obtain ⟨negative, ds, hds, hsplit, -⟩ := splitSign_spells h
  have hne : ∀ {c : Char}, c.isDigit = false → ∀ d ∈ ds, (d != c) = true := by
    intro c hc d hd
    refine bne_iff_ne.mpr ?_
    rintro rfl
    rw [hds.isDigit d hd] at hc
    cases hc
  have hmark : ∀ d ∈ ds, (!isExponentMark d) = true := by
    intro d hd
    have he : (d != 'e') = true := hne rfl d hd
    have hE : (d != 'E') = true := hne rfl d hd
    rw [isExponentMark, Bool.not_or]
    exact Bool.and_eq_true_iff.mpr ⟨he, hE⟩
  have hpoint : ∀ d ∈ ds, (d != '.') = true := hne rfl
  have hmantissa : ds.takeWhile (!isExponentMark ·) = ds := List.takeWhile_eq_self_iff.mpr hmark
  have hexponent : ds.dropWhile (!isExponentMark ·) = [] := List.dropWhile_eq_nil_iff.mpr hmark
  have hwhole : ds.takeWhile (· != '.') = ds := List.takeWhile_eq_self_iff.mpr hpoint
  have hfraction : ds.dropWhile (· != '.') = [] := List.dropWhile_eq_nil_iff.mpr hpoint
  rw [decimalFloat?, hsplit]
  dsimp only
  rw [hmantissa, hexponent, hwhole, hfraction, decimal?_digits hds]
  split <;> rfl

theorem float?_spells (h : Spells cs n) : float? cs = none := by
  obtain ⟨negative, ds, hds, hsplit, -⟩ := splitSign_spells h
  rw [float?, hsplit]
  dsimp only
  rw [if_neg (hds.ne_of_head? (c := 'i') (by decide) rfl),
    if_neg (hds.ne_of_head? (c := 'n') (by decide) rfl), decimalFloat?_spells h]

theorem scalarOf_spells (h : Spells cs n) : scalarOf cs = (int? cs).map .int := by
  rw [scalarOf, if_neg (h.ne_of_head? (c := 't') (by decide) rfl (by decide) (by decide)),
    if_neg (h.ne_of_head? (c := 'f') (by decide) rfl (by decide) (by decide)), moment_spells h,
    float?_spells h]
  cases int? cs <;> rfl

theorem isScalarChar_spells (h : Spells cs n) : ∀ c ∈ cs, isScalarChar c = true := by
  have hdigit : ∀ {ds}, AreDigits ds → ∀ c ∈ ds, isScalarChar c = true := by
    intro ds hds c hc
    simp [isScalarChar, Char.isAlphanum, hds.isDigit c hc]
  cases h with
  | plain hds => exact hdigit hds
  | plus hds => exact List.forall_mem_cons.mpr ⟨rfl, hdigit hds⟩
  | minus hds => exact List.forall_mem_cons.mpr ⟨rfl, hdigit hds⟩

/-- A number is read as itself, if it is one of 64 bits and has no zero in front. -/
theorem readScalar_spells (h : Spells cs n)
    (hrest : ∀ c, rest.head? = some c → isScalarChar c = false) :
    readScalar (cs ++ rest) =
      if hasLeadingZero (digitsOf cs) then none else (bounded n).map fun n => (.int n, rest) := by
  obtain ⟨htake, hdrop⟩ := takeWhile_run (isScalarChar_spells h) hrest
  have htext : scalarText (cs ++ rest) = (cs, rest) := by
    rw [scalarText, htake, hdrop, date?_spells h]
  rw [readScalar, htext]
  dsimp only
  rw [scalarOf_spells h, int?_spells h]
  split
  · rfl
  · rw [Option.map_map]
    rfl

end AssetCache.Toml
