import AssetCache.Proofs.Decimal
import Mathlib.Algebra.Group.Int.Defs
import Mathlib.Algebra.Group.Nat.Defs
import Mathlib.Data.List.TakeWhile

namespace AssetCache.Decimal

variable {v : String} {cs ds : List Char} {n : Int} {m limit : Nat}

structure AreDigits (ds : List Char) : Prop where
  ne_nil : ds ≠ []
  isDigit : ∀ c ∈ ds, c.isDigit = true

/-- A whole number in decimal, with a sign or without, and with any zeros in front. -/
inductive Spells : List Char → Int → Prop
  | plain {ds : List Char} (h : AreDigits ds) : Spells ds (digitsValue ds)
  | plus {ds : List Char} (h : AreDigits ds) : Spells ('+' :: ds) (digitsValue ds)
  | minus {ds : List Char} (h : AreDigits ds) : Spells ('-' :: ds) (-(digitsValue ds))

theorem Spells.ne_nil {n : Int} (h : Spells ds n) : ds ≠ [] := by
  cases h with
  | plain hds => exact hds.ne_nil
  | plus | minus => exact List.cons_ne_nil _ _

theorem areDigits_toDigits (n : Nat) : AreDigits (Nat.toDigits 10 n) where
  ne_nil := Nat.toDigits_ne_nil
  isDigit _ hc := Nat.isDigit_of_mem_toDigits (b := 10) (by decide) (by decide) hc

theorem digitsValue_toDigits (n : Nat) : digitsValue (Nat.toDigits 10 n) = n :=
  Json.digitsNat_toDigits n

theorem spells_toDigits (n : Nat) : Spells (Nat.toDigits 10 n) n := by
  have h := Spells.plain (areDigits_toDigits n)
  rwa [digitsValue_toDigits] at h

theorem AreDigits.ne_of_head? {c : Char} {cs : List Char} (h : AreDigits ds)
    (hhead : cs.head? = some c) (hc : c.isDigit = false) : ds ≠ cs := by
  rintro rfl
  rw [h.isDigit c (List.mem_of_head? hhead)] at hc
  cases hc

theorem Spells.ne_of_head? {c : Char} {word : List Char} (h : Spells cs n)
    (hhead : word.head? = some c) (hc : c.isDigit = false) (hplus : c ≠ '+') (hminus : c ≠ '-') :
    cs ≠ word := by
  rintro rfl
  cases h with
  | plain hds => exact hds.ne_of_head? hhead hc rfl
  | plus => exact hplus (Option.some.inj hhead).symm
  | minus => exact hminus (Option.some.inj hhead).symm

theorem roundDiv_of_dvd {d : Nat} (h : d ∣ m) (hd : 0 < d) : roundDiv m d * d = m := by
  have hmod : m % d = 0 := Nat.mod_eq_zero_of_dvd h
  have hround : roundDiv m d = m / d := by
    rw [roundDiv, hmod]
    exact if_pos hd
  rw [hround, Nat.div_mul_cancel h]

theorem le_roundDiv (m d : Nat) : m / d ≤ roundDiv m d := by
  rw [roundDiv]
  split
  · exact Nat.le_refl _
  split
  · exact Nat.le_succ _
  split
  · exact Nat.le_refl _
  · exact Nat.le_succ _

namespace Binary64

theorem toNatClamped_finite (limit m e : Nat) :
    (finite false m e).toNatClamped limit = min limit (m * 2 ^ e) := by
  rw [toNatClamped, if_neg Bool.false_ne_true, if_pos (Int.natCast_nonneg e), Int.toNat_natCast]
  rfl

theorem toNatClamped_ofRounded {e : Nat} (hm : 0 < m) (hlimit : limit ≤ 2 ^ 64) :
    (ofRounded false m e).toNatClamped limit = min limit (m * 2 ^ e) := by
  have hlarge : 971 ≤ e → min limit (m * 2 ^ e) = limit := fun he => Nat.min_eq_left <| calc
    limit ≤ 2 ^ 64 := hlimit
    _ ≤ 2 ^ e := Nat.pow_le_pow_right (by decide) (by omega)
    _ ≤ m * 2 ^ e := Nat.le_mul_of_pos_left _ hm
  rw [ofRounded]
  by_cases hdigit : m = Nat.pow 2 53
  · rw [if_pos hdigit]
    dsimp only
    split
    · rw [hlarge (by omega)]
      rfl
    · have hvalue : m * 2 ^ e = Nat.pow 2 52 * 2 ^ (e + 1) := by
        rw [hdigit, Nat.pow_succ, Nat.mul_comm (2 ^ e), ← Nat.mul_assoc]
      rw [hvalue, ← toNatClamped_finite]
      rfl
  · rw [if_neg hdigit]
    dsimp only
    split
    · rw [hlarge (by omega)]
      rfl
    · exact toNatClamped_finite limit m e

theorem ofRatio_whole (negative : Bool) (h : 2 ^ 53 ≤ m) :
    ofRatio negative m 1 =
      ofRounded negative (roundDiv m (2 ^ (m.log2 - 52))) (m.log2 - 52 : Nat) := by
  have hne : m ≠ 0 := by omega
  have hlog : 53 ≤ m.log2 := (Nat.le_log2 hne).mpr h
  have hself : ¬m < 1 * Nat.pow 2 m.log2 := by
    rw [Nat.one_mul]
    exact Nat.not_lt.mpr (Nat.log2_self_le hne)
  have hexponent : exponentOf m 1 = (m.log2 - 52 : Nat) := by
    have hsize : (m.log2 : Int) - (Nat.log2 1 : Nat) = (m.log2 : Nat) := by
      rw [show Nat.log2 1 = 0 by decide]
      rfl
    rw [exponentOf, hsize]
    simp only [Int.natCast_nonneg, if_true, Int.toNat_natCast]
    rw [if_neg hself]
    omega
  rw [ofRatio, if_neg hne, hexponent]
  dsimp only
  rw [roundAt, if_pos (Int.natCast_nonneg _), Int.toNat_natCast, Nat.one_mul]
  rfl

theorem toNatClamped_of_negative (m : Nat) (e : Int) :
    (ofRounded true m e).toNatClamped limit = 0 := by
  rw [ofRounded]
  dsimp only
  generalize (if m = Nat.pow 2 53 then (Nat.pow 2 52, e + 1) else (m, e)) = rounded
  split <;> rfl

/-- A number of 64 bits or more is rounded to a multiple of 2048, which is the precision of doubles
from 2 ^ 63 on; from 2 ^ 64 on it is cut in any case. -/
theorem toNatClamped_ofRatio (h : 2 ^ 63 ≤ m) :
    (ofRatio false m 1).toNatClamped (Nat.pow 2 64 - 1) =
      min (Nat.pow 2 64 - 1) (roundDiv m 2048 * 2048) := by
  have hne : m ≠ 0 := by omega
  have hlog : 63 ≤ m.log2 := (Nat.le_log2 hne).mpr h
  have hpower : 2 ^ m.log2 = 2 ^ 52 * 2 ^ (m.log2 - 52) := by
    rw [← Nat.pow_add]
    exact congrArg _ (by omega)
  have hdigits : 2 ^ 52 ≤ m / 2 ^ (m.log2 - 52) := by
    rw [Nat.le_div_iff_mul_le (Nat.two_pow_pos _), ← hpower]
    exact Nat.log2_self_le hne
  have hround := Nat.le_trans hdigits (le_roundDiv m (2 ^ (m.log2 - 52)))
  rw [ofRatio_whole false (by omega), toNatClamped_ofRounded (by omega) (by decide)]
  by_cases hm : m < 2 ^ 64
  · have hlog : m.log2 = 63 := by
      have hlt := (Nat.log2_lt hne).mpr hm
      omega
    have hunit : 2 ^ (63 - 52) = 2048 := by decide
    rw [hlog, hunit]
  · have hlog : 64 ≤ m.log2 := (Nat.le_log2 hne).mpr (by omega)
    have hvalue : 2 ^ 64 ≤ roundDiv m (2 ^ (m.log2 - 52)) * 2 ^ (m.log2 - 52) := calc
      2 ^ 64 ≤ 2 ^ m.log2 := Nat.pow_le_pow_right (by decide) hlog
      _ = 2 ^ 52 * 2 ^ (m.log2 - 52) := hpower
      _ ≤ _ := Nat.mul_le_mul_right _ hround
    have hmultiple := le_roundDiv m 2048
    rw [Nat.min_eq_left, Nat.min_eq_left]
    · change 2 ^ 64 - 1 ≤ _
      omega
    · exact Nat.le_trans (Nat.sub_le _ _) hvalue

theorem toNatClamped_ofDecimal (negative : Bool) (h : 2 ^ 63 ≤ m) :
    (ofDecimal negative m 0).toNatClamped (Nat.pow 2 64 - 1) =
      if negative then 0 else min (Nat.pow 2 64 - 1) (roundDiv m 2048 * 2048) := by
  have hne : m ≠ 0 := by omega
  have hscale : m * Nat.pow 10 (0 : Int).toNat = m := Nat.mul_one m
  rw [ofDecimal, if_neg hne]
  split
  · next hlength =>
    cases negative with
    | true => rfl
    | false =>
      have hlarge : 2 ^ 64 ≤ m := by
        refine Nat.le_of_not_lt fun hm => ?_
        have hdigits : m < 10 ^ 20 := by omega
        rw [← Nat.length_toDigits_le_iff (by decide) (by decide)] at hdigits
        omega
      have hmultiple := le_roundDiv m 2048
      rw [if_neg Bool.false_ne_true, Nat.min_eq_left]
      · rfl
      · change 2 ^ 64 - 1 ≤ _
        omega
  · rw [if_neg (by omega), if_pos (Int.le_refl 0), hscale]
    cases negative with
    | true =>
      rw [ofRatio_whole true (by omega)]
      exact toNatClamped_of_negative _ _
    | false => exact toNatClamped_ofRatio h

end Binary64

def IsShortInt (n : Int) : Prop := -(2 ^ 63) ≤ n ∧ n < 2 ^ 63

instance (n : Int) : Decidable (IsShortInt n) := inferInstanceAs (Decidable (_ ∧ _))

theorem digits?_digits (h : AreDigits ds) : digits? ds = some (digitsValue ds) := by
  have hds : ds.isEmpty = false := List.isEmpty_eq_false_iff.mpr h.ne_nil
  rw [digits?, hds, List.all_eq_true.mpr h.isDigit]
  rfl

theorem splitSign_spells (h : Spells cs n) :
    ∃ negative ds, AreDigits ds ∧ splitSign cs = (negative, ds) ∧
      n = if negative then -(digitsValue ds : Int) else digitsValue ds := by
  cases h with
  | plain hds => exact ⟨false, cs, hds, splitSign_digits hds.isDigit, rfl⟩
  | plus hds => exact ⟨false, _, hds, rfl, rfl⟩
  | minus hds => exact ⟨true, _, hds, rfl, rfl⟩

theorem AreDigits.ne_of_mem {c d : Char} (h : AreDigits ds) (hc : c ∈ ds)
    (hd : d.isDigit = false) : c ≠ d := by
  rintro rfl
  rw [h.isDigit c hc] at hd
  cases hd

theorem lower_digits (h : ∀ c ∈ ds, c.isDigit = true) : Text.lower ds = ds := by
  have hdigit : ∀ k < 10, (Nat.digitChar k).toLower = Nat.digitChar k := by decide
  refine (List.map_congr_left fun c hc => ?_).trans (List.map_id ds)
  obtain ⟨k, hk, -, rfl⟩ := digit_cases (h c hc)
  exact hdigit k hk

theorem lower_spells (h : Spells cs n) : Text.lower cs = cs := by
  cases h with
  | plain hds => exact lower_digits hds.isDigit
  | plus hds => exact congrArg (List.cons _) (lower_digits hds.isDigit)
  | minus hds => exact congrArg (List.cons _) (lower_digits hds.isDigit)

theorem int64?_spells (h : Spells v.toList n) :
    int64? v = if IsShortInt n then some n else none := by
  obtain ⟨negative, ds, hds, hsplit, hn⟩ := splitSign_spells h
  rw [int64?, hsplit]
  dsimp only
  rw [digits?_digits hds]
  dsimp only
  rw [← hn]
  rfl

theorem ofText?_spells (h : Spells v.toList n) :
    ∃ negative m, Binary64.ofText? v = some (.ofDecimal negative m 0) ∧
      n = if negative then -(m : Int) else m := by
  obtain ⟨negative, ds, hds, hsplit, hn⟩ := splitSign_spells h
  have hword : ∀ {c : Char} {word : List Char}, word.head? = some c → c.isDigit = false →
      Text.lower ds ≠ word := fun hhead hc => by
    rw [lower_digits hds.isDigit]
    exact hds.ne_of_head? hhead hc
  have hmark : ∀ c ∈ ds, (!(c == 'e' || c == 'E')) = true := fun c hc => by
    simp [hds.ne_of_mem hc (d := 'e') rfl, hds.ne_of_mem hc (d := 'E') rfl]
  have hpoint : ∀ c ∈ ds, (c != '.') = true := fun c hc =>
    bne_iff_ne.mpr (hds.ne_of_mem hc rfl)
  refine ⟨negative, digitsValue ds, ?_, hn⟩
  rw [Binary64.ofText?, hsplit]
  dsimp only
  rw [if_neg, if_neg (hword (c := 'n') (by decide) rfl), decimal?]
  · dsimp only
    rw [List.takeWhile_eq_self_iff.mpr hmark, List.dropWhile_eq_nil_iff.mpr hmark,
      List.takeWhile_eq_self_iff.mpr hpoint, List.dropWhile_eq_nil_iff.mpr hpoint, List.drop_nil,
      List.append_nil, digits?_digits hds]
    rfl
  · exact fun h => h.elim (hword (c := 'i') (by decide) rfl) (hword (c := 'i') (by decide) rfl)

/-- What a whole number is taken for where a number of 64 bits without a sign is wanted. -/
def taken (n : Int) : Nat :=
  if IsShortInt n then n.toNat
  else if n < 0 then 0
  else min (2 ^ 64 - 1) (roundDiv n.toNat 2048 * 2048)

/-- A number from 2 ^ 63 on is only taken for itself if it is a multiple of 2048, or the greatest
number of 64 bits. -/
def IsKept (n : Int) : Prop :=
  0 ≤ n ∧ n < 2 ^ 64 ∧ (2 ^ 63 ≤ n → 2048 ∣ n ∨ n = 2 ^ 64 - 1)

instance (n : Int) : Decidable (IsKept n) := inferInstanceAs (Decidable (_ ∧ _))

theorem min_roundDiv_eq_iff (m : Nat) :
    min (2 ^ 64 - 1) (roundDiv m 2048 * 2048) = m ↔ m < 2 ^ 64 ∧ (2048 ∣ m ∨ m = 2 ^ 64 - 1) := by
  constructor
  · intro h
    obtain hle | hle := Nat.le_total (2 ^ 64 - 1) (roundDiv m 2048 * 2048)
    · rw [Nat.min_eq_left hle] at h
      exact ⟨by omega, .inr h.symm⟩
    · rw [Nat.min_eq_right hle] at h
      exact ⟨by omega, .inl ⟨roundDiv m 2048, by omega⟩⟩
  · rintro ⟨hlt, hdvd | rfl⟩
    · rw [roundDiv_of_dvd hdvd (by decide)]
      omega
    · decide

theorem taken_eq_self_iff (n : Int) : (taken n : Int) = n ↔ IsKept n := by
  rw [taken, IsKept]
  split
  · next hshort =>
    obtain ⟨_, hlt⟩ := hshort
    omega
  · next hshort =>
    split
    · omega
    · next hn =>
      have hlarge : 2 ^ 63 ≤ n := by
        rw [IsShortInt] at hshort
        omega
      obtain ⟨m, rfl⟩ := Int.eq_ofNat_of_zero_le (Int.not_lt.mp hn)
      have hlt : (m : Int) < 2 ^ 64 ↔ m < 2 ^ 64 := by omega
      have hdvd : (2048 : Int) ∣ m ↔ 2048 ∣ m := by omega
      have hlast : (m : Int) = 2 ^ 64 - 1 ↔ m = 2 ^ 64 - 1 := by omega
      rw [Int.toNat_natCast, Int.natCast_inj, min_roundDiv_eq_iff, hlt, hdvd, hlast]
      exact ⟨fun h => ⟨Int.natCast_nonneg m, h.1, fun _ => h.2⟩, fun h => ⟨h.2.1, h.2.2 hlarge⟩⟩

end AssetCache.Decimal
