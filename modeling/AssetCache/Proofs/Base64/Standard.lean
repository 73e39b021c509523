import AssetCache.Proofs.Base64
import Mathlib.Algebra.Group.Nat.Defs
import Mathlib.Data.List.Basic

namespace AssetCache.Base64

variable {bytes acc : List UInt8} {text text' : List Char} {c : Char} {n w : Nat}

def bits : Nat → Nat → List Bool
  | 0, _ => []
  | w + 1, n => n.testBit w :: bits w n

theorem length_bits (w n : Nat) : (bits w n).length = w := by
  induction w with
  | zero => rfl
  | succ w ih => rw [bits, List.length_cons, ih]

theorem bits_zero (w : Nat) : bits w 0 = List.replicate w false := by
  induction w with
  | zero => rfl
  | succ w ih => rw [bits, ih, Nat.zero_testBit, List.replicate_succ]

theorem bits_append {y : Nat} (m x : Nat) (h : y < 2 ^ n) :
    bits m x ++ bits n y = bits (m + n) (2 ^ n * x + y) := by
  have hlow : ∀ k ≤ n, bits k (2 ^ n * x + y) = bits k y := by
    intro k hk
    induction k with
    | zero => rfl
    | succ k ih =>
      rw [bits, bits, ih (Nat.le_of_lt hk), Nat.testBit_two_pow_mul_add x h,
        if_pos (Nat.lt_of_succ_le hk)]
  induction m with
  | zero => rw [bits, List.nil_append, Nat.zero_add, hlow n (Nat.le_refl n)]
  | succ m ih =>
    rw [Nat.add_right_comm, bits, bits, List.cons_append, ih, Nat.testBit_two_pow_mul_add x h,
      if_neg (by omega), Nat.add_sub_cancel]

theorem bits_injective {a b : Nat} (ha : a < 2 ^ w) (hb : b < 2 ^ w) (h : bits w a = bits w b) :
    a = b := by
  have hlow : ∀ i < w, a.testBit i = b.testBit i := by
    clear ha hb
    induction w with
    | zero => exact fun i hi => absurd hi (Nat.not_lt_zero i)
    | succ w ih =>
      obtain ⟨hhead, htail⟩ := List.cons.inj h
      intro i hi
      obtain hi | rfl := Nat.lt_succ_iff_lt_or_eq.mp hi
      · exact ih htail i hi
      · exact hhead
  refine Nat.eq_of_testBit_eq fun i => ?_
  by_cases hi : i < w
  · exact hlow i hi
  · have hpow : 2 ^ w ≤ 2 ^ i := Nat.pow_le_pow_right (by decide) (Nat.le_of_not_lt hi)
    rw [Nat.testBit_lt_two_pow (Nat.lt_of_lt_of_le ha hpow),
      Nat.testBit_lt_two_pow (Nat.lt_of_lt_of_le hb hpow)]

theorem length_flatMap_bits (xs : List Nat) : (xs.flatMap (bits w)).length = xs.length * w := by
  induction xs with
  | nil => exact (Nat.zero_mul w).symm
  | cons x xs ih =>
    rw [List.flatMap_cons, List.length_append, ih, length_bits, List.length_cons, Nat.succ_mul,
      Nat.add_comm]

theorem flatMap_bits_injective {xs ys : List Nat} (hx : ∀ x ∈ xs, x < 2 ^ w)
    (hy : ∀ y ∈ ys, y < 2 ^ w) (hlength : xs.length = ys.length)
    (h : xs.flatMap (bits w) = ys.flatMap (bits w)) : xs = ys := by
  induction xs generalizing ys with
  | nil => exact (List.eq_nil_of_length_eq_zero hlength.symm).symm
  | cons x xs ih =>
    cases ys with
    | nil => cases hlength
    | cons y ys =>
      rw [List.flatMap_cons, List.flatMap_cons] at h
      obtain ⟨hhead, htail⟩ := List.append_inj h (by rw [length_bits, length_bits])
      obtain ⟨hx, hxs⟩ := List.forall_mem_cons.mp hx
      obtain ⟨hy, hys⟩ := List.forall_mem_cons.mp hy
      rw [bits_injective hx hy hhead, ih hxs hys (Nat.succ.inj hlength) htail]

def alphabet : List Char :=
  "ABCDEFGHIJKLMNOPQRSTUVWXYZabcdefghijklmnopqrstuvwxyz0123456789+/".toList

theorem alphabet_of_lt (h : n < 64) : alphabet[n]? = some (symbol n) := by
  have hall : ∀ n < 64, alphabet[n]? = some (symbol n) := by decide
  exact hall n h

theorem lt_of_alphabet (h : alphabet[n]? = some c) : n < 64 := by
  have hlength : alphabet.length = 64 := by decide
  rw [← hlength]
  exact (List.getElem?_eq_some_iff.mp h).1

theorem letters_cons {groups : List Nat} {letters : List Char} (h : n < 64)
    (hall : groups.map (alphabet[·]?) = letters.map some) :
    (n :: groups).map (alphabet[·]?) = (symbol n :: letters).map some := by
  rw [List.map_cons, List.map_cons, alphabet_of_lt h, hall]

theorem value_eq_some (h : value c = some n) : n < 64 ∧ c = symbol n := by
  have hrange : ∀ {lo hi : Char}, lo ≤ c ∧ c ≤ hi → lo.toNat ≤ c.toNat ∧ c.toNat ≤ hi.toNat :=
    fun hc => hc
  have hletter : ∀ {k d : Nat}, d ≤ c.toNat → k = c.toNat - d → Char.ofNat (k + d) = c := by
    rintro k d hd rfl
    rw [Nat.sub_add_cancel hd, Char.ofNat_toNat]
  rw [value] at h
  split at h
  · next hc =>
    have hc := hrange hc
    simp only [Char.reduceToNat] at hc
    cases h
    rw [symbol, if_pos (by omega), hletter (by omega) rfl]
    exact ⟨by omega, rfl⟩
  · split at h
    · next hc =>
      have hc := hrange hc
      simp only [Char.reduceToNat] at hc
      cases h
      rw [symbol, if_neg (by omega), if_pos (by omega), hletter (by omega) rfl]
      exact ⟨by omega, rfl⟩
    · split at h
      · next hc =>
        have hc := hrange hc
        simp only [Char.reduceToNat] at hc
        cases h
        rw [symbol, if_neg (by omega), if_neg (by omega), if_pos (by omega), Nat.add_sub_cancel,
          Char.ofNat_toNat]
        exact ⟨by omega, rfl⟩
      · split at h
        · next hc =>
          cases h
          exact ⟨by decide, hc⟩
        · split at h
          · next hc =>
            cases h
            exact ⟨by decide, hc⟩
          · cases h

/-- A text is the Base64 of some bytes: their bits, with fewer than six zeros behind them, are the
bits of its letters, six for each, and the letters are made up to a multiple of four. -/
def IsStandard (bytes : List UInt8) (text : List Char) : Prop :=
  ∃ (groups : List Nat) (letters : List Char) (zeros pads : Nat),
    groups.flatMap (bits 6) =
        (bytes.map UInt8.toNat).flatMap (bits 8) ++ List.replicate zeros false ∧
      zeros < 6 ∧ groups.map (alphabet[·]?) = letters.map some ∧
      text = letters ++ List.replicate pads '=' ∧ pads < 4 ∧ 4 ∣ text.length

theorem isStandard_nil : IsStandard [] [] :=
  ⟨[], [], 0, 0, rfl, by decide, rfl, rfl, by decide, ⟨0, rfl⟩⟩

theorem isStandard_one (a : UInt8) :
    IsStandard [a] [symbol (a.toNat / 4), symbol (a.toNat % 4 * 16), '=', '='] := by
  have ha := a.toNat_lt
  refine ⟨[a.toNat / 4, a.toNat % 4 * 16], [_, _], 4, 2, ?_, by decide,
    letters_cons (by omega) (letters_cons (by omega) rfl), rfl, by decide, ⟨1, rfl⟩⟩
  simp only [List.map_cons, List.map_nil, List.flatMap_cons, List.flatMap_nil, List.append_nil]
  rw [← bits_zero, bits_append _ _ (by omega), bits_append _ _ (by decide)]
  exact congrArg (bits 12) (by omega)

theorem isStandard_two (a b : UInt8) :
    IsStandard [a, b] [symbol (a.toNat / 4), symbol (a.toNat % 4 * 16 + b.toNat / 16),
      symbol (b.toNat % 16 * 4), '='] := by
  have ha := a.toNat_lt
  have hb := b.toNat_lt
  refine ⟨[a.toNat / 4, a.toNat % 4 * 16 + b.toNat / 16, b.toNat % 16 * 4], [_, _, _], 2, 1, ?_,
    by decide, letters_cons (by omega) (letters_cons (by omega) (letters_cons (by omega) rfl)), rfl,
    by decide, ⟨1, rfl⟩⟩
  simp only [List.map_cons, List.map_nil, List.flatMap_cons, List.flatMap_nil, List.append_nil]
  rw [← bits_zero, List.append_assoc, bits_append (n := 6) 6 _ (by omega),
    bits_append (n := 12) 6 _ (by omega), bits_append (n := 2) 8 _ (by decide),
    bits_append (n := 10) 8 _ (by omega)]
  exact congrArg (bits 18) (by omega)

theorem IsStandard.cons (h : IsStandard bytes text) (a b c : UInt8) :
    IsStandard (a :: b :: c :: bytes)
      (symbol (a.toNat / 4) :: symbol (a.toNat % 4 * 16 + b.toNat / 16) ::
        symbol (b.toNat % 16 * 4 + c.toNat / 64) :: symbol (c.toNat % 64) :: text) := by
  obtain ⟨groups, letters, zeros, pads, hbits, hzeros, hletters, rfl, hpads, hlength⟩ := h
  have ha := a.toNat_lt
  have hb := b.toNat_lt
  have hc := c.toNat_lt
  have hfront : bits 6 (a.toNat / 4) ++ (bits 6 (a.toNat % 4 * 16 + b.toNat / 16) ++
      (bits 6 (b.toNat % 16 * 4 + c.toNat / 64) ++ bits 6 (c.toNat % 64))) =
      bits 8 a.toNat ++ (bits 8 b.toNat ++ bits 8 c.toNat) := by
    rw [bits_append (n := 6) 6 _ (by omega), bits_append (n := 12) 6 _ (by omega),
      bits_append (n := 18) 6 _ (by omega), bits_append (n := 8) 8 _ (by omega),
      bits_append (n := 16) 8 _ (by omega)]
    exact congrArg (bits 24) (by omega)
  refine ⟨a.toNat / 4 :: (a.toNat % 4 * 16 + b.toNat / 16) ::
      (b.toNat % 16 * 4 + c.toNat / 64) :: c.toNat % 64 :: groups,
    _ :: _ :: _ :: _ :: letters, zeros, pads, ?_, hzeros,
    letters_cons (by omega) (letters_cons (by omega) (letters_cons (by omega)
      (letters_cons (by omega) hletters))), rfl, hpads, ?_⟩
  · simp only [List.map_cons, List.flatMap_cons, hbits]
    simpa only [List.append_assoc] using congrArg (· ++ ((bytes.map UInt8.toNat).flatMap (bits 8) ++
      List.replicate zeros false)) hfront
  · simp only [List.length_cons]
    omega

theorem isStandard_encode : ∀ bytes : List UInt8, IsStandard bytes (encode bytes)
  | [] => isStandard_nil
  | [a] => by
    have ha := a.toNat_lt
    have h := isStandard_one a
    rw [show a.toNat / 4 = a.toNat * 16 / 64 by omega,
      show a.toNat % 4 * 16 = a.toNat * 16 % 64 by omega] at h
    exact h
  | [a, b] => by
    have ha := a.toNat_lt
    have hb := b.toNat_lt
    have h := isStandard_two a b
    rw [show a.toNat / 4 = (a.toNat * 256 + b.toNat) * 4 / 4096 by omega,
      show a.toNat % 4 * 16 + b.toNat / 16 = (a.toNat * 256 + b.toNat) * 4 / 64 % 64 by omega,
      show b.toNat % 16 * 4 = (a.toNat * 256 + b.toNat) * 4 % 64 by omega] at h
    exact h
  | a :: b :: c :: rest => by
    rw [encode_cons]
    exact (isStandard_encode rest).cons a b c

/-- The bytes leave no choice: not in the groups, not in their letters, not in the padding. -/
theorem IsStandard.unique (h : IsStandard bytes text) (h' : IsStandard bytes text') :
    text = text' := by
  obtain ⟨groups, letters, zeros, pads, hbits, hzeros, hletters, rfl, hpads, hlength⟩ := h
  obtain ⟨groups', letters', zeros', pads', hbits', hzeros', hletters', rfl, hpads', hlength'⟩ := h'
  have hcount := congrArg List.length hbits
  have hcount' := congrArg List.length hbits'
  rw [length_flatMap_bits, List.length_append, length_flatMap_bits, List.length_replicate]
    at hcount hcount'
  obtain rfl : zeros = zeros' := by omega
  have hlt : ∀ {groups : List Nat} {letters : List Char},
      groups.map (alphabet[·]?) = letters.map some → ∀ n ∈ groups, n < 2 ^ 6 := by
    intro groups letters hall n hn
    have hmem : alphabet[n]? ∈ letters.map some := hall ▸ List.mem_map_of_mem hn
    obtain ⟨c, _, hc⟩ := List.mem_map.mp hmem
    exact lt_of_alphabet hc.symm
  obtain rfl : groups = groups' := flatMap_bits_injective (hlt hletters) (hlt hletters') (by omega)
    (hbits.trans hbits'.symm)
  obtain rfl : letters = letters' :=
    List.map_injective_iff.mpr (fun _ _ => Option.some.inj) (hletters.symm.trans hletters')
  rw [List.length_append, List.length_replicate] at hlength hlength'
  obtain rfl : pads = pads' := by omega
  rfl

theorem isStandard_iff : IsStandard bytes text ↔ text = encode bytes := by
  constructor
  · exact fun h => h.unique (isStandard_encode bytes)
  · rintro rfl
    exact isStandard_encode bytes

theorem byte_toNat (h : n < 256) : (byte n).toNat = n := by
  rw [byte, UInt8.toNat_ofNat', Nat.mod_eq_of_lt h]

theorem isStandard_of_pair {w x : Nat} (hw : w < 64) (hx : x < 64)
    (h : decodeLast w x none = some bytes) : IsStandard bytes [symbol w, symbol x, '=', '='] := by
  rw [decodeLast, Option.ite_none_right_eq_some] at h
  obtain ⟨hzero, h⟩ := h
  cases h
  have hone := isStandard_one (byte (w * 4 + x / 16))
  rw [byte_toNat (by omega), show (w * 4 + x / 16) / 4 = w by omega,
    show (w * 4 + x / 16) % 4 * 16 = x by omega] at hone
  exact hone

theorem isStandard_of_triple {w x y : Nat} (hw : w < 64) (hx : x < 64) (hy : y < 64)
    (h : decodeLast w x (some y) = some bytes) :
    IsStandard bytes [symbol w, symbol x, symbol y, '='] := by
  rw [decodeLast, Option.ite_none_right_eq_some] at h
  obtain ⟨hzero, h⟩ := h
  cases h
  have htwo := isStandard_two (byte (w * 4 + x / 16)) (byte (x % 16 * 16 + y / 4))
  rw [byte_toNat (by omega), byte_toNat (by omega), show (w * 4 + x / 16) / 4 = w by omega,
    show (w * 4 + x / 16) % 4 * 16 + (x % 16 * 16 + y / 4) / 16 = x by omega,
    show (x % 16 * 16 + y / 4) % 16 * 4 = y by omega] at htwo
  exact htwo

theorem IsStandard.quartet {w x y z : Nat} (hw : w < 64) (hx : x < 64) (hy : y < 64) (hz : z < 64)
    (h : IsStandard bytes text) :
    IsStandard (byte (w * 4 + x / 16) :: byte (x % 16 * 16 + y / 4) :: byte (y % 4 * 64 + z) ::
      bytes) (symbol w :: symbol x :: symbol y :: symbol z :: text) := by
  have hcons := h.cons (byte (w * 4 + x / 16)) (byte (x % 16 * 16 + y / 4)) (byte (y % 4 * 64 + z))
  rw [byte_toNat (by omega), byte_toNat (by omega), byte_toNat (by omega),
    show (w * 4 + x / 16) / 4 = w by omega,
    show (w * 4 + x / 16) % 4 * 16 + (x % 16 * 16 + y / 4) / 16 = x by omega,
    show (x % 16 * 16 + y / 4) % 16 * 4 + (y % 4 * 64 + z) / 64 = y by omega,
    show (y % 4 * 64 + z) % 64 = z by omega] at hcons
  exact hcons

theorem isStandard_of_decodeOnto (h : decodeOnto acc text = some bytes) :
    ∃ rest, bytes = acc.reverse ++ rest ∧ IsStandard rest text := by
  fun_induction decodeOnto acc text generalizing bytes with
  | case1 acc => exact ⟨[], by simpa using h.symm, isStandard_nil⟩
  | case2 acc w x =>
    obtain ⟨m, hw, hrest⟩ := Option.bind_eq_some_iff.mp h
    obtain ⟨n, hx, hrest⟩ := Option.bind_eq_some_iff.mp hrest
    obtain ⟨last, hlast, hlist⟩ := Option.bind_eq_some_iff.mp hrest
    obtain ⟨hm, rfl⟩ := value_eq_some hw
    obtain ⟨hn, rfl⟩ := value_eq_some hx
    exact ⟨last, (Option.some.inj hlist).symm, isStandard_of_pair hm hn hlast⟩
  | case3 acc w x y =>
    obtain ⟨m, hw, hrest⟩ := Option.bind_eq_some_iff.mp h
    obtain ⟨n, hx, hrest⟩ := Option.bind_eq_some_iff.mp hrest
    obtain ⟨k, hy, hrest⟩ := Option.bind_eq_some_iff.mp hrest
    obtain ⟨last, hlast, hlist⟩ := Option.bind_eq_some_iff.mp hrest
    obtain ⟨hm, rfl⟩ := value_eq_some hw
    obtain ⟨hn, rfl⟩ := value_eq_some hx
    obtain ⟨hk, rfl⟩ := value_eq_some hy
    exact ⟨last, (Option.some.inj hlist).symm, isStandard_of_triple hm hn hk hlast⟩
  | case4 acc _ _ _ _ _ _ _ w x y z hz hy hx hw ih =>
    obtain ⟨rest, rfl, hrest⟩ := ih h
    obtain ⟨hw, rfl⟩ := value_eq_some hw
    obtain ⟨hx, rfl⟩ := value_eq_some hx
    obtain ⟨hy, rfl⟩ := value_eq_some hy
    obtain ⟨hz, rfl⟩ := value_eq_some hz
    refine ⟨_ :: _ :: _ :: rest, ?_, hrest.quartet ‹_› ‹_› ‹_› ‹_›⟩
    simp only [List.reverse_cons, List.append_assoc, List.cons_append, List.nil_append]
  | case5 => cases h
  | case6 => cases h

theorem decode_eq_some_iff : decode text = some bytes ↔ IsStandard bytes text := by
  constructor
  · intro h
    obtain ⟨rest, rfl, hrest⟩ := isStandard_of_decodeOnto h
    exact hrest
  · intro h
    rw [isStandard_iff.mp h, decode_encode]

-- The same bytes in the other alphabet, without the padding and with bits left over.
example : decode "AJ+Slg==".toList = some [0, 159, 146, 150] ∧ decode "AJ-Slg==".toList = none ∧
    decode "AJ+Slg".toList = none ∧ decode "AJ+Slh==".toList = none := by decide

end AssetCache.Base64
