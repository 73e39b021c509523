import AssetCache.Json.Shape
import Mathlib.Data.List.Forall2

namespace AssetCache.Json

theorem Number.int?_eq_ofNat_iff {m : Number} {n : Nat} :
    m.int? = some (.ofNat n) ↔
      m.isWhole = true ∧ m.negative = false ∧ m.mantissa = n ∧ n < Nat.pow 2 64 := by
  obtain ⟨negative, mantissa, exponent, isWhole⟩ := m
  cases isWhole with
  | false => exact iff_of_false (fun h => by cases h) fun h => by cases h.1
  | true =>
    cases negative with
    | true =>
      have hne : Number.int? ⟨true, mantissa, exponent, true⟩ ≠ some (.ofNat n) := by
        change (if mantissa = 0 ∨ Nat.pow 2 63 < mantissa then none else some (-(mantissa : Int))) ≠ _
        intro h
        rw [Option.ite_none_left_eq_some] at h
        have hneg : -(mantissa : Int) = n := Option.some.inj h.2
        omega
      exact iff_of_false hne fun h => by cases h.2.1
    | false =>
      change (if mantissa < Nat.pow 2 64 then some (Int.ofNat mantissa) else none) = _ ↔ _
      rw [Option.ite_none_right_eq_some]
      constructor
      · rintro ⟨hlt, h⟩
        cases h
        exact ⟨rfl, rfl, rfl, hlt⟩
      · rintro ⟨-, -, rfl, hlt⟩
        exact ⟨hlt, rfl⟩

namespace Node

variable {α β σ : Type} {limit n : Nat} {s : String} {t : Text} {v : Node} {gap : Option Fault}

def IsText (v : Node) (s : String) : Prop := ∃ t, v = text t ∧ t.fault? = none ∧ t.chars = s.toList

def IsWhole (v : Node) (n : Nat) : Prop :=
  ∃ m, v = number m ∧ m.isWhole = true ∧ m.negative = false ∧ m.mantissa = n

def IsPair (R : Node → α → Prop) (S : Node → β → Prop) (v : Node) (p : α × β) : Prop :=
  ∃ a b, v = list [a, b] none ∧ R a p.1 ∧ S b p.2

def IsList (R : Node → α → Prop) (v : Node) (l : List α) : Prop :=
  ∃ items, v = list items none ∧ List.Forall₂ R items l

theorem endOf_eq_ok_iff {a : α} {r : Except Fault α} :
    endOf r gap = .ok a ↔ gap = none ∧ r = .ok a := by
  cases gap with
  | none => exact ⟨fun h => ⟨rfl, h⟩, And.right⟩
  | some f => exact iff_of_false (fun h => by cases h) fun h => by cases h.1

theorem asText_eq_ok_iff : v.asText = .ok s ↔ v.IsText s := by
  constructor
  · intro h
    cases v with
    | text t =>
      rw [asText] at h
      cases hf : t.fault? with
      | none =>
        rw [hf] at h
        cases h
        exact ⟨t, rfl, hf, String.toList_ofList.symm⟩
      | some f =>
        rw [hf] at h
        cases h
    | _ => cases h
  · rintro ⟨t, rfl, hf, ht⟩
    rw [asText, hf, ht]
    exact congrArg Except.ok String.ofList_toList

theorem asNat_eq_ok_iff (hlimit : limit ≤ Nat.pow 2 64) :
    v.asNat limit = .ok n ↔ v.IsWhole n ∧ n < limit := by
  constructor
  · intro h
    cases v with
    | number m =>
      rw [asNat] at h
      split at h
      · next k hk =>
        obtain ⟨hwhole, hneg, rfl, -⟩ := Number.int?_eq_ofNat_iff.mp hk
        split at h
        · next hlt =>
          cases h
          exact ⟨⟨m, rfl, hwhole, hneg, rfl⟩, hlt⟩
        · cases h
      · cases h
    | _ => cases h
  · rintro ⟨⟨m, rfl, hwhole, hneg, rfl⟩, hlt⟩
    have hint : m.int? = some (.ofNat m.mantissa) :=
      Number.int?_eq_ofNat_iff.mpr ⟨hwhole, hneg, rfl, Nat.lt_of_lt_of_le hlt hlimit⟩
    rw [asNat, hint]
    exact if_pos hlt

theorem readItems_eq_ok_iff {read : Node → Except Fault α} {R : Node → α → Prop}
    (hread : ∀ v a, read v = .ok a ↔ R v a) {done l : List α} {items : List Node} :
    readItems read done items gap = .ok l ↔
      gap = none ∧ ∃ l', l = done.reverse ++ l' ∧ List.Forall₂ R items l' := by
  induction items generalizing done with
  | nil =>
    rw [readItems, endOf_eq_ok_iff]
    constructor
    · rintro ⟨hgap, h⟩
      cases h
      exact ⟨hgap, [], (List.append_nil _).symm, .nil⟩
    · rintro ⟨hgap, l', rfl, hall⟩
      cases hall
      exact ⟨hgap, congrArg Except.ok (List.append_nil _).symm⟩
  | cons v items ih =>
    rw [readItems]
    constructor
    · intro h
      cases hv : read v with
      | error f =>
        rw [hv] at h
        cases h
      | ok a =>
        rw [hv] at h
        obtain ⟨hgap, l', rfl, hall⟩ := ih.mp h
        refine ⟨hgap, a :: l', ?_, .cons ((hread v a).mp hv) hall⟩
        rw [List.reverse_cons, List.append_assoc, List.singleton_append]
    · rintro ⟨hgap, l', rfl, hall⟩
      cases hall with
      | @cons _ a _ l' hv hall =>
        rw [(hread v a).mpr hv]
        refine ih.mpr ⟨hgap, l', ?_, hall⟩
        rw [List.reverse_cons, List.append_assoc, List.singleton_append]

theorem asList_eq_ok_iff {read : Node → Except Fault α} {R : Node → α → Prop}
    (hread : ∀ v a, read v = .ok a ↔ R v a) {l : List α} :
    v.asList read = .ok l ↔ v.IsList R l := by
  constructor
  · intro h
    cases v with
    | list items gap =>
      obtain ⟨rfl, l', rfl, hall⟩ := (readItems_eq_ok_iff hread).mp h
      exact ⟨items, rfl, hall⟩
    | _ => cases h
  · rintro ⟨items, rfl, hall⟩
    exact (readItems_eq_ok_iff hread).mpr ⟨rfl, l, rfl, hall⟩

theorem asPair_eq_ok_iff {first : Node → Except Fault α} {second : Node → Except Fault β}
    {R : Node → α → Prop} {S : Node → β → Prop} (hfirst : ∀ v a, first v = .ok a ↔ R v a)
    (hsecond : ∀ v b, second v = .ok b ↔ S v b) {p : α × β} :
    v.asPair first second = .ok p ↔ v.IsPair R S p := by
  constructor
  · intro h
    cases v with
    | list items gap =>
      match items with
      | [] => cases (endOf_eq_ok_iff.mp h).2
      | [a] =>
        rw [asPair] at h
        cases ha : first a with
        | error f =>
          rw [ha] at h
          cases h
        | ok x =>
          rw [ha] at h
          cases (endOf_eq_ok_iff.mp h).2
      | a :: b :: rest =>
        rw [asPair] at h
        cases ha : first a with
        | error f =>
          rw [ha] at h
          cases h
        | ok x =>
          cases hb : second b with
          | error f =>
            rw [ha, hb] at h
            cases h
          | ok y =>
            rw [ha, hb] at h
            cases rest with
            | nil =>
              obtain ⟨rfl, h⟩ := endOf_eq_ok_iff.mp h
              cases h
              exact ⟨a, b, rfl, (hfirst a x).mp ha, (hsecond b y).mp hb⟩
            | cons c rest => cases h
    | _ => cases h
  · rintro ⟨a, b, rfl, ha, hb⟩
    rw [asPair, (hfirst a p.1).mpr ha, (hsecond b p.2).mpr hb]
    rfl

/-- A field of a record is read if it is known and not set yet; one that is not known is passed
over. -/
theorem readMembers_cons_eq_ok_iff {fields : List (Field σ)} {a a' : σ} {key : Text}
    {rest : List (Text × Node)} :
    readMembers fields a ((key, v) :: rest) gap = .ok a' ↔ key.fault? = none ∧
      match fields.find? fun field => field.name.toList == key.chars with
      | none => v.skipFault = none ∧ readMembers fields a rest gap = .ok a'
      | some field => field.isSet a = false ∧
          ∃ b, field.read v a = .ok b ∧ readMembers fields b rest gap = .ok a' := by
  rw [readMembers]
  cases key.fault? with
  | some f => exact iff_of_false (fun h => by cases h) fun h => by cases h.1
  | none =>
    simp only [true_and]
    cases fields.find? fun field => field.name.toList == key.chars with
    | none =>
      cases v.skipFault with
      | some f => exact iff_of_false (fun h => by cases h) fun h => by cases h.1
      | none => simp only [true_and]
    | some field =>
      dsimp only
      cases field.isSet a with
      | true => exact iff_of_false (fun h => by cases h) fun h => by cases h.1
      | false =>
        rw [if_neg Bool.false_ne_true]
        cases field.read v a with
        | error f =>
          refine iff_of_false (fun h => by cases h) ?_
          rintro ⟨-, _, h, -⟩
          cases h
        | ok b =>
          constructor
          · exact fun h => ⟨rfl, b, rfl, h⟩
          · rintro ⟨-, _, h, hrest⟩
            cases h
            exact hrest

end Node

end AssetCache.Json
