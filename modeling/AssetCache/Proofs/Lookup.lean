import Mathlib.Data.List.Nodup

namespace AssetCache

variable {α : Type} {members : List (String × α)} {key : String}

theorem lookup_cons (p : String × α) (rest : List (String × α)) (key : String) :
    (p :: rest).lookup key = if key = p.1 then some p.2 else rest.lookup key := by
  rw [List.lookup_cons]
  by_cases h : key = p.1
  · rw [if_pos h, beq_iff_eq.mpr h]
  · rw [if_neg h, beq_eq_false_iff_ne.mpr h]

theorem isSome_lookup : (members.lookup key).isSome ↔ key ∈ members.map (·.1) := by
  induction members with
  | nil => simp
  | cons p rest ih =>
    rw [lookup_cons, List.map_cons, List.mem_cons, ← ih]
    split
    · next h => exact iff_of_true rfl (.inl h)
    · next h => rw [or_iff_right h]

theorem lookup_of_not_mem (h : key ∉ members.map (·.1)) : members.lookup key = none :=
  Option.not_isSome_iff_eq_none.mp (mt isSome_lookup.mp h)

theorem lookup_perm {members' : List (String × α)} (hnames : (members.map (·.1)).Nodup)
    (h : members.Perm members') (key : String) : members.lookup key = members'.lookup key := by
  induction h with
  | nil => rfl
  | cons p _ ih => rw [lookup_cons, lookup_cons, ih (List.nodup_cons.mp hnames).2]
  | swap p q rest =>
    have hne : q.1 ≠ p.1 := fun h => (List.nodup_cons.mp hnames).1 (List.mem_cons.mpr (.inl h))
    simp only [lookup_cons]
    split_ifs with hq hp
    · exact absurd (hq.symm.trans hp) hne
    · rfl
    · rfl
    · rfl
  | trans h₁ _ ih₁ ih₂ => rw [ih₁ hnames, ih₂ ((h₁.map _).nodup_iff.mp hnames)]

/-- What is put under a name takes the place of all that stands there, or else comes last. -/
theorem lookup_replace (members : List (String × α)) (name : String) (v : α) (key : String) :
    (if members.any (·.1 == name) then
        members.map fun p => if p.1 = name then (name, v) else p
      else members ++ [(name, v)]).lookup key =
      if key = name then some v else members.lookup key := by
  have hany : members.any (·.1 == name) = true ↔ name ∈ members.map (·.1) := by
    simp [List.any_eq_true]
  split
  · next hname =>
    -- Whatever stands there under the name is another value now.
    have hmap : ∀ members : List (String × α),
        (members.map fun p => if p.1 = name then (name, v) else p).lookup key =
          if key = name then (members.lookup key).map fun _ => v else members.lookup key :=
      fun members => by
        induction members with
        | nil => simp
        | cons p rest ih =>
          rw [List.map_cons, lookup_cons, lookup_cons, ih]
          grind
    rw [hmap]
    split
    · next hkey =>
      obtain ⟨u, hu⟩ := Option.isSome_iff_exists.mp (isSome_lookup.mpr (hany.mp hname))
      rw [hkey, hu, Option.map_some]
    · rfl
  · next hname =>
    rw [List.lookup_append, lookup_cons]
    split
    · next hkey => rw [hkey, lookup_of_not_mem (mt hany.mpr hname), Option.none_or]
    · exact Option.or_none

end AssetCache
