import AssetCache.Store.Entries
import Mathlib.Data.List.Nodup

namespace AssetCache.Entries

variable {m m' : Entries} {k : Key} {r : Response} {batch : List (Key × Response)}

theorem nodup_keys (m : Entries) : m.keys.Nodup := by
  refine List.Pairwise.map _ (fun a b h => ?_) m.sorted
  exact fun he => Key.lt_irrefl a.1 (he ▸ h)

theorem get?_eq_some_iff : m.get? k = some r ↔ (k, r) ∈ m.list := by
  obtain ⟨l, hl⟩ := m
  simp only [get?]
  induction l with
  | nil => simp
  | cons p l ih =>
    obtain ⟨k', r'⟩ := p
    have hp := List.pairwise_cons.mp hl
    by_cases hk : k' = k
    · subst hk
      have hnot : ∀ r, (k', r) ∉ l := fun r h => Key.lt_irrefl k' (hp.1 _ h)
      simp [hnot, eq_comm]
    · simpa [hk, Ne.symm hk] using ih hp.2

theorem mem_keys_iff : k ∈ m.keys ↔ (m.get? k).isSome := by
  rw [Option.isSome_iff_exists]
  simp only [get?_eq_some_iff, keys, List.mem_map]
  constructor
  · rintro ⟨⟨k', r⟩, h, rfl⟩
    exact ⟨r, h⟩
  · rintro ⟨r, h⟩
    exact ⟨(k, r), h, rfl⟩

theorem sorted_keys (m : Entries) : m.keys.Pairwise (· < ·) :=
  List.Pairwise.map _ (fun _ _ h => h) m.sorted

theorem ext_get? (h : ∀ k, m.get? k = m'.get? k) : m = m' := by
  have hmem : ∀ p : Key × Response, p ∈ m.list ↔ p ∈ m'.list := fun ⟨k, r⟩ => by
    rw [← get?_eq_some_iff, ← get?_eq_some_iff, h]
  have hnodup : ∀ m : Entries, m.list.Nodup := fun m => List.Nodup.of_map _ m.nodup_keys
  have hperm := (List.perm_ext_iff_of_nodup (hnodup m) (hnodup m')).mpr hmem
  have hlist : m.list = m'.list :=
    List.Perm.eq_of_pairwise (fun a b _ _ hab hba => absurd hba (Key.lt_asymm hab)) m.sorted m'.sorted
      hperm
  cases m
  cases m'
  cases hlist
  rfl

/-- The last pair for a key wins, over those before it and over what was there. -/
theorem get?_insertAll (m : Entries) (batch : List (Key × Response)) (k : Key) :
    (m.insertAll batch).get? k = (batch.reverse.lookup k).or (m.get? k) := by
  induction batch generalizing m with
  | nil => rfl
  | cons p batch ih =>
    have hrest : (m.insertAll (p :: batch)).get? k =
        (batch.reverse.lookup k).or ((m.insert p.1 p.2).get? k) := ih (m.insert p.1 p.2)
    rw [hrest, get?_insert, List.reverse_cons, List.lookup_append, Option.or_assoc]
    by_cases hk : k = p.1
    · rw [if_pos hk, hk, List.lookup_cons_self, Option.some_or]
    · have hne : (k == p.1) = false := by simpa using hk
      rw [if_neg hk, List.lookup_cons, hne, List.lookup_nil, Option.none_or]

theorem lookup_reverse_of_not_mem (h : k ∉ batch.map (·.1)) : batch.reverse.lookup k = none := by
  rw [List.lookup_eq_none_iff]
  intro p hp
  have hne : k ≠ p.1 := fun he => h (he ▸ List.mem_map_of_mem (List.mem_reverse.mp hp))
  simpa using hne

theorem get?_insertAll_of_not_mem (m : Entries) (h : k ∉ batch.map (·.1)) :
    (m.insertAll batch).get? k = m.get? k := by
  rw [get?_insertAll, lookup_reverse_of_not_mem h, Option.none_or]

theorem get?_insertAll_of_mem (m : Entries) (hn : (batch.map (·.1)).Nodup) (h : (k, r) ∈ batch) :
    (m.insertAll batch).get? k = some r := by
  induction batch generalizing m with
  | nil => cases h
  | cons p batch ih =>
    rw [List.map_cons, List.nodup_cons] at hn
    rcases List.mem_cons.mp h with rfl | h
    · exact (get?_insertAll_of_not_mem (m.insert k r) hn.1).trans (by rw [get?_insert, if_pos rfl])
    · exact ih (m.insert p.1 p.2) hn.2 h

theorem insertAll_append (m : Entries) (batch batch' : List (Key × Response)) :
    m.insertAll (batch ++ batch') = (m.insertAll batch).insertAll batch' :=
  List.foldl_append

theorem insertAll_comm (m : Entries) {batch' : List (Key × Response)}
    (h : (batch.map (·.1)).Disjoint (batch'.map (·.1))) :
    (m.insertAll batch).insertAll batch' = (m.insertAll batch').insertAll batch := by
  refine ext_get? fun k => ?_
  simp only [get?_insertAll]
  by_cases hk : k ∈ batch.map (·.1)
  · rw [lookup_reverse_of_not_mem (h hk), Option.none_or, Option.none_or]
  · rw [lookup_reverse_of_not_mem hk, Option.none_or, Option.none_or]

theorem erase_insert (h : m.get? k = none) (r : Response) : (m.insert k r).erase k = m := by
  refine ext_get? fun k' => ?_
  rw [get?_erase, get?_insert]
  by_cases hk : k' = k
  · rw [if_pos hk, hk, h]
  · rw [if_neg hk, if_neg hk]

theorem insert_erase (h : m.get? k = some r) : (m.erase k).insert k r = m := by
  refine ext_get? fun k' => ?_
  rw [get?_insert, get?_erase]
  by_cases hk : k' = k
  · rw [if_pos hk, hk, h]
  · rw [if_neg hk, if_neg hk]

theorem size_insert (h : (m.get? k).isSome) (r : Response) : (m.insert k r).size = m.size := by
  have hmem : ∀ k', k' ∈ (m.insert k r).keys ↔ k' ∈ m.keys := by
    intro k'
    rw [mem_keys_iff, mem_keys_iff, get?_insert]
    by_cases hk : k' = k
    · rw [if_pos hk, hk]
      exact ⟨fun _ => h, fun _ => rfl⟩
    · rw [if_neg hk]
  have hperm := (List.perm_ext_iff_of_nodup (m.insert k r).nodup_keys m.nodup_keys).mpr hmem
  simpa only [keys, size, List.length_map] using hperm.length_eq

theorem size_insertAll (h : ∀ p ∈ batch, (m.get? p.1).isSome) :
    (m.insertAll batch).size = m.size := by
  induction batch generalizing m with
  | nil => rfl
  | cons p batch ih =>
    have hp := h p List.mem_cons_self
    refine (ih (m := m.insert p.1 p.2) fun q hq => ?_).trans (size_insert hp p.2)
    rw [get?_insert]
    split
    · rfl
    · exact h q (List.mem_cons_of_mem p hq)

theorem ofList_list (m : Entries) : ofList m.list = m := by
  refine ext_get? fun k => ?_
  cases h : m.get? k with
  | some r => exact get?_insertAll_of_mem empty m.nodup_keys (get?_eq_some_iff.mp h)
  | none =>
    refine get?_insertAll_of_not_mem empty fun hk => ?_
    have hs := mem_keys_iff.mp hk
    rw [h] at hs
    cases hs

end AssetCache.Entries
