import AssetCache.Proofs.Lookup
import AssetCache.Toml.Reader

namespace AssetCache.Toml

namespace Members

variable {ms done : Members} {key part : String} {item item' : Item}

theorem not_mem_append (h : key ∉ ms.map (·.1)) (hne : key ≠ part) :
    key ∉ (ms ++ [(part, item)]).map (·.1) := by
  rw [List.map_append, List.mem_append]
  exact fun hmem => hmem.elim h fun hmem => hne (List.mem_singleton.mp hmem)

theorem lookup_last (h : part ∉ done.map (·.1)) :
    (done ++ [(part, item)]).lookup part = some item := by
  rw [List.lookup_append, lookup_of_not_mem h, Option.none_or, List.lookup_cons_self]

theorem set_of_not_mem (h : key ∉ ms.map (·.1)) : ms.set key item = ms ++ [(key, item)] := by
  rw [set, if_neg]
  rw [List.any_eq_true]
  rintro ⟨p, hp, hkey⟩
  exact h (List.mem_map.mpr ⟨p, hp, beq_iff_eq.mp hkey⟩)

theorem set_last (h : part ∉ done.map (·.1)) :
    set (done ++ [(part, item)]) part item' = done ++ [(part, item')] := by
  have hdone : (done.map fun p => if p.1 = part then (part, item') else p) = done := by
    refine (List.map_congr_left fun p hp => ?_).trans (List.map_id _)
    exact if_neg fun heq => h (List.mem_map.mpr ⟨p, hp, heq⟩)
  rw [set, if_pos, List.map_append, hdone]
  · simp
  · simp

end Members

namespace Draft

variable {done inner : Members} {key part : String} {v : Value} {path : List String}

theorem header_new (h : part ∉ done.map (·.1)) :
    header ⟨done, path⟩ beginTable [part] =
      some ⟨done ++ [(part, .table .headed [])], [part]⟩ := by
  rw [header, Members.update, beginTable, lookup_of_not_mem h]
  dsimp only
  rw [Members.set_of_not_mem h]
  rfl

theorem assign_new (h : part ∉ done.map (·.1)) (hkey : key ∉ inner.map (·.1)) :
    assign ⟨done ++ [(part, .table .headed inner)], [part]⟩ [key] v =
      some ⟨done ++ [(part, .table .headed (inner ++ [(key, .value v)]))], [part]⟩ := by
  rw [assign]
  dsimp only
  rw [if_neg (by simp), Members.update, Members.lookup_last h]
  dsimp only
  rw [Members.assign, if_neg (by simp [lookup_of_not_mem hkey]),
    Members.set_of_not_mem hkey, Option.map_some, Members.set_last h]
  rfl

end Draft

end AssetCache.Toml
