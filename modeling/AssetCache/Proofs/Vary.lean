import AssetCache.Manager

namespace AssetCache

theorem mem_splitOn_iff {α : Type} [BEq α] [LawfulBEq α] {a : α} {part l : List α} :
    part ∈ l.splitOn a ↔ a ∉ part ∧ ∃ before after, l = before ++ part ++ after ∧
      (before = [] ∨ ∃ b, before = b ++ [a]) ∧ (after = [] ∨ ∃ c, after = a :: c) := by
  constructor
  · intro h
    induction hn : l.length using Nat.strongRecOn generalizing l with
    | _ n ih =>
      by_cases ha : a ∈ l
      · obtain ⟨xs, ys, hl, hxs⟩ := List.eq_append_cons_of_mem ha
        subst hl
        rw [List.splitOn_append_cons_self_of_not_mem hxs, List.mem_cons] at h
        rcases h with rfl | h
        · exact ⟨hxs, [], a :: ys, by simp, .inl rfl, .inr ⟨ys, rfl⟩⟩
        · have hlt : ys.length < n := by
            rw [← hn]
            simp only [List.length_append, List.length_cons]
            omega
          obtain ⟨hpart, before, after, hys, hbefore, hafter⟩ := ih _ hlt h rfl
          refine ⟨hpart, xs ++ a :: before, after, by simp [hys], .inr ?_, hafter⟩
          rcases hbefore with rfl | ⟨b, rfl⟩
          · exact ⟨xs, rfl⟩
          · exact ⟨xs ++ a :: b, by simp⟩
      · rw [List.splitOn_eq_singleton ha, List.mem_singleton] at h
        subst h
        exact ⟨ha, [], [], by simp, .inl rfl, .inl rfl⟩
  · rintro ⟨hpart, before, after, rfl, hbefore, hafter⟩
    have htail : part ∈ (part ++ after).splitOn a := by
      rcases hafter with rfl | ⟨c, rfl⟩
      · rw [List.append_nil, List.splitOn_eq_singleton hpart]
        exact List.mem_singleton.mpr rfl
      · rw [List.splitOn_append_cons_self_of_not_mem hpart]
        exact List.mem_cons_self
    rcases hbefore with rfl | ⟨b, rfl⟩
    · exact htail
    · have hl : b ++ [a] ++ part ++ after = b ++ a :: (part ++ after) := by simp
      rw [hl, List.splitOn_append_cons_self]
      exact List.mem_append_right _ htail

namespace Text

theorem trimWhere_eq_singleton_iff {p : Char → Bool} {c : Char} (hc : p c = false)
    {cs : List Char} :
    trimWhere p cs = [c] ↔
      ∃ left right, cs = left ++ c :: right ∧ left.all p = true ∧ right.all p = true := by
  constructor
  · intro h
    rw [trimWhere, List.reverse_eq_iff] at h
    refine ⟨cs.takeWhile p, ((cs.dropWhile p).reverse.takeWhile p).reverse, ?_, ?_, ?_⟩
    · have hr := List.takeWhile_append_dropWhile (p := p) (l := (cs.dropWhile p).reverse)
      rw [h] at hr
      have hd := congrArg List.reverse hr
      simp only [List.reverse_append, List.reverse_reverse, List.reverse_singleton,
        List.singleton_append] at hd
      rw [hd, List.takeWhile_append_dropWhile]
    · exact List.all_takeWhile
    · rw [List.all_reverse]
      exact List.all_takeWhile
  · rintro ⟨left, right, rfl, hleft, hright⟩
    have hl : (left ++ c :: right).dropWhile p = c :: right := by
      rw [List.dropWhile_append_of_pos (by simpa using hleft), List.dropWhile_cons_of_neg (by simp [hc])]
    have hr : (right.reverse ++ [c]).dropWhile p = [c] := by
      rw [List.dropWhile_append_of_pos (by simpa using hright),
        List.dropWhile_cons_of_neg (by simp [hc])]
    rw [trimWhere, hl, List.reverse_cons, hr, List.reverse_singleton]

end Text

/-- `member` stands in a value between commas or ends, with nothing but blanks around it. -/
def IsMember (member value : List Char) : Prop :=
  ∃ before left right after, value = before ++ left ++ member ++ right ++ after ∧
    left.all Text.isBlank = true ∧ right.all Text.isBlank = true ∧
    (before = [] ∨ ∃ b, before = b ++ [',']) ∧ (after = [] ∨ ∃ c, after = ',' :: c)

/-- A response an install may store: its status is one of the 200s and no field `Vary` has the
member `*`. -/
structure Response.Storable (r : Response) : Prop where
  success : 200 ≤ r.status.toNat ∧ r.status.toNat < 300
  fixed : ∀ h ∈ r.headers, Text.sameLetters h.1 "vary" = true → ¬ IsMember ['*'] h.2.toList

namespace Manager

theorem any_star_iff (value : List Char) :
    ((value.splitOn ',').any fun field => Text.trimWhere Text.isBlank field == ['*']) = true ↔
      IsMember ['*'] value := by
  have hstar : Text.isBlank '*' = false := by decide
  have hblank : ∀ {l : List Char}, l.all Text.isBlank = true → ',' ∉ l := fun h hc =>
    absurd (List.all_eq_true.mp h _ hc) (by decide)
  simp only [List.any_eq_true, beq_iff_eq, mem_splitOn_iff,
    Text.trimWhere_eq_singleton_iff hstar]
  constructor
  · rintro ⟨_, ⟨_, before, after, rfl, hbefore, hafter⟩, left, right, rfl, hleft, hright⟩
    exact ⟨before, left, right, after, by simp, hleft, hright, hbefore, hafter⟩
  · rintro ⟨before, left, right, after, rfl, hleft, hright, hbefore, hafter⟩
    refine ⟨left ++ '*' :: right, ⟨?_, before, after, by simp, hbefore, hafter⟩, left, right, rfl,
      hleft, hright⟩
    simp [hblank hleft, hblank hright]

theorem isSuccess_iff (r : Response) :
    r.isSuccess = true ↔ 200 ≤ r.status.toNat ∧ r.status.toNat < 300 := by
  simp [Response.isSuccess, UInt16.le_iff_toNat_le, UInt16.lt_iff_toNat_lt]

theorem hasWildcardVary_iff (r : Response) :
    hasWildcardVary r = true ↔ ∃ field ∈ r.headers,
      Text.sameLetters field.1 "vary" = true ∧ IsMember ['*'] field.2.toList := by
  simp only [hasWildcardVary, List.any_eq_true, Bool.and_eq_true, ← any_star_iff]

theorem unfit_eq_none_iff (url : Url) (r : Response) : unfit url r = none ↔ r.Storable := by
  have hsuccess := isSuccess_iff r
  have hvary : hasWildcardVary r = false ↔
      ∀ h ∈ r.headers, Text.sameLetters h.1 "vary" = true → ¬ IsMember ['*'] h.2.toList := by
    simp only [← Bool.not_eq_true, hasWildcardVary_iff, not_exists, not_and]
  rw [unfit]
  constructor
  · intro h
    split at h
    · cases h
    · next hs =>
      split at h
      · cases h
      · next hv => exact ⟨hsuccess.mp (by simpa using hs), hvary.mp (by simpa using hv)⟩
  · intro h
    simp [hsuccess.mpr h.success, hvary.mpr h.fixed]

end Manager

end AssetCache
