import AssetCache.Resource

namespace AssetCache

/-- Keys strictly increase, so two maps that agree on every key are the same list. -/
structure Entries where
  list : List (Key × Response)
  sorted : list.Pairwise fun a b => a.1 < b.1

namespace Entries

instance : DecidableEq Entries := fun a b =>
  decidable_of_iff (a.list = b.list) ⟨fun h => by cases a; cases b; simp_all, fun h => h ▸ rfl⟩

def empty : Entries := ⟨[], .nil⟩

def size (m : Entries) : Nat := m.list.length

def keys (m : Entries) : List Key := m.list.map (·.1)

def get? (m : Entries) (k : Key) : Option Response := (m.list.find? (·.1 = k)).map (·.2)

def contains (m : Entries) (k : Key) : Bool := m.list.any (·.1 = k)

def insertInto (k : Key) (r : Response) : List (Key × Response) → List (Key × Response)
  | [] => [(k, r)]
  | (k', r') :: rest =>
    if k < k' then (k, r) :: (k', r') :: rest
    else if k = k' then (k, r) :: rest
    else (k', r') :: insertInto k r rest

theorem mem_insertInto {k : Key} {r : Response} {l : List (Key × Response)}
    {p : Key × Response} (h : p ∈ insertInto k r l) : p = (k, r) ∨ p ∈ l := by
  induction l with
  | nil => exact .inl (by simpa [insertInto] using h)
  | cons q l ih =>
    obtain ⟨k', r'⟩ := q
    simp only [insertInto] at h
    split at h
    · exact List.mem_cons.1 h
    · split at h
      · rcases List.mem_cons.1 h with h | h
        · exact .inl h
        · exact .inr (.tail _ h)
      · rcases List.mem_cons.1 h with h | h
        · exact .inr (h ▸ .head _)
        · exact (ih h).imp_right (.tail _)

theorem sorted_insertInto {k : Key} {r : Response} {l : List (Key × Response)}
    (h : l.Pairwise fun a b => a.1 < b.1) :
    (insertInto k r l).Pairwise fun a b => a.1 < b.1 := by
  induction l with
  | nil => simp [insertInto]
  | cons q l ih =>
    obtain ⟨k', r'⟩ := q
    have hq := List.pairwise_cons.1 h
    simp only [insertInto]
    split
    · next hlt =>
      refine List.pairwise_cons.2 ⟨fun p hp => ?_, h⟩
      rcases List.mem_cons.1 hp with rfl | hp
      · exact hlt
      · exact Key.lt_trans hlt (hq.1 p hp)
    · next hnlt =>
      split
      · next heq =>
        subst heq
        exact List.pairwise_cons.2 ⟨hq.1, hq.2⟩
      · next hne =>
        refine List.pairwise_cons.2 ⟨fun p hp => ?_, ih hq.2⟩
        rcases mem_insertInto hp with rfl | hp
        · rcases Key.lt_trichotomy k k' with h | h | h
          · exact absurd h hnlt
          · exact absurd h hne
          · exact h
        · exact hq.1 p hp

def insert (m : Entries) (k : Key) (r : Response) : Entries :=
  ⟨insertInto k r m.list, sorted_insertInto m.sorted⟩

/-- One after the other, so the last of a repeated key stays. -/
def insertAll (m : Entries) (batch : List (Key × Response)) : Entries :=
  batch.foldl (fun m p => m.insert p.1 p.2) m

def erase (m : Entries) (k : Key) : Entries :=
  ⟨m.list.filter fun p => !decide (p.1 = k), m.sorted.filter _⟩

def ofList (batch : List (Key × Response)) : Entries := empty.insertAll batch

theorem get?_insert (m : Entries) (k : Key) (r : Response) (k' : Key) :
    (m.insert k r).get? k' = if k' = k then some r else m.get? k' := by
  obtain ⟨l, hl⟩ := m
  simp only [get?, insert]
  clear hl
  induction l with
  | nil => by_cases h : k' = k <;> simp [insertInto, h, eq_comm]
  | cons q l ih =>
    obtain ⟨k₂, r₂⟩ := q
    simp only [insertInto]
    split
    · by_cases h : k' = k
      · simp [h]
      · simp [h, Ne.symm h]
    · split
      · next heq => subst heq; by_cases h : k' = k <;> simp [h, eq_comm]
      · next hne =>
        by_cases h₂ : k₂ = k'
        · have : ¬ k' = k := fun h => hne (h ▸ h₂.symm)
          simp [h₂, this]
        · simpa [List.find?_cons, h₂] using ih

theorem get?_erase (m : Entries) (k k' : Key) :
    (m.erase k).get? k' = if k' = k then none else m.get? k' := by
  obtain ⟨l, hl⟩ := m
  simp only [get?, erase]
  clear hl
  induction l with
  | nil => simp
  | cons q l ih =>
    obtain ⟨k₂, r₂⟩ := q
    by_cases h₂ : k₂ = k
    · subst h₂
      by_cases h : k' = k₂
      · simp [h]
      · simpa [h, Ne.symm h] using ih
    · by_cases h₃ : k₂ = k'
      · have : ¬ k' = k := fun h => h₂ (h₃.trans h)
        simp [h₃, this]
      · simpa [h₂, h₃] using ih

theorem contains_eq_isSome (m : Entries) (k : Key) : m.contains k = (m.get? k).isSome := by
  obtain ⟨l, hl⟩ := m
  simp only [contains, get?]
  clear hl
  induction l with
  | nil => rfl
  | cons q l ih => by_cases h : q.1 = k <;> simp [h, ih]

end Entries

end AssetCache
