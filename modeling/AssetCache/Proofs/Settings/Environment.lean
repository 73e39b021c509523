import AssetCache.Proofs.Settings.Leaf

namespace AssetCache.Settings

variable {environment environment' : List (String × String)} {t : Tree} {l l' : Leaf}

def fromEnvironment (text : String) : Tree :=
  .scalar (some "the environment") (scalarOfText text)

def variableIn (environment : List (String × String)) (l : Leaf) : Option String :=
  (environment.find? fun p => variableKey? p.1 = some l.path).map (·.2)

/-- Every variable of the program names a setting, and no two the same one. -/
structure Variables (environment : List (String × String)) : Prop where
  named : ∀ p ∈ environment, ∀ key, variableKey? p.1 = some key → ∃ l : Leaf, key = l.path
  distinct : (environment.filterMap fun p => variableKey? p.1).Nodup

namespace Tree

def setLeaf (t : Tree) (l : Leaf) (text : String) : Tree :=
  putAt (fromEnvironment text) [.member l.part, .member l.key] t

theorem lookup_setLeaf (t : Tree) (l : Leaf) (text : String) (part : String) :
    (t.setLeaf l text).members.lookup part =
      if part = l.part then
        some (((t.members.lookup l.part).getD nothing).put l.key (fromEnvironment text))
      else t.members.lookup part := by
  rw [setLeaf, putAt]
  · rw [l.isPlain_part.foldName]
    exact lookup_setMember _ _ _ _
  · exact fun h => by cases h

theorem leaf_setLeaf (t : Tree) (l : Leaf) (text : String) (l' : Leaf) :
    (t.setLeaf l text).leaf l' = if l' = l then some (fromEnvironment text) else t.leaf l' := by
  rw [leaf, leaf, inside, lookup_setLeaf]
  by_cases hpart : l'.part = l.part
  · rw [if_pos hpart, Option.elim_some, lookup_put, l.isPlain_key.foldName]
    by_cases h : l' = l
    · rw [if_pos h, if_pos (congrArg _ h)]
      rfl
    · rw [if_neg h, if_neg (mt Leaf.eq_of_key h), inside, hpart]
      cases t.members.lookup l.part <;> rfl
  · rw [if_neg hpart, if_neg (mt (congrArg _) hpart)]
    rfl

theorem standIn_setLeaf (t : Tree) (l : Leaf) (text : String) (part : String) :
    (t.setLeaf l text).standIn part = if part = l.part then none else t.standIn part := by
  rw [standIn, lookup_setLeaf]
  split
  · rw [put_eq]
    rfl
  · rfl

end Tree

theorem variableIn_cons_of_none {name text : String} (h : variableKey? name = none) (l : Leaf) :
    variableIn ((name, text) :: environment) l = variableIn environment l := by
  rw [variableIn, variableIn, List.find?_cons_of_neg (by simp [h])]

theorem variableIn_cons {name text : String} (h : variableKey? name = some l.path) (l' : Leaf) :
    variableIn ((name, text) :: environment) l' =
      if l' = l then some text else variableIn environment l' := by
  rw [variableIn, variableIn]
  split
  · next heq => rw [List.find?_cons_of_pos (by simp [h, heq])]; rfl
  · next hne =>
    have : l.path ≠ l'.path := fun h => hne (Leaf.eq_of_path h).symm
    rw [List.find?_cons_of_neg (by simp [h, this])]

theorem overlay_cons_of_none {name text : String} (h : variableKey? name = none) (t : Tree) :
    t.overlay (environmentLayer ((name, text) :: environment)) =
      t.overlay (environmentLayer environment) := by
  rw [environmentLayer, List.filterMap_cons]
  dsimp only
  rw [h, Option.map_none]
  rfl

theorem overlay_cons {name text : String} (h : variableKey? name = some l.path) (t : Tree) :
    t.overlay (environmentLayer ((name, text) :: environment)) =
      (t.setLeaf l text).overlay (environmentLayer environment) := by
  rw [environmentLayer, List.filterMap_cons]
  dsimp only
  rw [h, Option.map_some, Tree.overlay, List.foldl_cons, l.pathOf_path]
  rfl

theorem Variables.tail {p : String × String} (h : Variables (p :: environment)) :
    Variables environment where
  named q hq := h.named q (List.mem_cons_of_mem _ hq)
  distinct := by
    have hdistinct := h.distinct
    rw [List.filterMap_cons] at hdistinct
    split at hdistinct
    · exact hdistinct
    · exact (List.nodup_cons.mp hdistinct).2

theorem Variables.variableIn_tail {name text : String} (h : Variables ((name, text) :: environment))
    (hname : variableKey? name = some l.path) : variableIn environment l = none := by
  have hdistinct := h.distinct
  rw [List.filterMap_cons, hname] at hdistinct
  have hnot := (List.nodup_cons.mp hdistinct).1
  rw [variableIn, Option.map_eq_none_iff, List.find?_eq_none]
  intro p hp hkey
  exact hnot (List.mem_filterMap.mpr ⟨p, hp, of_decide_eq_true hkey⟩)

/-- A variable decides its setting; other settings stay as they have been. -/
theorem leaf_overlay (hvars : Variables environment) (t : Tree) (l : Leaf) :
    (t.overlay (environmentLayer environment)).leaf l =
      ((variableIn environment l).map fromEnvironment).or (t.leaf l) := by
  induction environment generalizing t with
  | nil => rfl
  | cons p rest ih =>
    obtain ⟨name, text⟩ := p
    cases hname : variableKey? name with
    | none =>
      rw [overlay_cons_of_none hname, ih hvars.tail, variableIn_cons_of_none hname]
    | some key =>
      obtain ⟨l', rfl⟩ := hvars.named _ List.mem_cons_self key hname
      rw [overlay_cons hname, ih hvars.tail, variableIn_cons hname, Tree.leaf_setLeaf]
      split
      · next h => rw [h, hvars.variableIn_tail hname]; rfl
      · rfl

/-- A section of which a variable names a setting is one. -/
theorem standIn_overlay (hvars : Variables environment) (t : Tree) (l : Leaf) (v : Tree) :
    (t.overlay (environmentLayer environment)).standIn l.part = some v ↔
      t.standIn l.part = some v ∧
        ∀ l' : Leaf, l'.part = l.part → variableIn environment l' = none := by
  induction environment generalizing t with
  | nil => exact (and_iff_left fun _ _ => rfl).symm
  | cons p rest ih =>
    obtain ⟨name, text⟩ := p
    cases hname : variableKey? name with
    | none =>
      simp only [overlay_cons_of_none hname, ih hvars.tail, variableIn_cons_of_none hname]
    | some key =>
      obtain ⟨l', rfl⟩ := hvars.named _ List.mem_cons_self key hname
      rw [overlay_cons hname, ih hvars.tail, Tree.standIn_setLeaf]
      split
      · next hpart =>
        refine iff_of_false (fun h => nomatch h.1) fun h => ?_
        have hnone := h.2 l' hpart.symm
        rw [variableIn_cons hname, if_pos rfl] at hnone
        cases hnone
      · next hpart =>
        refine and_congr_right fun _ => forall₂_congr fun l'' hl'' => ?_
        rw [variableIn_cons hname, if_neg]
        rintro rfl
        exact hpart hl''.symm

theorem variableIn_eq_some_iff (hvars : Variables environment) {text : String} :
    variableIn environment l = some text ↔
      ∃ name, (name, text) ∈ environment ∧ variableKey? name = some l.path := by
  constructor
  · intro h
    obtain ⟨⟨name, _⟩, hfind, rfl⟩ := Option.map_eq_some_iff.mp h
    have hname := List.find?_some hfind
    exact ⟨name, List.mem_of_find?_eq_some hfind, of_decide_eq_true hname⟩
  · rintro ⟨name, hmem, hname⟩
    induction environment with
    | nil => cases hmem
    | cons p rest ih =>
      obtain ⟨other, _⟩ := p
      obtain hhead | hrest := List.mem_cons.mp hmem
      · cases hhead
        rw [variableIn_cons hname, if_pos rfl]
      · have htail := ih hvars.tail hrest
        cases hother : variableKey? other with
        | none => rwa [variableIn_cons_of_none hother]
        | some key =>
          obtain ⟨l', rfl⟩ := hvars.named _ List.mem_cons_self key hother
          rw [variableIn_cons hother, if_neg, htail]
          rintro rfl
          rw [hvars.variableIn_tail hother] at htail
          cases htail

theorem Variables.perm (hvars : Variables environment) (h : environment.Perm environment') :
    Variables environment' where
  named p hp := hvars.named p (h.mem_iff.mpr hp)
  distinct := ((h.filterMap _).nodup_iff).mp hvars.distinct

theorem variableIn_perm (hvars : Variables environment) (h : environment.Perm environment')
    (l : Leaf) : variableIn environment' l = variableIn environment l := by
  ext text
  simp only [variableIn_eq_some_iff hvars, variableIn_eq_some_iff (hvars.perm h), h.mem_iff]

theorem variables_singleton (l : Leaf) (text : String) : Variables [(l.variableName, text)] where
  named p hp key hkey := by
    cases List.mem_singleton.mp hp
    rw [l.variableKey?_variableName] at hkey
    exact ⟨l, (Option.some.inj hkey).symm⟩
  distinct := by
    rw [List.filterMap_cons, l.variableKey?_variableName]
    exact List.nodup_singleton _

end AssetCache.Settings
