import AssetCache.Proofs.Lookup
import AssetCache.Proofs.Toml.Distinct

namespace AssetCache.Toml

namespace Value

def at? : Value → List String → Option Value
  | v, [] => some v
  | .table members, key :: rest => (members.lookup key).bind fun v => v.at? rest
  | _, _ :: _ => none

/-- The same value, or another table for a table, or another list for a list. -/
inductive Like : Value → Value → Prop
  | same (v : Value) : Like v v
  | table (members members' : List (String × Value)) : Like (.table members) (.table members')
  | list (items items' : List Value) : Like (.list items) (.list items')

/-- Whatever the one value has under a path, the other has as well. -/
def Grows (v w : Value) : Prop :=
  ∀ path x, v.at? path = some x → ∃ y, w.at? path = some y ∧ x.Like y

/-- A value stands under a path, unless the path leads into a list. -/
def Tells (v : Value) (path : List String) (x : Value) : Prop :=
  v.at? path = some x ∨
    ∃ before key rest items, path = before ++ key :: rest ∧ v.at? before = some (.list items)

variable {v w x : Value} {members members' : List (String × Value)} {key : String}
  {path rest : List String} {n : Int}

theorem at?_append (v : Value) (path rest : List String) :
    v.at? (path ++ rest) = (v.at? path).bind fun w => w.at? rest := by
  induction path generalizing v with
  | nil => rw [List.nil_append, at?, Option.bind_some]
  | cons key path ih =>
    cases v with
    | table members =>
      rw [List.cons_append, at?, at?, Option.bind_assoc]
      exact Option.bind_congr fun w _ => ih w
    | _ => rfl

theorem Like.trans {u : Value} (h : u.Like v) (h' : v.Like w) : u.Like w := by
  cases h with
  | same => exact h'
  | table => cases h' <;> exact .table _ _
  | list => cases h' <;> exact .list _ _

theorem Grows.refl (v : Value) : v.Grows v := fun _ x hx => ⟨x, hx, .same x⟩

theorem Grows.trans {u : Value} (h : u.Grows v) (h' : v.Grows w) : u.Grows w := by
  intro path x hx
  obtain ⟨y, hy, hlike⟩ := h path x hx
  obtain ⟨z, hz, hlike'⟩ := h' path y hy
  exact ⟨z, hz, hlike.trans hlike'⟩

theorem grows_table (h : ∀ key v, members.lookup key = some v →
    ∃ w, members'.lookup key = some w ∧ v.Grows w) :
    (Value.table members).Grows (.table members') := by
  intro path x hx
  cases path with
  | nil =>
    cases hx
    exact ⟨_, rfl, .table _ _⟩
  | cons key rest =>
    obtain ⟨v, hv, hx⟩ := Option.bind_eq_some_iff.mp hx
    obtain ⟨w, hw, hgrows⟩ := h key v hv
    obtain ⟨y, hy, hlike⟩ := hgrows rest x hx
    exact ⟨y, Option.bind_eq_some_iff.mpr ⟨w, hw, hy⟩, hlike⟩

theorem grows_list (items items' : List Value) : (Value.list items).Grows (.list items') := by
  intro path x hx
  cases path with
  | nil =>
    cases hx
    exact ⟨_, rfl, .list _ _⟩
  | cons => cases hx

theorem tells_cons (hkey : members.lookup key = some w) (h : w.Tells path x) :
    (Value.table members).Tells (key :: path) x := by
  have hat : ∀ path, (Value.table members).at? (key :: path) = w.at? path := fun path => by
    rw [at?, hkey, Option.bind_some]
  obtain h | ⟨before, key', rest, items, rfl, h⟩ := h
  · exact .inl ((hat path).trans h)
  · exact .inr ⟨key :: before, key', rest, items, rfl, (hat before).trans h⟩

theorem tells_of_list {items : List Value} (hkey : members.lookup key = some (.list items))
    (hpath : path ≠ []) (x : Value) : (Value.table members).Tells (key :: path) x := by
  obtain ⟨key', rest, rfl⟩ := List.exists_cons_of_ne_nil hpath
  refine .inr ⟨[key], key', rest, items, rfl, ?_⟩
  rw [at?, hkey, Option.bind_some, at?]

theorem Tells.append (h : v.Tells path w) (hw : w.Tells rest x) : v.Tells (path ++ rest) x := by
  obtain h | ⟨before, key, after, items, rfl, h⟩ := h
  · have hat : ∀ rest, v.at? (path ++ rest) = w.at? rest := fun rest => by
      rw [at?_append, h, Option.bind_some]
    obtain hw | ⟨before, key, after, items, rfl, hw⟩ := hw
    · exact .inl ((hat rest).trans hw)
    · refine .inr ⟨path ++ before, key, after, items, (List.append_assoc _ _ _).symm, ?_⟩
      exact (hat before).trans hw
  · exact .inr ⟨before, key, after ++ rest, items, List.append_assoc _ _ _, h⟩

theorem Grows.tells (h : v.Grows w) (htells : v.Tells path (.int n)) : w.Tells path (.int n) := by
  obtain hx | ⟨before, key, rest, items, rfl, hx⟩ := htells
  · obtain ⟨y, hy, hlike⟩ := h path _ hx
    cases hlike
    exact .inl hy
  · obtain ⟨y, hy, hlike⟩ := h before _ hx
    cases hlike with
    | same | list => exact .inr ⟨before, key, rest, _, rfl, hy⟩

end Value

namespace Members

variable {ms ms' inner : Members} {key : String} {item : Item} {v : Value}
  {path rest : List String}

def toTable (ms : Members) : Value := .table (membersToValue ms)

def Grows (ms ms' : Members) : Prop := ms.toTable.Grows ms'.toTable

theorem lookup_toValue (ms : Members) (key : String) :
    (membersToValue ms).lookup key = (ms.lookup key).map Item.toValue := by
  induction ms with
  | nil => rfl
  | cons p rest ih =>
    obtain ⟨name, item⟩ := p
    rw [membersToValue, lookup_cons, lookup_cons, ih]
    split <;> rfl

theorem lookup_set (ms : Members) (key : String) (item : Item) (name : String) :
    (ms.set key item).lookup name = if name = key then some item else ms.lookup name :=
  lookup_replace ms key item name

theorem lookup_toValue_set (ms : Members) (key : String) (item : Item) :
    (membersToValue (ms.set key item)).lookup key = some item.toValue := by
  rw [lookup_toValue, lookup_set, if_pos rfl, Option.map_some]

/-- A document grows where something is put under a new name, or what is there grows. -/
theorem grows_set (h : ∀ old, ms.lookup key = some old → old.toValue.Grows item.toValue) :
    ms.Grows (ms.set key item) := by
  refine Value.grows_table fun name v hv => ?_
  rw [lookup_toValue] at hv
  obtain ⟨old, hold, rfl⟩ := Option.map_eq_some_iff.mp hv
  rw [lookup_toValue, lookup_set]
  split
  · next hname => exact ⟨_, rfl, h old (hname ▸ hold)⟩
  · exact ⟨_, by rw [hold]; rfl, .refl _⟩

theorem grows_set_new (h : ms.lookup key = none) : ms.Grows (ms.set key item) :=
  grows_set fun old hold => by
    rw [h] at hold
    cases hold

theorem grows_set_table {style style' : Style} {inner' : Members}
    (h : ms.lookup key = some (.table style inner)) (hgrows : inner.Grows inner') :
    ms.Grows (ms.set key (.table style' inner')) :=
  grows_set fun old hold => by
    cases h.symm.trans hold
    exact hgrows

theorem grows_set_tables {earlier earlier' : List Members} {last last' : Option Members}
    (h : ms.lookup key = some (.tables earlier last)) :
    ms.Grows (ms.set key (.tables earlier' last')) :=
  grows_set fun old hold => by
    cases h.symm.trans hold
    rw [toValue_tables, toValue_tables]
    exact Value.grows_list _ _

theorem grows_assign {style : Style} (h : Members.assign style ms v path = some ms') :
    ms.Grows ms' := by
  fun_induction Members.assign style ms v path generalizing ms' with
  | case1 | case2 | case6 | case8 | case10 => cases h
  | case3 =>
    rename_i hkey
    cases h
    exact grows_set_new (Option.not_isSome_iff_eq_none.mp hkey)
  | case4 =>
    rename_i hkey _
    obtain ⟨inner, -, rfl⟩ := Option.map_eq_some_iff.mp h
    exact grows_set_new hkey
  | case5 =>
    rename_i hkey ih
    obtain ⟨inner, hinner, rfl⟩ := Option.map_eq_some_iff.mp h
    exact grows_set_table hkey (ih hinner)
  | case7 =>
    rename_i hkey _ ih
    obtain ⟨inner, hinner, rfl⟩ := Option.map_eq_some_iff.mp h
    exact grows_set_table hkey (ih hinner)
  | case9 =>
    rename_i hkey _ ih
    obtain ⟨last, -, rfl⟩ := Option.map_eq_some_iff.mp h
    exact grows_set_tables hkey

theorem grows_update {change : Members → String → Option Members}
    (hchange : ∀ {ms ms' : Members} {key : String}, change ms key = some ms' → ms.Grows ms')
    (h : Members.update change ms path = some ms') : ms.Grows ms' := by
  fun_induction Members.update change ms path generalizing ms' with
  | case1 => cases h
  | case2 => exact hchange h
  | case3 ms key rest _ hkey ih =>
    obtain ⟨inner, -, rfl⟩ := Option.map_eq_some_iff.mp h
    exact grows_set_new hkey
  | case4 ms key rest _ style inner hkey ih =>
    obtain ⟨inner', hinner, rfl⟩ := Option.map_eq_some_iff.mp h
    exact grows_set_table hkey (ih hinner)
  | case5 ms key rest _ earlier last hkey ih =>
    obtain ⟨last', -, rfl⟩ := Option.map_eq_some_iff.mp h
    exact grows_set_tables hkey
  | case6 => cases h

theorem grows_beginTable (h : beginTable ms key = some ms') : ms.Grows ms' := by
  rw [beginTable] at h
  split at h
  · next hkey =>
    cases h
    exact grows_set_new hkey
  · next inner hkey =>
    cases h
    exact grows_set_table hkey (.refl _)
  · cases h

theorem grows_beginListed (h : beginListed ms key = some ms') : ms.Grows ms' := by
  rw [beginListed] at h
  split at h
  · next hkey =>
    cases h
    exact grows_set_new hkey
  · next hkey =>
    cases h
    exact grows_set_tables hkey
  · cases h

theorem tells_set {style : Style} (h : inner.toTable.Tells path v) :
    (ms.set key (.table style inner)).toTable.Tells (key :: path) v :=
  Value.tells_cons (lookup_toValue_set ms key _) h

theorem tells_set_tables {earlier : List Members} {last : Option Members} (hpath : path ≠ [])
    (v : Value) : (ms.set key (.tables earlier last)).toTable.Tells (key :: path) v := by
  have hlookup := lookup_toValue_set ms key (.tables earlier last)
  rw [toValue_tables] at hlookup
  exact Value.tells_of_list hlookup hpath v

theorem tells_assign {style : Style} (h : Members.assign style ms v path = some ms') :
    ms'.toTable.Tells path v := by
  fun_induction Members.assign style ms v path generalizing ms' with
  | case1 | case2 | case6 | case8 | case10 => cases h
  | case3 =>
    cases h
    refine .inl ?_
    rw [toTable, Value.at?, lookup_toValue_set, Option.bind_some, Item.toValue, Value.at?]
  | case4 =>
    rename_i ih
    obtain ⟨inner, hinner, rfl⟩ := Option.map_eq_some_iff.mp h
    exact tells_set (ih hinner)
  | case5 =>
    rename_i ih
    obtain ⟨inner, hinner, rfl⟩ := Option.map_eq_some_iff.mp h
    exact tells_set (ih hinner)
  | case7 =>
    rename_i ih
    obtain ⟨inner, hinner, rfl⟩ := Option.map_eq_some_iff.mp h
    exact tells_set (ih hinner)
  | case9 style ms key rest hrest =>
    obtain ⟨last, -, rfl⟩ := Option.map_eq_some_iff.mp h
    exact tells_set_tables hrest v

theorem tells_update {change : Members → String → Option Members} (hrest : rest ≠ [])
    (hchange : ∀ {ms ms' : Members} {key : String}, change ms key = some ms' →
      ms'.toTable.Tells (key :: rest) v)
    (h : Members.update change ms path = some ms') : ms'.toTable.Tells (path ++ rest) v := by
  have happend : ∀ path, path ++ rest ≠ [] := fun _ => List.append_ne_nil_of_right_ne_nil _ hrest
  fun_induction Members.update change ms path generalizing ms' with
  | case1 | case6 => cases h
  | case2 ms key => exact hchange h
  | case3 ms key path _ _ ih =>
    obtain ⟨inner, hinner, rfl⟩ := Option.map_eq_some_iff.mp h
    exact tells_set (ih hinner)
  | case4 ms key path _ style inner _ ih =>
    obtain ⟨inner', hinner, rfl⟩ := Option.map_eq_some_iff.mp h
    exact tells_set (ih hinner)
  | case5 ms key path =>
    obtain ⟨last', -, rfl⟩ := Option.map_eq_some_iff.mp h
    exact tells_set_tables (happend path) v

end Members

namespace Draft

variable {d d' : Draft} {cs rest : List Char} {key path : List String} {v : Value}
  {change : Members → String → Option Members}

theorem grows_assign (h : d.assign key v = some d') : d.members.Grows d'.members := by
  rw [assign] at h
  split at h
  · obtain ⟨ms, hassign, rfl⟩ := Option.map_eq_some_iff.mp h
    exact Members.grows_assign hassign
  · obtain ⟨ms, hupdate, rfl⟩ := Option.map_eq_some_iff.mp h
    refine Members.grows_update (fun {ms ms' name} hchange => ?_) hupdate
    split at hchange
    · next style inner hname =>
      obtain ⟨inner', hinner, rfl⟩ := Option.map_eq_some_iff.mp hchange
      exact Members.grows_set_table hname (Members.grows_assign hinner)
    · next hname =>
      obtain ⟨last, -, rfl⟩ := Option.map_eq_some_iff.mp hchange
      exact Members.grows_set_tables hname
    · cases hchange

theorem tells_assign (hkey : key ≠ []) (h : d.assign key v = some d') :
    d'.members.toTable.Tells (d.path ++ key) v := by
  rw [assign] at h
  split at h
  · next hpath =>
    obtain ⟨ms, hassign, rfl⟩ := Option.map_eq_some_iff.mp h
    rw [List.isEmpty_iff.mp hpath, List.nil_append]
    exact Members.tells_assign hassign
  · obtain ⟨ms, hupdate, rfl⟩ := Option.map_eq_some_iff.mp h
    refine Members.tells_update hkey (fun {ms ms' name} hchange => ?_) hupdate
    split at hchange
    · obtain ⟨inner', hinner, rfl⟩ := Option.map_eq_some_iff.mp hchange
      exact Members.tells_set (Members.tells_assign hinner)
    · obtain ⟨last, -, rfl⟩ := Option.map_eq_some_iff.mp hchange
      exact Members.tells_set_tables hkey v
    · cases hchange

theorem grows_header
    (hchange : ∀ {ms ms' : Members} {key : String}, change ms key = some ms' → ms.Grows ms')
    (h : d.header change path = some d') : d.members.Grows d'.members := by
  obtain ⟨_, hupdate, rfl⟩ := Option.map_eq_some_iff.mp h
  exact Members.grows_update hchange hupdate

theorem grows_readLine (h : readLine d cs = some (d', rest)) : d.members.Grows d'.members := by
  rw [readLine] at h
  split at h
  · cases h
    exact .refl _
  iterate 3
    · obtain ⟨_, -, heq⟩ := Option.map_eq_some_iff.mp h
      cases heq
      exact .refl _
  · split at h
    · obtain ⟨_, -, h⟩ := Option.bind_eq_some_iff.mp h
      obtain ⟨_, hheader, heq⟩ := Option.bind_eq_some_iff.mp h
      cases heq
      exact grows_header Members.grows_beginListed hheader
    · cases h
  · split at h
    · obtain ⟨_, -, h⟩ := Option.bind_eq_some_iff.mp h
      obtain ⟨_, hheader, heq⟩ := Option.bind_eq_some_iff.mp h
      cases heq
      exact grows_header Members.grows_beginTable hheader
    · cases h
  · split at h
    · obtain ⟨⟨_, _⟩, -, h⟩ := Option.bind_eq_some_iff.mp h
      obtain ⟨_, -, h⟩ := Option.bind_eq_some_iff.mp h
      obtain ⟨_, hassign, heq⟩ := Option.bind_eq_some_iff.mp h
      cases heq
      exact grows_assign hassign
    · cases h

theorem grows_readDocumentLines {n : Nat} (h : readDocumentLines d n cs = some d') :
    d.members.Grows d'.members := by
  fun_induction readDocumentLines d n cs with
  | case1 =>
    cases h
    exact .refl _
  | case2 | case3 => cases h
  | case4 d n cs _ _ _ hline ih => exact (grows_readLine hline).trans (ih h)

end Draft

end AssetCache.Toml
