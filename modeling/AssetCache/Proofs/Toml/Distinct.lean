import AssetCache.Toml.Reader
import Mathlib.Data.List.Nodup

namespace AssetCache.Toml

/-- In no table within the value a name occurs twice. -/
inductive Value.Distinct : Value → Prop
  | text (s : String) : Distinct (.text s)
  | int (n : Int) : Distinct (.int n)
  | float (x : Decimal.Binary64) : Distinct (.float x)
  | bool (b : Bool) : Distinct (.bool b)
  | moment (m : Moment) : Distinct (.moment m)
  | list {items : List Value} (hitems : ∀ v ∈ items, Distinct v) : Distinct (.list items)
  | table {members : List (String × Value)} (hnames : (members.map (·.1)).Nodup)
    (hmembers : ∀ p ∈ members, Distinct p.2) : Distinct (.table members)

inductive Item.Distinct : Item → Prop
  | value {v : Value} (hv : v.Distinct) : Distinct (.value v)
  | table {style : Style} {members : Members} (hnames : (members.map (·.1)).Nodup)
    (hmembers : ∀ p ∈ members, Distinct p.2) : Distinct (.table style members)
  | tables {earlier : List Members} {last : Option Members}
    (hnames : ∀ ms ∈ earlier ++ last.toList, (ms.map (·.1)).Nodup)
    (hmembers : ∀ ms ∈ earlier ++ last.toList, ∀ p ∈ ms, Distinct p.2) :
    Distinct (.tables earlier last)

namespace Members

variable {ms ms' inner : Members} {key : String} {item : Item} {v : Value}

structure Distinct (ms : Members) : Prop where
  names : (ms.map (·.1)).Nodup
  members : ∀ p ∈ ms, p.2.Distinct

theorem distinct_nil : Distinct [] := ⟨.nil, fun _ h => nomatch h⟩

theorem Distinct.lookup (h : ms.Distinct) (hkey : List.lookup key ms = some item) :
    item.Distinct := by
  obtain ⟨l, r, hl, -⟩ := List.lookup_eq_some_iff.mp hkey
  exact h.members (key, item) (hl ▸ List.mem_append_right _ List.mem_cons_self)

theorem names_set (ms : Members) (key : String) (item : Item) :
    (ms.set key item).map (·.1) =
      if ms.any (·.1 == key) then ms.map (·.1) else ms.map (·.1) ++ [key] := by
  rw [set]
  split
  · rw [List.map_map]
    refine List.map_congr_left fun p _ => ?_
    by_cases hp : p.1 = key <;> simp [hp]
  · rw [List.map_append]
    rfl

theorem Distinct.set (h : ms.Distinct) (hitem : item.Distinct) : (ms.set key item).Distinct where
  names := by
    rw [names_set]
    split
    · exact h.names
    · next hnew =>
      rw [List.nodup_append]
      refine ⟨h.names, List.nodup_singleton _, fun a ha b hb hab => hnew ?_⟩
      obtain ⟨p, hp, rfl⟩ := List.mem_map.mp ha
      rw [List.mem_singleton] at hb
      exact List.any_eq_true.mpr ⟨p, hp, beq_iff_eq.mpr (hab.trans hb)⟩
  members p hp := by
    rw [Members.set] at hp
    split at hp
    · obtain ⟨q, hq, rfl⟩ := List.mem_map.mp hp
      split
      · exact hitem
      · exact h.members q hq
    · obtain hp | hp := List.mem_append.mp hp
      · exact h.members p hp
      · rw [List.mem_singleton.mp hp]
        exact hitem

theorem Distinct.table (h : ms.Distinct) (style : Style) : (Item.table style ms).Distinct :=
  .table h.names h.members

theorem distinct_of_table {style : Style} (h : (Item.table style ms).Distinct) : ms.Distinct := by
  cases h with
  | table hnames hmembers => exact ⟨hnames, hmembers⟩

theorem distinct_tables {earlier : List Members}
    (h : (Item.tables earlier (some ms)).Distinct) : ms.Distinct ∧ ∀ ms' : Members, ms'.Distinct →
      (Item.tables earlier (some ms')).Distinct := by
  cases h with
  | tables hnames hmembers =>
    have hlast : ms ∈ earlier ++ (some ms).toList := List.mem_append_right _ List.mem_cons_self
    refine ⟨⟨hnames ms hlast, hmembers ms hlast⟩, fun ms' h' => .tables ?_ ?_⟩
    · intro t ht
      obtain ht | ht := List.mem_append.mp ht
      · exact hnames t (List.mem_append_left _ ht)
      · cases List.mem_singleton.mp ht
        exact h'.names
    · intro t ht
      obtain ht | ht := List.mem_append.mp ht
      · exact hmembers t (List.mem_append_left _ ht)
      · cases List.mem_singleton.mp ht
        exact h'.members

theorem Distinct.setTable (h : ms.Distinct) {changed : Option Members} {wrap : Members → Item}
    (hchanged : ∀ {inner : Members}, changed = some inner → inner.Distinct)
    (hwrap : ∀ inner : Members, inner.Distinct → (wrap inner).Distinct)
    (hset : changed.map (fun inner => ms.set key (wrap inner)) = some ms') : ms'.Distinct := by
  obtain ⟨inner, hinner, rfl⟩ := Option.map_eq_some_iff.mp hset
  exact h.set (hwrap inner (hchanged hinner))

theorem Distinct.assign {style : Style} {path : List String} (h : ms.Distinct) (hv : v.Distinct)
    (hassign : Members.assign style ms v path = some ms') : ms'.Distinct := by
  fun_induction Members.assign style ms v path generalizing ms' with
  | case1 | case2 | case6 | case8 | case10 => cases hassign
  | case3 =>
    cases hassign
    exact h.set (.value hv)
  | case4 _ ms key rest _ _ ih =>
    exact h.setTable (ih distinct_nil) (fun _ h => h.table _) hassign
  | case5 _ ms key rest _ inner hkey ih =>
    exact h.setTable (ih (distinct_of_table (h.lookup hkey))) (fun _ h => h.table _) hassign
  | case7 =>
    rename_i hkey _ ih
    exact h.setTable (ih (distinct_of_table (h.lookup hkey))) (fun _ h => h.table _) hassign
  | case9 =>
    rename_i hkey _ ih
    obtain ⟨hlast, htables⟩ := distinct_tables (h.lookup hkey)
    exact h.setTable (ih hlast) htables hassign

theorem Distinct.update {change : Members → String → Option Members} {path : List String}
    (hchange : ∀ {ms ms' : Members} {key : String}, ms.Distinct → change ms key = some ms' →
      ms'.Distinct)
    (h : ms.Distinct) (hupdate : Members.update change ms path = some ms') : ms'.Distinct := by
  fun_induction Members.update change ms path generalizing ms' with
  | case1 => cases hupdate
  | case2 => exact hchange h hupdate
  | case3 ms key rest _ _ ih => exact h.setTable (ih distinct_nil) (fun _ h => h.table _) hupdate
  | case4 ms key rest _ style inner hkey ih =>
    exact h.setTable (ih (distinct_of_table (h.lookup hkey))) (fun _ h => h.table _) hupdate
  | case5 ms key rest _ earlier last hkey ih =>
    obtain ⟨hlast, htables⟩ := distinct_tables (h.lookup hkey)
    exact h.setTable (ih hlast) htables hupdate
  | case6 => cases hupdate

theorem Distinct.beginTable (h : ms.Distinct) (hbegin : Toml.beginTable ms key = some ms') :
    ms'.Distinct := by
  rw [Toml.beginTable] at hbegin
  split at hbegin
  · cases hbegin
    exact h.set (distinct_nil.table _)
  · next inner hkey =>
    cases hbegin
    exact h.set ((distinct_of_table (h.lookup hkey)).table _)
  · cases hbegin

theorem Distinct.beginListed (h : ms.Distinct) (hbegin : Toml.beginListed ms key = some ms') :
    ms'.Distinct := by
  rw [Toml.beginListed] at hbegin
  split at hbegin
  · cases hbegin
    exact h.set (.tables (fun t ht => by cases List.mem_singleton.mp ht; exact .nil)
      fun t ht => by cases List.mem_singleton.mp ht; exact nofun)
  · next earlier last hkey =>
    cases hbegin
    cases h.lookup hkey with
    | tables hnames hmembers =>
      have hmem : ∀ t : Members, t ∈ last :: earlier ++ (some []).toList →
          t ∈ earlier ++ (some last).toList ∨ t = [] := fun t ht => by
        rw [List.cons_append, List.mem_cons, List.mem_append] at ht
        rw [List.mem_append]
        obtain rfl | ht | ht := ht
        · exact .inl (.inr List.mem_cons_self)
        · exact .inl (.inl ht)
        · exact .inr (List.mem_singleton.mp ht)
      refine h.set (.tables (fun t ht => ?_) fun t ht => ?_)
      · obtain ht | rfl := hmem t ht
        · exact hnames t ht
        · exact .nil
      · obtain ht | rfl := hmem t ht
        · exact hmembers t ht
        · exact nofun
  · cases hbegin

theorem names_toValue (ms : Members) : (membersToValue ms).map (·.1) = ms.map (·.1) := by
  induction ms with
  | nil => rfl
  | cons p rest ih =>
    obtain ⟨key, item⟩ := p
    rw [membersToValue, List.map_cons, List.map_cons, ih]

theorem mem_toValue {p : String × Value} (hp : p ∈ membersToValue ms) :
    ∃ q ∈ ms, p = (q.1, q.2.toValue) := by
  induction ms with
  | nil => cases hp
  | cons q rest ih =>
    obtain ⟨key, item⟩ := q
    rw [membersToValue] at hp
    obtain rfl | hp := List.mem_cons.mp hp
    · exact ⟨_, List.mem_cons_self, rfl⟩
    · obtain ⟨q, hq, hpq⟩ := ih hp
      exact ⟨q, List.mem_cons_of_mem _ hq, hpq⟩

theorem mem_tablesToValue {tables : List Members} (hv : v ∈ tablesToValue tables) :
    ∃ ms ∈ tables, v = .table (membersToValue ms) := by
  induction tables with
  | nil => cases hv
  | cons ms rest ih =>
    rw [tablesToValue] at hv
    obtain rfl | hv := List.mem_cons.mp hv
    · exact ⟨ms, List.mem_cons_self, rfl⟩
    · obtain ⟨ms', hms, heq⟩ := ih hv
      exact ⟨ms', List.mem_cons_of_mem _ hms, heq⟩

end Members

theorem toValue_tables (earlier : List Members) (last : Option Members) :
    (Item.tables earlier last).toValue =
      .list ((tablesToValue earlier).reverse ++
        last.toList.map fun ms => .table (membersToValue ms)) := by
  cases last <;> simp [Item.toValue]

open Members in
theorem Item.Distinct.toValue {item : Item} (h : item.Distinct) : item.toValue.Distinct := by
  have htable : ∀ {ms : Members}, (ms.map (·.1)).Nodup → (∀ p ∈ ms, p.2.toValue.Distinct) →
      (Value.table (membersToValue ms)).Distinct := fun {ms} hnames hmembers => by
    refine .table (by rw [names_toValue]; exact hnames) fun p hp => ?_
    obtain ⟨q, hq, rfl⟩ := mem_toValue hp
    exact hmembers q hq
  induction h with
  | value hv =>
    rw [Item.toValue]
    exact hv
  | table hnames _ ih =>
    rw [Item.toValue]
    exact htable hnames ih
  | @tables earlier last hnames _ ih =>
    rw [toValue_tables]
    refine .list fun v hv => ?_
    obtain ⟨ms, hms, rfl⟩ : ∃ ms ∈ earlier ++ last.toList, v = .table (membersToValue ms) := by
      rw [List.mem_append, List.mem_reverse, List.mem_map] at hv
      obtain hv | ⟨ms, hms, rfl⟩ := hv
      · obtain ⟨ms, hms, rfl⟩ := mem_tablesToValue hv
        exact ⟨ms, List.mem_append_left _ hms, rfl⟩
      · exact ⟨ms, List.mem_append_right _ hms, rfl⟩
    exact htable (hnames ms hms) (ih ms hms)

theorem Members.Distinct.toValue {ms : Members} (h : ms.Distinct) :
    (Value.table (membersToValue ms)).Distinct :=
  (h.table .headed).toValue

variable {item : List Char → Option (Value × List Char)} {cs rest : List Char} {v : Value}

theorem distinct_of_readItems (hitem : ∀ {cs v rest}, item cs = some (v, rest) → v.Distinct)
    {n : Nat} {read vs : List Value} (hread : ∀ v ∈ read, v.Distinct)
    (h : readItems item read n cs = some (vs, rest)) : ∀ v ∈ vs, v.Distinct := by
  fun_induction readItems item read n cs with
  | case1 => cases h
  | case2 =>
    cases h
    exact fun v hv => hread v (List.mem_reverse.mp hv)
  | case3 => cases h
  | case4 read n cs v _ _ _ _ hnext ih =>
    exact ih (List.forall_mem_cons.mpr ⟨hitem hnext, hread⟩) h
  | case5 read n cs v _ _ _ _ hnext =>
    cases h
    exact fun v hv => List.forall_mem_cons.mpr ⟨hitem hnext, hread⟩ v (List.mem_reverse.mp hv)
  | case6 => cases h

theorem distinct_of_readMembers (hitem : ∀ {cs v rest}, item cs = some (v, rest) → v.Distinct)
    {n : Nat} {read ms : Members} (hread : read.Distinct)
    (h : readMembers item read n cs = some (ms, rest)) : ms.Distinct := by
  fun_induction readMembers item read n cs with
  | case1 | case2 | case3 | case6 | case7 => cases h
  | case4 read n cs key _ _ v _ hnext read' hassign _ _ ih =>
    exact ih (hread.assign (hitem hnext) hassign) h
  | case5 read n cs key _ _ v _ hnext read' hassign =>
    cases h
    exact hread.assign (hitem hnext) hassign

theorem distinct_of_readInlineTable
    (hitem : ∀ {cs v rest}, item cs = some (v, rest) → v.Distinct)
    (h : readInlineTable item cs = some (v, rest)) : v.Distinct := by
  rw [readInlineTable] at h
  split at h
  · cases h
    exact .table .nil nofun
  · obtain ⟨⟨ms, _⟩, hms, heq⟩ := Option.map_eq_some_iff.mp h
    cases heq
    exact (distinct_of_readMembers hitem Members.distinct_nil hms).toValue

theorem distinct_of_scalarOf (h : scalarOf cs = some v) : v.Distinct := by
  rw [scalarOf] at h
  split at h
  · cases h
    exact .bool _
  split at h
  · cases h
    exact .bool _
  simp only [Option.orElse_eq_orElse, Option.orElse_eq_or, Option.or_eq_some_iff,
    Option.map_eq_some_iff] at h
  obtain ⟨_, -, rfl⟩ | ⟨-, ⟨_, -, rfl⟩ | ⟨-, _, -, rfl⟩⟩ := h
  exacts [.moment _, .int _, .float _]

theorem distinct_of_readScalar (h : readScalar cs = some (v, rest)) : v.Distinct := by
  obtain ⟨_, hv, heq⟩ := Option.map_eq_some_iff.mp h
  cases heq
  exact distinct_of_scalarOf hv

theorem distinct_of_text
    (h : (readString cs).map (fun p => (Value.text (String.ofList p.1), p.2)) = some (v, rest)) :
    v.Distinct := by
  obtain ⟨_, -, heq⟩ := Option.map_eq_some_iff.mp h
  cases heq
  exact .text _

theorem distinct_of_readValue {depth : Nat} (h : readValue depth cs = some (v, rest)) :
    v.Distinct := by
  -- The items of a list are read one level deeper, by the function itself.
  induction depth generalizing cs v rest with
  | zero =>
    rw [readValue.eq_def] at h
    dsimp only at h
    split at h
    · cases h
    · cases h
    · exact distinct_of_text h
    · exact distinct_of_text h
    · exact distinct_of_readScalar h
  | succ depth ih =>
    rw [readValue.eq_def] at h
    dsimp only at h
    split at h
    · obtain ⟨⟨vs, _⟩, hvs, heq⟩ := Option.map_eq_some_iff.mp h
      cases heq
      exact .list (distinct_of_readItems ih (List.forall_mem_nil _) hvs)
    · exact distinct_of_readInlineTable ih h
    · exact distinct_of_text h
    · exact distinct_of_text h
    · exact distinct_of_readScalar h

variable {d d' : Draft}

theorem distinct_of_assign {key : List String} (hv : v.Distinct) (hd : d.members.Distinct)
    (h : d.assign key v = some d') : d'.members.Distinct := by
  rw [Draft.assign] at h
  split at h
  · obtain ⟨_, hassign, rfl⟩ := Option.map_eq_some_iff.mp h
    exact hd.assign hv hassign
  · obtain ⟨_, hupdate, rfl⟩ := Option.map_eq_some_iff.mp h
    refine hd.update (fun {ms ms' name} hms hchange => ?_) hupdate
    split at hchange
    · next style inner hname =>
      have hinner := Members.distinct_of_table (hms.lookup hname)
      exact hms.setTable (hinner.assign hv) (fun _ h => h.table style) hchange
    · next earlier last hname =>
      obtain ⟨hlast, htables⟩ := Members.distinct_tables (hms.lookup hname)
      exact hms.setTable (hlast.assign hv) htables hchange
    · cases hchange

theorem distinct_of_header {change : Members → String → Option Members} {path : List String}
    (hchange : ∀ {ms ms' : Members} {key : String}, ms.Distinct → change ms key = some ms' →
      ms'.Distinct)
    (hd : d.members.Distinct) (h : d.header change path = some d') : d'.members.Distinct := by
  obtain ⟨_, hupdate, rfl⟩ := Option.map_eq_some_iff.mp h
  exact hd.update hchange hupdate

theorem distinct_of_readLine (hd : d.members.Distinct) (h : readLine d cs = some (d', rest)) :
    d'.members.Distinct := by
  rw [readLine] at h
  split at h
  · cases h
    exact hd
  iterate 3
    · obtain ⟨_, -, heq⟩ := Option.map_eq_some_iff.mp h
      cases heq
      exact hd
  · split at h
    · obtain ⟨_, -, h⟩ := Option.bind_eq_some_iff.mp h
      obtain ⟨_, hheader, heq⟩ := Option.bind_eq_some_iff.mp h
      cases heq
      exact distinct_of_header Members.Distinct.beginListed hd hheader
    · cases h
  · split at h
    · obtain ⟨_, -, h⟩ := Option.bind_eq_some_iff.mp h
      obtain ⟨_, hheader, heq⟩ := Option.bind_eq_some_iff.mp h
      cases heq
      exact distinct_of_header Members.Distinct.beginTable hd hheader
    · cases h
  · split at h
    · obtain ⟨⟨_, _⟩, hvalue, h⟩ := Option.bind_eq_some_iff.mp h
      obtain ⟨_, -, h⟩ := Option.bind_eq_some_iff.mp h
      obtain ⟨_, hassign, heq⟩ := Option.bind_eq_some_iff.mp h
      cases heq
      exact distinct_of_assign (distinct_of_readValue hvalue) hd hassign
    · cases h

theorem distinct_of_readDocumentLines {n : Nat} (hd : d.members.Distinct)
    (h : readDocumentLines d n cs = some d') : d'.members.Distinct := by
  fun_induction readDocumentLines d n cs with
  | case1 =>
    cases h
    exact hd
  | case2 | case3 => cases h
  | case4 d n cs _ _ _ hline ih => exact ih (distinct_of_readLine hd hline) h

/-- However a document says it, no table of it has one name twice. -/
theorem distinct_of_read {s : String} {members : List (String × Value)}
    (h : read s = some members) : (Value.table members).Distinct := by
  obtain ⟨d, hd, rfl⟩ := Option.map_eq_some_iff.mp h
  exact (distinct_of_readDocumentLines Members.distinct_nil hd).toValue

end AssetCache.Toml
