import AssetCache.Proofs.Settings.File

namespace AssetCache.Settings

open Toml (Value)

variable {members members' : List (String × Value)} {source : String} {l : Leaf}

/-- Items that are the same texts, or no texts for the same reason. -/
def SameTexts (items items' : List Value) : Prop :=
  List.Forall₂ (fun v v' => ∀ key source,
    asText key (.ofToml source v) = asText key (.ofToml source v')) items items'

theorem SameTexts.asTextsFrom {key : String} {i : Nat} {items items' : List Value}
    (h : SameTexts items items') :
    asTextsFrom key i (Tree.ofTomlItems source items) =
      asTextsFrom key i (Tree.ofTomlItems source items') := by
  induction h generalizing i with
  | nil => rfl
  | cons hv _ ih =>
    rw [Tree.ofTomlItems, Tree.ofTomlItems, Settings.asTextsFrom, Settings.asTextsFrom, hv, ih]

theorem SameTexts.read {items items' : List Value} (h : SameTexts items items') :
    l.read (.ofToml source (.list items)) = l.read (.ofToml source (.list items')) := by
  cases l with
  | manifest => exact h.asTextsFrom
  | _ => rfl

/-- The same value, but for the order of the names in its tables. -/
inductive Reordered : Value → Value → Prop
  | refl (v : Value) : Reordered v v
  | list {items items' : List Value} (h : List.Forall₂ Reordered items items') :
    Reordered (.list items) (.list items')
  | table {members members' : List (String × Value)}
    (h : ∀ name, Option.Rel Reordered (members.lookup name) (members'.lookup name)) :
    Reordered (.table members) (.table members')

namespace Reordered

variable {v v' : Value} {o o' : Option Value}

theorem asText (h : Reordered v v') (key source : String) :
    asText key (.ofToml source v) = Settings.asText key (.ofToml source v') := by
  cases h <;> rfl

theorem rel_refl (o : Option Value) : Option.Rel Reordered o o := by
  cases o with
  | none => exact .none
  | some v => exact .some (.refl v)

theorem of_perm (hnames : (members.map (·.1)).Nodup) (h : members.Perm members') :
    Reordered (.table members) (.table members') :=
  .table fun name => lookup_perm hnames h name ▸ rel_refl _

theorem lookup (h : Reordered (.table members) (.table members')) (name : String) :
    Option.Rel Reordered (members.lookup name) (members'.lookup name) := by
  cases h with
  | refl => exact rel_refl _
  | table h => exact h name

theorem lookup_eq_some (h : Reordered (.table members) (.table members')) {name : String}
    (hv' : members'.lookup name = some v') :
    ∃ v, members.lookup name = some v ∧ Reordered v v' := by
  have hrel := h.lookup name
  rw [hv'] at hrel
  generalize members.lookup name = o at *
  cases hrel with
  | some hv => exact ⟨_, rfl, hv⟩

theorem names (h : Reordered (.table members) (.table members')) {name : String}
    (hname : name ∈ members'.map (·.1)) : name ∈ members.map (·.1) := by
  obtain ⟨v', hv'⟩ := Option.isSome_iff_exists.mp (isSome_lookup.mpr hname)
  obtain ⟨v, hv, -⟩ := h.lookup_eq_some hv'
  exact isSome_lookup.mp (Option.isSome_of_eq_some hv)

theorem eq_nil (h : Reordered (.table []) (.table members)) : members = [] := by
  cases members with
  | nil => rfl
  | cons p rest => exact absurd (h.names List.mem_cons_self) List.not_mem_nil

theorem plainKeys (h : Reordered (.table members) (.table members')) (hplain : PlainKeys members) :
    PlainKeys members' where
  names name hname := hplain.names name (h.names hname)
  inner {part inner'} hinner' name hname := by
    obtain ⟨v, hlookup, hv⟩ := h.lookup_eq_some hinner'
    cases v with
    | table inner => exact hplain.inner hlookup name (hv.names hname)
    | _ => cases hv

theorem given (h : Reordered (.table members) (.table members')) (l : Leaf) :
    Option.Rel Reordered (given members l) (Settings.given members' l) := by
  have hpart := h.lookup l.part
  rw [Settings.given, Settings.given]
  generalize members.lookup l.part = o, members'.lookup l.part = o' at *
  cases hpart with
  | none => exact .none
  | @some v v' hv =>
    cases hv with
    | refl =>
      cases v with
      | table inner => exact Reordered.lookup (.refl _) l.key
      | _ => exact .none
    | list => exact .none
    | table h => exact h l.key

theorem accepts {x : l.Value} (h : Option.Rel Reordered o o') (hx : l.Accepts o x) :
    l.Accepts o' x := by
  cases h with
  | none => exact hx
  | some hv =>
    cases hv with
    | refl => exact hx
    | list h =>
      have htexts : SameTexts _ _ := h.imp fun _ _ hv => hv.asText
      exact fun source => htexts.read ▸ hx source
    | @table inner inner' h =>
      obtain ⟨rfl, hrest⟩ := hx
      exact ⟨eq_nil (.table h), hrest⟩

end Reordered

def outline : Value → Value
  | .table _ => .table []
  | .list _ => .list []
  | v => v

def face : Value → Value
  | .list items => .list (items.map outline)
  | v => outline v

def kept (keep : String → Bool) (change : String → Value → Value)
    (members : List (String × Value)) : List (String × Value) :=
  (members.filter fun p => keep p.1).map fun p => (p.1, change p.1 p.2)

def leaves : List Leaf :=
  [.host, .port, .name, .manifest, .origin, .persistDir, .timeoutSeconds, .connectTimeoutSeconds,
   .userAgent, .level, .format]

def isSection (part : String) : Bool := leaves.any (·.part == part)

def isSetting (part key : String) : Bool := leaves.any fun l => l.part == part && l.key == key

def knownIn (part : String) : Value → Value
  | .table inner => .table (kept (isSetting part) (fun _ => face) inner)
  | v => v

/-- A file without the names that the settings do not have: those of other sections, others in the
sections, and all in a table where a setting should be. -/
def known (members : List (String × Value)) : List (String × Value) :=
  kept isSection knownIn members

theorem mem_leaves (l : Leaf) : l ∈ leaves := by
  cases l <;> decide

theorem isSection_part (l : Leaf) : isSection l.part = true :=
  List.any_eq_true.mpr ⟨l, mem_leaves l, beq_self_eq_true _⟩

theorem isSetting_key (l : Leaf) : isSetting l.part l.key = true :=
  List.any_eq_true.mpr ⟨l, mem_leaves l, by simp⟩

section

variable {keep : String → Bool} {change : String → Value → Value} {name : String}

theorem lookup_kept :
    (kept keep change members).lookup name =
      if keep name then (members.lookup name).map (change name) else none := by
  induction members with
  | nil => simp [kept]
  | cons p rest ih =>
    rw [kept] at ih ⊢
    rw [lookup_cons, List.filter_cons]
    by_cases hname : name = p.1
    · subst hname
      split
      · simp
      · next hkeep => rw [ih, if_neg hkeep]
    · rw [if_neg hname, ← ih]
      split
      · rw [List.map_cons, lookup_cons, if_neg hname]
      · rfl

theorem mem_of_mem_kept (h : name ∈ (kept keep change members).map (·.1)) :
    name ∈ members.map (·.1) := by
  rw [kept, List.map_map] at h
  obtain ⟨p, hp, rfl⟩ := List.mem_map.mp h
  exact List.mem_map.mpr ⟨p, (List.mem_filter.mp hp).1, rfl⟩

end

theorem lookup_known (l : Leaf) :
    (known members).lookup l.part = (members.lookup l.part).map (knownIn l.part) :=
  lookup_kept.trans (if_pos (isSection_part l))

theorem given_known (members : List (String × Value)) (l : Leaf) :
    given (known members) l = (given members l).map face := by
  rw [given, given, lookup_known]
  cases members.lookup l.part with
  | none => rfl
  | some v =>
    cases v with
    | table inner => exact lookup_kept.trans (if_pos (isSetting_key l))
    | _ => rfl

theorem inPlace_known (members : List (String × Value)) (l : Leaf) :
    inPlace (known members) l.part = inPlace members l.part := by
  rw [inPlace, inPlace, lookup_known]
  cases members.lookup l.part with
  | none => rfl
  | some v => cases v <;> rfl

theorem PlainKeys.known (hplain : PlainKeys members) : PlainKeys (known members) where
  names name hname := hplain.names name (mem_of_mem_kept hname)
  inner {part inner'} hinner' name hname := by
    rw [Settings.known, lookup_kept, Option.ite_none_right_eq_some,
      Option.map_eq_some_iff] at hinner'
    obtain ⟨-, v, hv, hknown⟩ := hinner'
    cases v with
    | table inner =>
      cases hknown
      exact hplain.inner hv name (mem_of_mem_kept hname)
    | _ => cases hknown

theorem asText_outline (v : Value) (key source : String) :
    asText key (.ofToml source (outline v)) = asText key (.ofToml source v) := by
  cases v <;> rfl

theorem accepts_face {o : Option Value} {x : l.Value} (h : l.Accepts o x) :
    l.Accepts (o.map face) x := by
  cases o with
  | none => exact h
  | some v =>
    cases v with
    | table inner => exact ⟨rfl, h.2⟩
    | list items =>
      have htexts : SameTexts (items.map outline) items :=
        List.forall₂_map_left_iff.mpr (List.forall₂_same.mpr fun v _ => asText_outline v)
      exact fun source => htexts.read.trans (h source)
    | _ => exact h

end AssetCache.Settings
