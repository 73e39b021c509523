import AssetCache.Proofs.Settings.Leaf
import AssetCache.Proofs.Toml.Distinct

namespace AssetCache.Settings

open Toml (Value)

variable {members members' : List (String × Value)} {source source' : String} {l : Leaf}

namespace Tree

theorem lookup_ofTomlMembers (source : String) (members : List (String × Value)) (key : String) :
    (ofTomlMembers source members).lookup key = (members.lookup key).map (ofToml source) := by
  induction members with
  | nil => rfl
  | cons p rest ih =>
    rw [ofTomlMembers, lookup_cons, lookup_cons, ih]
    split <;> rfl

theorem names_ofTomlMembers (source : String) (members : List (String × Value)) :
    (ofTomlMembers source members).map (·.1) = members.map (·.1) := by
  induction members with
  | nil => rfl
  | cons p rest ih => rw [ofTomlMembers, List.map_cons, List.map_cons, ih]

end Tree

structure PlainKeys (members : List (String × Value)) : Prop where
  names : ∀ name ∈ members.map (·.1), IsPlain name
  inner : ∀ {part inner}, members.lookup part = some (.table inner) →
    ∀ name ∈ inner.map (·.1), IsPlain name

def isTable : Value → Bool
  | .table _ => true
  | _ => false

def given (members : List (String × Value)) (l : Leaf) : Option Value :=
  match members.lookup l.part with
  | some (.table inner) => inner.lookup l.key
  | _ => none

def inPlace (members : List (String × Value)) (part : String) : Option Value :=
  (members.lookup part).filter fun v => !isTable v

def fileTree (source : String) (members : List (String × Value)) : Tree :=
  default.toTree.overlay (Tree.ofTomlMembers source members)

theorem lookup_default (l : Leaf) :
    default.toTree.members.lookup l.part = some (.table none (default.toTree.inside l.part)) := by
  cases l <;> rfl

theorem result_default (l : Leaf) : default.toTree.result l = .ok (l.get default) := by
  cases l <;> rfl

theorem lookup_fileTree (hplain : PlainKeys members) (hdistinct : (Value.table members).Distinct)
    (l : Leaf) :
    (fileTree source members).members.lookup l.part =
      some ((members.lookup l.part).elim (.table none (default.toTree.inside l.part)) fun v =>
        Tree.merged (some (.table none (default.toTree.inside l.part))) (.ofToml source v)) := by
  cases hdistinct with
  | table hnames _ =>
    have hplain := hplain.names
    rw [← Tree.names_ofTomlMembers source] at hplain hnames
    rw [fileTree, Tree.overlay_of_plain hplain, Tree.lookup_putAll hplain hnames,
      Tree.lookup_ofTomlMembers, lookup_default]
    cases members.lookup l.part <;> rfl

theorem leaf_fileTree (hplain : PlainKeys members) (hdistinct : (Value.table members).Distinct)
    (l : Leaf) :
    (fileTree source members).leaf l =
      (given members l).elim
        (if (inPlace members l.part).isSome then none else default.toTree.leaf l) fun v =>
          some (Tree.merged (default.toTree.leaf l) (.ofToml source v)) := by
  rw [Tree.leaf, Tree.inside, lookup_fileTree hplain hdistinct, given, inPlace, Option.elim_some]
  cases hpart : members.lookup l.part with
  | none => rfl
  | some v =>
    cases v with
    | table inner =>
      have hinner : (Value.table inner).Distinct := by
        cases hdistinct with
        | table _ hmembers =>
          obtain ⟨_, _, hl, -⟩ := List.lookup_eq_some_iff.mp hpart
          exact hmembers (l.part, _) (hl ▸ List.mem_append_right _ List.mem_cons_self)
      cases hinner with
      | table hnames _ =>
        have hplain := hplain.inner hpart
        rw [← Tree.names_ofTomlMembers source] at hplain hnames
        exact (Tree.lookup_putAll hplain hnames _).trans <| by
          rw [Tree.lookup_ofTomlMembers]
          dsimp only
          cases inner.lookup l.key <;> rfl
    | _ => rfl

theorem standIn_fileTree (hplain : PlainKeys members) (hdistinct : (Value.table members).Distinct)
    (l : Leaf) :
    (fileTree source members).standIn l.part =
      (inPlace members l.part).map (Tree.ofToml source) := by
  rw [Tree.standIn, lookup_fileTree hplain hdistinct, inPlace]
  cases members.lookup l.part with
  | none => rfl
  | some v =>
    cases v with
    | table inner =>
      have htable := Tree.isTable_putAll (t := .table none (default.toTree.inside l.part)) rfl
        (Tree.ofTomlMembers source inner)
      simp [Tree.merged, Tree.ofToml, Option.filter_some, isTable, htable]
    | _ => rfl

theorem asText_ofToml {key : String} {v : Value} {x : String}
    (h : asText key (.ofToml source v) = .ok x) : asText key (.ofToml source' v) = .ok x := by
  cases v <;> first | exact h | cases h

theorem asNat_ofToml {key : String} {v : Value} {n : Nat}
    (h : asNat key (.ofToml source v) = .ok n) : asNat key (.ofToml source' v) = .ok n := by
  cases v with
  | text | moment =>
    rw [Tree.ofToml, asNat] at h ⊢
    split at h
    · exact h
    · cases h
  | int n => cases n <;> first | exact h | cases h
  | bool | float => exact h
  | _ => cases h

theorem asUInt64_ofToml {key : String} {v : Value} {n : UInt64}
    (h : asUInt64 key (.ofToml source v) = .ok n) : asUInt64 key (.ofToml source' v) = .ok n := by
  rw [asUInt64] at h
  cases hnat : asNat key (.ofToml source v) with
  | error e => rw [hnat] at h; cases h
  | ok m => rwa [asUInt64, asNat_ofToml hnat, ← hnat]

theorem asUInt16_ofToml {key : String} {v : Value} {n : UInt16}
    (h : asUInt16 key (.ofToml source v) = .ok n) : asUInt16 key (.ofToml source' v) = .ok n := by
  rw [asUInt16] at h
  cases hnat : asNat key (.ofToml source v) with
  | error e => rw [hnat] at h; cases h
  | ok m => rwa [asUInt16, asNat_ofToml hnat, ← hnat]

theorem asTextsFrom_ofToml {key : String} {i : Nat} {items : List Value} {xs : List String}
    (h : asTextsFrom key i (Tree.ofTomlItems source items) = .ok xs) :
    asTextsFrom key i (Tree.ofTomlItems source' items) = .ok xs := by
  induction items generalizing i xs with
  | nil => exact h
  | cons v rest ih =>
    rw [Tree.ofTomlItems, asTextsFrom, bind_eq_ok] at h ⊢
    obtain ⟨x, hx, h⟩ := h
    obtain ⟨xs, hxs, h⟩ := bind_eq_ok.mp h
    exact ⟨x, asText_ofToml hx, bind_eq_ok.mpr ⟨xs, ih hxs, h⟩⟩

theorem asTexts_ofToml {key : String} {v : Value} {xs : List String}
    (h : asTexts key (.ofToml source v) = .ok xs) : asTexts key (.ofToml source' v) = .ok xs := by
  cases v with
  | list items => exact asTextsFrom_ofToml h
  | _ => cases h

theorem asOptionalText_ofToml {key : String} {v : Value} {x : Option String}
    (h : asOptionalText key (.ofToml source v) = .ok x) :
    asOptionalText key (.ofToml source' v) = .ok x := by
  cases v <;> first | exact h | cases h

/-- Where a value comes from does not matter once it has a meaning. -/
theorem read_ofToml {v : Value} {x : l.Value}
    (h : l.read (.ofToml source v) = .ok x) : l.read (.ofToml source' v) = .ok x := by
  cases l with
  | port => exact asUInt16_ofToml h
  | manifest => exact asTexts_ofToml h
  | persistDir => exact asOptionalText_ofToml h
  | timeoutSeconds | connectTimeoutSeconds => exact asUInt64_ofToml h
  | host | name | origin | userAgent | level | format => exact asText_ofToml h

theorem read_table {ms : List (String × Tree)} {from' : Option String} {x : l.Value} :
    l.read (.table from' ms) ≠ .ok x := by
  cases l <;> exact nofun

/-- What a setting is when the file has this under its name. A table is no value: an empty one
leaves a default as it is, and any other fits no setting. -/
def Leaf.Accepts (l : Leaf) : Option Toml.Value → l.Value → Prop
  | none, x => x = l.get default
  | some (.table inner), x =>
    inner = [] ∧ (default.toTree.leaf l).isSome ∧ x = l.get default
  | some v, x => ∀ source, l.read (.ofToml source v) = .ok x

theorem merged_table_iff {x : l.Value} {inner : List (String × Value)} :
    l.read (Tree.merged (default.toTree.leaf l) (.ofToml source (.table inner))) = .ok x ↔
      l.Accepts (some (.table inner)) x := by
  rw [Tree.ofToml, Tree.merged, Leaf.Accepts]
  cases inner with
  | nil =>
    rw [Tree.ofTomlMembers, Tree.putAll]
    have hdefault := result_default l
    rw [Tree.result] at hdefault
    cases hleaf : default.toTree.leaf l with
    | none => simp [read_table]
    | some t =>
      rw [hleaf] at hdefault
      simp [show l.read t = .ok (l.get default) from hdefault, eq_comm]
  | cons p rest =>
    obtain ⟨ms, hms⟩ := Tree.putAll_cons ((default.toTree.leaf l).getD (.table none []))
      (p.1, .ofToml source p.2) (Tree.ofTomlMembers source rest)
    rw [Tree.ofTomlMembers, hms]
    exact ⟨fun h => absurd h read_table, fun h => by cases h.1⟩

/-- A setting is what the file has for it, and its default otherwise. -/
theorem result_fileTree_iff (hplain : PlainKeys members)
    (hdistinct : (Value.table members).Distinct) {x : l.Value} :
    (fileTree source members).result l = .ok x ↔ l.Accepts (given members l) x := by
  rw [Tree.result, leaf_fileTree hplain hdistinct]
  cases hgiven : given members l with
  | none =>
    have hdefault : ((if (inPlace members l.part).isSome then none else default.toTree.leaf l).elim
        (.ok (l.get default)) l.read) = .ok (l.get default) := by
      split
      · rfl
      · exact result_default l
    rw [Option.elim_none, hdefault, Leaf.Accepts, Except.ok.injEq, eq_comm]
  | some v =>
    rw [Option.elim_some, Option.elim_some]
    cases v with
    | table inner => exact merged_table_iff
    | _ => exact ⟨fun h _ => read_ofToml h, fun h => h source⟩

/-- The value a file has for a setting; a table in the setting's place is none. -/
def valueOf (members : List (String × Value)) (l : Leaf) : Option Value :=
  (given members l).filter fun v => !isTable v

theorem value_of_accepts {x : l.Value} (h : l.Accepts (given members l) x) {v : Value}
    (hv : valueOf members l = some v) (source : String) : l.read (.ofToml source v) = .ok x := by
  obtain ⟨hgiven, htable⟩ := Option.filter_eq_some_iff.mp hv
  rw [hgiven] at h
  cases v with
  | table => cases htable
  | _ => exact h source

theorem default_of_accepts {x : l.Value} (h : l.Accepts (given members l) x)
    (hnone : valueOf members l = none) : x = l.get default := by
  cases hgiven : given members l with
  | none => rwa [hgiven] at h
  | some v =>
    cases v with
    | table inner =>
      rw [hgiven] at h
      exact h.2.2
    | _ => rw [valueOf, hgiven] at hnone; cases hnone

end AssetCache.Settings
