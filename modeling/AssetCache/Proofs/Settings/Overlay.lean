import AssetCache.Proofs.Lookup
import AssetCache.Settings.Tree
import Mathlib.Data.List.TakeWhile

namespace AssetCache.Settings

/-- A key that is no path and that folding leaves as it is: lower case, and without quotes. -/
def IsPlain (name : String) : Prop :=
  name ≠ "" ∧ name.toList.all (fun c => Toml.isBareKeyChar c && !c.isUpper) = true

instance (name : String) : Decidable (IsPlain name) := inferInstanceAs (Decidable (_ ∧ _))

namespace IsPlain

variable {name : String}

theorem of_mem (h : IsPlain name) {c : Char} (hc : c ∈ name.toList) :
    Toml.isBareKeyChar c = true ∧ c.isUpper = false := by
  have hchar := List.all_eq_true.mp h.2 c hc
  rwa [Bool.and_eq_true, Bool.not_eq_true'] at hchar

theorem foldName (h : IsPlain name) : Tree.foldName name = name := by
  have hmap : (name.toList.map fun c => if c = '\u212a' then 'k' else c.toLower) = name.toList := by
    refine (List.map_congr_left fun c hc => ?_).trans (List.map_id _)
    obtain ⟨hbare, hupper⟩ := h.of_mem hc
    have hkelvin : c ≠ '\u212a' := fun h => by
      rw [h] at hbare
      exact absurd hbare (by decide)
    rw [if_neg hkelvin, id_eq]
    exact dif_neg (of_decide_eq_false hupper)
  rw [Tree.foldName, hmap, String.ofList_toList]

theorem pathOf (h : IsPlain name) : pathOf name = [.member name] := by
  have hchars : ∀ c ∈ name.toList, isNameChar c = true := fun c hc => by
    have hbare := (h.of_mem hc).1
    rw [Toml.isBareKeyChar, Bool.or_eq_true, Bool.or_eq_true] at hbare
    obtain (hbare | hbare) | hbare := hbare <;> simp [isNameChar, hbare]
  have hne : name.toList ≠ [] := by simpa using h.1
  rw [Settings.pathOf, List.takeWhile_eq_self_iff.mpr hchars, List.dropWhile_eq_nil_iff.mpr hchars]
  split
  · contradiction
  · rw [steps?, String.ofList_toList]

end IsPlain

namespace Tree

def isTable : Tree → Bool
  | table .. => true
  | _ => false

theorem lookup_setMember (ms : List (String × Tree)) (name : String) (t : Tree) (key : String) :
    (setMember ms name t).lookup key = if key = name then some t else ms.lookup key :=
  lookup_replace ms name t key

def merged (old : Option Tree) : Tree → Tree
  | table _ incoming => putAll (old.getD (table none [])) incoming
  | value => value

theorem put_eq (t : Tree) (name : String) (value : Tree) :
    t.put name value = table t.tableSource
      (setMember t.members (foldName name) (merged (t.members.lookup (foldName name)) value)) := by
  cases value with
  | table => rw [put]; rfl
  | scalar => rw [put]; rfl; exact nofun
  | list => rw [put]; rfl; exact nofun

theorem lookup_put (t : Tree) (name : String) (value : Tree) (key : String) :
    (t.put name value).members.lookup key =
      if key = foldName name then some (merged (t.members.lookup key) value)
      else t.members.lookup key := by
  rw [put_eq, members, lookup_setMember]
  split
  · next h => rw [h]
  · rfl

theorem lookup_putAll {t : Tree} {layer : List (String × Tree)}
    (hplain : ∀ name ∈ layer.map (·.1), IsPlain name) (hnames : (layer.map (·.1)).Nodup)
    (key : String) :
    (putAll t layer).members.lookup key =
      (layer.lookup key).elim (t.members.lookup key) fun v =>
        some (merged (t.members.lookup key) v) := by
  induction layer generalizing t with
  | nil => rw [putAll]; rfl
  | cons p rest ih =>
    obtain ⟨name, value⟩ := p
    obtain ⟨hname, hrest⟩ := List.forall_mem_cons.mp hplain
    obtain ⟨hnew, hnames⟩ := List.nodup_cons.mp hnames
    rw [putAll, ih hrest hnames, lookup_put, hname.foldName, lookup_cons]
    by_cases hkey : key = name
    · rw [if_pos hkey, if_pos hkey, lookup_of_not_mem (hkey ▸ hnew)]
      rfl
    · rw [if_neg hkey, if_neg hkey]

theorem putAll_cons (t : Tree) (p : String × Tree) (rest : List (String × Tree)) :
    ∃ ms, putAll t (p :: rest) = table t.tableSource ms := by
  induction rest generalizing t p with
  | nil => exact ⟨_, by rw [putAll, putAll, put_eq]⟩
  | cons q rest ih =>
    obtain ⟨ms, hms⟩ := ih (t.put p.1 p.2) q
    exact ⟨ms, by rw [putAll, hms, put_eq, tableSource]⟩

theorem isTable_putAll {t : Tree} (ht : t.isTable = true) (layer : List (String × Tree)) :
    (putAll t layer).isTable = true := by
  cases layer with
  | nil => rwa [putAll]
  | cons p rest =>
    obtain ⟨ms, hms⟩ := putAll_cons t p rest
    rw [hms, isTable]

theorem overlay_of_plain {layer : Layer} (hplain : ∀ name ∈ layer.map (·.1), IsPlain name)
    (t : Tree) :
    t.overlay layer = putAll t layer := by
  induction layer generalizing t with
  | nil => rw [putAll, overlay, List.foldl_nil]
  | cons p rest ih =>
    obtain ⟨hp, hrest⟩ := List.forall_mem_cons.mp hplain
    rw [putAll, ← ih hrest, overlay, List.foldl_cons, hp.pathOf, putAt, overlay]

end Tree

end AssetCache.Settings
