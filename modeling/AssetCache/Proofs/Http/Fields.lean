import Mathlib.Data.List.Induction
import Mathlib.Data.List.Nodup
import AssetCache.Http.Token

namespace AssetCache.Http

variable {α : Type}

def valuesOf (name : String) (fields : List (String × α)) : List α :=
  (fields.filter fun f => f.1 = name).map (·.2)

theorem valuesOf_cons (name : String) (f : String × α) (fields : List (String × α)) :
    valuesOf name (f :: fields) = if f.1 = name then f.2 :: valuesOf name fields
      else valuesOf name fields := by
  by_cases h : f.1 = name <;> simp [valuesOf, h]

theorem valuesOf_append (name : String) (fields fields' : List (String × α)) :
    valuesOf name (fields ++ fields') = valuesOf name fields ++ valuesOf name fields' := by
  rw [valuesOf, List.filter_append, List.map_append, valuesOf, valuesOf]

theorem mem_valuesOf {name : String} {fields : List (String × α)} {v : α} :
    v ∈ valuesOf name fields ↔ (name, v) ∈ fields := by
  simp [valuesOf]

theorem valuesOf_filter (name : String) (p : α → Bool) (fields : List (String × α)) :
    valuesOf name (fields.filter fun f => p f.2) = (valuesOf name fields).filter p := by
  rw [valuesOf, valuesOf, List.filter_map, List.filter_filter, List.filter_filter]
  simp only [Function.comp, Bool.and_comm]

def namesOf (fields : List Field) : List String :=
  fields.foldl (fun names f => if f.1 ∈ names then names else names ++ [f.1]) []

theorem namesOf_append (fields : List Field) (f : Field) : namesOf (fields ++ [f]) =
    if f.1 ∈ namesOf fields then namesOf fields else namesOf fields ++ [f.1] := by
  rw [namesOf, List.foldl_append]
  rfl

theorem nodup_namesOf (fields : List Field) : (namesOf fields).Nodup := by
  induction fields using List.reverseRecOn with
  | nil => exact List.nodup_nil
  | append_singleton fields f ih =>
    rw [namesOf_append]
    split
    · exact ih
    · next hnew => exact List.nodup_append.mpr ⟨ih, List.nodup_singleton _, by grind⟩

theorem mem_namesOf {fields : List Field} {f : Field} (hf : f ∈ fields) : f.1 ∈ namesOf fields := by
  induction fields using List.reverseRecOn with
  | nil => cases hf
  | append_singleton fields g ih =>
    rw [namesOf_append]
    obtain hf | hf := List.mem_append.mp hf
    · split
      · exact ih hf
      · exact List.mem_append_left _ (ih hf)
    · cases List.mem_singleton.mp hf
      split
      · assumption
      · exact List.mem_append_right _ List.mem_cons_self

theorem valuesOf_flatMap {names : List String} (hnames : names.Nodup) (name : String)
    (fields : List Field) :
    valuesOf name (names.flatMap fun n => fields.filter fun f => f.1 = n) =
      if name ∈ names then valuesOf name fields else [] := by
  induction names with
  | nil => rfl
  | cons n names ih =>
    obtain ⟨hn, hnames⟩ := List.nodup_cons.mp hnames
    rw [List.flatMap_cons, valuesOf_append, ih hnames]
    by_cases h : name = n
    · subst h
      rw [if_neg hn, if_pos List.mem_cons_self, List.append_nil, valuesOf, List.filter_filter]
      simp [valuesOf]
    · have hnone : valuesOf name (fields.filter fun f => f.1 = n) = [] := by
        refine List.eq_nil_iff_forall_not_mem.mpr fun v hv => h ?_
        exact of_decide_eq_true (List.mem_filter.mp (mem_valuesOf.mp hv)).2
      simp only [hnone, List.nil_append, List.mem_cons, h, false_or]

theorem valuesOf_grouped (name : String) (fields : List Field) :
    valuesOf name (grouped fields) = valuesOf name fields := by
  refine (valuesOf_flatMap (nodup_namesOf fields) name fields).trans ?_
  split
  · rfl
  · next hnone =>
    refine (List.eq_nil_iff_forall_not_mem.mpr fun v hv => hnone ?_).symm
    exact mem_namesOf (mem_valuesOf.mp hv)

theorem toUTF8_of_ascii {cs : List Char} (h : ∀ c ∈ cs, c.toNat < 128) :
    (String.ofList cs).toUTF8 = (cs.map Char.toUInt8).toByteArray := by
  rw [String.toUTF8_eq_toByteArray, String.toByteArray_ofList]
  induction cs with
  | nil => rfl
  | cons c cs ih =>
    have hc : c.utf8Size = 1 := by
      rw [Char.utf8Size_eq_one_iff, UInt32.le_iff_toNat_le]
      exact Nat.le_of_lt_succ (h c List.mem_cons_self)
    rw [List.utf8Encode_cons, List.utf8Encode_singleton, String.utf8EncodeChar_eq_singleton hc,
      ih fun d hd => h d (List.mem_cons_of_mem _ hd), ← List.toByteArray_append]
    rfl

def isVisible (b : UInt8) : Bool := b == 9 || (32 ≤ b && b < 127)

theorem toNat_ofNat_byte (b : UInt8) : (Char.ofNat b.toNat).toNat = b.toNat := by
  have hb := b.toNat_lt
  have hvalid : b.toNat.isValidChar := .inl (by omega)
  rw [Char.ofNat, dif_pos hvalid]
  rfl

theorem toUInt8_ofNat_byte (b : UInt8) : (Char.ofNat b.toNat).toUInt8 = b := by
  have hval : (Char.ofNat b.toNat).val.toNat = b.toNat := toNat_ofNat_byte b
  refine UInt8.toNat_inj.mp ?_
  rw [← Char.toUInt8_val, UInt32.toNat_toUInt8, hval, Nat.mod_eq_of_lt b.toNat_lt]

theorem lt_of_isVisible {b : UInt8} (hb : isVisible b = true) : b.toNat < 128 := by
  simp only [isVisible, Bool.or_eq_true, Bool.and_eq_true, beq_iff_eq, decide_eq_true_eq] at hb
  obtain rfl | ⟨-, hb⟩ := hb
  · decide
  · exact Nat.lt_succ_of_lt (UInt8.lt_iff_toNat_lt.mp hb)

theorem visible?_eq (v : ByteArray) : visible? v = if v.data.toList.all isVisible then
    some (String.ofList (v.data.toList.map fun b => Char.ofNat b.toNat)) else none := rfl

theorem isSome_visible? (v : ByteArray) :
    (visible? v).isSome = v.data.toList.all isVisible := by
  rw [visible?_eq]
  cases v.data.toList.all isVisible <;> rfl

theorem toUTF8_of_visible? {v : ByteArray} {s : String} (h : visible? v = some s) :
    s.toUTF8 = v := by
  rw [visible?_eq] at h
  split at h
  · next hall =>
    cases h
    have hascii : ∀ c ∈ v.data.toList.map fun b => Char.ofNat b.toNat, c.toNat < 128 := by
      intro c hc
      obtain ⟨b, hb, rfl⟩ := List.mem_map.mp hc
      rw [toNat_ofNat_byte]
      exact lt_of_isVisible (List.all_eq_true.mp hall b hb)
    have hbytes : Char.toUInt8 ∘ (fun b : UInt8 => Char.ofNat b.toNat) = id :=
      funext toUInt8_ofNat_byte
    rw [toUTF8_of_ascii hascii, List.map_map, hbytes, List.map_id]
    exact ByteArray.ext (Array.toList_inj.mp List.toList_data_toByteArray)
  · cases h

theorem isHeaderValue_of_visible? {v : ByteArray} {s : String} (h : visible? v = some s) :
    isHeaderValue s.toUTF8 = true := by
  have hall : v.data.toList.all isVisible = true := by rw [← isSome_visible?, h, Option.isSome_some]
  rw [toUTF8_of_visible? h, isHeaderValue, List.all_eq_true]
  intro b hb
  have hvisible := List.all_eq_true.mp hall b hb
  simp only [isVisible, Bool.or_eq_true, Bool.and_eq_true, beq_iff_eq, decide_eq_true_eq,
    bne_iff_ne] at hvisible ⊢
  refine hvisible.imp id fun ⟨hlow, hhigh⟩ => ⟨hlow, ?_⟩
  rintro rfl
  exact absurd hhigh (by decide)

/-- Text of printing ASCII characters can be sent as a value and read again. -/
theorem visible?_toUTF8 {s : String} (h : ∀ c ∈ s.toList, 32 ≤ c.toNat ∧ c.toNat < 127) :
    visible? s.toUTF8 = some s := by
  have hbyte : ∀ c ∈ s.toList, c.toUInt8.toNat = c.toNat := by
    intro c hc
    have hlt := (h c hc).2
    rw [← Char.toUInt8_val, UInt32.toNat_toUInt8]
    exact Nat.mod_eq_of_lt (Nat.lt_trans hlt (by decide))
  have hbytes : s.toUTF8 = (s.toList.map Char.toUInt8).toByteArray := by
    rw [← toUTF8_of_ascii fun c hc => Nat.lt_succ_of_lt (h c hc).2, String.ofList_toList]
  have hall : (s.toList.map Char.toUInt8).all isVisible = true := by
    simp only [List.all_map, List.all_eq_true, Function.comp, isVisible, Bool.or_eq_true,
      Bool.and_eq_true, decide_eq_true_eq, UInt8.le_iff_toNat_le, UInt8.lt_iff_toNat_lt]
    intro c hc
    rw [hbyte c hc]
    exact .inr (h c hc)
  rw [visible?_eq, hbytes, List.toList_data_toByteArray, if_pos hall, List.map_map]
  refine congrArg some ?_
  conv_rhs => rw [← String.ofList_toList (s := s), ← List.map_id s.toList]
  refine congrArg String.ofList (List.map_congr_left fun c hc => ?_)
  rw [Function.comp, hbyte c hc, Char.ofNat_toNat, id]

def textsOf (fields : List Field) : List (String × String) :=
  fields.filterMap fun f => (visible? f.2).map fun s => (f.1, s)

theorem textsOf_cons (f : Field) (fields : List Field) : textsOf (f :: fields) =
    ((visible? f.2).map fun s => (f.1, s)).toList ++ textsOf fields := by
  rw [textsOf, List.filterMap_cons]
  cases visible? f.2 <;> rfl

theorem valuesOf_textsOf (name : String) (fields : List Field) :
    valuesOf name (textsOf fields) = (valuesOf name fields).filterMap visible? := by
  induction fields with
  | nil => rfl
  | cons f fields ih =>
    rw [textsOf_cons, valuesOf_append, ih, valuesOf_cons]
    cases hv : visible? f.2 <;> by_cases hname : f.1 = name <;> simp [valuesOf, hv, hname]

/-- What is text is kept as it is, what is not is lost. -/
theorem toUTF8_texts (values : List ByteArray) :
    (values.filterMap visible?).map String.toUTF8 = values.filter fun v => (visible? v).isSome := by
  induction values with
  | nil => rfl
  | cons v values ih =>
    rw [List.filterMap_cons, List.filter_cons]
    cases hv : visible? v with
    | none => exact ih
    | some s => exact congrArg₂ List.cons (toUTF8_of_visible? hv) ih

end AssetCache.Http
