import AssetCache.Proofs.Settings.Layers
import AssetCache.Proofs.Toml.Document
import AssetCache.Proofs.Toml.Draft
import AssetCache.Settings.Printer

namespace AssetCache.Settings

open Toml (Value)

namespace Written

def value : Written → Value
  | text s => .text s
  | number n => .int n
  | texts ss => .list (ss.map .text)

variable {w : Written} {n : Nat} {rest : List Char}

theorem length_le_flatMap_itemLine (ss : List String) :
    ss.length ≤ (ss.flatMap Toml.itemLine).length := by
  induction ss with
  | nil => exact Nat.zero_le _
  | cons s ss ih =>
    have hline : 1 ≤ (Toml.itemLine s).length := by
      simp [Toml.itemLine]
    rw [List.flatMap_cons, List.length_append, List.length_cons]
    omega

theorem readValue_toDigits (h : n < Nat.pow 2 63) (depth : Nat) (rest : List Char) :
    Toml.readValue depth (Nat.toDigits 10 n ++ '\n' :: rest) = some (.int n, '\n' :: rest) := by
  have hspells := Decimal.spells_toDigits n
  have hdigits : Toml.digitsOf (Nat.toDigits 10 n) = Nat.toDigits 10 n := by
    rw [Toml.digitsOf, Toml.splitSign_digits (Decimal.areDigits_toDigits n).isDigit]
  have hzero : Toml.hasLeadingZero (Nat.toDigits 10 n) = false := by
    cases hhead : Toml.hasLeadingZero (Nat.toDigits 10 n) with
    | false => rfl
    | true =>
      rw [Toml.hasLeadingZero, Bool.and_eq_true, bne_iff_ne, beq_iff_eq] at hhead
      rw [Json.eq_zero_of_head?_toDigits hhead.2] at hhead
      exact absurd rfl hhead.1
  have hbounded : Toml.bounded n = some (n : Int) := by
    have h : (n : Int) < (Nat.pow 2 63 : Nat) := Int.ofNat_lt.mpr h
    exact if_pos ⟨by omega, h⟩
  rw [Toml.readValue_spells hspells, hdigits, hzero, hbounded]
  · rfl
  · intro c hc
    cases hc
    rfl

theorem readValue_chars (h : w.fits = true) (rest : List Char) :
    Toml.readValue Toml.maxDepth (w.chars ++ '\n' :: rest) = some (w.value, '\n' :: rest) := by
  cases w with
  | text s => exact Toml.readValue_writeString _ s (by simp) (by simp)
  | number n =>
    rw [chars, Nat.toList_repr]
    exact readValue_toDigits (of_decide_eq_true h) _ rest
  | texts ss =>
    match ss with
    | [] =>
      change Toml.readValue (78 + 1) ('[' :: ([] ++ ']' :: '\n' :: rest)) = _
      rw [Toml.readValue_list, Toml.readItems_end Toml.isBlank_nil]
      rfl
    | [s] =>
      have hchars : (texts [s]).chars ++ '\n' :: rest =
          '[' :: ([] ++ (Toml.writeString s ++ ']' :: '\n' :: rest)) := by
        rw [chars, List.cons_append, List.append_assoc, List.singleton_append, List.nil_append]
      rw [hchars]
      change Toml.readValue (78 + 1) _ = _
      rw [Toml.readValue_list, Toml.readItems_string Toml.isBlank_nil (.inr rfl)]
      rfl
    | s :: t :: ss =>
      have hchars : (texts (s :: t :: ss)).chars ++ '\n' :: rest =
          '[' :: '\n' :: ((s :: t :: ss).flatMap Toml.itemLine ++ ']' :: '\n' :: rest) := by
        rw [chars, List.append_assoc, List.append_assoc]
        · rfl
        all_goals simp
      have hlength := length_le_flatMap_itemLine (s :: t :: ss)
      rw [hchars]
      change Toml.readValue (78 + 1) _ = _
      rw [Toml.readValue_list, Toml.readItems_lines]
      · rfl
      · refine Nat.lt_succ_of_le (Nat.le_trans hlength ?_)
        rw [List.length_cons, List.length_append]
        omega

theorem chars_eq_cons (w : Written) : ∃ c cs, w.chars = c :: cs ∧ Toml.isWhite c = false := by
  cases w with
  | text s =>
    obtain ⟨q, tail, hwrite, hq⟩ := Toml.writeString_eq_cons s
    exact ⟨q, tail, hwrite, (Toml.shows_quote hq).1⟩
  | number n =>
    obtain ⟨c, tail, hc⟩ := List.exists_cons_of_ne_nil (Decimal.areDigits_toDigits n).ne_nil
    have hdigit := (Decimal.areDigits_toDigits n).isDigit c (hc ▸ List.mem_cons_self)
    refine ⟨c, tail, Nat.toList_repr.trans hc, Toml.isWhite_of_bare ?_⟩
    simp [Toml.isBareKeyChar, Char.isAlphanum, hdigit]
  | texts ss =>
    cases ss with
    | nil => exact ⟨'[', _, rfl, rfl⟩
    | cons s ss => cases ss <;> exact ⟨'[', _, rfl, rfl⟩

end Written

def sectionMembers (parts : List (String × List (String × Written))) : List (String × Value) :=
  parts.map fun part => (part.1, .table (part.2.map fun line => (line.1, line.2.value)))

def lineItems (lines : List (String × Written)) : Toml.Members :=
  lines.map fun line => (line.1, .value line.2.value)

def sectionItems (parts : List (String × List (String × Written))) : Toml.Members :=
  parts.map fun part => (part.1, .table .headed (lineItems part.2))

theorem IsPlain.isBare {name : String} (h : IsPlain name) : Toml.IsBare name.toList where
  ne_nil := by simpa using h.1
  isBareKeyChar _ hc := (h.of_mem hc).1

/-- Lines that can be printed: their keys need no quotes and differ, their numbers are in range. -/
structure Lines (lines : List (String × Written)) : Prop where
  plain : ∀ line ∈ lines, IsPlain line.1
  fits : ∀ line ∈ lines, line.2.fits = true
  distinct : (lines.map (·.1)).Nodup

structure Sections (parts : List (String × List (String × Written))) : Prop where
  plain : ∀ part ∈ parts, IsPlain part.1
  lines : ∀ part ∈ parts, Lines part.2
  distinct : (parts.map (·.1)).Nodup

variable {part : String} {done inner : Toml.Members} {line : String × Written}
  {lines : List (String × Written)} {parts : List (String × List (String × Written))}
  {rest : List Char} {d' : Toml.Draft}

theorem reads_line (hpart : part ∉ done.map (·.1)) (hplain : IsPlain line.1)
    (hfits : line.2.fits = true) (hkey : line.1 ∉ inner.map (·.1))
    (h : Toml.Draft.Reads
      ⟨done ++ [(part, .table .headed (inner ++ [(line.1, .value line.2.value)]))], [part]⟩ rest d') :
    Toml.Draft.Reads ⟨done ++ [(part, .table .headed inner)], [part]⟩ (lineChars line ++ rest) d' := by
  obtain ⟨c, cs, hchars, hc⟩ := line.2.chars_eq_cons
  have hread := Written.readValue_chars hfits rest
  rw [hchars] at hread
  have hline := Toml.readLine_key hplain.isBare Toml.isWhite_nil Toml.isWhite_blank Toml.isWhite_blank hc
    hread rfl ⟨done ++ [(part, .table .headed inner)], [part]⟩
  rw [String.ofList_toList, Toml.Draft.assign_new hpart hkey] at hline
  have hjoin : lineChars line ++ rest =
      [] ++ (line.1.toList ++ ([' '] ++ '=' :: ([' '] ++ c :: (cs ++ '\n' :: rest)))) := by
    rw [lineChars, hchars]
    simp
  rw [hjoin]
  refine Toml.reads_cons hline ?_ h
  simp
  omega

theorem reads_lines (hpart : part ∉ done.map (·.1)) (hlines : Lines lines)
    (hinner : ∀ line ∈ lines, line.1 ∉ inner.map (·.1))
    (h : Toml.Draft.Reads ⟨done ++ [(part, .table .headed (inner ++ lineItems lines))], [part]⟩
      rest d') :
    Toml.Draft.Reads ⟨done ++ [(part, .table .headed inner)], [part]⟩
      (lines.flatMap lineChars ++ rest) d' := by
  induction lines generalizing inner with
  | nil =>
    rw [lineItems, List.map_nil, List.append_nil] at h
    exact h
  | cons line lines ih =>
    obtain ⟨hplain, hplains⟩ := List.forall_mem_cons.mp hlines.plain
    obtain ⟨hfit, hfits⟩ := List.forall_mem_cons.mp hlines.fits
    obtain ⟨hnew, hdistinct⟩ := List.nodup_cons.mp hlines.distinct
    obtain ⟨hkey, hinner⟩ := List.forall_mem_cons.mp hinner
    rw [List.flatMap_cons, List.append_assoc]
    refine reads_line hpart hplain hfit hkey (ih ⟨hplains, hfits, hdistinct⟩ ?_ ?_)
    · intro other hother
      refine Toml.Members.not_mem_append (hinner other hother) fun heq => hnew ?_
      exact List.mem_map.mpr ⟨other, hother, heq⟩
    · rwa [List.append_assoc]

theorem reads_section {path : List String} (hpart : part ∉ done.map (·.1))
    (hplain : IsPlain part) (hlines : Lines lines)
    (h : Toml.Draft.Reads ⟨done ++ [(part, .table .headed (lineItems lines))], [part]⟩ rest d') :
    Toml.Draft.Reads ⟨done, path⟩ (sectionChars (part, lines) ++ rest) d' := by
  have hheader := Toml.readLine_header hplain.isBare ⟨done, path⟩ (lines.flatMap lineChars ++ rest)
  rw [String.ofList_toList, Toml.Draft.header_new hpart] at hheader
  have hjoin : sectionChars (part, lines) ++ rest =
      '[' :: (part.toList ++ ']' :: '\n' :: (lines.flatMap lineChars ++ rest)) := by
    rw [sectionChars]
    simp
  rw [hjoin]
  refine Toml.reads_cons hheader ?_ (reads_lines hpart hlines (fun _ _ h => (nomatch h)) h)
  simp
  omega

theorem reads_sections (path : List String) (h : Sections parts)
    (hdone : ∀ part ∈ parts, part.1 ∉ done.map (·.1)) :
    ∃ path', Toml.Draft.Reads ⟨done, path⟩ (['\n'].intercalate (parts.map sectionChars))
      ⟨done ++ sectionItems parts, path'⟩ := by
  induction parts generalizing done path with
  | nil =>
    have hnone : done ++ sectionItems [] = done := List.append_nil done
    rw [hnone]
    exact ⟨path, Toml.reads_nil _⟩
  | cons part parts ih =>
    obtain ⟨hplain, hplains⟩ := List.forall_mem_cons.mp h.plain
    obtain ⟨hline, hlines⟩ := List.forall_mem_cons.mp h.lines
    obtain ⟨hnew, hdistinct⟩ := List.nodup_cons.mp h.distinct
    obtain ⟨hpart, hdone⟩ := List.forall_mem_cons.mp hdone
    have hnext : ∀ other ∈ parts, other.1 ∉
        (done ++ [(part.1, Toml.Item.table .headed (lineItems part.2))]).map (·.1) := by
      intro other hother
      refine Toml.Members.not_mem_append (hdone other hother) fun heq => hnew ?_
      exact List.mem_map.mpr ⟨other, hother, heq⟩
    obtain ⟨path', hreads⟩ := ih [part.1] ⟨hplains, hlines, hdistinct⟩ hnext
    rw [List.append_assoc] at hreads
    refine ⟨path', ?_⟩
    cases parts with
    | nil =>
      have hone : ['\n'].intercalate ([part].map sectionChars) = sectionChars part ++ [] := by
        rw [List.map_singleton, List.intercalate_singleton, List.append_nil]
      rw [hone]
      exact reads_section hpart hplain hline hreads
    | cons other parts =>
      have hempty := Toml.reads_cons (Toml.readLine_empty _ _) (Nat.lt_succ_self _) hreads
      rw [List.map_cons, List.map_cons, List.intercalate_cons_cons, List.append_assoc]
      exact reads_section hpart hplain hline hempty

theorem membersToValue_lineItems (lines : List (String × Written)) :
    Toml.membersToValue (lineItems lines) = lines.map fun line => (line.1, line.2.value) := by
  induction lines with
  | nil => rfl
  | cons line lines ih =>
    rw [List.map_cons, ← ih]
    rfl

theorem membersToValue_sectionItems (parts : List (String × List (String × Written))) :
    Toml.membersToValue (sectionItems parts) = sectionMembers parts := by
  induction parts with
  | nil => rfl
  | cons part parts ih =>
    rw [sectionMembers, List.map_cons, ← membersToValue_lineItems]
    exact congrArg _ ih

theorem head?_intercalate_sectionChars (parts : List (String × List (String × Written))) :
    (['\n'].intercalate (parts.map sectionChars)).head? ≠ some '\ufeff' := by
  have hbracket : ∀ cs : List Char, ('[' :: cs).head? ≠ some '\ufeff' := fun cs h =>
    absurd (Option.some.inj h) (by decide)
  cases parts with
  | nil => exact nofun
  | cons part parts =>
    cases parts with
    | nil =>
      rw [List.map_singleton, List.intercalate_singleton]
      exact hbracket _
    | cons other parts =>
      rw [List.map_cons, List.map_cons, List.intercalate_cons_cons]
      exact hbracket _

/-- What is printed is read as the sections that it was printed from. -/
theorem read_sections (h : Sections parts) :
    Toml.read (String.ofList (['\n'].intercalate (parts.map sectionChars))) =
      some (sectionMembers parts) := by
  have hfirst : ∀ part ∈ parts, part.1 ∉ ([] : Toml.Members).map (·.1) := fun _ _ =>
    List.not_mem_nil
  obtain ⟨path, hreads⟩ := reads_sections [] h hfirst
  rw [Toml.read_of_reads (head?_intercalate_sectionChars parts) hreads]
  exact congrArg some (membersToValue_sectionItems parts)

end AssetCache.Settings
