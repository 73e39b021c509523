import AssetCache.Proofs.Toml.Number
import AssetCache.Proofs.Toml.Written

namespace AssetCache.Toml

variable {before between cs gap name rest tail : List Char} {c : Char} {n depth : Nat} {i : Int}
  {v : Value} {d d' d'' : Draft}

theorem writeString_eq_cons (s : String) :
    ∃ q tail, writeString s = q :: tail ∧ (q = '"' ∨ q = '\'') := by
  rw [writeString]
  cases (Traits.of s.toList).choose with
  | basic => exact ⟨'"', _, rfl, .inl rfl⟩
  | literal => exact ⟨'\'', _, rfl, .inr rfl⟩
  | lines => exact ⟨'"', _, rfl, .inl rfl⟩
  | literalLines => exact ⟨'\'', _, rfl, .inr rfl⟩

theorem readValue_string (h : c = '"' ∨ c = '\'') (depth : Nat) (cs : List Char) :
    readValue depth (c :: cs) =
      (readString (c :: cs)).map fun p => (.text (String.ofList p.1), p.2) := by
  obtain rfl | rfl := h <;> cases depth <;> rfl

theorem readValue_writeString (depth : Nat) (s : String) (hquote : rest.head? ≠ some '"')
    (happostrophe : rest.head? ≠ some '\'') :
    readValue depth (writeString s ++ rest) = some (.text s, rest) := by
  have hread := readString_writeString s hquote happostrophe
  obtain ⟨q, tail, hwrite, hq⟩ := writeString_eq_cons s
  rw [hwrite, List.cons_append] at hread ⊢
  rw [readValue_string hq, hread, Option.map_some, String.ofList_toList]

theorem readValue_list (depth : Nat) (cs : List Char) :
    readValue (depth + 1) ('[' :: cs) =
      (readItems (readValue depth) [] (cs.length + 1) cs).map fun p => (.list p.1, p.2) := rfl

theorem readValue_scalar (h : isScalarChar c = true) (depth : Nat) (cs : List Char) :
    readValue depth (c :: cs) = readScalar (c :: cs) := by
  have hne : ∀ {d : Char} {tail : List Char}, isScalarChar d = false → c :: cs ≠ d :: tail := by
    rintro d tail hd heq
    rw [(List.cons.inj heq).1, hd] at h
    cases h
  cases depth with
  | zero =>
    rw [readValue]
    all_goals exact fun _ => hne rfl
  | succ depth =>
    rw [readValue]
    all_goals exact fun _ => hne rfl

theorem readValue_spells (h : Decimal.Spells cs i) (depth : Nat)
    (hrest : ∀ c, rest.head? = some c → isScalarChar c = false) :
    readValue depth (cs ++ rest) =
      if hasLeadingZero (digitsOf cs) then none else (bounded i).map fun i => (.int i, rest) := by
  rw [← readScalar_spells h hrest]
  obtain ⟨c, tail, rfl⟩ := List.exists_cons_of_ne_nil h.ne_nil
  exact readValue_scalar (isScalarChar_spells h c List.mem_cons_self) depth _

def IsBlank (gap : List Char) : Prop := ∀ c ∈ gap, isWhite c = true ∨ c = '\n'

/-- What a blank stops at: neither white nor a line end, nor the beginning of a comment. -/
def Shows (c : Char) : Prop := isWhite c = false ∧ c ≠ '\n' ∧ c ≠ '\r' ∧ c ≠ '#'

theorem skipLines_blank (hgap : IsBlank gap) (hc : Shows c) (cs : List Char) :
    skipLines (gap ++ c :: cs) = c :: cs := by
  induction gap with
  | nil =>
    rw [List.nil_append, skipLines.eq_def]
    dsimp only
    rw [if_neg, if_neg hc.2.2.1]
    rw [hc.1, Bool.false_or, beq_iff_eq]
    exact hc.2.1
  | cons d gap ih =>
    obtain ⟨hd, hgap⟩ := List.forall_mem_cons.mp hgap
    rw [List.cons_append, skipLines.eq_def]
    dsimp only
    rw [if_pos, ih hgap]
    rw [Bool.or_eq_true, beq_iff_eq]
    exact hd

theorem skipBlank_blank (n : Nat) (hgap : IsBlank gap) (hc : Shows c) (cs : List Char) :
    skipBlank n (gap ++ c :: cs) = c :: cs := by
  have hlines := skipLines_blank hgap hc cs
  cases n with
  | zero => rwa [skipBlank]
  | succ n =>
    rw [skipBlank, hlines]
    split
    · next heq => exact absurd (List.cons.inj heq).1 hc.2.2.2
    · rfl

theorem shows_quote (h : c = '"' ∨ c = '\'') : Shows c := by
  obtain rfl | rfl := h <;> exact ⟨rfl, by decide, by decide, by decide⟩

theorem isBlank_nil : IsBlank [] := fun _ h => (nomatch h)

def itemLine (s : String) : List Char :=
  "    ".toList ++ writeString s ++ ",\n".toList

theorem readItems_end (hgap : IsBlank gap) (read : List Value) (rest : List Char)
    (item : List Char → Option (Value × List Char)) :
    readItems item read (n + 1) (gap ++ ']' :: rest) = some (read.reverse, rest) := by
  rw [readItems, skipBlank_blank _ hgap ⟨rfl, by decide, by decide, by decide⟩]
  rfl

theorem readItems_string (hgap : IsBlank gap) (hc : c = ',' ∨ c = ']') (read : List Value)
    (s : String) (rest : List Char) :
    readItems (readValue depth) read (n + 1) (gap ++ (writeString s ++ c :: rest)) =
      if c = ',' then readItems (readValue depth) (.text s :: read) n rest
      else some ((Value.text s :: read).reverse, rest) := by
  have hread : readValue depth (writeString s ++ c :: rest) = some (.text s, c :: rest) := by
    apply readValue_writeString
    all_goals obtain rfl | rfl := hc <;> simp
  have hshows : Shows c := by obtain rfl | rfl := hc <;> exact ⟨rfl, by decide, by decide, by decide⟩
  obtain ⟨q, tail, hwrite, hq⟩ := writeString_eq_cons s
  rw [hwrite, List.cons_append] at hread ⊢
  have hend : skipBlank (c :: rest).length (c :: rest) = c :: rest :=
    skipBlank_blank _ isBlank_nil hshows rest
  rw [readItems, skipBlank_blank _ hgap (shows_quote hq)]
  split
  · next heq =>
    rw [(List.cons.inj heq).1] at hq
    exact absurd hq (by decide)
  · rw [hread]
    dsimp only
    rw [hend]
    obtain rfl | rfl := hc <;> rfl

theorem readItems_lines (ss : List String) (read : List Value) (hn : ss.length < n)
    (rest : List Char) :
    readItems (readValue depth) read n ('\n' :: (ss.flatMap itemLine ++ ']' :: rest)) =
      some (read.reverse ++ ss.map .text, rest) := by
  induction ss generalizing read n with
  | nil =>
    obtain ⟨n, rfl⟩ := Nat.exists_eq_add_one_of_ne_zero (Nat.ne_of_gt hn)
    have hgap : IsBlank ['\n'] := fun c hc => .inr (List.mem_singleton.mp hc)
    rw [List.map_nil, List.append_nil]
    exact readItems_end hgap read rest _
  | cons s ss ih =>
    obtain ⟨n, rfl⟩ := Nat.exists_eq_add_one_of_ne_zero (Nat.ne_zero_of_lt hn)
    have hgap : IsBlank ('\n' :: "    ".toList) := by simp [IsBlank, isWhite]
    have hline : '\n' :: ((s :: ss).flatMap itemLine ++ ']' :: rest) =
        ('\n' :: "    ".toList) ++ (writeString s ++ ',' :: ('\n' :: (ss.flatMap itemLine ++
          ']' :: rest))) := by
      simp [itemLine]
    rw [hline, readItems_string hgap (.inl rfl), if_pos rfl, ih _ (Nat.lt_of_succ_lt_succ hn),
      List.reverse_cons, List.append_assoc, List.singleton_append, List.map_cons]

/-- A name that needs no quotes where it is a key. -/
structure IsBare (name : List Char) : Prop where
  ne_nil : name ≠ []
  isBareKeyChar : ∀ c ∈ name, isBareKeyChar c = true

def IsWhite (gap : List Char) : Prop := ∀ c ∈ gap, isWhite c = true

theorem isWhite_nil : IsWhite [] := fun _ h => (nomatch h)

theorem isWhite_blank : IsWhite [' '] := fun c hc => by
  rw [List.mem_singleton.mp hc]
  rfl

theorem skipWhite_append (hgap : IsWhite gap) (hc : isWhite c = false) (cs : List Char) :
    skipWhite (gap ++ c :: cs) = c :: cs := by
  rw [skipWhite, List.dropWhile_append_of_pos hgap, List.dropWhile_cons_of_neg]
  exact Bool.eq_false_iff.mp hc

theorem IsBare.exists_cons (h : IsBare name) :
    ∃ c tail, name = c :: tail ∧ Toml.isBareKeyChar c = true := by
  obtain ⟨c, tail, rfl⟩ := List.exists_cons_of_ne_nil h.ne_nil
  exact ⟨c, tail, rfl, h.isBareKeyChar c List.mem_cons_self⟩

theorem ne_of_isBareKeyChar {d : Char} (hc : isBareKeyChar c = true)
    (hd : isBareKeyChar d = false) : c ≠ d := by
  rintro rfl
  rw [hc] at hd
  cases hd

theorem isWhite_of_bare (hc : isBareKeyChar c = true) : isWhite c = false := by
  have hblank : c ≠ ' ' := ne_of_isBareKeyChar hc rfl
  have htab : c ≠ '\t' := ne_of_isBareKeyChar hc rfl
  simp [isWhite, hblank, htab]

theorem readKeyPart_bare (h : IsBare name)
    (hrest : ∀ c, rest.head? = some c → isBareKeyChar c = false) :
    readKeyPart (name ++ rest) = some (name, rest) := by
  obtain ⟨htake, hdrop⟩ := takeWhile_run h.isBareKeyChar hrest
  have hne : ∀ {d : Char} {tail : List Char}, isBareKeyChar d = false → name ++ rest ≠ d :: tail := by
    intro d tail hd heq
    obtain ⟨c, name, rfl, hc⟩ := h.exists_cons
    exact ne_of_isBareKeyChar hc hd (List.cons.inj heq).1
  rw [readKeyPart, htake, hdrop]
  · split
    · exact absurd rfl h.ne_nil
    · rfl
  · exact fun _ => hne rfl
  · exact fun _ => hne rfl

theorem IsBare.skipWhite (h : IsBare name) (rest : List Char) :
    skipWhite (name ++ rest) = name ++ rest := by
  obtain ⟨c, name, rfl, hc⟩ := h.exists_cons
  exact skipWhite_append isWhite_nil (isWhite_of_bare hc) (name ++ rest)

theorem readKey_bare (h : IsBare name) (hgap : IsWhite gap)
    (hc : isBareKeyChar c = false ∧ isWhite c = false ∧ c ≠ '.') (cs : List Char) :
    readKey (name ++ (gap ++ c :: cs)) = some ([String.ofList name], c :: cs) := by
  have hrest : ∀ d, (gap ++ c :: cs).head? = some d → isBareKeyChar d = false := by
    intro d hd
    cases gap with
    | nil =>
      cases hd
      exact hc.1
    | cons e gap =>
      cases hd
      refine Bool.eq_false_iff.mpr fun hbare => ?_
      have hwhite := hgap d List.mem_cons_self
      rw [isWhite_of_bare hbare] at hwhite
      cases hwhite
  change readKeyParts (78 + 1) _ = _
  rw [readKeyParts, h.skipWhite, readKeyPart_bare h hrest]
  dsimp only
  rw [skipWhite_append hgap hc.2.1]
  split
  · next heq => exact absurd (List.cons.inj heq).1 hc.2.2
  · rfl

theorem readLine_empty (d : Draft) (rest : List Char) : readLine d ('\n' :: rest) = some (d, rest) :=
  rfl

theorem readLine_header (h : IsBare name) (d : Draft) (rest : List Char) :
    readLine d ('[' :: (name ++ ']' :: '\n' :: rest)) =
      (d.header beginTable [String.ofList name]).map fun d => (d, rest) := by
  have hkey : readKey (name ++ ']' :: '\n' :: rest) =
      some ([String.ofList name], ']' :: '\n' :: rest) :=
    readKey_bare h isWhite_nil ⟨rfl, rfl, by decide⟩ _
  obtain ⟨c, tail, rfl, hc⟩ := h.exists_cons
  have hbracket : c ≠ '[' := ne_of_isBareKeyChar hc rfl
  have hskip : skipWhite ('[' :: (c :: tail ++ ']' :: '\n' :: rest)) =
      '[' :: (c :: tail ++ ']' :: '\n' :: rest) := rfl
  rw [readLine, hskip]
  split
  · next heq => cases heq
  · next heq => cases heq
  · next heq => cases heq
  · next heq => cases heq
  · next heq => exact absurd (List.cons.inj (List.cons.inj heq).2).1 hbracket
  · next heq =>
    rw [← (List.cons.inj heq).2, hkey]
    change (d.header beginTable [String.ofList (c :: tail)]).bind _ = _
    cases d.header beginTable [String.ofList (c :: tail)] <;> rfl
  · next hne => exact absurd rfl (hne _)

theorem readKey_of_not_key (hwhite : isWhite c = false) (hbare : isBareKeyChar c = false)
    (hquote : c ≠ '"') (happostrophe : c ≠ '\'') : readKey (c :: cs) = none := by
  change readKeyParts (78 + 1) _ = _
  have hskip : skipWhite (c :: cs) = c :: cs := skipWhite_append isWhite_nil hwhite cs
  have hpart : readKeyPart (c :: cs) = none := by
    rw [readKeyPart, List.takeWhile_cons_of_neg (Bool.eq_false_iff.mp hbare)]
    · exact fun _ heq => hquote (List.cons.inj heq).1
    · exact fun _ heq => happostrophe (List.cons.inj heq).1
  rw [readKeyParts, hskip, hpart]

theorem readLine_of_key {key : List String} (hkey : readKey (skipWhite cs) = some (key, '=' :: tail))
    (d : Draft) :
    readLine d cs = (readValue maxDepth (skipWhite tail)).bind fun p =>
      (readLineEnd p.2).bind fun rest => (d.assign key p.1).map fun d => (d, rest) := by
  have hnot : ∀ {c : Char} {rest : List Char}, isWhite c = false → isBareKeyChar c = false →
      c ≠ '"' → c ≠ '\'' → skipWhite cs ≠ c :: rest := by
    intro c rest hwhite hbare hquote happostrophe heq
    rw [heq, readKey_of_not_key hwhite hbare hquote happostrophe] at hkey
    cases hkey
  rw [readLine]
  split
  · next heq =>
    rw [heq] at hkey
    cases hkey
  · next heq => exact absurd heq (hnot rfl rfl (by decide) (by decide))
  · next heq => exact absurd heq (hnot rfl rfl (by decide) (by decide))
  · next heq => exact absurd heq (hnot rfl rfl (by decide) (by decide))
  · next heq => exact absurd heq (hnot rfl rfl (by decide) (by decide))
  · next heq => exact absurd heq (hnot rfl rfl (by decide) (by decide))
  · rw [hkey]
    refine Option.bind_congr fun p _ => Option.bind_congr fun rest _ => ?_
    cases d.assign key p.1 <;> rfl

theorem readLine_key (h : IsBare name) (hgap : IsWhite gap) (hbefore : IsWhite before)
    (hbetween : IsWhite between) (hc : isWhite c = false)
    (hread : readValue maxDepth (c :: cs) = some (v, tail)) (hend : readLineEnd tail = some rest)
    (d : Draft) :
    readLine d (gap ++ (name ++ (before ++ '=' :: (between ++ c :: cs)))) =
      (d.assign [String.ofList name] v).map fun d => (d, rest) := by
  have hkey := readKey_bare h hbefore (c := '=') ⟨rfl, rfl, by decide⟩ (between ++ c :: cs)
  have hvalue := skipWhite_append hbetween hc cs
  have hskip : skipWhite (gap ++ (name ++ (before ++ '=' :: (between ++ c :: cs)))) =
      name ++ (before ++ '=' :: (between ++ c :: cs)) := by
    obtain ⟨a, name, rfl, ha⟩ := h.exists_cons
    exact skipWhite_append hgap (isWhite_of_bare ha) _
  rw [← hskip] at hkey
  rw [readLine_of_key hkey, hvalue, hread, Option.bind_some, hend, Option.bind_some]

/-- What the lines of a text make of a draft, with any number of lines to spare. -/
def Draft.Reads (d : Draft) (cs : List Char) (d' : Draft) : Prop :=
  ∀ n, cs.length < n → readDocumentLines d n cs = some d'

theorem reads_nil (d : Draft) : d.Reads [] d := by
  intro n hn
  cases n <;> rfl

theorem reads_cons (hline : readLine d cs = some (d', rest)) (hlength : rest.length < cs.length)
    (h : d'.Reads rest d'') : d.Reads cs d'' := by
  intro n hn
  obtain ⟨n, rfl⟩ := Nat.exists_eq_add_one_of_ne_zero (Nat.ne_zero_of_lt hn)
  cases cs with
  | nil => cases Nat.not_lt_zero _ hlength
  | cons c cs =>
    rw [readDocumentLines, hline]
    · exact h n (by omega)
    · exact List.cons_ne_nil c cs

theorem read_of_reads (hmark : cs.head? ≠ some '\ufeff') (h : Draft.Reads ⟨[], []⟩ cs d) :
    read (String.ofList cs) = some (membersToValue d.members) := by
  have hlines := h (cs.length + 1) (Nat.lt_succ_self _)
  rw [read, String.toList_ofList]
  split
  · next rest => exact absurd rfl hmark
  · rw [hlines, Option.map_some]

end AssetCache.Toml
