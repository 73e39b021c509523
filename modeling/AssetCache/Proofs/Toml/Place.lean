import AssetCache.Proofs.Toml.Document
import AssetCache.Proofs.Toml.Growth

namespace AssetCache.Toml

variable {item : List Char → Option (Value × List Char)} {read read' last : Members}
  {d d' : Draft} {cs cs' digits rest tail text : List Char}
  {key path : List String} {v : Value} {n : Int} {k : Nat}

theorem ne_nil_of_readKey (h : readKey cs = some (key, rest)) : key ≠ [] := by
  change readKeyParts (78 + 1) cs = _ at h
  rw [readKeyParts] at h
  split at h
  · cases h
  · split at h
    · obtain ⟨_, -, heq⟩ := Option.map_eq_some_iff.mp h
      cases heq
      exact List.cons_ne_nil _ _
    · cases h
      exact List.cons_ne_nil _ _

/-- Reading the members of a table on one line leads from one of them to another. -/
inductive PassesMembers (item : List Char → Option (Value × List Char)) :
    Members → List Char → Members → List Char → Prop
  | here (read : Members) (cs : List Char) : PassesMembers item read cs read cs
  | member {read read' read'' : Members} {cs cs' cs'' tail after : List Char} {key : List String}
    {v : Value} (hkey : readKey cs = some (key, '=' :: tail))
    (hitem : item (skipWhite tail) = some (v, after))
    (hassign : read.assign .headed v key = some read') (hcomma : skipWhite after = ',' :: cs')
    (h : PassesMembers item read' cs' read'' cs'') : PassesMembers item read cs read'' cs''

theorem readMembers_of_key (hkey : readKey cs = some (key, '=' :: tail)) :
    readMembers item read (k + 1) cs =
      (item (skipWhite tail)).bind fun p => (read.assign .headed p.1 key).bind fun read =>
        match skipWhite p.2 with
        | ',' :: rest => readMembers item read k rest
        | '\x7d' :: rest => some (read, rest)
        | _ => none := by
  simp only [readMembers, hkey]
  cases item (skipWhite tail) with
  | none => rfl
  | some p =>
    dsimp only [Option.bind_some]
    cases read.assign .headed p.1 key <;> rfl

theorem PassesMembers.reads (h : PassesMembers item read cs read' cs')
    (hread : readMembers item read k cs = some (last, rest)) :
    ∃ k', readMembers item read' k' cs' = some (last, rest) := by
  induction h generalizing k with
  | here => exact ⟨k, hread⟩
  | member hkey hitem hassign hcomma _ ih =>
    cases k with
    | zero => cases hread
    | succ k =>
      rw [readMembers_of_key hkey, hitem, Option.bind_some, hassign, Option.bind_some,
        hcomma] at hread
      exact ih hread

theorem grows_readMembers (hread : readMembers item read k cs = some (last, rest)) :
    read.Grows last := by
  fun_induction readMembers item read k cs with
  | case1 | case2 | case3 | case6 | case7 => cases hread
  | case4 =>
    rename_i hassign _ _ ih
    exact (Members.grows_assign hassign).trans (ih hread)
  | case5 =>
    rename_i hassign _ _
    cases hread
    exact Members.grows_assign hassign

theorem tells_of_readMembers (h : PassesMembers item [] cs read cs')
    (hkey : readKey cs' = some (key, '=' :: tail))
    (hread : readMembers item [] k cs = some (last, rest)) :
    ∃ (v : Value) (after : List Char) (read' : Members),
      item (skipWhite tail) = some (v, after) ∧ read'.toTable.Tells key v ∧
        read'.Grows last := by
  obtain ⟨k, hread⟩ := h.reads hread
  cases k with
  | zero => cases hread
  | succ k =>
    rw [readMembers_of_key hkey] at hread
    obtain ⟨⟨v, after⟩, hvalue, hread⟩ := Option.bind_eq_some_iff.mp hread
    obtain ⟨read', hassign, hread⟩ := Option.bind_eq_some_iff.mp hread
    refine ⟨v, after, read', hvalue, Members.tells_assign hassign, ?_⟩
    dsimp only at hread
    split at hread
    · exact grows_readMembers hread
    · cases hread
      exact .refl _
    · cases hread

theorem tells_of_readInlineTable (h : PassesMembers item [] (skipWhite cs) read cs')
    (hkey : readKey cs' = some (key, '=' :: tail))
    (hread : readInlineTable item cs = some (v, rest)) :
    ∃ (w : Value) (after : List Char) (read' ms : Members),
      item (skipWhite tail) = some (w, after) ∧ read'.toTable.Tells key w ∧ read'.Grows ms ∧
        v = ms.toTable := by
  have hfirst : ∃ key tail, readKey (skipWhite cs) = some (key, '=' :: tail) := by
    cases h with
    | here => exact ⟨_, _, hkey⟩
    | member hkey => exact ⟨_, _, hkey⟩
  obtain ⟨key', tail', hfirst⟩ := hfirst
  rw [readInlineTable] at hread
  split at hread
  · next heq =>
    rw [heq, readKey_of_not_key rfl rfl (by decide) (by decide)] at hfirst
    cases hfirst
  · obtain ⟨⟨ms, _⟩, hmembers, heq⟩ := Option.map_eq_some_iff.mp hread
    cases heq
    obtain ⟨w, after, read', hvalue, htells, hgrows⟩ := tells_of_readMembers h hkey hmembers
    exact ⟨w, after, read', ms, hvalue, htells, hgrows, rfl⟩

namespace Draft

/-- Reading a document line by line leads from one place in it to another. -/
inductive Passes : Draft → List Char → Draft → List Char → Prop
  | here (d : Draft) (cs : List Char) : Passes d cs d cs
  | line {d d' d'' : Draft} {cs cs' cs'' : List Char} (hline : readLine d cs = some (d', cs'))
    (h : Passes d' cs' d'' cs'') : Passes d cs d'' cs''

theorem Passes.reads {last : Draft} (h : Passes d cs d' cs')
    (hread : readDocumentLines d k cs = some last) :
    ∃ k', readDocumentLines d' k' cs' = some last := by
  induction h generalizing k with
  | here => exact ⟨k, hread⟩
  | @line d d' d'' cs cs' cs'' hline _ ih =>
    cases cs with
    | nil =>
      cases hline
      exact ih hread
    | cons c cs =>
      cases k with
      | zero => cases hread
      | succ k =>
        rw [readDocumentLines, hline] at hread
        · exact ih hread
        · exact List.cons_ne_nil c cs

theorem tells_of_readDocumentLines {last : Draft}
    (hkey : readKey (skipWhite cs) = some (key, '=' :: tail))
    (hread : readDocumentLines d k cs = some last) :
    ∃ (v : Value) (after : List Char) (d' : Draft),
      readValue maxDepth (skipWhite tail) = some (v, after) ∧
        d'.members.toTable.Tells (d.path ++ key) v ∧ d'.members.Grows last.members := by
  have hne : cs ≠ [] := by
    rintro rfl
    cases hkey
  obtain ⟨d', rest, k', hline, hrest⟩ : ∃ d' rest k', readLine d cs = some (d', rest) ∧
      readDocumentLines d' k' rest = some last := by
    cases k with
    | zero =>
      obtain ⟨c, cs, rfl⟩ := List.exists_cons_of_ne_nil hne
      cases hread
    | succ k =>
      rw [readDocumentLines] at hread
      · split at hread
        · cases hread
        · next d' rest hline => exact ⟨d', rest, k, hline, hread⟩
      · exact hne
  rw [readLine_of_key hkey] at hline
  obtain ⟨⟨v, after⟩, hvalue, hline⟩ := Option.bind_eq_some_iff.mp hline
  obtain ⟨_, -, hline⟩ := Option.bind_eq_some_iff.mp hline
  obtain ⟨d', hassign, heq⟩ := Option.map_eq_some_iff.mp hline
  cases heq
  exact ⟨v, after, d', hvalue, tells_assign (ne_nil_of_readKey hkey) hassign,
    grows_readDocumentLines hrest⟩

end Draft

/-- A text gives the value at the head of `value` under a path: on a line of its own below the
header of its table or above all headers, or in a table on one line. -/
inductive Writes (text : List Char) (path : List String) (value : List Char) : Prop
  | line {d : Draft} {cs tail : List Char} {key : List String}
    (hline : Draft.Passes ⟨[], []⟩ text d cs)
    (hkey : readKey (skipWhite cs) = some (key, '=' :: tail))
    (hpath : path = d.path ++ key) (hvalue : value = skipWhite tail)
  | inline {d : Draft} {cs cs' tail tail' inner : List Char} {key key' : List String}
    {read : Members}
    (hline : Draft.Passes ⟨[], []⟩ text d cs)
    (hkey : readKey (skipWhite cs) = some (key, '=' :: tail))
    (htable : skipWhite tail = '\x7b' :: inner)
    (hmember : PassesMembers (readValue (maxDepth - 1)) [] (skipWhite inner) read cs')
    (hkey' : readKey cs' = some (key', '=' :: tail'))
    (hpath : path = d.path ++ key ++ key') (hvalue : value = skipWhite tail')

/-- A number in decimal is read as the number that it is, which has 64 bits, or not at all. -/
theorem eq_of_readValue {depth : Nat} {after : List Char} (hdigits : Decimal.Spells digits n)
    (hrest : ∀ c, rest.head? = some c → isScalarChar c = false)
    (h : readValue depth (digits ++ rest) = some (v, after)) :
    v = .int n ∧ Decimal.IsShortInt n := by
  rw [readValue_spells hdigits depth hrest] at h
  obtain ⟨-, h⟩ := Option.ite_none_left_eq_some.mp h
  obtain ⟨m, hm, heq⟩ := Option.map_eq_some_iff.mp h
  obtain ⟨hshort, hm⟩ := Option.ite_none_right_eq_some.mp hm
  cases hm
  cases heq
  exact ⟨rfl, hshort⟩

theorem tells_of_writes {last : Draft} (h : Writes text path (digits ++ rest))
    (hdigits : Decimal.Spells digits n)
    (hrest : ∀ c, rest.head? = some c → isScalarChar c = false)
    (hread : readDocumentLines ⟨[], []⟩ k text = some last) :
    last.members.toTable.Tells path (.int n) ∧ Decimal.IsShortInt n := by
  cases h with
  | @line d cs tail key hline hkey hpath hvalue =>
    obtain ⟨k, hread⟩ := hline.reads hread
    obtain ⟨v, after, d', hv, htells, hgrows⟩ := Draft.tells_of_readDocumentLines hkey hread
    rw [← hvalue] at hv
    obtain ⟨rfl, hshort⟩ := eq_of_readValue hdigits hrest hv
    rw [hpath]
    exact ⟨hgrows.tells htells, hshort⟩
  | @inline d cs cs' tail tail' inner key key' read hline hkey htable hmember hkey' hpath hvalue =>
    obtain ⟨k, hread⟩ := hline.reads hread
    obtain ⟨v, after, d', hv, htells, hgrows⟩ := Draft.tells_of_readDocumentLines hkey hread
    have hinline : readValue maxDepth (skipWhite tail) =
        readInlineTable (readValue (maxDepth - 1)) inner := by
      rw [htable]
      rfl
    rw [hinline] at hv
    obtain ⟨w, _, read', ms, hw, htells', hgrows', rfl⟩ := tells_of_readInlineTable hmember hkey' hv
    rw [← hvalue] at hw
    obtain ⟨rfl, hshort⟩ := eq_of_readValue hdigits hrest hw
    rw [hpath]
    exact ⟨hgrows.tells (htells.append (hgrows'.tells htells')), hshort⟩

end AssetCache.Toml
