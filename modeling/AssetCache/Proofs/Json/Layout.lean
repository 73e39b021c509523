import AssetCache.Json.Shape
import AssetCache.Proofs.Json.Token

namespace AssetCache.Json

def Text.plain (s : String) : Text := ⟨s.toList, false, none⟩

namespace Value

mutual

def node : Value → Node
  | null => .null
  | number n => .number ⟨false, n, 0, true⟩
  | text s => .text (.plain s)
  | list items => .list (nodeItems items) none
  | record members => .record (nodeMembers members) none

def nodeItems : List Value → List Node
  | [] => []
  | v :: rest => v.node :: nodeItems rest

def nodeMembers : List (String × Value) → List (Text × Node)
  | [] => []
  | (name, v) :: rest => (.plain name, v.node) :: nodeMembers rest

end

end Value

def IsSpace (cs : List Char) : Prop := ∀ c ∈ cs, isSpace c = true

mutual

/-- A text of a value, with any space between its tokens. -/
inductive Spells : Value → List Char → Prop
  | null : Spells .null "null".toList
  | number (n : Nat) : Spells (.number n) (Nat.toDigits 10 n)
  | text (s : String) : Spells (.text s) (writeText s)
  | emptyList {gap : List Char} (hgap : IsSpace gap) : Spells (.list []) ('[' :: (gap ++ [']']))
  | list {v : Value} {items : List Value} {cs : List Char} (hitems : SpellsItems v items cs) :
    Spells (.list (v :: items)) ('[' :: (cs ++ [']']))
  | emptyRecord {gap : List Char} (hgap : IsSpace gap) :
    Spells (.record []) ('\x7b' :: (gap ++ ['\x7d']))
  | record {name : String} {v : Value} {members : List (String × Value)} {cs : List Char}
    (hmembers : SpellsMembers name v members cs) :
    Spells (.record ((name, v) :: members)) ('\x7b' :: (cs ++ ['\x7d']))

/-- What stands between the brackets of a list: an item, and the others after commas. -/
inductive SpellsItems : Value → List Value → List Char → Prop
  | last {v : Value} {gap cs gap' : List Char} (hgap : IsSpace gap) (hv : Spells v cs)
    (hgap' : IsSpace gap') : SpellsItems v [] (gap ++ (cs ++ gap'))
  | cons {v w : Value} {items : List Value} {gap cs gap' rest : List Char} (hgap : IsSpace gap)
    (hv : Spells v cs) (hgap' : IsSpace gap') (hrest : SpellsItems w items rest) :
    SpellsItems v (w :: items) (gap ++ (cs ++ (gap' ++ ',' :: rest)))

inductive SpellsMembers : String → Value → List (String × Value) → List Char → Prop
  | last {name : String} {v : Value} {gap before between cs gap' : List Char} (hgap : IsSpace gap)
    (hbefore : IsSpace before) (hbetween : IsSpace between) (hv : Spells v cs)
    (hgap' : IsSpace gap') :
    SpellsMembers name v []
      (gap ++ (writeText name ++ (before ++ ':' :: (between ++ (cs ++ gap')))))
  | cons {name name' : String} {v w : Value} {members : List (String × Value)}
    {gap before between cs gap' rest : List Char} (hgap : IsSpace gap) (hbefore : IsSpace before)
    (hbetween : IsSpace between) (hv : Spells v cs) (hgap' : IsSpace gap')
    (hrest : SpellsMembers name' w members rest) :
    SpellsMembers name v ((name', w) :: members)
      (gap ++ (writeText name ++ (before ++ ':' :: (between ++ (cs ++ (gap' ++ ',' :: rest))))))

end

theorem isSpace_nil : IsSpace [] := List.forall_mem_nil _

theorem isSpace_blank : IsSpace [' '] := fun c hc => by
  cases List.mem_singleton.mp hc
  rfl

theorem isSpace_newline (level : Nat) : IsSpace (Value.newline level) := fun c hc => by
  obtain rfl | hc := List.mem_cons.mp hc
  · rfl
  · rw [(List.mem_replicate.mp hc).2]
    rfl

theorem EndsNumber.space {gap rest : List Char} (hgap : IsSpace gap) (hrest : EndsNumber rest) :
    EndsNumber (gap ++ rest) := by
  cases gap with
  | nil => exact hrest
  | cons c gap =>
    rintro _ ⟨⟩
    have hc := hgap c List.mem_cons_self
    simp only [isSpace, Bool.or_eq_true, beq_iff_eq] at hc
    obtain ((rfl | rfl) | rfl) | rfl := hc <;> decide

theorem endsNumber_cons {c : Char} (hc : c.isDigit = false ∧ c ≠ '.' ∧ c ≠ 'e' ∧ c ≠ 'E')
    (rest : List Char) : EndsNumber (c :: rest) := by
  rintro _ ⟨⟩
  exact hc

namespace Progress

variable {levels : List Level} {place place' : Place} {t : Token} {v : Value}
  {cs cs' gap rest : List Char}

theorem run_reading (h : next? cs = some (t, rest)) :
    (reading levels place).run cs = (step levels place t).run rest := by
  rw [run.eq_def]
  dsimp only
  split
  · next hn =>
    rw [h] at hn
    cases hn
  · next hn =>
    rw [h] at hn
    cases hn
    rfl

theorem run_congr (h : next? cs = next? cs') :
    (reading levels place).run cs = (reading levels place).run cs' := by
  cases hn : next? cs' with
  | some p => rw [run_reading (h.trans hn), run_reading hn]
  | none =>
    rw [run.eq_def, run.eq_def (reading levels place) cs']
    dsimp only
    split
    · split
      · rfl
      · next hs =>
        rw [hn] at hs
        cases hs
    · next hs =>
      rw [h, hn] at hs
      cases hs

theorem run_firstItem (h : next? cs = some (t, rest)) (ht : t ≠ .closeList) :
    (reading levels .firstItem).run cs = (reading (.list [] :: levels) .value).run cs := by
  rw [run_reading h, run_reading h]
  cases t <;> first | rfl | exact absurd rfl ht

theorem run_firstKey {text : Text} (h : next? cs = some (.text text, rest)) :
    (reading levels .firstKey).run cs = (reading levels (.nextKey [])).run cs := by
  rw [run_reading h, run_reading h]
  rfl

theorem run_space (hgap : IsSpace gap) :
    (reading levels place).run (gap ++ cs) = (reading levels place).run cs :=
  run_congr (next?_space hgap cs)

theorem run_mark (hgap : IsSpace gap) {c : Char} (hc : isSpace c = false)
    (ht : ∀ cs, tokenAt c cs = (t, cs)) :
    (reading levels place).run (gap ++ c :: cs) = (step levels place t).run cs := by
  have hnext : next? (c :: cs) = some (t, cs) := by rw [next?_of_not_space hc, ht]
  rw [run_space hgap, run_reading hnext]

end Progress

open Progress

theorem next?_null (rest : List Char) : next? ("null".toList ++ rest) = some (.null, rest) := rfl

theorem Spells.next? {v : Value} {cs rest : List Char} (h : Spells v cs) (hrest : EndsNumber rest) :
    ∃ t rest', Json.next? (cs ++ rest) = some (t, rest') ∧ t ≠ .closeList := by
  cases h with
  | null => exact ⟨_, _, rfl, by decide⟩
  | number n => exact ⟨_, _, next?_toDigits n hrest, by simp⟩
  | text s => exact ⟨_, _, next?_writeText s rest, by simp⟩
  | emptyList | list | emptyRecord | record =>
    exact ⟨_, _, next?_of_not_space (by decide) _, by simp⟩

theorem SpellsItems.next? {v : Value} {items : List Value} {cs : List Char}
    (h : SpellsItems v items cs) (rest : List Char) :
    ∃ t rest', Json.next? (cs ++ ']' :: rest) = some (t, rest') ∧ t ≠ .closeList := by
  cases h with
  | last hgap hv hgap' =>
    rw [List.append_assoc, List.append_assoc, next?_space hgap]
    exact hv.next? ((endsNumber_cons (by decide) _).space hgap')
  | cons hgap hv hgap' =>
    rw [List.append_assoc, List.append_assoc, List.append_assoc, next?_space hgap]
    exact hv.next? ((endsNumber_cons (by decide) _).space hgap')

theorem SpellsMembers.next? {name : String} {v : Value} {members : List (String × Value)}
    {cs : List Char} (h : SpellsMembers name v members cs) (rest : List Char) :
    ∃ rest', Json.next? (cs ++ rest) = some (.text (.plain name), rest') := by
  cases h with
  | last hgap | cons hgap =>
    rw [List.append_assoc, List.append_assoc, next?_space hgap]
    exact ⟨_, next?_writeText name _⟩

theorem run_name {gap before between : List Char} (hgap : IsSpace gap) (hbefore : IsSpace before)
    (hbetween : IsSpace between) (levels : List Level) (done : List (Text × Node)) (name : String)
    (cs : List Char) :
    (reading levels (.nextKey done)).run
        (gap ++ (writeText name ++ (before ++ ':' :: (between ++ cs)))) =
      (reading (.record done (.plain name) :: levels) .value).run cs := by
  rw [run_space hgap, run_reading (next?_writeText name _)]
  change (reading levels (.afterKey done (.plain name))).run _ = _
  rw [run_mark hbefore (by decide) fun _ => rfl]
  exact run_space hbetween

mutual

theorem run_spells {v : Value} {cs : List Char} (h : Spells v cs) (levels : List Level)
    {rest : List Char} (hrest : EndsNumber rest) :
    (reading levels .value).run (cs ++ rest) = (after levels v.node).run rest := by
  match h with
  | .null => exact run_reading (next?_null rest)
  | .number n => exact run_reading (next?_toDigits n hrest)
  | .text s => exact run_reading (next?_writeText s rest)
  | .emptyList hgap =>
    rw [List.cons_append, List.append_assoc, run_reading (next?_of_not_space (by decide) _)]
    change (reading levels .firstItem).run (_ ++ ']' :: rest) = _
    rw [run_mark hgap (by decide) fun _ => rfl]
    rfl
  | .list hitems =>
    rw [List.cons_append, List.append_assoc]
    obtain ⟨t, rest', hnext, ht⟩ := hitems.next? rest
    refine (run_reading (next?_of_not_space (by decide) _)).trans ?_
    exact (run_firstItem hnext ht).trans (run_items hitems [] levels rest)
  | .emptyRecord hgap =>
    rw [List.cons_append, List.append_assoc, run_reading (next?_of_not_space (by decide) _)]
    change (reading levels .firstKey).run (_ ++ '\x7d' :: rest) = _
    rw [run_mark hgap (by decide) fun _ => rfl]
    rfl
  | .record hmembers =>
    rw [List.cons_append, List.append_assoc]
    obtain ⟨rest', hnext⟩ := hmembers.next? ('\x7d' :: rest)
    refine (run_reading (next?_of_not_space (by decide) _)).trans ?_
    exact (run_firstKey hnext).trans (run_members hmembers [] levels rest)

theorem run_items {v : Value} {items : List Value} {cs : List Char} (h : SpellsItems v items cs)
    (done : List Node) (levels : List Level) (rest : List Char) :
    (reading (.list done :: levels) .value).run (cs ++ ']' :: rest) =
      (after levels (.list (done.reverse ++ Value.nodeItems (v :: items)) none)).run rest := by
  match h with
  | .last hgap hv hgap' =>
    have hends : EndsNumber (_ ++ ']' :: rest) := (endsNumber_cons (by decide) _).space hgap'
    rw [List.append_assoc, List.append_assoc, run_space hgap, run_spells hv _ hends, after,
      run_mark hgap' (by decide) fun _ => rfl]
    simp only [step, Value.nodeItems, List.reverse_cons]
  | @SpellsItems.cons _ w items _ _ _ more hgap hv hgap' hmore =>
    have hends : EndsNumber (_ ++ ',' :: (more ++ ']' :: rest)) :=
      (endsNumber_cons (by decide) _).space hgap'
    rw [List.append_assoc, List.append_assoc, List.append_assoc, List.cons_append, run_space hgap,
      run_spells hv _ hends, after, run_mark hgap' (by decide) fun _ => rfl]
    simp only [step]
    rw [run_items hmore]
    simp only [Value.nodeItems, List.reverse_cons, List.append_assoc, List.singleton_append]

theorem run_members {name : String} {v : Value} {members : List (String × Value)} {cs : List Char}
    (h : SpellsMembers name v members cs) (done : List (Text × Node)) (levels : List Level)
    (rest : List Char) :
    (reading levels (.nextKey done)).run (cs ++ '\x7d' :: rest) =
      (after levels (.record (done.reverse ++ Value.nodeMembers ((name, v) :: members)) none)).run
        rest := by
  match h with
  | .last hgap hbefore hbetween hv hgap' =>
    have hends : EndsNumber (_ ++ '\x7d' :: rest) := (endsNumber_cons (by decide) _).space hgap'
    simp only [List.append_assoc, List.cons_append]
    rw [run_name hgap hbefore hbetween, run_spells hv _ hends, after,
      run_mark hgap' (by decide) fun _ => rfl]
    simp only [step, Value.nodeMembers, List.reverse_cons]
  | @SpellsMembers.cons _ _ _ _ _ _ _ _ _ _ more hgap hbefore hbetween hv hgap' hmore =>
    have hends : EndsNumber (_ ++ ',' :: (more ++ '\x7d' :: rest)) :=
      (endsNumber_cons (by decide) _).space hgap'
    simp only [List.append_assoc, List.cons_append]
    rw [run_name hgap hbefore hbetween, run_spells hv _ hends, after,
      run_mark hgap' (by decide) fun _ => rfl]
    simp only [step]
    rw [run_members hmore]
    simp only [Value.nodeMembers, List.reverse_cons, List.append_assoc, List.singleton_append]

end

/-- A text of a value, among space, is read as its tree, with nothing after it. -/
theorem Spells.ofChars {v : Value} {gap cs gap' : List Char} (hgap : IsSpace gap)
    (h : Spells v cs) (hgap' : IsSpace gap') :
    Document.ofChars (gap ++ (cs ++ gap')) = ⟨v.node, false⟩ := by
  have hends : EndsNumber gap' := by
    rw [← List.append_nil gap']
    exact EndsNumber.space hgap' fun _ h => (nomatch h)
  obtain ⟨t, rest, hnext, _⟩ := h.next? hends
  have hrun := (run_space hgap).trans (run_spells h [] hends)
  have hne : (gap ++ (cs ++ gap')).isEmpty = false := by
    rw [List.isEmpty_eq_false_iff]
    intro hnil
    rw [← next?_space hgap, hnil] at hnext
    cases hnext
  have hnone : Json.next? gap' = none := by
    have hspace := next?_space hgap' []
    rwa [List.append_nil] at hspace
  rw [Document.ofChars, hne, if_neg (by simp), hrun, after, run.eq_def]
  simp only [hnone, Option.isSome_none]

theorem Spells.document {v : Value} {cs : List Char} (h : Spells v cs) :
    Document.ofChars cs = ⟨v.node, false⟩ := by
  have hdoc := h.ofChars isSpace_nil isSpace_nil
  rwa [List.nil_append, List.append_nil] at hdoc

namespace Value

mutual

theorem spells_pretty (v : Value) (level : Nat) : Spells v (v.pretty level) := by
  match v with
  | null => exact .null
  | number n => exact .number n
  | text s => exact .text s
  | list [] => exact .emptyList isSpace_nil
  | list (v :: items) =>
    have hitems := spellsItems_pretty v items (level + 1) level
    rw [pretty, block, if_neg (by simp [prettyItems])]
    exact .list hitems
  | record [] => exact .emptyRecord isSpace_nil
  | record ((name, v) :: members) =>
    have hmembers := spellsMembers_pretty name v members (level + 1) level
    rw [pretty, block, if_neg (by simp [prettyMembers])]
    exact .record hmembers
termination_by sizeOf v

theorem spellsItems_pretty (v : Value) (items : List Value) (level level' : Nat) :
    SpellsItems v items
      (commaSeparated ((prettyItems level (v :: items)).map (newline level ++ ·)) ++
        newline level') := by
  match items with
  | [] =>
    rw [prettyItems, prettyItems, List.map_singleton, commaSeparated, List.append_assoc]
    exact .last (isSpace_newline _) (v.spells_pretty level) (isSpace_newline _)
  | w :: items =>
    have hrest := spellsItems_pretty w items level level'
    rw [prettyItems] at hrest ⊢
    rw [prettyItems]
    simp only [List.map_cons, commaSeparated, List.append_assoc, List.cons_append] at hrest ⊢
    exact .cons (isSpace_newline _) (v.spells_pretty level) isSpace_nil hrest
termination_by 1 + sizeOf v + sizeOf items

theorem spellsMembers_pretty (name : String) (v : Value) (members : List (String × Value))
    (level level' : Nat) :
    SpellsMembers name v members
      (commaSeparated ((prettyMembers level ((name, v) :: members)).map (newline level ++ ·)) ++
        newline level') := by
  match members with
  | [] =>
    rw [prettyMembers, prettyMembers, List.map_singleton, commaSeparated]
    simp only [List.append_assoc, List.cons_append]
    exact .last (isSpace_newline _) isSpace_nil isSpace_blank (v.spells_pretty level)
      (isSpace_newline _)
  | (name', w) :: members =>
    have hrest := spellsMembers_pretty name' w members level level'
    rw [prettyMembers] at hrest ⊢
    rw [prettyMembers]
    simp only [List.map_cons, commaSeparated, List.append_assoc, List.cons_append] at hrest ⊢
    exact .cons (isSpace_newline _) isSpace_nil isSpace_blank (v.spells_pretty level) isSpace_nil
      hrest
termination_by 1 + sizeOf v + sizeOf members

end

mutual

theorem spells_compact (v : Value) : Spells v v.compact := by
  match v with
  | null => exact .null
  | number n => exact .number n
  | text s => exact .text s
  | list [] => exact .emptyList isSpace_nil
  | list (v :: items) => exact .list (spellsItems_compact v items)
  | record [] => exact .emptyRecord isSpace_nil
  | record ((name, v) :: members) => exact .record (spellsMembers_compact name v members)
termination_by sizeOf v

theorem spellsItems_compact (v : Value) (items : List Value) :
    SpellsItems v items (commaSeparated (compactItems (v :: items))) := by
  match items with
  | [] =>
    have h := SpellsItems.last isSpace_nil v.spells_compact isSpace_nil
    rwa [List.append_nil] at h
  | w :: items =>
    exact .cons isSpace_nil v.spells_compact isSpace_nil (spellsItems_compact w items)
termination_by 1 + sizeOf v + sizeOf items

theorem spellsMembers_compact (name : String) (v : Value) (members : List (String × Value)) :
    SpellsMembers name v members (commaSeparated (compactMembers ((name, v) :: members))) := by
  match members with
  | [] =>
    have h : SpellsMembers name v [] _ := .last isSpace_nil isSpace_nil isSpace_nil
      v.spells_compact isSpace_nil
    rwa [List.append_nil] at h
  | (name', w) :: members =>
    have hrest := spellsMembers_compact name' w members
    have h : SpellsMembers name v ((name', w) :: members) _ := .cons isSpace_nil isSpace_nil
      isSpace_nil v.spells_compact isSpace_nil hrest
    simpa [compactMembers, commaSeparated] using h
termination_by 1 + sizeOf v + sizeOf members

end

end Value

end AssetCache.Json
