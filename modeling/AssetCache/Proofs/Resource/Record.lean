import AssetCache.Proofs.Base64.Standard
import AssetCache.Proofs.Json.Shape
import AssetCache.Proofs.Store.Codec

namespace AssetCache

namespace Json

def Value.unnamed : Value → Value
  | record members => list (members.map (·.2))
  | v => v

def Node.valuesOf (name : String) (members : List (Text × Node)) : List Node :=
  (members.filter fun m => m.1.chars == name.toList).map (·.2)

variable {name : String} {key : Text} {v : Node} {rest : List (Text × Node)}

theorem Node.valuesOf_cons_self (h : key.chars = name.toList) :
    valuesOf name ((key, v) :: rest) = v :: valuesOf name rest := by
  simp [valuesOf, h]

theorem Node.valuesOf_cons_of_ne (h : key.chars ≠ name.toList) :
    valuesOf name ((key, v) :: rest) = valuesOf name rest := by
  simp [valuesOf, h]

end Json

namespace Response

open Json

variable {α β ε : Type} {R : Node → α → Prop} {r : Response} {v : Node} {vs : List Node} {a : α}
  {old new : Option α} {key : Text} {members rest : List (Text × Node)} {gap : Option Fault} {body : ByteArray}
  {p q : Parts}

def IsBody (v : Node) (body : ByteArray) : Prop :=
  ∃ s : String, v.IsText s ∧ Base64.IsStandard body.data.toList s.toList

theorem bodyOfNode_eq_ok_iff : bodyOfNode v = .ok body ↔ IsBody v body := by
  rw [bodyOfNode]
  constructor
  · intro h
    cases hs : v.asText with
    | error f =>
      rw [hs] at h
      cases h
    | ok s =>
      rw [hs] at h
      dsimp only at h
      cases hbytes : Base64.decode s.toList with
      | none =>
        rw [hbytes] at h
        cases h
      | some bytes =>
        rw [hbytes] at h
        cases h
        exact ⟨s, Node.asText_eq_ok_iff.mp hs, Base64.decode_eq_some_iff.mp hbytes⟩
  · rintro ⟨s, hs, hbody⟩
    rw [Node.asText_eq_ok_iff.mpr hs]
    dsimp only
    rw [Base64.decode_eq_some_iff.mpr hbody]

def IsStatus (v : Node) (n : UInt16) : Prop := v.IsWhole n.toNat

def IsHeaders (v : Node) (headers : List Header) : Prop :=
  v.IsList (Node.IsPair Node.IsText Node.IsText) headers

theorem asHeaders_eq_ok_iff {headers : List Header} :
    v.asList (Node.asPair Node.asText Node.asText) = .ok headers ↔ IsHeaders v headers :=
  Node.asList_eq_ok_iff fun _ _ =>
    Node.asPair_eq_ok_iff (fun _ _ => Node.asText_eq_ok_iff) fun _ _ => Node.asText_eq_ok_iff

/-- A member of a record that is passed over or may be read: any other field has only to be sound. -/
def IsSound (m : Text × Node) : Prop :=
  m.1.fault? = none ∧
    (m.1.chars ≠ "status".toList → m.1.chars ≠ "headers".toList → m.1.chars ≠ "body".toList →
      m.2.skipFault = none)

/-- A record that stands for a response: each of the three fields is there, and once. -/
structure Describes (members : List (Text × Node)) (r : Response) : Prop where
  sound : ∀ m ∈ members, IsSound m
  status : ∃ v, Node.valuesOf "status" members = [v] ∧ IsStatus v r.status
  headers : ∃ v, Node.valuesOf "headers" members = [v] ∧ IsHeaders v r.headers
  body : ∃ v, Node.valuesOf "body" members = [v] ∧ IsBody v r.body

inductive Fills (R : Node → α → Prop) : List Node → Option α → Option α → Prop
  | keep (old : Option α) : Fills R [] old old
  | set {v : Node} {a : α} (h : R v a) : Fills R [v] none (some a)

theorem fills_cons_iff :
    Fills R (v :: vs) old new ↔ old = none ∧ ∃ a, R v a ∧ Fills R vs (some a) new := by
  constructor
  · intro h
    cases h with
    | set h => exact ⟨rfl, _, h, .keep _⟩
  · rintro ⟨rfl, a, h, ⟨⟩⟩
    exact .set h

theorem fills_none_some_iff : Fills R vs none (some a) ↔ ∃ v, vs = [v] ∧ R v a := by
  constructor
  · intro h
    cases h with
    | set h => exact ⟨_, rfl, h⟩
  · rintro ⟨v, rfl, h⟩
    exact .set h

theorem exists_map_eq_ok {e : Except ε α} {f : α → β} {P : β → Prop} :
    (∃ b, e.map f = .ok b ∧ P b) ↔ ∃ a, e = .ok a ∧ P (f a) := by
  constructor
  · rintro ⟨b, hb, hp⟩
    cases e with
    | error => cases hb
    | ok a =>
      cases hb
      exact ⟨a, rfl, hp⟩
  · rintro ⟨a, rfl, hp⟩
    exact ⟨f a, rfl, hp⟩

theorem asStatus_eq_ok_iff {P : UInt16 → Prop} :
    (∃ n, v.asNat 65536 = .ok n ∧ P (UInt16.ofNat n)) ↔ ∃ n, IsStatus v n ∧ P n := by
  constructor
  · rintro ⟨n, hn, hp⟩
    obtain ⟨hwhole, hlt⟩ := (Node.asNat_eq_ok_iff (by decide)).mp hn
    refine ⟨UInt16.ofNat n, ?_, hp⟩
    rwa [IsStatus, UInt16.toNat_ofNat', Nat.mod_eq_of_lt hlt]
  · rintro ⟨n, hwhole, hp⟩
    refine ⟨n.toNat, (Node.asNat_eq_ok_iff (by decide)).mpr ⟨hwhole, n.toNat_lt⟩, ?_⟩
    rwa [UInt16.ofNat_toNat]

theorem isSound_of_known (h : key.chars = "status".toList ∨ key.chars = "headers".toList ∨
    key.chars = "body".toList) : IsSound (key, v) ↔ key.fault? = none := by
  refine ⟨And.left, fun hkey => ⟨hkey, fun hstatus hheaders hbody => ?_⟩⟩
  obtain h | h | h := h
  · exact absurd h hstatus
  · exact absurd h hheaders
  · exact absurd h hbody

structure Parts.Reads (members : List (Text × Node)) (p q : Parts) : Prop where
  sound : ∀ m ∈ members, IsSound m
  status : Fills IsStatus (Node.valuesOf "status" members) p.status q.status
  headers : Fills IsHeaders (Node.valuesOf "headers" members) p.headers q.headers
  body : Fills IsBody (Node.valuesOf "body" members) p.body q.body

namespace Parts

theorem reads_nil_iff : Reads [] p q ↔ p = q := by
  constructor
  · obtain ⟨status, headers, body⟩ := p
    obtain ⟨status', headers', body'⟩ := q
    rintro ⟨-, ⟨⟩, ⟨⟩, ⟨⟩⟩
    rfl
  · rintro rfl
    exact ⟨List.forall_mem_nil _, .keep _, .keep _, .keep _⟩

theorem reads_cons_iff {m : Text × Node} :
    Reads (m :: rest) p q ↔ IsSound m ∧ (∀ m ∈ rest, IsSound m) ∧
      Fills IsStatus (Node.valuesOf "status" (m :: rest)) p.status q.status ∧
      Fills IsHeaders (Node.valuesOf "headers" (m :: rest)) p.headers q.headers ∧
      Fills IsBody (Node.valuesOf "body" (m :: rest)) p.body q.body := by
  constructor
  · rintro ⟨hsound, hstatus, hheaders, hbody⟩
    obtain ⟨hm, hsound⟩ := List.forall_mem_cons.mp hsound
    exact ⟨hm, hsound, hstatus, hheaders, hbody⟩
  · rintro ⟨hm, hsound, hstatus, hheaders, hbody⟩
    exact ⟨List.forall_mem_cons.mpr ⟨hm, hsound⟩, hstatus, hheaders, hbody⟩

theorem reads_status_iff (h : key.chars = "status".toList) :
    Reads ((key, v) :: rest) p q ↔ key.fault? = none ∧ p.status = none ∧
      ∃ n, IsStatus v n ∧ Reads rest { p with status := some n } q := by
  rw [reads_cons_iff, isSound_of_known (.inl h), Node.valuesOf_cons_self h,
    Node.valuesOf_cons_of_ne (h.trans_ne (by decide)),
    Node.valuesOf_cons_of_ne (h.trans_ne (by decide)), fills_cons_iff]
  constructor
  · rintro ⟨hkey, hsound, ⟨hnone, n, hv, hstatus⟩, hheaders, hbody⟩
    exact ⟨hkey, hnone, n, hv, hsound, hstatus, hheaders, hbody⟩
  · rintro ⟨hkey, hnone, n, hv, hsound, hstatus, hheaders, hbody⟩
    exact ⟨hkey, hsound, ⟨hnone, n, hv, hstatus⟩, hheaders, hbody⟩

theorem reads_headers_iff (h : key.chars = "headers".toList) :
    Reads ((key, v) :: rest) p q ↔ key.fault? = none ∧ p.headers = none ∧
      ∃ l, IsHeaders v l ∧ Reads rest { p with headers := some l } q := by
  rw [reads_cons_iff, isSound_of_known (.inr (.inl h)), Node.valuesOf_cons_self h,
    Node.valuesOf_cons_of_ne (h.trans_ne (by decide)),
    Node.valuesOf_cons_of_ne (h.trans_ne (by decide)), fills_cons_iff]
  constructor
  · rintro ⟨hkey, hsound, hstatus, ⟨hnone, l, hv, hheaders⟩, hbody⟩
    exact ⟨hkey, hnone, l, hv, hsound, hstatus, hheaders, hbody⟩
  · rintro ⟨hkey, hnone, l, hv, hsound, hstatus, hheaders, hbody⟩
    exact ⟨hkey, hsound, hstatus, ⟨hnone, l, hv, hheaders⟩, hbody⟩

theorem reads_body_iff (h : key.chars = "body".toList) :
    Reads ((key, v) :: rest) p q ↔ key.fault? = none ∧ p.body = none ∧
      ∃ b, IsBody v b ∧ Reads rest { p with body := some b } q := by
  rw [reads_cons_iff, isSound_of_known (.inr (.inr h)), Node.valuesOf_cons_self h,
    Node.valuesOf_cons_of_ne (h.trans_ne (by decide)),
    Node.valuesOf_cons_of_ne (h.trans_ne (by decide)), fills_cons_iff]
  constructor
  · rintro ⟨hkey, hsound, hstatus, hheaders, hnone, b, hv, hbody⟩
    exact ⟨hkey, hnone, b, hv, hsound, hstatus, hheaders, hbody⟩
  · rintro ⟨hkey, hnone, b, hv, hsound, hstatus, hheaders, hbody⟩
    exact ⟨hkey, hsound, hstatus, hheaders, hnone, b, hv, hbody⟩

theorem reads_unknown_iff (hstatus : key.chars ≠ "status".toList)
    (hheaders : key.chars ≠ "headers".toList) (hbody : key.chars ≠ "body".toList) :
    Reads ((key, v) :: rest) p q ↔
      key.fault? = none ∧ v.skipFault = none ∧ Reads rest p q := by
  rw [reads_cons_iff, Node.valuesOf_cons_of_ne hstatus, Node.valuesOf_cons_of_ne hheaders,
    Node.valuesOf_cons_of_ne hbody]
  constructor
  · rintro ⟨⟨hkey, hskip⟩, hsound, hrest⟩
    exact ⟨hkey, hskip hstatus hheaders hbody, hsound, hrest.1, hrest.2.1, hrest.2.2⟩
  · rintro ⟨hkey, hskip, hrest⟩
    exact ⟨⟨hkey, fun _ _ _ => hskip⟩, hrest.sound, hrest.status, hrest.headers, hrest.body⟩

theorem find?_of_unknown {cs : List Char} (hstatus : cs ≠ "status".toList)
    (hheaders : cs ≠ "headers".toList) (hbody : cs ≠ "body".toList) :
    (fields.find? fun field => field.name.toList == cs) = none := by
  refine List.find?_eq_none.mpr fun field hfield => ?_
  rw [beq_iff_eq]
  simp only [fields, List.mem_cons, List.not_mem_nil, or_false] at hfield
  obtain rfl | rfl | rfl := hfield
  · exact hstatus.symm
  · exact hheaders.symm
  · exact hbody.symm

theorem response_eq_ok_iff :
    p.response = .ok r ↔ p = ⟨some r.status, some r.headers, some r.body⟩ := by
  constructor
  · intro h
    obtain ⟨_ | status, _ | headers, _ | body⟩ := p <;> cases h
    rfl
  · rintro rfl
    rfl

end Parts

theorem readMembers_eq_ok_iff :
    Node.readMembers Parts.fields p members gap = .ok q ↔ gap = none ∧ Parts.Reads members p q := by
  induction members generalizing p with
  | nil =>
    rw [Node.readMembers, Node.endOf_eq_ok_iff, Parts.reads_nil_iff, Except.ok.injEq]
  | cons m rest ih =>
    obtain ⟨key, v⟩ := m
    rw [Node.readMembers_cons_eq_ok_iff]
    by_cases hstatus : key.chars = "status".toList
    · rw [Parts.reads_status_iff hstatus, hstatus]
      change _ ∧ p.status.isSome = false ∧ (∃ b, Except.map _ _ = _ ∧ _) ↔ _
      rw [exists_map_eq_ok, Option.isSome_eq_false_iff, Option.isNone_iff_eq_none]
      simp only [ih]
      rw [asStatus_eq_ok_iff (P := fun n => gap = none ∧
        Parts.Reads rest { p with status := some n } q)]
      simp only [and_left_comm, exists_and_left]
    · by_cases hheaders : key.chars = "headers".toList
      · rw [Parts.reads_headers_iff hheaders, hheaders]
        change _ ∧ p.headers.isSome = false ∧ (∃ b, Except.map _ _ = _ ∧ _) ↔ _
        rw [exists_map_eq_ok, Option.isSome_eq_false_iff, Option.isNone_iff_eq_none]
        simp only [ih, asHeaders_eq_ok_iff, and_left_comm, exists_and_left]
      · by_cases hbody : key.chars = "body".toList
        · rw [Parts.reads_body_iff hbody, hbody]
          change _ ∧ p.body.isSome = false ∧ (∃ b, Except.map _ _ = _ ∧ _) ↔ _
          rw [exists_map_eq_ok, Option.isSome_eq_false_iff, Option.isNone_iff_eq_none]
          simp only [ih, bodyOfNode_eq_ok_iff, and_left_comm, exists_and_left]
        · rw [Parts.reads_unknown_iff hstatus hheaders hbody,
            Parts.find?_of_unknown hstatus hheaders hbody]
          simp only [ih, and_left_comm]

/-- A record is a response if and only if it stands for it. -/
theorem ofNode_record_eq_ok_iff :
    ofNode (.record members gap) = .ok r ↔ gap = none ∧ Describes members r := by
  have hreads : Parts.Reads members ⟨none, none, none⟩
      ⟨some r.status, some r.headers, some r.body⟩ ↔ Describes members r := by
    constructor
    · rintro ⟨hsound, hstatus, hheaders, hbody⟩
      exact ⟨hsound, fills_none_some_iff.mp hstatus, fills_none_some_iff.mp hheaders,
        fills_none_some_iff.mp hbody⟩
    · rintro ⟨hsound, hstatus, hheaders, hbody⟩
      exact ⟨hsound, fills_none_some_iff.mpr hstatus, fills_none_some_iff.mpr hheaders,
        fills_none_some_iff.mpr hbody⟩
  rw [← hreads, ← readMembers_eq_ok_iff, ofNode, Node.asFields]
  cases hread : Node.readMembers Parts.fields ⟨none, none, none⟩ members gap with
  | error f => exact iff_of_false (fun h => by cases h) fun h => by cases h
  | ok p => exact Parts.response_eq_ok_iff.trans (by rw [Except.ok.injEq])

theorem ofNode_unnamed (r : Response) : ofNode r.toJson.unnamed.node = .ok r := by
  have hparts : Node.readOrdered ⟨none, none, none⟩ Parts.fields
      [(Value.number r.status.toNat).node, (Value.list (r.headers.map Header.toJson)).node,
        (Value.text r.bodyText).node] none = .ok ⟨some r.status, some r.headers, some r.body⟩ := by
    simp only [Parts.fields, Node.readOrdered, asNat_status, asList_headers, bodyOfNode_bodyText,
      Except.map, UInt16.ofNat_toNat, Node.endOf]
  change (Node.readOrdered ⟨none, none, none⟩ Parts.fields _ none).bind Parts.response = _
  exact congrArg (Except.bind · Parts.response) hparts

theorem ofJson_of_spells {w : Value} {cs : List Char} (h : Spells w cs)
    (hread : ofNode w.node = .ok r) : ofJson cs = .ok r := by
  rw [ofJson, Json.read, h.document]
  dsimp only
  rw [hread]
  rfl

theorem isText_node_iff {s s' : String} : (Value.text s).node.IsText s' ↔ s = s' := by
  rw [← Node.asText_eq_ok_iff, Node.asText_node, Except.ok.injEq]

theorem bodyOfNode_text_iff {s : String} :
    bodyOfNode (Value.text s).node = .ok body ↔ Base64.IsStandard body.data.toList s.toList := by
  rw [bodyOfNode_eq_ok_iff]
  constructor
  · rintro ⟨s', hs, hbody⟩
    rwa [isText_node_iff.mp hs]
  · exact fun hbody => ⟨s, isText_node_iff.mpr rfl, hbody⟩

theorem eq_bodyText_iff {s : String} :
    s = r.bodyText ↔ Base64.IsStandard r.body.data.toList s.toList := by
  rw [Base64.isStandard_iff, bodyText, ← String.toList_inj, String.toList_ofList]

theorem response_encoding_is_faithful :
    -- A response is read from its record as it was, and from the list of its fields in order.
    (∀ (r : Response) (v : Value), v = r.toJson ∨ v = r.toJson.unnamed →
      (∀ cs, Spells v cs → ofJson cs = .ok r) ∧
        ofJson v.compact = .ok r ∧ ofJson (v.pretty 0) = .ok r) ∧
    -- A text is read as a body if and only if it is the Base64 of it, and then it is written again.
    (∀ s : String,
      ((∃ body, bodyOfNode (Value.text s).node = .ok body) ↔
        ∃ bytes, Base64.IsStandard bytes s.toList) ∧
      (∀ r : Response, bodyOfNode (Value.text s).node = .ok r.body ↔ r.bodyText = s) ∧
      ∀ s' body, bodyOfNode (Value.text s).node = .ok body →
        bodyOfNode (Value.text s').node = .ok body → s = s') ∧
    -- A record is read as a response if and only if it is sound and has all three fields.
    ∀ cs members gap r, (Document.ofChars cs).root = .record members gap →
      (ofJson cs = .ok r ↔
        (Document.ofChars cs).trailing = false ∧ gap = none ∧ Describes members r) := by
  refine ⟨?_, fun s => ⟨?_, ?_, ?_⟩, ?_⟩
  · intro r v hv
    have hread : ofNode v.node = .ok r := by
      obtain rfl | rfl := hv
      · exact ofNode_toJson r
      · exact ofNode_unnamed r
    have hspells : ∀ cs, Spells v cs → ofJson cs = .ok r := fun cs h => ofJson_of_spells h hread
    exact ⟨hspells, hspells _ v.spells_compact, hspells _ (v.spells_pretty 0)⟩
  · constructor
    · rintro ⟨body, h⟩
      exact ⟨body.data.toList, bodyOfNode_text_iff.mp h⟩
    · rintro ⟨bytes, h⟩
      exact ⟨⟨bytes.toArray⟩, bodyOfNode_text_iff.mpr h⟩
  · intro r
    rw [bodyOfNode_text_iff, ← eq_bodyText_iff, eq_comm]
  · intro s' body h h'
    have heq := (bodyOfNode_text_iff.mp h).unique (bodyOfNode_text_iff.mp h')
    exact String.toList_inj.mp heq
  · intro cs members gap r hroot
    rw [ofJson, Json.read, hroot, ← ofNode_record_eq_ok_iff]
    cases ofNode (.record members gap) with
    | error f => exact iff_of_false (fun h => by cases h) fun h => by cases h.2
    | ok r' =>
      cases (Document.ofChars cs).trailing with
      | true => exact iff_of_false (fun h => by cases h) fun h => by cases h.1
      | false => exact ⟨fun h => ⟨rfl, h⟩, And.right⟩

end Response

end AssetCache
