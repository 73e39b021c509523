import AssetCache.Proofs.Base64
import AssetCache.Proofs.Json.Layout
import AssetCache.Proofs.Store.Entries
import AssetCache.Store.Snapshot

namespace AssetCache

namespace Json

namespace Value

theorem nodeItems_eq (items : List Value) : nodeItems items = items.map node := by
  induction items with
  | nil => rfl
  | cons v items ih => rw [nodeItems, ih, List.map_cons]

end Value

namespace Node

variable {α β σ : Type}

theorem asText_node (s : String) : (Value.text s).node.asText = .ok s := by
  simp [Value.node, asText, Text.fault?, Text.plain]

theorem asNat_node {n limit : Nat} (hn : n < limit) (hlimit : limit ≤ Nat.pow 2 64) :
    (Value.number n).node.asNat limit = .ok n := by
  have hint : Number.int? ⟨false, n, 0, true⟩ = some (.ofNat n) := by
    have hlt : n < Nat.pow 2 64 := Nat.lt_of_lt_of_le hn hlimit
    simp [Number.int?, hlt]
  rw [Value.node, asNat, hint]
  simp only [hn, if_true]

theorem asList_node {read : Node → Except Fault β} {toJson : α → Value} {f : α → β}
    (h : ∀ a, read (toJson a).node = .ok (f a)) (l : List α) :
    (Value.list (l.map toJson)).node.asList read = .ok (l.map f) := by
  have hitems : ∀ done : List β, readItems read done (l.map fun a => (toJson a).node) none =
      .ok (done.reverse ++ l.map f) := by
    induction l with
    | nil => intro done; simp [readItems, endOf]
    | cons a l ih =>
      intro done
      rw [List.map_cons, readItems, h]
      dsimp only
      rw [ih]
      simp
  rw [Value.node, Value.nodeItems_eq, List.map_map, asList]
  exact hitems []

theorem readMembers_plain {fields : List (Field σ)} {field : Field σ} {s s' : σ} {name : String}
    {v : Node} {rest : List (Text × Node)}
    (hf : (fields.find? fun field => field.name.toList == name.toList) = some field)
    (hset : field.isSet s = false) (hread : field.read v s = .ok s') :
    readMembers fields s ((.plain name, v) :: rest) none = readMembers fields s' rest none := by
  rw [readMembers]
  simp [Text.fault?, Text.plain, hf, hset, hread]

end Node

end Json

namespace Response

open Json

theorem bodyOfNode_bodyText (r : Response) :
    bodyOfNode (Value.text r.bodyText).node = .ok r.body := by
  rw [bodyOfNode, Node.asText_node]
  simp only [bodyText, String.toList_ofList, Base64.decode_encode]

theorem asNat_status (r : Response) :
    (Value.number r.status.toNat).node.asNat 65536 = .ok r.status.toNat :=
  Node.asNat_node r.status.toNat_lt (by decide)

theorem asList_headers (r : Response) :
    (Value.list (r.headers.map Header.toJson)).node.asList (Node.asPair Node.asText Node.asText) =
      .ok r.headers := by
  have hheader : ∀ h : Header, Node.asPair Node.asText Node.asText h.toJson.node = .ok h := by
    intro h
    rw [Header.toJson, Value.node, Value.nodeItems_eq]
    simp only [List.map_cons, List.map_nil, Node.asPair, Node.asText_node]
    rfl
  have hheaders := Node.asList_node hheader r.headers
  rwa [List.map_id'] at hheaders

theorem ofNode_toJson (r : Response) : ofNode r.toJson.node = .ok r := by
  have hparts : Node.asFields Parts.fields ⟨none, none, none⟩ r.toJson.node =
      .ok ⟨some r.status, some r.headers, some r.body⟩ := by
    rw [toJson, Value.node]
    simp only [Value.nodeMembers, Node.asFields]
    rw [Node.readMembers_plain rfl rfl
      (by dsimp only; rw [asNat_status, Except.map, UInt16.ofNat_toNat])]
    rw [Node.readMembers_plain rfl rfl (by dsimp only; rw [asList_headers, Except.map])]
    rw [Node.readMembers_plain rfl rfl (by dsimp only; rw [bodyOfNode_bodyText, Except.map])]
    rfl
  rw [ofNode, hparts]
  rfl

end Response

namespace Snapshot

open Json

/-- What stands in a record with an entry besides its response. -/
theorem entryOfNode_entryToJson (e : Key × Response) : entryOfNode (entryToJson e).node = .ok e := by
  have hmembers : readMembers [] none
      [(.plain "method", (Value.text e.1.method).node), (.plain "url", (Value.text e.1.url).node),
        (.plain "response", e.2.toJson.node)] none =
      .ok ([(.plain "method", (Value.text e.1.method).node),
        (.plain "url", (Value.text e.1.url).node)], e.2) := by
    simp [readMembers, Text.plain, Text.fault?, Response.ofNode_toJson, Value.node,
      Node.readFault]
  have hkey : Node.readMembers KeyParts.fields ⟨none, none⟩
      [(.plain "method", (Value.text e.1.method).node), (.plain "url", (Value.text e.1.url).node)]
      none = .ok ⟨some e.1.method, some e.1.url⟩ := by
    rw [Node.readMembers_plain rfl rfl (by dsimp only; rw [Node.asText_node, Except.map])]
    rw [Node.readMembers_plain rfl rfl (by dsimp only; rw [Node.asText_node, Except.map])]
    rfl
  rw [entryToJson, Value.node]
  simp only [Value.nodeMembers, entryOfNode, hmembers]
  dsimp only [bind, Except.bind]
  rw [hkey]
  rfl

theorem ofNode_toJson (name : String) (entries : Entries) :
    ofNode (toJson name entries).node = .ok (name, entries.list) := by
  have hentries := Node.asList_node entryOfNode_entryToJson entries.list
  rw [List.map_id'] at hentries
  have hparts : Node.asFields Parts.fields ⟨none, none⟩ (toJson name entries).node =
      .ok ⟨some name, some entries.list⟩ := by
    rw [toJson, Value.node]
    simp only [Value.nodeMembers, Node.asFields]
    rw [Node.readMembers_plain rfl rfl (by dsimp only; rw [Node.asText_node, Except.map])]
    rw [Node.readMembers_plain rfl rfl (by dsimp only; rw [hentries, Except.map])]
    rfl
  rw [ofNode, hparts]
  rfl

theorem fromUTF8?_toUTF8 (s : String) : String.fromUTF8? s.toUTF8 = some s := by
  rw [String.toUTF8_eq_toByteArray, String.fromUTF8?, dif_pos s.isValidUTF8]
  rfl

theorem decode_encode (name : String) (entries : Entries) :
    decode (encode name entries) = .ok (name, entries.list) := by
  rw [decode, encode, fromUTF8?_toUTF8]
  simp only [text, String.toList_ofList, Json.read, (Value.spells_pretty _ 0).document, ofNode_toJson]
  rfl

theorem load_encode (home name : String) (entries : Entries) :
    load home name (encode name entries) = .ok entries := by
  rw [load, decode_encode]
  simp only [if_true, Entries.ofList_list]

end Snapshot

end AssetCache
