import AssetCache.Json.Token

namespace AssetCache.Json

/-- JSON text as a tree. Reading never fails: where the text breaks off, the tree holds the fault in
that place. `broken` of a list or record tells that it is not closed, and why. -/
inductive Node where
  | null
  | bool (b : Bool)
  | number (n : Number)
  | text (t : Text)
  | list (items : List Node) (broken : Option Fault)
  | record (members : List (Text × Node)) (broken : Option Fault)
  | broken (f : Fault)

/-- A list or record that is open and waits for a value, with what it holds, latest first. -/
inductive Level where
  | list (items : List Node)
  | record (members : List (Text × Node)) (key : Text)

inductive Place where
  | value
  | firstItem
  | afterItem (items : List Node)
  | firstKey
  | nextKey (members : List (Text × Node))
  | afterKey (members : List (Text × Node)) (key : Text)
  | afterMember (members : List (Text × Node))

inductive Progress where
  | reading (levels : List Level) (place : Place)
  | read (root : Node)

/-- A text's tree, and whether anything follows its value. -/
structure Document where
  root : Node
  trailing : Bool

namespace Level

def withLast (value : Node) : Level → Node
  | list items => .list (value :: items).reverse none
  | record members key => .record ((key, value) :: members).reverse none

end Level

namespace Progress

def after (levels : List Level) (value : Node) : Progress :=
  match levels with
  | [] => .read value
  | .list items :: levels => .reading levels (.afterItem (value :: items))
  | .record members key :: levels => .reading levels (.afterMember ((key, value) :: members))

def cutShort (levels : List Level) (value : Node) : Node :=
  levels.foldl (fun value level => level.withLast value) value

def value (levels : List Level) : Token → Progress
  | .null => after levels .null
  | .bool b => after levels (.bool b)
  | .number n => after levels (.number n)
  | .text t => if t.broken.isSome then .read (cutShort levels (.text t)) else after levels (.text t)
  | .openList => .reading levels .firstItem
  | .openRecord => .reading levels .firstKey
  | .broken f => .read (cutShort levels (.broken f))
  | _ => .read (cutShort levels (.broken .malformed))

def key (levels : List Level) (members : List (Text × Node)) : Token → Progress
  | .text t =>
    if t.broken.isSome then
      .read (cutShort levels (.record ((t, .broken .malformed) :: members).reverse none))
    else .reading levels (.afterKey members t)
  | _ => .read (cutShort levels (.record members.reverse (some .malformed)))

def step (levels : List Level) : Place → Token → Progress
  | .value, t => value levels t
  | .firstItem, .closeList => after levels (.list [] none)
  | .firstItem, t => value (.list [] :: levels) t
  | .afterItem items, .comma => .reading (.list items :: levels) .value
  | .afterItem items, .closeList => after levels (.list items.reverse none)
  | .afterItem items, _ => .read (cutShort levels (.list items.reverse (some .malformed)))
  | .firstKey, .closeRecord => after levels (.record [] none)
  | .firstKey, t => key levels [] t
  | .nextKey members, t => key levels members t
  | .afterKey members name, .colon => .reading (.record members name :: levels) .value
  | .afterKey members name, _ =>
    .read (cutShort levels (.record ((name, .broken .malformed) :: members).reverse none))
  | .afterMember members, .comma => .reading levels (.nextKey members)
  | .afterMember members, .closeRecord => after levels (.record members.reverse none)
  | .afterMember members, _ =>
    .read (cutShort levels (.record members.reverse (some .malformed)))

def ended (levels : List Level) : Place → Node
  | .value => cutShort levels (.broken .truncated)
  | .firstItem => cutShort levels (.list [] (some .truncated))
  | .afterItem items => cutShort levels (.list items.reverse (some .truncated))
  | .firstKey => cutShort levels (.record [] (some .truncated))
  | .nextKey members => cutShort levels (.record members.reverse (some .truncated))
  | .afterKey members name =>
    cutShort levels (.record ((name, .broken .truncated) :: members).reverse none)
  | .afterMember members => cutShort levels (.record members.reverse (some .truncated))

def run (p : Progress) (cs : List Char) : Document :=
  match p with
  | .read root => ⟨root, (next? cs).isSome⟩
  | .reading levels place =>
    match _h : next? cs with
    | none => ⟨ended levels place, false⟩
    | some (t, rest) => (step levels place t).run rest
termination_by cs.length
decreasing_by exact next?_length _h

end Progress

def Document.ofChars (cs : List Char) : Document :=
  if cs.isEmpty then ⟨.broken .empty, false⟩ else (Progress.reading [] .value).run cs

end AssetCache.Json
