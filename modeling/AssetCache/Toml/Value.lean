import AssetCache.Toml.Moment
import AssetCache.Toml.Number
import AssetCache.Toml.Text

namespace AssetCache.Toml

inductive Value where
  | text (s : String)
  | int (n : Int)
  | float (x : Decimal.Binary64)
  | bool (b : Bool)
  | moment (m : Moment)
  | list (items : List Value)
  | table (members : List (String × Value))

/-- A table has a header of its own, stands on the way to another's header, or comes of a dotted
key. -/
inductive Style where
  | headed
  | implied
  | dotted
deriving DecidableEq, Repr

/-- `tables` is a list of tables, the last one first; only this one can be extended. -/
inductive Item where
  | value (v : Value)
  | table (style : Style) (members : List (String × Item))
  | tables (earlier : List (List (String × Item))) (last : Option (List (String × Item)))

abbrev Members := List (String × Item)

def Members.set (ms : Members) (key : String) (item : Item) : Members :=
  if ms.any (·.1 == key) then ms.map fun p => if p.1 = key then (key, item) else p
  else ms ++ [(key, item)]

/-- A key and its value in a table of this style. A dotted key makes the tables on its way; it can
go on in tables that dotted keys made, and the last one has to be such a table. -/
def Members.assign (style : Style) (ms : Members) (v : Value) : List String → Option Members
  | [] => none
  | [key] => if (ms.lookup key).isSome then none else some (ms.set key (.value v))
  | key :: rest =>
    let onlyKey := rest.length = 1
    match ms.lookup key with
    | none => (Members.assign .dotted [] v rest).map fun inner => ms.set key (.table .dotted inner)
    | some (.table .dotted inner) =>
      (Members.assign .dotted inner v rest).map fun inner => ms.set key (.table .dotted inner)
    | some (.table .implied inner) =>
      if onlyKey then none
      else
        (Members.assign .implied inner v rest).map fun inner => ms.set key (.table .implied inner)
    | some (.tables earlier (some last)) =>
      if onlyKey then none
      else
        (Members.assign style last v rest).map fun last =>
          ms.set key (.tables earlier (some last))
    | some _ => none

def Members.update (change : Members → String → Option Members) (ms : Members) :
    List String → Option Members
  | [] => none
  | [key] => change ms key
  | key :: rest =>
    match ms.lookup key with
    | none => (Members.update change [] rest).map fun inner => ms.set key (.table .implied inner)
    | some (.table style inner) =>
      (Members.update change inner rest).map fun inner => ms.set key (.table style inner)
    | some (.tables earlier (some last)) =>
      (Members.update change last rest).map fun last => ms.set key (.tables earlier (some last))
    | some _ => none

/-- A table's header: it may have been implied before, but not been made in another way. -/
def beginTable (ms : Members) (key : String) : Option Members :=
  match ms.lookup key with
  | none => some (ms.set key (.table .headed []))
  | some (.table .implied inner) => some (ms.set key (.table .headed inner))
  | some _ => none

def beginListed (ms : Members) (key : String) : Option Members :=
  match ms.lookup key with
  | none => some (ms.set key (.tables [] (some [])))
  | some (.tables earlier (some last)) => some (ms.set key (.tables (last :: earlier) (some [])))
  | some _ => none

mutual

def Item.toValue : Item → Value
  | .value v => v
  | .table _ members => .table (membersToValue members)
  | .tables earlier last =>
    .list ((tablesToValue earlier).reverse ++
      match last with
      | none => []
      | some ms => [.table (membersToValue ms)])

def membersToValue : List (String × Item) → List (String × Value)
  | [] => []
  | (key, item) :: rest => (key, item.toValue) :: membersToValue rest

def tablesToValue : List (List (String × Item)) → List Value
  | [] => []
  | ms :: rest => .table (membersToValue ms) :: tablesToValue rest

end

end AssetCache.Toml
