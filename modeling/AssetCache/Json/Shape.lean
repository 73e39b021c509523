import AssetCache.Json.Node

namespace AssetCache.Json

/-- Where a double ends: a decimal of this size or above it has no finite double. -/
def doubleLimit : Nat := Nat.pow 2 1024 - Nat.pow 2 970

namespace Number

def decimalDigits (n : Nat) : Nat := (Nat.toDigits 10 n).length

def isOverlarge (n : Number) : Bool :=
  if n.mantissa = 0 then false
  else
    let size : Int := decimalDigits n.mantissa + n.exponent
    if size > 310 then true
    else if size < 308 then false
    else if 0 ≤ n.exponent then doubleLimit ≤ n.mantissa * Nat.pow 10 n.exponent.toNat
    else doubleLimit * Nat.pow 10 (-n.exponent).toNat ≤ n.mantissa

def int? (n : Number) : Option Int :=
  if !n.isWhole then none
  else if n.negative then
    if n.mantissa = 0 ∨ Nat.pow 2 63 < n.mantissa then none else some (-n.mantissa)
  else if n.mantissa < Nat.pow 2 64 then some n.mantissa
  else none

end Number

def Text.fault? (t : Text) : Option Fault := if t.unpaired then some .malformed else t.broken

namespace Node

mutual

def skipFault : Node → Option Fault
  | null | bool _ | number _ => none
  | text t => t.broken
  | list items gap => skipItems items gap
  | record members gap => skipMembers members gap
  | broken f => some f

def skipItems : List Node → Option Fault → Option Fault
  | [], gap => gap
  | v :: rest, gap => v.skipFault <|> skipItems rest gap

def skipMembers : List (Text × Node) → Option Fault → Option Fault
  | [], gap => gap
  | (key, v) :: rest, gap => key.broken <|> v.skipFault <|> skipMembers rest gap

end

mutual

/-- The first fault of a value of any shape that is read, with room for `levels` more levels of
lists and records. -/
def readFault (levels : Nat) : Node → Option Fault
  | null | bool _ => none
  | number n => if n.isOverlarge then some .malformed else none
  | text t => t.fault?
  | list items gap =>
    match levels with
    | 0 => some .malformed
    | levels + 1 => readItemsFault levels items gap
  | record members gap =>
    match levels with
    | 0 => some .malformed
    | levels + 1 => readMembersFault levels members gap
  | broken f => some f

def readItemsFault (levels : Nat) : List Node → Option Fault → Option Fault
  | [], gap => gap
  | v :: rest, gap => v.readFault levels <|> readItemsFault levels rest gap

def readMembersFault (levels : Nat) : List (Text × Node) → Option Fault → Option Fault
  | [], gap => gap
  | (key, v) :: rest, gap =>
    key.fault? <|> v.readFault levels <|> readMembersFault levels rest gap

end

/-- The fault of a value where another shape is wanted: its own, if it is one token. -/
def otherFault : Node → Fault
  | null | bool _ | list _ _ | record _ _ => .mismatch
  | number n => if n.isOverlarge then .malformed else .mismatch
  | text t => t.fault?.getD .mismatch
  | broken f => f

def asText : Node → Except Fault String
  | text t =>
    match t.fault? with
    | none => .ok (String.ofList t.chars)
    | some f => .error f
  | v => .error v.otherFault

def asNat (limit : Nat) : Node → Except Fault Nat
  | number n =>
    match n.int? with
    | some (.ofNat k) => if k < limit then .ok k else .error .mismatch
    | _ => .error (number n).otherFault
  | v => .error v.otherFault

def endOf {α : Type} (result : Except Fault α) : Option Fault → Except Fault α
  | none => result
  | some f => .error f

def readItems {α : Type} (read : Node → Except Fault α) (done : List α) :
    List Node → Option Fault → Except Fault (List α)
  | [], gap => endOf (.ok done.reverse) gap
  | v :: rest, gap =>
    match read v with
    | .error f => .error f
    | .ok a => readItems read (a :: done) rest gap

def asList {α : Type} (read : Node → Except Fault α) : Node → Except Fault (List α)
  | list items gap => readItems read [] items gap
  | v => .error v.otherFault

def asPair {α β : Type} (first : Node → Except Fault α) (second : Node → Except Fault β) :
    Node → Except Fault (α × β)
  | list [] gap => endOf (.error .mismatch) gap
  | list [a] gap => do
    let _ ← first a
    endOf (.error .mismatch) gap
  | list (a :: b :: rest) gap => do
    let a ← first a
    let b ← second b
    if rest.isEmpty then endOf (.ok (a, b)) gap else .error .malformed
  | v => .error v.otherFault

def asOptional {α : Type} (read : Node → Except Fault α) : Node → Except Fault (Option α)
  | null => .ok none
  | v => (read v).map some

structure Field (σ : Type) where
  name : String
  isSet : σ → Bool
  read : Node → σ → Except Fault σ

def readMembers {σ : Type} (fields : List (Field σ)) (s : σ) :
    List (Text × Node) → Option Fault → Except Fault σ
  | [], gap => endOf (.ok s) gap
  | (key, v) :: rest, gap =>
    match key.fault? with
    | some f => .error f
    | none =>
      match fields.find? fun field => field.name.toList == key.chars with
      | none =>
        match v.skipFault with
        | some f => .error f
        | none => readMembers fields s rest gap
      | some field =>
        if field.isSet s then .error .mismatch
        else
          match field.read v s with
          | .error f => .error f
          | .ok s => readMembers fields s rest gap

def readOrdered {σ : Type} (s : σ) :
    List (Field σ) → List Node → Option Fault → Except Fault σ
  | _, [], gap => endOf (.ok s) gap
  | [], _ :: _, _ => .error .malformed
  | field :: fields, v :: rest, gap =>
    match field.read v s with
    | .error f => .error f
    | .ok s => readOrdered s fields rest gap

/-- A record of fields by name, among others that do not count, or a list of them in order. -/
def asFields {σ : Type} (fields : List (Field σ)) (start : σ) : Node → Except Fault σ
  | record members gap => readMembers fields start members gap
  | list items gap => readOrdered start fields items gap
  | v => .error v.otherFault

end Node

def read {α : Type} (read : Node → Except Fault α) (cs : List Char) : Except Fault α :=
  let doc := Document.ofChars cs
  match read doc.root with
  | .error f => .error f
  | .ok a => if doc.trailing then .error .malformed else .ok a

end AssetCache.Json
