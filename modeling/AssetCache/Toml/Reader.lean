import AssetCache.Toml.Value

namespace AssetCache.Toml

def isScalarChar (c : Char) : Bool :=
  c.isAlphanum || c == '+' || c == '-' || c == '_' || c == '.' || c == ':'

/-- The text of a scalar. A date may be followed by its time after a blank. -/
def scalarText (cs : List Char) : List Char × List Char :=
  let head := cs.takeWhile isScalarChar
  let rest := cs.dropWhile isScalarChar
  match date? head, rest with
  | some (_, []), ' ' :: a :: b :: ':' :: more =>
    if a.isDigit && b.isDigit then
      let time := a :: b :: ':' :: more.takeWhile isScalarChar
      (head ++ ' ' :: time, more.dropWhile isScalarChar)
    else (head, rest)
  | _, _ => (head, rest)

def scalarOf (cs : List Char) : Option Value :=
  if cs = "true".toList then some (.bool true)
  else if cs = "false".toList then some (.bool false)
  else
    (Moment.ofChars? cs).map .moment <|> (int? cs).map .int <|> (float? cs).map .float

def readScalar (cs : List Char) : Option (Value × List Char) :=
  let (text, rest) := scalarText cs
  (scalarOf text).map fun v => (v, rest)

def skipComment (cs : List Char) : List Char := cs.dropWhile (!isControl ·)

def skipBlank : Nat → List Char → List Char
  | 0, cs => skipLines cs
  | n + 1, cs =>
    match skipLines cs with
    | '#' :: rest => skipBlank n (skipComment rest)
    | cs => cs

def readItems (item : List Char → Option (Value × List Char)) (read : List Value) :
    Nat → List Char → Option (List Value × List Char)
  | 0, _ => none
  | n + 1, cs =>
    match skipBlank cs.length cs with
    | ']' :: rest => some (read.reverse, rest)
    | cs =>
      match item cs with
      | none => none
      | some (v, rest) =>
        match skipBlank rest.length rest with
        | ',' :: rest => readItems item (v :: read) n rest
        | ']' :: rest => some ((v :: read).reverse, rest)
        | _ => none

def readMembers (item : List Char → Option (Value × List Char)) (read : Members) :
    Nat → List Char → Option (Members × List Char)
  | 0, _ => none
  | n + 1, cs =>
    match readKey cs with
    | some (key, '=' :: rest) =>
      match item (skipWhite rest) with
      | none => none
      | some (v, rest) =>
        match read.assign .headed v key with
        | none => none
        | some read =>
          match skipWhite rest with
          | ',' :: rest => readMembers item read n rest
          | '\x7d' :: rest => some (read, rest)
          | _ => none
    | _ => none

def readInlineTable (item : List Char → Option (Value × List Char)) (cs : List Char) :
    Option (Value × List Char) :=
  match skipWhite cs with
  | '\x7d' :: rest => some (.table [], rest)
  | cs =>
    (readMembers item [] cs.length cs).map fun (ms, rest) => (.table (membersToValue ms), rest)

def readValue : Nat → List Char → Option (Value × List Char)
  | 0, cs =>
    match cs with
    | '[' :: _ | '\x7b' :: _ => none
    | '"' :: _ | '\'' :: _ => (readString cs).map fun (s, rest) => (.text (String.ofList s), rest)
    | _ => readScalar cs
  | depth + 1, cs =>
    match cs with
    | '[' :: rest =>
      (readItems (readValue depth) [] (rest.length + 1) rest).map fun (vs, rest) => (.list vs, rest)
    | '\x7b' :: rest => readInlineTable (readValue depth) rest
    | '"' :: _ | '\'' :: _ => (readString cs).map fun (s, rest) => (.text (String.ofList s), rest)
    | _ => readScalar cs

/-- A document as far as it has been read: all its tables, and the path of the one that is being
filled. -/
structure Draft where
  members : Members
  path : List String

namespace Draft

def assign (d : Draft) (key : List String) (v : Value) : Option Draft :=
  if d.path.isEmpty then (d.members.assign .headed v key).map fun members => { d with members }
  else
    let change : Members → String → Option Members := fun ms name =>
      match ms.lookup name with
      | some (.table style inner) =>
        (Members.assign .headed inner v key).map fun inner => ms.set name (.table style inner)
      | some (.tables earlier (some last)) =>
        (Members.assign .headed last v key).map fun last =>
          ms.set name (.tables earlier (some last))
      | _ => none
    (d.members.update change d.path).map fun members => { d with members }

def header (d : Draft) (change : Members → String → Option Members) (path : List String) :
    Option Draft :=
  (d.members.update change path).map fun members => ⟨members, path⟩

end Draft

def readLineEnd (cs : List Char) : Option (List Char) :=
  let cs := match skipWhite cs with
    | '#' :: rest => skipComment rest
    | cs => cs
  match cs with
  | [] => some []
  | '\n' :: rest => some rest
  | '\r' :: '\n' :: rest => some rest
  | _ => none

def readLine (d : Draft) (cs : List Char) : Option (Draft × List Char) :=
  match skipWhite cs with
  | [] => some (d, [])
  | '#' :: _ | '\n' :: _ | '\r' :: _ => (readLineEnd cs).map fun rest => (d, rest)
  | '[' :: '[' :: rest =>
    match readKey rest with
    | some (path, ']' :: ']' :: rest) => do
      let rest ← readLineEnd rest
      some (← d.header beginListed path, rest)
    | _ => none
  | '[' :: rest =>
    match readKey rest with
    | some (path, ']' :: rest) => do
      let rest ← readLineEnd rest
      some (← d.header beginTable path, rest)
    | _ => none
  | cs =>
    match readKey cs with
    | some (key, '=' :: rest) => do
      let (v, rest) ← readValue maxDepth (skipWhite rest)
      let rest ← readLineEnd rest
      some (← d.assign key v, rest)
    | _ => none

def readDocumentLines (d : Draft) : Nat → List Char → Option Draft
  | _, [] => some d
  | 0, _ :: _ => none
  | n + 1, cs =>
    match readLine d cs with
    | none => none
    | some (d, rest) => readDocumentLines d n rest

/-- The members of a document. A byte order mark in front does not count. -/
def read (s : String) : Option (List (String × Value)) :=
  let cs := match s.toList with
    | '\ufeff' :: rest => rest
    | cs => cs
  (readDocumentLines ⟨[], []⟩ (cs.length + 1) cs).map fun d => membersToValue d.members

end AssetCache.Toml
