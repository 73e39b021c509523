namespace AssetCache.Toml

def isWhite (c : Char) : Bool := c == ' ' || c == '\t'

def isControl (c : Char) : Bool := (c.toNat < 0x20 && c != '\t') || c.toNat == 0x7f

def isBareKeyChar (c : Char) : Bool := c.isAlphanum || c == '_' || c == '-'

def hexValue? (c : Char) : Option Nat :=
  if c.isDigit then some (c.toNat - '0'.toNat)
  else if 'a' ≤ c ∧ c ≤ 'f' then some (c.toNat - 'a'.toNat + 10)
  else if 'A' ≤ c ∧ c ≤ 'F' then some (c.toNat - 'A'.toNat + 10)
  else none

def codePoint? (n : Nat) (cs : List Char) : Option (Char × List Char) :=
  let digits := cs.take n
  if digits.length ≠ n then none
  else
    match digits.mapM hexValue? with
    | none => none
    | some ds =>
      let code := ds.foldl (fun a d => a * 16 + d) 0
      if Nat.isValidChar code then some (Char.ofNat code, cs.drop n) else none

def escape? : List Char → Option (Char × List Char)
  | [] => none
  | c :: cs =>
    match c with
    | 'b' => some ('\x08', cs)
    | 't' => some ('\t', cs)
    | 'n' => some ('\n', cs)
    | 'f' => some ('\x0c', cs)
    | 'r' => some ('\r', cs)
    | '"' => some ('"', cs)
    | '\\' => some ('\\', cs)
    | 'u' => codePoint? 4 cs
    | 'U' => codePoint? 8 cs
    | _ => none

theorem codePoint?_length {n : Nat} {cs rest : List Char} {c : Char}
    (h : codePoint? n cs = some (c, rest)) : rest.length ≤ cs.length := by
  simp only [codePoint?] at h
  split at h
  · simp at h
  · split at h
    · simp at h
    · split at h
      · simp only [Option.some.injEq, Prod.mk.injEq] at h
        rw [← h.2, List.length_drop]
        omega
      · simp at h

theorem escape?_length {cs rest : List Char} {c : Char} (h : escape? cs = some (c, rest)) :
    rest.length < cs.length := by
  unfold escape? at h
  split at h
  · simp at h
  · split at h
    iterate 7
      simp only [Option.some.injEq, Prod.mk.injEq] at h
      rw [← h.2]
      exact Nat.lt_succ_self _
    · exact Nat.lt_succ_of_le (codePoint?_length h)
    · exact Nat.lt_succ_of_le (codePoint?_length h)
    · simp at h

def readBasic (read : List Char) (cs : List Char) : Option (List Char × List Char) :=
  match cs with
  | [] => none
  | c :: cs =>
    if c = '"' then some (read.reverse, cs)
    else if c = '\\' then
      match _h : escape? cs with
      | none => none
      | some (d, rest) => readBasic (d :: read) rest
    else if isControl c then none
    else readBasic (c :: read) cs
termination_by cs.length
decreasing_by
  · exact Nat.lt_succ_of_lt (escape?_length _h)
  · exact Nat.lt_succ_self _

def readLiteral (read : List Char) : List Char → Option (List Char × List Char)
  | [] => none
  | c :: cs =>
    if c = '\'' then some (read.reverse, cs)
    else if isControl c then none
    else readLiteral (c :: read) cs

def skipLines : List Char → List Char
  | [] => []
  | c :: cs =>
    if isWhite c || c == '\n' then skipLines cs
    else if c = '\r' then
      match cs with
      | '\n' :: rest => skipLines rest
      | _ => c :: cs
    else c :: cs

theorem skipLines_length (cs : List Char) : (skipLines cs).length ≤ cs.length := by
  fun_induction skipLines cs <;> simp_all <;> omega

def atLineEnd : List Char → Bool
  | '\n' :: _ => true
  | '\r' :: '\n' :: _ => true
  | _ => false

def continued? (cs : List Char) : Option (List Char) :=
  if atLineEnd (cs.dropWhile isWhite) then some (skipLines cs) else none

/-- The quotes at the head of `cs`, if they end a string of several lines: three do, and one or two
before them belong to the string. -/
def closing? (quote : Char) (cs : List Char) : Option (List Char × List Char) :=
  let run := (cs.takeWhile (· == quote)).length
  if run < 3 then none
  else
    let own := min (run - 3) 2
    some (List.replicate own quote, cs.drop (own + 3))

def readLines (read : List Char) (cs : List Char) : Option (List Char × List Char) :=
  match cs with
  | [] => none
  | c :: cs =>
    if c = '"' then
      match closing? '"' (c :: cs) with
      | some (own, rest) => some (read.reverse ++ own, rest)
      | none => readLines (c :: read) cs
    else if c = '\n' then readLines (c :: read) cs
    else if c = '\r' then
      match cs with
      | '\n' :: rest => readLines ('\n' :: read) rest
      | _ => none
    else if c = '\\' then
      match _h : continued? cs with
      | some rest => readLines read rest
      | none =>
        match _h : escape? cs with
        | none => none
        | some (d, rest) => readLines (d :: read) rest
    else if isControl c then none
    else readLines (c :: read) cs
termination_by cs.length
decreasing_by
  · exact Nat.lt_succ_self _
  · exact Nat.lt_succ_self _
  · simp only [List.length_cons]; omega
  · unfold continued? at _h
    split at _h
    · simp only [Option.some.injEq] at _h
      exact _h ▸ Nat.lt_succ_of_le (skipLines_length _)
    · simp at _h
  · exact Nat.lt_succ_of_lt (escape?_length _h)
  · exact Nat.lt_succ_self _

def readLiteralLines (read : List Char) : List Char → Option (List Char × List Char)
  | [] => none
  | c :: cs =>
    if c = '\'' then
      match closing? '\'' (c :: cs) with
      | some (own, rest) => some (read.reverse ++ own, rest)
      | none => readLiteralLines (c :: read) cs
    else if c = '\n' then readLiteralLines (c :: read) cs
    else if c = '\r' then
      match cs with
      | '\n' :: rest => readLiteralLines ('\n' :: read) rest
      | _ => none
    else if isControl c then none
    else readLiteralLines (c :: read) cs

/-- A line end right after the opening quotes does not count. -/
def dropLineEnd : List Char → List Char
  | '\n' :: cs => cs
  | '\r' :: '\n' :: cs => cs
  | cs => cs

def readString : List Char → Option (List Char × List Char)
  | '"' :: '"' :: '"' :: cs => readLines [] (dropLineEnd cs)
  | '"' :: cs => readBasic [] cs
  | '\'' :: '\'' :: '\'' :: cs => readLiteralLines [] (dropLineEnd cs)
  | '\'' :: cs => readLiteral [] cs
  | _ => none

def readKeyPart : List Char → Option (List Char × List Char)
  | '"' :: cs => readBasic [] cs
  | '\'' :: cs => readLiteral [] cs
  | cs =>
    match cs.takeWhile isBareKeyChar with
    | [] => none
    | key => some (key, cs.dropWhile isBareKeyChar)

def skipWhite (cs : List Char) : List Char := cs.dropWhile isWhite

def readKeyParts : Nat → List Char → Option (List String × List Char)
  | 0, _ => none
  | n + 1, cs =>
    match readKeyPart (skipWhite cs) with
    | none => none
    | some (part, rest) =>
      match skipWhite rest with
      | '.' :: rest =>
        (readKeyParts n rest).map fun (parts, rest) => (String.ofList part :: parts, rest)
      | rest => some ([String.ofList part], rest)

/-- How many parts a key may have, and how many lists and tables may stand inside one another. -/
def maxDepth : Nat := 79

def readKey (cs : List Char) : Option (List String × List Char) := readKeyParts maxDepth cs

end AssetCache.Toml
