namespace AssetCache.Json

/-- Why text cannot be read: there is none, it breaks the grammar, it ends too early, or it holds a
value of another shape than the one wanted. -/
inductive Fault where
  | empty
  | malformed
  | truncated
  | mismatch
deriving DecidableEq, Repr

def Fault.message : Fault → String
  | empty => "EOF while parsing a value at line 1 column 0"
  | malformed => "malformed text"
  | truncated => "text ends too early"
  | mismatch => "value of another shape"

/-- A text between quotes. `unpaired` tells of half a surrogate pair among the escapes, which is no
fault of a text that is skipped. -/
structure Text where
  chars : List Char
  unpaired : Bool
  broken : Option Fault
deriving DecidableEq, Repr

structure Number where
  negative : Bool
  mantissa : Nat
  exponent : Int
  isWhole : Bool
deriving DecidableEq, Repr

inductive Token where
  | null
  | bool (b : Bool)
  | number (n : Number)
  | text (t : Text)
  | broken (f : Fault)
  | comma
  | colon
  | openList
  | closeList
  | openRecord
  | closeRecord
deriving DecidableEq, Repr

def hexValue? (c : Char) : Option Nat :=
  if c.isDigit then some (c.toNat - '0'.toNat)
  else if 'a' ≤ c ∧ c ≤ 'f' then some (c.toNat - 'a'.toNat + 10)
  else if 'A' ≤ c ∧ c ≤ 'F' then some (c.toNat - 'A'.toNat + 10)
  else none

/-- Four hexadecimal digits; they are missed only where fewer than four bytes are left. -/
def readUnit (cs : List Char) : Except Fault (Nat × List Char) :=
  match cs with
  | a :: b :: c :: d :: rest =>
    match hexValue? a, hexValue? b, hexValue? c, hexValue? d with
    | some a, some b, some c, some d => .ok (((a * 16 + b) * 16 + c) * 16 + d, rest)
    | _, _, _, _ => .error .malformed
  | cs => .error (if (String.ofList cs).utf8ByteSize < 4 then .truncated else .malformed)

inductive Escape where
  | char (c : Char)
  | unpaired
  | broken (f : Fault)
deriving DecidableEq, Repr

def isLead (n : Nat) : Bool := 0xd800 ≤ n && n < 0xdc00

def isTrail (n : Nat) : Bool := 0xdc00 ≤ n && n < 0xe000

def readTrail (lead : Nat) : List Char → Escape × List Char
  | [] => (.broken .truncated, [])
  | ['\\'] => (.broken .truncated, [])
  | '\\' :: 'u' :: cs =>
    match readUnit cs with
    | .error f => (.broken f, [])
    | .ok (trail, rest) =>
      if isTrail trail then
        (.char (Char.ofNat (0x10000 + (lead - 0xd800) * 0x400 + (trail - 0xdc00))), rest)
      else (.unpaired, rest)
  | cs => (.unpaired, cs)

def readEscape : List Char → Escape × List Char
  | [] => (.broken .truncated, [])
  | c :: cs =>
    match c with
    | '"' => (.char '"', cs)
    | '\\' => (.char '\\', cs)
    | '/' => (.char '/', cs)
    | 'b' => (.char '\x08', cs)
    | 'f' => (.char '\x0c', cs)
    | 'n' => (.char '\n', cs)
    | 'r' => (.char '\r', cs)
    | 't' => (.char '\t', cs)
    | 'u' =>
      match readUnit cs with
      | .error f => (.broken f, [])
      | .ok (n, rest) =>
        if isLead n then readTrail n rest
        else if isTrail n then (.unpaired, rest)
        else (.char (Char.ofNat n), rest)
    | _ => (.broken .malformed, [])

theorem readUnit_length {cs : List Char} {n : Nat} {rest : List Char}
    (h : readUnit cs = .ok (n, rest)) : rest.length ≤ cs.length := by
  unfold readUnit at h
  split at h
  · split at h
    · simp only [Except.ok.injEq, Prod.mk.injEq] at h
      simp only [← h.2, List.length_cons]
      omega
    · simp at h
  · simp at h

theorem readTrail_length (lead : Nat) (cs : List Char) :
    (readTrail lead cs).2.length ≤ cs.length := by
  unfold readTrail
  split
  · simp
  · simp
  · split
    · simp
    · next h =>
      have := readUnit_length h
      split <;> simp only [List.length_cons] <;> omega
  · simp

theorem readEscape_length (cs : List Char) : (readEscape cs).2.length ≤ cs.length := by
  unfold readEscape
  split
  · simp
  · split <;> try simp
    split
    · simp
    · next n rest h =>
      have h₁ := readUnit_length h
      have h₂ := readTrail_length n rest
      split
      · omega
      · split <;> (simp only; omega)

def readText (read : List Char) (unpaired : Bool) (cs : List Char) : Text × List Char :=
  match cs with
  | [] => (⟨read.reverse, unpaired, some .truncated⟩, [])
  | c :: cs =>
    if c = '"' then (⟨read.reverse, unpaired, none⟩, cs)
    else if c = '\\' then
      let e := readEscape cs
      match e.1 with
      | .char d => readText (d :: read) unpaired e.2
      | .unpaired => readText read true e.2
      | .broken f => (⟨read.reverse, unpaired, some f⟩, [])
    else if c.toNat < 0x20 then (⟨read.reverse, unpaired, some .malformed⟩, [])
    else readText (c :: read) unpaired cs
termination_by cs.length
decreasing_by
  · exact Nat.lt_succ_of_le (readEscape_length cs)
  · exact Nat.lt_succ_of_le (readEscape_length cs)
  · exact Nat.lt_succ_self _

theorem readText_length (read : List Char) (unpaired : Bool) (cs : List Char) :
    (readText read unpaired cs).2.length ≤ cs.length := by
  induction hn : cs.length using Nat.strongRecOn generalizing read unpaired cs with
  | _ n ih =>
    subst hn
    unfold readText
    split
    · simp
    · next c cs =>
      have h := readEscape_length cs
      have step : ∀ (r : List Char) (u : Bool) (ds : List Char), ds.length ≤ cs.length →
          (readText r u ds).2.length ≤ (c :: cs).length := fun r u ds hd =>
        Nat.le_trans (ih ds.length (Nat.lt_succ_of_le hd) r u ds rfl)
          (Nat.le_trans hd (Nat.le_succ _))
      split
      · exact Nat.le_succ _
      · split
        · dsimp only
          split
          · exact step _ _ _ h
          · exact step _ _ _ h
          · exact Nat.zero_le _
        · split
          · exact Nat.zero_le _
          · exact step _ _ _ (Nat.le_refl _)

/-- Digits that have to be there: cut short at the end of the text, else malformed. -/
def wantDigits (cs : List Char) : Except Fault (List Char × List Char) :=
  match cs with
  | [] => .error .truncated
  | c :: rest =>
    if c.isDigit then .ok (c :: rest.takeWhile Char.isDigit, rest.dropWhile Char.isDigit)
    else .error .malformed

def digitsNat (ds : List Char) : Nat := ds.foldl (fun n d => n * 10 + (d.toNat - '0'.toNat)) 0

def readFraction : List Char → Except Fault (List Char × List Char)
  | '.' :: cs => wantDigits cs
  | cs => .ok ([], cs)

def exponentDigits (negative : Bool) (cs : List Char) : Except Fault (Option Int × List Char) :=
  match wantDigits cs with
  | .error f => .error f
  | .ok (ds, rest) => .ok (some (if negative then -digitsNat ds else digitsNat ds), rest)

def readExponent : List Char → Except Fault (Option Int × List Char)
  | c :: cs =>
    if c = 'e' ∨ c = 'E' then
      match cs with
      | '+' :: ds => exponentDigits false ds
      | '-' :: ds => exponentDigits true ds
      | ds => exponentDigits false ds
    else .ok (none, c :: cs)
  | [] => .ok (none, [])

def readNumber (negative : Bool) (cs : List Char) : Except Fault (Number × List Char) :=
  match wantDigits cs with
  | .error f => .error f
  | .ok (whole, rest) =>
    if whole.head? = some '0' ∧ whole.length ≠ 1 then .error .malformed
    else
      match readFraction rest with
      | .error f => .error f
      | .ok (fraction, rest) =>
        match readExponent rest with
        | .error f => .error f
        | .ok (exponent, rest) =>
          .ok (⟨negative, digitsNat (whole ++ fraction), exponent.getD 0 - fraction.length,
            fraction.isEmpty && exponent.isNone⟩, rest)

theorem length_dropWhile_le (p : Char → Bool) (cs : List Char) :
    (cs.dropWhile p).length ≤ cs.length := by
  induction cs with
  | nil => simp
  | cons c cs ih =>
    rw [List.dropWhile_cons]
    split
    · exact Nat.le_trans ih (Nat.le_succ _)
    · exact Nat.le_refl _

theorem wantDigits_length {cs ds rest : List Char} (h : wantDigits cs = .ok (ds, rest)) :
    rest.length < cs.length := by
  unfold wantDigits at h
  split at h
  · simp at h
  · next c r =>
    split at h
    · simp only [Except.ok.injEq, Prod.mk.injEq] at h
      rw [← h.2]
      exact Nat.lt_succ_of_le (length_dropWhile_le _ _)
    · simp at h

theorem readFraction_length {cs ds rest : List Char} (h : readFraction cs = .ok (ds, rest)) :
    rest.length ≤ cs.length := by
  unfold readFraction at h
  split at h
  · exact Nat.le_trans (Nat.le_of_lt (wantDigits_length h)) (Nat.le_succ _)
  · simp only [Except.ok.injEq, Prod.mk.injEq] at h
    exact Nat.le_of_eq (by rw [h.2])

theorem exponentDigits_length {negative : Bool} {cs rest : List Char} {e : Option Int}
    (h : exponentDigits negative cs = .ok (e, rest)) : rest.length ≤ cs.length := by
  unfold exponentDigits at h
  split at h
  · simp at h
  · next h' =>
    simp only [Except.ok.injEq, Prod.mk.injEq] at h
    rw [← h.2]
    exact Nat.le_of_lt (wantDigits_length h')

theorem readExponent_length {cs rest : List Char} {e : Option Int}
    (h : readExponent cs = .ok (e, rest)) : rest.length ≤ cs.length := by
  unfold readExponent at h
  split at h
  · split at h
    · split at h
      all_goals
        have := exponentDigits_length h
        simp only [List.length_cons]
        omega
    · simp only [Except.ok.injEq, Prod.mk.injEq] at h
      exact Nat.le_of_eq (by rw [h.2])
  · simp only [Except.ok.injEq, Prod.mk.injEq] at h
    exact Nat.le_of_eq (by rw [h.2])

theorem readNumber_length {negative : Bool} {cs rest : List Char} {n : Number}
    (h : readNumber negative cs = .ok (n, rest)) : rest.length < cs.length := by
  unfold readNumber at h
  split at h
  · simp at h
  · next hd =>
    split at h
    · simp at h
    · split at h
      · simp at h
      · next hf =>
        split at h
        · simp at h
        · next he =>
          simp only [Except.ok.injEq, Prod.mk.injEq] at h
          rw [← h.2]
          exact Nat.lt_of_le_of_lt (Nat.le_trans (readExponent_length he) (readFraction_length hf))
            (wantDigits_length hd)

def readWord : List Char → Token → List Char → Token × List Char
  | [], token, cs => (token, cs)
  | _ :: _, _, [] => (.broken .truncated, [])
  | w :: word, token, c :: cs =>
    if c = w then readWord word token cs else (.broken .malformed, [])

def ofNumber : Except Fault (Number × List Char) → Token × List Char
  | .ok (n, rest) => (.number n, rest)
  | .error f => (.broken f, [])

/-- The token that begins with `c`; nothing follows one that is broken. -/
def tokenAt (c : Char) (cs : List Char) : Token × List Char :=
  match c with
  | '[' => (.openList, cs)
  | ']' => (.closeList, cs)
  | '\x7b' => (.openRecord, cs)
  | '\x7d' => (.closeRecord, cs)
  | ',' => (.comma, cs)
  | ':' => (.colon, cs)
  | '"' =>
    let (t, rest) := readText [] false cs
    (.text t, rest)
  | 'n' => readWord "ull".toList .null cs
  | 't' => readWord "rue".toList (.bool true) cs
  | 'f' => readWord "alse".toList (.bool false) cs
  | '-' => ofNumber (readNumber true cs)
  | c => if c.isDigit then ofNumber (readNumber false (c :: cs)) else (.broken .malformed, [])

def isSpace (c : Char) : Bool := c == ' ' || c == '\t' || c == '\n' || c == '\r'

def next? (cs : List Char) : Option (Token × List Char) :=
  match cs.dropWhile isSpace with
  | [] => none
  | c :: cs => some (tokenAt c cs)

theorem readWord_length (word : List Char) (token : Token) (cs : List Char) :
    (readWord word token cs).2.length ≤ cs.length := by
  induction word generalizing cs with
  | nil => exact Nat.le_refl _
  | cons w word ih =>
    cases cs with
    | nil => exact Nat.le_refl _
    | cons c cs =>
      rw [readWord]
      split
      · exact Nat.le_trans (ih cs) (Nat.le_succ _)
      · exact Nat.zero_le _

theorem ofNumber_length {r : Except Fault (Number × List Char)} {n : Nat}
    (h : ∀ a rest, r = .ok (a, rest) → rest.length ≤ n) : (ofNumber r).2.length ≤ n := by
  cases r with
  | error => exact Nat.zero_le _
  | ok p => exact h p.1 p.2 rfl

theorem tokenAt_length (c : Char) (cs : List Char) : (tokenAt c cs).2.length ≤ cs.length := by
  unfold tokenAt
  split
  iterate 6 exact Nat.le_refl _
  · exact readText_length _ _ _
  iterate 3 exact readWord_length _ _ _
  · exact ofNumber_length fun _ _ h => Nat.le_of_lt (readNumber_length h)
  · split
    · exact ofNumber_length fun _ _ h => Nat.le_of_lt_succ (readNumber_length h)
    · exact Nat.zero_le _

theorem next?_length {cs rest : List Char} {t : Token} (h : next? cs = some (t, rest)) :
    rest.length < cs.length := by
  unfold next? at h
  have hd := length_dropWhile_le isSpace cs
  split at h
  · simp at h
  · next c cs' hc =>
    simp only [Option.some.injEq] at h
    have := tokenAt_length c cs'
    rw [h] at this
    rw [hc] at hd
    exact Nat.lt_of_le_of_lt this hd

end AssetCache.Json
