namespace AssetCache.Toml

structure Date where
  year : Nat
  month : Nat
  day : Nat
deriving DecidableEq, Repr

structure Time where
  hour : Nat
  minute : Nat
  second : Nat
  nanosecond : Nat
deriving DecidableEq, Repr

inductive Offset where
  | z
  | minutes (n : Int)
deriving DecidableEq, Repr

structure Moment where
  date : Option Date
  time : Option Time
  offset : Option Offset
deriving DecidableEq, Repr

def twoDigits (n : Nat) : List Char := [Nat.digitChar (n / 10 % 10), Nat.digitChar (n % 10)]

def numberOf (ds : List Char) : Nat := ds.foldl (fun n d => n * 10 + (d.toNat - '0'.toNat)) 0

def digits? (n : Nat) (cs : List Char) : Option (Nat × List Char) :=
  let ds := cs.take n
  if ds.length = n ∧ ds.all Char.isDigit then some (numberOf ds, cs.drop n) else none

def daysIn (year month : Nat) : Nat :=
  if month = 2 then
    if year % 4 = 0 ∧ (year % 100 ≠ 0 ∨ year % 400 = 0) then 29 else 28
  else if month = 4 ∨ month = 6 ∨ month = 9 ∨ month = 11 then 30
  else 31

def expect (c : Char) : List Char → Option (List Char)
  | d :: cs => if d = c then some cs else none
  | [] => none

def date? (cs : List Char) : Option (Date × List Char) := do
  let (year, cs) ← digits? 4 cs
  let (month, cs) ← digits? 2 (← expect '-' cs)
  let (day, cs) ← digits? 2 (← expect '-' cs)
  if 1 ≤ month ∧ month ≤ 12 ∧ 1 ≤ day ∧ day ≤ daysIn year month then
    some (⟨year, month, day⟩, cs)
  else none

/-- The nanoseconds of a fraction: nine digits of it count. -/
def fraction? : List Char → Option (Nat × List Char)
  | '.' :: cs =>
    match cs.takeWhile Char.isDigit with
    | [] => none
    | ds =>
      let nine := ds.take 9
      some (numberOf (nine ++ List.replicate (9 - nine.length) '0'), cs.dropWhile Char.isDigit)
  | cs => some (0, cs)

def time? (cs : List Char) : Option (Time × List Char) := do
  let (hour, cs) ← digits? 2 cs
  let (minute, cs) ← digits? 2 (← expect ':' cs)
  let (second, cs) ← digits? 2 (← expect ':' cs)
  let (nanosecond, cs) ← fraction? cs
  if hour ≤ 23 ∧ minute ≤ 59 ∧ second ≤ 60 then some (⟨hour, minute, second, nanosecond⟩, cs)
  else none

def offset? : List Char → Option (Option Offset)
  | [] => some none
  | ['Z'] | ['z'] => some (some .z)
  | sign :: cs => do
    let (hours, cs) ← digits? 2 cs
    let (minutes, cs) ← digits? 2 (← expect ':' cs)
    if !cs.isEmpty || 23 < hours || 59 < minutes then none
    else
      let n : Int := hours * 60 + minutes
      if sign = '+' then some (some (.minutes n))
      else if sign = '-' then some (some (.minutes (-n)))
      else none

def Moment.ofChars? (cs : List Char) : Option Moment :=
  match date? cs with
  | some (date, []) => some ⟨some date, none, none⟩
  | some (date, c :: cs) =>
    if c = 'T' ∨ c = 't' ∨ c = ' ' then
      match time? cs with
      | some (time, cs) => (offset? cs).map fun offset => ⟨some date, some time, offset⟩
      | none => none
    else none
  | none =>
    match time? cs with
    | some (time, []) => some ⟨none, some time, none⟩
    | _ => none

def Date.text (d : Date) : List Char :=
  twoDigits (d.year / 100) ++ twoDigits d.year ++ '-' :: twoDigits d.month ++
    '-' :: twoDigits d.day

def Time.text (t : Time) : List Char :=
  twoDigits t.hour ++ ':' :: twoDigits t.minute ++ ':' :: twoDigits t.second ++
    if t.nanosecond = 0 then []
    else
      let ds := Nat.toDigits 10 (1000000000 + t.nanosecond)
      '.' :: ((ds.drop 1).reverse.dropWhile (· == '0')).reverse

def Offset.text : Offset → List Char
  | z => ['Z']
  | minutes n =>
    (if n < 0 then '-' else '+') :: twoDigits (n.natAbs / 60) ++ ':' :: twoDigits (n.natAbs % 60)

def Moment.text (m : Moment) : String :=
  let between := if m.date.isSome && m.time.isSome then ['T'] else []
  String.ofList <|
    m.date.elim [] Date.text ++ between ++ m.time.elim [] Time.text ++ m.offset.elim [] Offset.text

end AssetCache.Toml
