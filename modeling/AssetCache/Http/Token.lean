import AssetCache.Bytes
import AssetCache.Text.Letter

namespace AssetCache.Http

def isTokenChar (c : Char) : Bool :=
  c.isAlphanum || "!#$%&'*+-.^_\x60|~".toList.contains c

def isToken (s : String) : Bool := !s.toList.isEmpty && s.toList.all isTokenChar

/-- A method is a token; its case counts. -/
structure Method where
  name : String
  isToken_name : isToken name = true

namespace Method

instance : DecidableEq Method := fun a b =>
  decidable_of_iff (a.name = b.name) ⟨fun h => by cases a; cases b; simp_all, fun h => h ▸ rfl⟩

def ofString? (s : String) : Option Method := if h : isToken s = true then some ⟨s, h⟩ else none

def get : Method := ⟨"GET", by decide⟩

end Method

def headerName? (s : String) : Option String :=
  if isToken s && s.toList.length < 65536 then some (String.ofList (Text.lower s.toList)) else none

/-- A value holds no control character but the tab; all beyond ASCII may stand in it. -/
def isHeaderValue (v : ByteArray) : Bool :=
  v.data.toList.all fun b => b == 9 || (32 ≤ b && b != 127)

def visible? (v : ByteArray) : Option String :=
  if v.data.toList.all fun b => b == 9 || (32 ≤ b && b < 127) then
    some (String.ofList (v.data.toList.map fun b => Char.ofNat b.toNat))
  else none

abbrev Field := String × ByteArray

inductive FieldFault where
  | name
  | value
deriving DecidableEq, Repr

def field (name : String) (value : ByteArray) : Except FieldFault Field :=
  match headerName? name with
  | none => .error .name
  | some name => if isHeaderValue value then .ok (name, value) else .error .value

def IsLegal (f : Field) : Prop := field f.1 f.2 = .ok f

instance (f : Field) : Decidable (IsLegal f) :=
  match h : field f.1 f.2 with
  | .error _ => isFalse (by simp [IsLegal, h])
  | .ok g => decidable_of_iff (g = f) (by simp [IsLegal, h])

/-- The fields of one name stand together, where the first of them stands. -/
def grouped (fields : List Field) : List Field :=
  let names := fields.foldl (fun names f => if f.1 ∈ names then names else names ++ [f.1]) []
  names.flatMap fun name => fields.filter fun f => f.1 = name

end AssetCache.Http
