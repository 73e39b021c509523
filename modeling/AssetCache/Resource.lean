import AssetCache.Http.Token
import AssetCache.Url.Edit

namespace AssetCache

abbrev Header := String × String

structure Request where
  method : Http.Method
  url : Url
  headers : List Header
  body : Option ByteArray
deriving DecidableEq

/-- The identity of a request: its method and its URL without the fragment. -/
structure Key where
  method : String
  url : String
deriving DecidableEq, Repr

def Key.lt (a b : Key) : Prop := a.method < b.method ∨ (a.method = b.method ∧ a.url < b.url)

instance : LT Key := ⟨Key.lt⟩

instance (a b : Key) : Decidable (a < b) :=
  inferInstanceAs (Decidable (a.method < b.method ∨ (a.method = b.method ∧ a.url < b.url)))

def Key.of (method : Http.Method) (url : Url) : Key := ⟨method.name, url.withoutFragment.text⟩

namespace Request

def get (url : Url) : Request := ⟨.get, url, [], none⟩

def key (r : Request) : Key := .of r.method r.url

end Request

structure Response where
  status : UInt16
  headers : List Header
  body : ByteArray
deriving DecidableEq

namespace Response

def header? (r : Response) (name : String) : Option String :=
  (r.headers.find? fun h => Text.sameLetters h.1 name).map (·.2)

def isSuccess (r : Response) : Bool := 200 ≤ r.status && r.status < 300

end Response

theorem Key.lt_irrefl (a : Key) : ¬ a < a := by
  rintro (h | ⟨_, h⟩)
  · exact String.lt_irrefl _ h
  · exact String.lt_irrefl _ h

theorem Key.lt_trans {a b c : Key} : a < b → b < c → a < c := by
  rintro (h | ⟨h, h'⟩) (k | ⟨k, k'⟩)
  · exact .inl (String.lt_trans h k)
  · exact .inl (k ▸ h)
  · exact .inl (h ▸ k)
  · exact .inr ⟨h.trans k, String.lt_trans h' k'⟩

theorem Key.lt_asymm {a b : Key} (h : a < b) : ¬ b < a :=
  fun k => Key.lt_irrefl a (Key.lt_trans h k)

theorem text_lt_trichotomy (a b : String) : a < b ∨ a = b ∨ b < a := by
  by_cases h : a < b
  · exact .inl h
  · by_cases k : b < a
    · exact .inr (.inr k)
    · exact .inr (.inl (String.le_antisymm (String.not_lt.1 k) (String.not_lt.1 h)))

theorem Key.lt_trichotomy (a b : Key) : a < b ∨ a = b ∨ b < a := by
  obtain ⟨am, au⟩ := a
  obtain ⟨bm, bu⟩ := b
  rcases text_lt_trichotomy am bm with h | rfl | h
  · exact .inl (.inl h)
  · rcases text_lt_trichotomy au bu with h | rfl | h
    · exact .inl (.inr ⟨rfl, h⟩)
    · exact .inr (.inl rfl)
    · exact .inr (.inr (.inr ⟨rfl, h⟩))
  · exact .inr (.inr (.inl h))

end AssetCache
