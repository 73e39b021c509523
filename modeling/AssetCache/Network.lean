import AssetCache.Failure
import AssetCache.Resource

namespace AssetCache

inductive Outcome where
  | response (r : Response)
  | failure (e : FetchError)
  | crash

/-- `delay` counts how often the fetch is not ready when it is looked after. -/
structure Answer where
  delay : Nat
  outcome : Outcome

abbrev Network := Request → Answer

def Answer.response? (a : Answer) : Option Response :=
  match a.outcome with
  | .response r => some r
  | _ => none

end AssetCache
