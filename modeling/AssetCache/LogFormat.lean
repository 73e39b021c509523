import AssetCache.Failure
import AssetCache.Text.Blank
import AssetCache.Text.Letter

namespace AssetCache

inductive LogFormat where
  | json
  | compact
  | pretty
deriving DecidableEq, Repr

/-- The format of a name, in any case and among blanks; without a name lines are pretty. -/
def LogFormat.ofName (name : String) : Except CacheError LogFormat :=
  let word := String.ofList (Text.lower (Text.trimWhere Text.isBlank name.toList))
  if word = "json" then .ok .json
  else if word = "compact" then .ok .compact
  else if word = "pretty" ∨ word = "" then .ok .pretty
  else .error (.config ("unknown log format " ++ Text.quoted word))

end AssetCache
