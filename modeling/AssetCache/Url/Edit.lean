import AssetCache.Url.Reference

namespace AssetCache.Url

def withPath (u : Url) (cs : List Char) : Url :=
  match u.path with
  | .segments _ => { u with path := readPath u.kind (cs.filter (!isTabOrNewline ·)) }
  | .plain _ =>
    match cs with
    | '/' :: rest => { u with path := .plain ("%2F".toList ++ escape inControls rest) }
    | cs => { u with path := .plain (escape inControls cs) }

def withQuery (u : Url) (query : Option (List Char)) : Url :=
  { u with query := query.map fun q => readQuery u.kind (q.filter (!isTabOrNewline ·)) }

def dropEndBlanks (cs : List Char) : List Char := (cs.reverse.dropWhile (· == ' ')).reverse

/-- Without a fragment, and without a query, an opaque path does not end in blanks. -/
def withoutFragment (u : Url) : Url :=
  match u.path, u.query with
  | .plain text, none => { u with path := .plain (dropEndBlanks text), fragment := none }
  | _, _ => { u with fragment := none }

end AssetCache.Url
