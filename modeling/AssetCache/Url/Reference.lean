import AssetCache.Url.Host
import AssetCache.Url.Path

namespace AssetCache.Url

def isTabOrNewline (c : Char) : Bool := c == '\t' || c == '\n' || c == '\r'

/-- Blanks and controls at the ends do not count, tabs and newlines nowhere. -/
def cleaned (s : String) : List Char :=
  let isEdge := fun c : Char => decide (c.toNat ≤ 0x20)
  (((s.toList.dropWhile isEdge).reverse.dropWhile isEdge).reverse).filter (!isTabOrNewline ·)

def inScheme (c : Char) : Bool := c.isAlphanum || c == '+' || c == '-' || c == '.'

def scheme? : List Char → Option (List Char × List Char)
  | c :: cs =>
    if c.isAlpha then
      match cs.span inScheme with
      | (rest, ':' :: after) => some ((c :: rest).map Char.toLower, after)
      | _ => none
    else none
  | [] => none

def endsAuthority (kind : SchemeKind) (c : Char) : Bool :=
  c == '?' || c == '#' || isSlash kind c

def readFragment (cs : List Char) : List Char := escape inFragmentSet cs

def readQuery (kind : SchemeKind) (cs : List Char) : List Char :=
  escape (inQuerySet kind.isSpecial) cs

def readEnd (kind : SchemeKind) : List Char → Option (List Char) × Option (List Char)
  | '?' :: cs =>
    match cs.span (· != '#') with
    | (q, '#' :: f) => (some (readQuery kind q), some (readFragment f))
    | (q, _) => (some (readQuery kind q), none)
  | '#' :: f => (none, some (readFragment f))
  | _ => (none, none)

def spanPath (cs : List Char) : List Char × List Char := cs.span fun c => c != '?' && c != '#'

/-- User name and password before the last `@` of the authority; a password that is empty leaves
no colon. -/
def readUserinfo (cs : List Char) : List Char :=
  match cs.span (· != ':') with
  | (user, _ :: []) => escape inUserinfoSet user
  | (user, _ :: password) => escape inUserinfoSet user ++ ':' :: escape inUserinfoSet password
  | (user, []) => escape inUserinfoSet user

def splitAtLastAt (cs : List Char) : Option (List Char × List Char) :=
  match cs.reverse.span (· != '@') with
  | (after, _ :: before) => some (before.reverse, after.reverse)
  | (_, []) => none

def spanHost (kind : SchemeKind) : Bool → List Char → List Char × List Char
  | _, [] => ([], [])
  | bracket, c :: cs =>
    if (c == ':' && !bracket) || endsAuthority kind c then ([], c :: cs)
    else
      let (host, rest) := spanHost kind (c == '[' || (bracket && c != ']')) cs
      (c :: host, rest)

def isEnd : List Char → Bool
  | [] => true
  | c :: _ => c == '/' || c == '\\' || c == '?' || c == '#'

def readPort (scheme : List Char) (cs : List Char) :
    Except Error (Option Nat × List Char) :=
  let (ds, rest) := cs.span Char.isDigit
  match digitsValue 10 ds with
  | none => .error .invalidPort
  | some n =>
    if n ≤ 65535 ∧ isEnd rest = true then
      .ok (if ds.isEmpty ∨ defaultPort scheme = some n then none else some n, rest)
    else .error .invalidPort

variable [Idna]

def readHost (kind : SchemeKind) (cs : List Char) : Except Error (List Char) :=
  if kind.isSpecial then
    if cs.isEmpty then .error .emptyHost else specialHost cs
  else plainHost cs

def readAuthority (scheme : List Char) (cs : List Char) : Except Error Url := do
  let kind := SchemeKind.of scheme
  let (region, beyond) := cs.span (!endsAuthority kind ·)
  let (userinfo, hostText) ← match splitAtLastAt region with
    | none => pure ([], cs)
    | some ([], after) =>
      if after.isEmpty && !beyond.isEmpty then throw .emptyHost else pure ([], after ++ beyond)
    | some (before, after) => pure (readUserinfo before, after ++ beyond)
  let (hostChars, rest) := spanHost kind false hostText
  let host ← readHost kind hostChars
  if host.isEmpty && rest.head? == some ':' then throw .emptyHost
  let (port, rest) ← match rest with
    | ':' :: cs => readPort scheme cs
    | cs => pure (none, cs)
  if host.isEmpty && !userinfo.isEmpty then throw .emptyHost
  let (path, rest) := spanPath rest
  let (query, fragment) := readEnd kind rest
  pure ⟨scheme, some ⟨userinfo, host, port⟩, readPath kind path, query, fragment⟩

def readPlain (scheme : List Char) : List Char → Except Error Url
  | '/' :: '/' :: cs => readAuthority scheme cs
  | cs =>
    let (path, rest) := spanPath cs
    let (query, fragment) := readEnd .other rest
    let path := match path with
      | '/' :: p => readSegments .other [] p
      | p => .plain (escape inControls p)
    .ok ⟨scheme, none, path, query, fragment⟩

/-- The host of a file, with what its path begins with: a drive letter in the host's place belongs
to the path, and the local host is none. -/
def readFileHost (cs : List Char) : Except Error (List Char × List Char) :=
  let (host, rest) := cs.span fun c => !(c == '/' || c == '\\' || c == '?' || c == '#')
  if isDriveLetter host || host.isEmpty then .ok ([], if host.isEmpty then rest else cs)
  else do
    let name ← specialHost host
    pure (if name = "localhost".toList then [] else name, rest)

def fileScheme : List Char := "file".toList

def startsWithDriveLetter (cs : List Char) : Bool :=
  isDriveLetter (cs.take 2) &&
    match cs.drop 2 with
    | [] => true
    | c :: _ => c == '/' || c == '\\' || c == '?' || c == '#'

def baseSegments (base : Url) : List (List Char) :=
  match base.path with
  | .segments list => list
  | .plain _ => []

def fileUrl (host : List Char) (path : UrlPath) (rest : List Char) : Url :=
  let (query, fragment) := readEnd .file rest
  let driven := match path with
    | .segments (s :: _) => isWrittenDriveLetter s
    | _ => false
  ⟨fileScheme, some ⟨[], if driven then [] else host, none⟩, path, query, fragment⟩

def readFile (base : Option Url) (cs : List Char) : Except Error Url :=
  let noHost : Authority := ⟨[], [], none⟩
  let baseHost := ((base.bind Url.authority).getD noHost).host
  let segments := (base.map baseSegments).getD []
  match cs with
  | [] =>
    match base with
    | some b => .ok { b with fragment := none }
    | none => .ok (fileUrl [] (readPath .file []) [])
  | c :: rest =>
    if isSlash .file c then
      match rest with
      | d :: rest' =>
        if isSlash .file d then do
          let (host, rest) ← readFileHost rest'
          let (path, rest) := spanPath rest
          pure (fileUrl host (readPath .file path) rest)
        else
          let (path, beyond) := spanPath rest
          let drive := if startsWithDriveLetter rest then [] else
            (segments.take 1).filter isWrittenDriveLetter
          .ok (fileUrl (if startsWithDriveLetter rest then [] else baseHost)
            (readSegments .file drive path) beyond)
      | [] => .ok (fileUrl baseHost
          (readSegments .file ((segments.take 1).filter isWrittenDriveLetter) []) [])
    else
      match base with
      | none =>
        let (path, beyond) := spanPath cs
        .ok (fileUrl [] (readPath .file path) beyond)
      | some b =>
        if c == '?' then
          let (query, fragment) := readEnd .file cs
          .ok { b with query, fragment }
        else if c == '#' then .ok { b with fragment := some (readFragment rest) }
        else
          let (path, beyond) := spanPath cs
          if startsWithDriveLetter cs then .ok (fileUrl [] (readPath .file path) beyond)
          else
            .ok (fileUrl baseHost
              (readSegments .file (shorten .file segments.reverse).reverse path) beyond)

def readRelative (base : Url) (cs : List Char) : Except Error Url :=
  let kind := base.kind
  match cs with
  | [] => .ok { base with fragment := none }
  | '?' :: _ =>
    let (query, fragment) := readEnd kind cs
    .ok { base with query, fragment }
  | '#' :: f => .ok { base with fragment := some (readFragment f) }
  | c :: rest =>
    if c == '/' || c == '\\' then
      match cs with
      | '/' :: '/' :: after => readAuthority base.scheme after
      | _ =>
        match rest with
        | d :: _ =>
          if d == '/' || d == '\\' then
            readAuthority base.scheme (cs.dropWhile fun c => c == '/' || c == '\\')
          else
            let (path, beyond) := spanPath rest
            let (query, fragment) := readEnd kind beyond
            .ok { base with path := readSegments kind [] path, query, fragment }
        | [] =>
          .ok { base with path := readSegments kind [] [], query := none, fragment := none }
    else
      let (path, beyond) := spanPath cs
      let (query, fragment) := readEnd kind beyond
      .ok { base with
        path := readSegments kind (shorten kind (baseSegments base).reverse).reverse path
        query, fragment }

def readSpecial (scheme : List Char) (base : Option Url) (cs : List Char) : Except Error Url :=
  let slashes := (cs.takeWhile fun c => c == '/' || c == '\\').length
  match base with
  | some b =>
    if slashes < 2 ∧ b.scheme = scheme then readRelative b cs
    else readAuthority scheme (cs.drop slashes)
  | none => readAuthority scheme (cs.drop slashes)

/-- Reads a reference against a base, or a whole URL where there is none. -/
def resolve (base : Option Url) (s : String) : Except Error Url :=
  let cs := cleaned s
  match scheme? cs with
  | some (scheme, after) =>
    match SchemeKind.of scheme with
    | .file => readFile (base.filter (·.scheme == fileScheme)) after
    | .special => readSpecial scheme base after
    | .other => readPlain scheme after
  | none =>
    match base with
    | none => .error .noBase
    | some b =>
      match cs, b.path with
      | '#' :: f, _ => .ok { b with fragment := some (readFragment f) }
      | _, .plain _ => .error .plainBase
      | _, .segments _ => if b.kind = .file then readFile base cs else readRelative b cs

def parse (s : String) : Except Error Url := resolve none s

def join (base : Url) (reference : String) : Except Error Url := resolve (some base) reference

end AssetCache.Url
