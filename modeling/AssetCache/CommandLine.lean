import AssetCache.Settings.Basic

namespace AssetCache

structure CommandLine where
  config : Option String
  host : Option String
  port : Option UInt16
  installOnly : Bool
  printConfig : Bool
deriving DecidableEq, Repr

namespace CommandLine

inductive Choice where
  | config
  | host
  | port
  | installOnly
  | printConfig
  | help
  | version
deriving DecidableEq, Repr

namespace Choice

def all : List Choice := [config, host, port, installOnly, printConfig, help, version]

def name : Choice → String
  | config => "config"
  | host => "host"
  | port => "port"
  | installOnly => "install-only"
  | printConfig => "print-config"
  | help => "help"
  | version => "version"

def letter? : Choice → Option Char
  | config => some 'c'
  | port => some 'p'
  | help => some 'h'
  | version => some 'V'
  | _ => none

def value? : Choice → Option String
  | config => some "CONFIG"
  | host => some "HOST"
  | port => some "PORT"
  | _ => none

def takesValue (c : Choice) : Bool := c.value?.isSome

def text (c : Choice) : String :=
  "--" ++ c.name ++ c.value?.elim "" fun v => " <" ++ v ++ ">"

def about : Choice → String
  | config => "Path to a TOML config file (default: ~/.precache/config.toml)"
  | host => "Address to bind, overriding the config file"
  | port => "Port to listen on, overriding the config file"
  | installOnly => "Populate the bucket and exit without serving"
  | printConfig => "Print the effective configuration as TOML and exit"
  | help => "Print help"
  | version => "Print version"

def ofName? (name : List Char) : Option Choice := all.find? fun c => c.name.toList == name

def ofLetter? (letter : Char) : Option Choice := all.find? fun c => c.letter? == some letter

end Choice

inductive Stop where
  | unknown (argument : String)
  | missingValue (choice : Choice)
  | badValue (choice : Choice) (value reason : String)
  | repeated (choice : Choice)
  | extraValue (choice : Choice) (value : String)
  | help
  | version
deriving DecidableEq, Repr

inductive NumberFault where
  | empty
  | badDigit
  | tooLarge
  | tooSmall
deriving DecidableEq, Repr

def NumberFault.message : NumberFault → String
  | empty => "cannot parse integer from empty string"
  | badDigit => "invalid digit found in string"
  | tooLarge => "number too large to fit in target type"
  | tooSmall => "number too small to fit in target type"

/-- Digits up to the first that is none, or that takes the number beyond `limit`. -/
def readDigits (limit : Nat) (beyond : NumberFault) (n : Nat) : List Char → Except NumberFault Nat
  | [] => .ok n
  | c :: cs =>
    if !c.isDigit then .error .badDigit
    else
      let n := n * 10 + (c.toNat - '0'.toNat)
      if limit < n then .error beyond else readDigits limit beyond n cs

def readNumber : List Char → Except NumberFault Int
  | [] => .error .empty
  | ['+'] | ['-'] => .error .badDigit
  | '-' :: cs => (readDigits (Nat.pow 2 63) .tooSmall 0 cs).map fun n => -n
  | '+' :: cs => (readDigits (Nat.pow 2 63 - 1) .tooLarge 0 cs).map fun n => n
  | cs => (readDigits (Nat.pow 2 63 - 1) .tooLarge 0 cs).map fun n => n

def readPort (value : String) : Except String UInt16 :=
  match readNumber value.toList with
  | .error e => .error e.message
  | .ok n =>
    if 0 ≤ n ∧ n ≤ 65535 then .ok (UInt16.ofNat n.toNat)
    else .error (Int.repr n ++ " is not in 0..=65535")

/-- What has been read: the options in effect, those that were given, and one that waits for its
value or whose value is not looked at yet. -/
structure Reading where
  line : CommandLine
  given : List Choice
  waiting : Option (Choice × Option String)
  onlyValues : Bool

namespace Reading

def start : Reading := ⟨⟨none, none, none, false, false⟩, [], none, false⟩

def note (r : Reading) (c : Choice) (line : CommandLine) : Reading :=
  { r with line, given := c :: r.given }

def accept (r : Reading) (c : Choice) (value : String) : Except Stop Reading :=
  if c ∈ r.given then .error (.repeated c)
  else
    match c with
    | .config =>
      if value = "" then .error (.missingValue c)
      else .ok (r.note c { r.line with config := some value })
    | .host => .ok (r.note c { r.line with host := some value })
    | .port =>
      match readPort value with
      | .error reason => .error (.badValue c value reason)
      | .ok n => .ok (r.note c { r.line with port := some n })
    | .installOnly => .ok (r.note c { r.line with installOnly := true })
    | .printConfig => .ok (r.note c { r.line with printConfig := true })
    | .help => .error .help
    | .version => .error .version

def settle (r : Reading) : Except Stop Reading :=
  match r.waiting with
  | none => .ok r
  | some (c, none) => .error (.missingValue c)
  | some (c, some value) => { r with waiting := none }.accept c value

def option (r : Reading) (c : Choice) (value : Option String) : Except Stop Reading := do
  let r ← r.settle
  match value with
  | some value => r.accept c value
  | none => if c.takesValue then .ok { r with waiting := some (c, none) } else r.accept c ""

/-- An argument behind two dashes: a name, perhaps with a value after an equals sign. -/
def long (r : Reading) (cs : List Char) : Except Stop Reading :=
  let name := cs.takeWhile (· != '=')
  let value := match cs.dropWhile (· != '=') with
    | [] => none
    | _ :: value => some (String.ofList value)
  match Choice.ofName? name, value with
  | none, _ => .error (.unknown (String.ofList ('-' :: '-' :: name)))
  | some c, some value =>
    if c.takesValue then r.option c (some value) else .error (.extraValue c value)
  | some c, none => r.option c none

/-- Letters behind one dash; all that follows a letter that takes a value is its value. -/
def short (r : Reading) : List Char → Except Stop Reading
  | [] => .ok r
  | letter :: cs =>
    match Choice.ofLetter? letter with
    | none => .error (.unknown (String.ofList ['-', letter]))
    | some c =>
      if c.takesValue then
        match cs with
        | [] => r.option c none
        | '=' :: value => r.option c (some (String.ofList value))
        | value => r.option c (some (String.ofList value))
      else do (← r.option c none).short cs

def argument (r : Reading) (arg : String) : Except Stop Reading :=
  if r.onlyValues then .error (.unknown arg)
  else
    match arg.toList with
    | ['-', '-'] => .ok { r with onlyValues := true }
    | '-' :: '-' :: cs => r.long cs
    | '-' :: c :: cs => r.short (c :: cs)
    | _ =>
      match r.waiting with
      | some (c, none) => .ok { r with waiting := some (c, some arg) }
      | _ => .error (.unknown arg)

def arguments (r : Reading) : List String → Except Stop Reading
  | [] => r.settle
  | arg :: rest => do (← r.argument arg).arguments rest

end Reading

def configVariable : String := "PRECACHE_CONFIG"

/-- Reads the arguments after the program's name; `fallback` is the settings file to use if they
name none. -/
def parse (fallback : Option String) (args : List String) : Except Stop CommandLine := do
  let r ← Reading.start.arguments args
  if .config ∈ r.given then .ok r.line
  else
    match fallback with
    | none => .ok r.line
    | some path => (r.accept .config path).map Reading.line

def Stop.message : Stop → String
  | unknown argument => "unexpected argument '" ++ argument ++ "' found"
  | missingValue c => "a value is required for '" ++ c.text ++ "' but none was supplied"
  | badValue c value reason => "invalid value '" ++ value ++ "' for '" ++ c.text ++ "': " ++ reason
  | repeated c => "the argument '" ++ c.text ++ "' cannot be used multiple times"
  | extraValue c value =>
    "unexpected value '" ++ value ++ "' for '" ++ c.text ++ "' found; no more were expected"
  | help => "help"
  | version => "version"

def versionText : String := "precache 0.1.0\n"

def widest : Nat := (Choice.all.map fun c => c.text.length).foldl max 0

def Choice.helpLine (fallback : Option String) (c : Choice) : String :=
  let front := c.letter?.elim "      " fun letter => String.ofList [' ', ' ', '-', letter, ',', ' ']
  let gap := String.ofList (List.replicate (widest + 2 - c.text.length) ' ')
  let source :=
    if c = .config then " [env: " ++ configVariable ++ "=" ++ fallback.getD "" ++ "]" else ""
  front ++ c.text ++ gap ++ c.about ++ source ++ "\n"

def helpText (fallback : Option String) : String :=
  "Cache-first static asset server with install-time precaching\n\n" ++
    "Usage: precache [OPTIONS]\n\nOptions:\n" ++
    String.join (Choice.all.map (Choice.helpLine fallback))

/-- What is given here takes precedence over all settings. -/
def apply (c : CommandLine) (s : Settings) : Settings :=
  { s with server := ⟨c.host.getD s.server.host, c.port.getD s.server.port⟩ }

end CommandLine

end AssetCache
