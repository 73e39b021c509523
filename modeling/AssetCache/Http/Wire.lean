import AssetCache.Client
import AssetCache.Http.Message

namespace AssetCache.Http.Wire

def statusNames : List (UInt16 × String) :=
  [(100, "Continue"), (101, "Switching Protocols"), (102, "Processing"), (200, "OK"),
   (201, "Created"), (202, "Accepted"), (203, "Non Authoritative Information"),
   (204, "No Content"), (205, "Reset Content"), (206, "Partial Content"), (207, "Multi-Status"),
   (208, "Already Reported"), (226, "IM Used"), (300, "Multiple Choices"),
   (301, "Moved Permanently"), (302, "Found"), (303, "See Other"), (304, "Not Modified"),
   (305, "Use Proxy"), (307, "Temporary Redirect"), (308, "Permanent Redirect"),
   (400, "Bad Request"), (401, "Unauthorized"), (402, "Payment Required"), (403, "Forbidden"),
   (404, "Not Found"), (405, "Method Not Allowed"), (406, "Not Acceptable"),
   (407, "Proxy Authentication Required"), (408, "Request Timeout"), (409, "Conflict"),
   (410, "Gone"), (411, "Length Required"), (412, "Precondition Failed"),
   (413, "Payload Too Large"), (414, "URI Too Long"), (415, "Unsupported Media Type"),
   (416, "Range Not Satisfiable"), (417, "Expectation Failed"), (418, "I'm a teapot"),
   (421, "Misdirected Request"), (422, "Unprocessable Entity"), (423, "Locked"),
   (424, "Failed Dependency"), (426, "Upgrade Required"), (428, "Precondition Required"),
   (429, "Too Many Requests"), (431, "Request Header Fields Too Large"),
   (451, "Unavailable For Legal Reasons"), (500, "Internal Server Error"),
   (501, "Not Implemented"), (502, "Bad Gateway"), (503, "Service Unavailable"),
   (504, "Gateway Timeout"), (505, "HTTP Version Not Supported"),
   (506, "Variant Also Negotiates"), (507, "Insufficient Storage"), (508, "Loop Detected"),
   (510, "Not Extended"), (511, "Network Authentication Required")]

def statusLine (status : UInt16) : String :=
  "HTTP/1.1 " ++ Nat.repr status.toNat ++ " " ++ (statusNames.lookup status).getD "<none>"

def fieldBytes (f : Field) : ByteArray := f.1.toUTF8 ++ ": ".toUTF8 ++ f.2 ++ "\r\n".toUTF8

def headBytes (line : String) (fields : List Field) : ByteArray :=
  fields.foldl (fun b f => b ++ fieldBytes f) (line ++ "\r\n").toUTF8 ++ "\r\n".toUTF8

def closing : Field := ("connection", "close".toUTF8)

def ofPage (method : Method) (p : Page) : ByteArray :=
  let head := headBytes (statusLine p.status) (p.headers ++ [closing])
  if method.name = "HEAD" then head else head ++ p.body

def refusal : ByteArray := ofPage .get (Page.measured ⟨400, [], .empty⟩)

def resourceOf (u : Url) : String :=
  String.ofList (u.path.text ++ u.query.elim [] ('?' :: ·))

def hostOf (u : Url) : String :=
  String.ofList (u.authority.elim [] fun a => Authority.text { a with userinfo := [] })

def ofOutbound (o : Client.Outbound) : ByteArray :=
  let length := o.body.elim [] fun b => [("content-length", (Nat.repr b.size).toUTF8)]
  let own := [("host", (hostOf o.url).toUTF8)] ++ length ++ [closing]
  let line := o.method.name ++ " " ++ resourceOf o.url ++ " HTTP/1.1"
  headBytes line (own ++ o.headers) ++ o.body.getD .empty

/-- What comes of the bytes that have arrived. While more of them are needed, `missing` counts those
that have to come at least. -/
inductive Arrival (α : Type) where
  | more (missing : Nat)
  | malformed
  | complete (a : α)

namespace Arrival

variable {α β : Type}

def bind : Arrival α → (α → Arrival β) → Arrival β
  | more missing, _ => more missing
  | malformed, _ => malformed
  | complete a, f => f a

instance : Monad Arrival where
  pure := complete
  bind := bind

def ofOption : Option α → Arrival α
  | none => malformed
  | some a => complete a

end Arrival

inductive Framing where
  | length (n : Nat)
  | chunked
  | untilClosed
deriving DecidableEq, Repr

structure Head where
  line : String
  fields : List Field
  size : Nat

def maxHead : Nat := 65536

def withoutReturn : List UInt8 → List UInt8
  | 13 :: line => line
  | line => line

/-- The lines up to an empty one, and how many bytes they take with it. `line` is what has been read
of a line, and `lines` are those before it, both the last first; `size` counts what has been
read. -/
def headLines (lines : List (List UInt8)) (line : List UInt8) (size : Nat) :
    List UInt8 → Option (List (List UInt8) × Nat)
  | [] => none
  | 10 :: rest =>
    match withoutReturn line with
    | [] => some (lines.reverse, size + 1)
    | line => headLines (line.reverse :: lines) [] (size + 1) rest
  | b :: rest => headLines lines (b :: line) (size + 1) rest

def textOf? (bytes : List UInt8) : Option String := String.fromUTF8? ⟨bytes.toArray⟩

def isGap (b : UInt8) : Bool := b == 32 || b == 9

def fieldOf? (line : List UInt8) : Option Field :=
  match line.dropWhile (· != 58) with
  | [] => none
  | _ :: value =>
    let value := ((value.dropWhile isGap).reverse.dropWhile isGap).reverse
    (textOf? (line.takeWhile (· != 58))).bind fun name => (field name ⟨value.toArray⟩).toOption

def headOfLines (size : Nat) : List (List UInt8) → Option Head
  | [] => none
  | line :: lines => do some ⟨← textOf? line, ← lines.mapM fieldOf?, size⟩

def listFrom (bytes : ByteArray) (start count : Nat) : List UInt8 :=
  (bytes.extract start (start + count)).data.toList

def headOf (bytes : ByteArray) (start : Nat) : Arrival Head :=
  match headLines [] [] 0 (listFrom bytes start maxHead) with
  | some (lines, size) => .ofOption (headOfLines size lines)
  | none => if start + maxHead ≤ bytes.size then .malformed else .more 1

def natOf? (v : ByteArray) : Option Nat :=
  (visible? v).bind fun s =>
    if !s.isEmpty && s.toList.all Char.isDigit then
      some (s.toList.foldl (fun n c => n * 10 + (c.toNat - 48)) 0)
    else none

def Head.framing (h : Head) (otherwise : Framing) : Option Framing :=
  match h.fields.lookup "transfer-encoding", h.fields.lookup "content-length" with
  | some v, _ =>
    (visible? v).bind fun s => if Text.sameLetters s "chunked" then some .chunked else none
  | none, some v => (natOf? v).map .length
  | none, none => some otherwise

def maxChunkLine : Nat := 4096

def chunkSize? (line : List UInt8) : Option Nat :=
  (textOf? (line.takeWhile fun b => b != 59 && b != 32 && b != 13)).bind fun s =>
    if s.isEmpty then none else Url.digitsValue 16 s.toList

/-- How many of `n` more bytes are taken behind `size`, if one at most is needed beyond the
limit. -/
def taken (limit : Option Nat) (size n : Nat) : Nat :=
  limit.elim n fun most => min n (most + 1 - size)

def lineEnd? (bytes : ByteArray) : Nat → (i : Nat) → Option Nat
  | 0, _ => none
  | fuel + 1, i =>
    match bytes[i]? with
    | none => none
    | some b => if b = 10 then some i else lineEnd? bytes fuel (i + 1)

structure Span where
  (start stop : Nat)

/-- The chunks from `start` on behind `size` bytes of a body, up to the empty one or beyond the
limit. Each takes a byte at least, so that `fuel` may be their number. -/
def chunks (limit : Option Nat) (bytes : ByteArray) :
    Nat → (start size : Nat) → Arrival (List Span)
  | 0, _, _ => .more 1
  | fuel + 1, start, size =>
    match lineEnd? bytes maxChunkLine start with
    | none => if start + maxChunkLine ≤ bytes.size then .malformed else .more 1
    | some stop =>
      match chunkSize? (listFrom bytes start (stop - start)) with
      | none => .malformed
      | some 0 => .complete []
      | some n =>
        let chunk := ⟨stop + 1, stop + 1 + taken limit size n⟩
        if bytes.size < chunk.stop then .more (chunk.stop - bytes.size)
        else if chunk.stop < stop + 1 + n then .complete [chunk]
        else do
          let rest ← chunks limit bytes fuel (chunk.stop + 2) (size + n)
          .complete (chunk :: rest)

def joined (bytes : ByteArray) (spans : List Span) : ByteArray :=
  spans.foldl (fun body s => body ++ bytes.extract s.start s.stop) .empty

/-- The body that begins at `start`. `closed` tells that no more bytes will come. A body beyond the
limit is cut, but not so far that it keeps within. -/
def bodyOf (limit : Option Nat) (framing : Framing) (closed : Bool) (bytes : ByteArray)
    (start : Nat) : Arrival ByteArray :=
  match framing with
  | .length n =>
    let stop := start + taken limit 0 n
    if bytes.size < stop then .more (stop - bytes.size) else .complete (bytes.extract start stop)
  | .untilClosed => if closed then .complete (bytes.extract start bytes.size) else .more bytes.size
  | .chunked => do .complete (joined bytes (← chunks limit bytes bytes.size start 0))

def inboundOf (limit : Nat) (bytes : ByteArray) : Arrival Inbound := do
  let head ← headOf bytes 0
  match head.line.splitOn " " with
  | [method, target, _] =>
    let method ← .ofOption (Method.ofString? method)
    let target ← .ofOption (Target.ofString? target)
    let framing ← .ofOption (head.framing (.length 0))
    let body ← bodyOf limit framing false bytes head.size
    .complete ⟨method, target, head.fields, body⟩
  | _ => .malformed

def statusOf? (line : String) : Option UInt16 :=
  match line.splitOn " " with
  | version :: status :: _ =>
    if version = "HTTP/1.1" ∨ version = "HTTP/1.0" then
      (natOf? status.toUTF8).bind fun n => if n ≤ 999 then some (UInt16.ofNat n) else none
    else none
  | _ => none

/-- The head of a reply with its status and where it ends. Heads before it that only tell to go on
are passed over; `fuel` may be their number. -/
def finalHead (bytes : ByteArray) : Nat → (start : Nat) → Arrival (UInt16 × Head × Nat)
  | 0, _ => .more 1
  | fuel + 1, start => do
    let head ← headOf bytes start
    let status ← .ofOption (statusOf? head.line)
    if 100 ≤ status ∧ status < 200 ∧ status ≠ 101 then
      finalHead bytes fuel (start + head.size)
    else .complete (status, head, start + head.size)

def isBare (method : Method) (status : UInt16) : Bool :=
  method.name == "HEAD" || status == 204 || status == 304

/-- A body as it counts in a reply. Once nothing more comes, what is missing is lost, as is a body
that is malformed. -/
def received (ended : Option Client.Loss) :
    Arrival ByteArray → Arrival (Except Client.Loss ByteArray)
  | .complete body => .complete (.ok body)
  | .malformed => .complete (.error .lost)
  | .more missing =>
    match ended with
    | none => .more missing
    | some loss => .complete (.error loss)

/-- A reply to a request. `ended` tells why no more bytes will come: the connection was closed, or
the time is over. -/
def replyOf (method : Method) (ended : Option Client.Loss) (bytes : ByteArray) :
    Arrival Client.Reply := do
  let (status, head, start) ← finalHead bytes (bytes.size + 1) 0
  if h : (100 ≤ status ∧ status ≤ 999) ∧ ∀ f ∈ head.fields, IsLegal f then
    let framing ←
      if isBare method status then .complete (.length 0) else .ofOption (head.framing .untilClosed)
    let body ← received ended (bodyOf none framing (ended == some .lost) bytes start)
    .complete ⟨status, head.fields, body, h.1, h.2⟩
  else .malformed

end AssetCache.Http.Wire
