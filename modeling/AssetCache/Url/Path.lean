import AssetCache.Url.Basic
import AssetCache.Url.Percent

namespace AssetCache.Url

def singleDots : List (List Char) := [".".toList, "%2e".toList, "%2E".toList]

def isSingleDot (s : List Char) : Bool := singleDots.contains s

def isDoubleDot (s : List Char) : Bool :=
  singleDots.any fun a => singleDots.any fun b => s == a ++ b

def isDriveLetter : List Char → Bool
  | [c, d] => c.isAlpha && (d == ':' || d == '|')
  | _ => false

def isWrittenDriveLetter : List Char → Bool
  | [c, ':'] => c.isAlpha
  | _ => false

def shorten (kind : SchemeKind) : List (List Char) → List (List Char)
  | [] => []
  | s :: rev => if kind = .file ∧ rev = [] ∧ isWrittenDriveLetter s then [s] else rev

def writeSegment (kind : SchemeKind) (rev : List (List Char)) (s : List Char) : List Char :=
  if kind = .file ∧ rev = [] ∧ isDriveLetter s then s.take 1 ++ [':'] else escape inPathSet s

/-- Works off the segments of a reference after those of `rev`, which has the last one first. A
dot segment at the end leaves an empty one, so that the path still ends in a slash. -/
def walk (kind : SchemeKind) (rev : List (List Char)) : List (List Char) → List (List Char)
  | [] => rev
  | [s] =>
    if isDoubleDot s then [] :: shorten kind rev
    else if isSingleDot s then [] :: rev
    else writeSegment kind rev s :: rev
  | s :: rest =>
    if isDoubleDot s then walk kind (shorten kind rev) rest
    else if isSingleDot s then walk kind rev rest
    else walk kind (writeSegment kind rev s :: rev) rest

def isSlash (kind : SchemeKind) (c : Char) : Bool := c == '/' || (kind.isSpecial && c == '\\')

def splitSegments (kind : SchemeKind) : List Char → List (List Char)
  | [] => [[]]
  | c :: cs =>
    if isSlash kind c then [] :: splitSegments kind cs
    else
      match splitSegments kind cs with
      | [] => [[c]]
      | s :: ss => (c :: s) :: ss

def dropEmptyFront : List (List Char) → List (List Char)
  | [] :: s :: rest => dropEmptyFront (s :: rest)
  | ss => ss

def readSegments (kind : SchemeKind) (base : List (List Char)) (cs : List Char) : UrlPath :=
  let ss := (walk kind base.reverse (splitSegments kind cs)).reverse
  .segments (if kind = .file then dropEmptyFront ss else ss)

/-- Reads a whole path, whose first slash may be missing. -/
def readPath (kind : SchemeKind) (cs : List Char) : UrlPath :=
  match cs with
  | [] => if kind.isSpecial then readSegments kind [] [] else .segments []
  | c :: rest => if isSlash kind c then readSegments kind [] rest else readSegments kind [] cs

end AssetCache.Url
