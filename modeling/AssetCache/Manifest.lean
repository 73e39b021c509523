import AssetCache.Failure
import AssetCache.Resource
import AssetCache.Text.Blank
import AssetCache.Url.Reference

namespace AssetCache

namespace Manifest

inductive EntryFault where
  | blank
  | url (e : Url.Error)
  | scheme (name : String)
deriving DecidableEq, Repr

def EntryFault.message : EntryFault → String
  | blank => "empty identifier"
  | url e => e.message
  | scheme name => "unsupported scheme " ++ name

def entryUrl [Idna] (origin : Url) (entry : String) : Except EntryFault Url :=
  if Text.isAllBlank entry then .error .blank
  else
    match origin.join entry with
    | .error e => .error (.url e)
    | .ok url => if url.isHttp then .ok url else .error (.scheme (String.ofList url.scheme))

def resolveAfter [Idna] (origin : Url) (seen : List Key) :
    List String → Except InstallError (List Request)
  | [] => .ok []
  | entry :: rest =>
    match entryUrl origin entry with
    | .error e => .error (.invalidEntry entry e.message)
    | .ok url =>
      let request := Request.get url
      if request.key ∈ seen then .error (.duplicateEntry url.text)
      else
        match resolveAfter origin (request.key :: seen) rest with
        | .error e => .error e
        | .ok requests => .ok (request :: requests)

end Manifest

abbrev Manifest := List String

/-- The requests of all entries, in their order; the first entry that is at fault is reported. -/
def Manifest.resolve [Idna] (origin : Url) (entries : Manifest) :
    Except InstallError (List Request) :=
  resolveAfter origin [] entries

end AssetCache
