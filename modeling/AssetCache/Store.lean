import AssetCache.Store.Snapshot

namespace AssetCache

structure Bucket where
  name : String
  entries : Entries
deriving DecidableEq

/-- Names a bucket for those who opened it; it outlives the bucket's registration. -/
abbrev Handle := Nat

/-- `buckets` holds every bucket that was opened, by handle; `registry` says which of them the names
stand for now. -/
structure Store where
  home : Option String
  registry : List (String × Handle)
  buckets : List Bucket
  disk : Disk
deriving DecidableEq

namespace Store

def begin (home : Option String) (disk : Disk) : Store := ⟨home, [], [], disk⟩

def reopened (s : Store) : Store := begin s.home s.disk

def entries (s : Store) (h : Handle) : Entries :=
  match s.buckets[h]? with
  | some b => b.entries
  | none => .empty

def bucketName (s : Store) (h : Handle) : String :=
  match s.buckets[h]? with
  | some b => b.name
  | none => ""

def names (s : Store) : List String := (s.registry.map (·.1)).mergeSort (· ≤ ·)

def register (s : Store) (name : String) (entries : Entries) : Handle × Store :=
  let h := s.buckets.length
  (h, { s with registry := (name, h) :: s.registry, buckets := s.buckets ++ [⟨name, entries⟩] })

def load (s : Store) (name : String) : Except CacheError Entries × Store :=
  match s.home with
  | none => (.ok .empty, s)
  | some home =>
    match s.disk.exists? (Snapshot.path home name) with
    | (.error e, disk) => (.error (.io e), { s with disk })
    | (.ok false, disk) => (.ok .empty, { s with disk })
    | (.ok true, disk) =>
      match disk.read (Snapshot.path home name) with
      | (.error e, disk) => (.error (.io e), { s with disk })
      | (.ok bytes, disk) => (Snapshot.load home name bytes, { s with disk })

/-- Opens a bucket; one that is not registered begins with its snapshot, or empty. -/
def openBucket (s : Store) (name : String) : Except CacheError Handle × Store :=
  match s.registry.lookup name with
  | some h => (.ok h, s)
  | none =>
    match s.load name with
    | (.error e, s) => (.error e, s)
    | (.ok entries, s) =>
      let (h, s) := s.register name entries
      (.ok h, s)

def has (s : Store) (name : String) : Except CacheError Bool × Store :=
  match s.registry.lookup name with
  | some _ => (.ok true, s)
  | none =>
    match s.home with
    | none => (.ok false, s)
    | some home =>
      match s.disk.exists? (Snapshot.path home name) with
      | (.error e, disk) => (.error (.io e), { s with disk })
      | (.ok there, disk) => (.ok there, { s with disk })

def unregister (s : Store) (name : String) : Store :=
  { s with registry := s.registry.filter fun p => p.1 ≠ name }

def removeSnapshot (s : Store) (name : String) : Except CacheError Bool × Store :=
  match s.home with
  | none => (.ok false, s)
  | some home =>
    match s.disk.exists? (Snapshot.path home name) with
    | (.error e, disk) => (.error (.io e), { s with disk })
    | (.ok false, disk) => (.ok false, { s with disk })
    | (.ok true, disk) =>
      match disk.step (.remove (Snapshot.path home name)) with
      | (.error e, disk) => (.error (.io e), { s with disk })
      | (.ok (), disk) => (.ok true, { s with disk })

/-- Deletes a bucket: its registration first, then its snapshot. Tells whether there was either. -/
def delete (s : Store) (name : String) : Except CacheError Bool × Store :=
  let registered := (s.registry.lookup name).isSome
  match (s.unregister name).removeSnapshot name with
  | (.error e, s) => (.error e, s)
  | (.ok removed, s) => (.ok (registered || removed), s)

/-- Makes `staged` the entries of a bucket, on disk first and then in memory. -/
def commit (s : Store) (h : Handle) (staged : Entries) : Except CacheError Unit × Store :=
  let inMemory := fun s : Store =>
    { s with buckets := s.buckets.modify h fun b => { b with entries := staged } }
  match s.home with
  | none => (.ok (), inMemory s)
  | some home =>
    match s.disk.run (Snapshot.commit home (s.bucketName h) staged) with
    | (.error e, disk) => (.error (.io e), { s with disk })
    | (.ok (), disk) => (.ok (), inMemory { s with disk })

def putAll (s : Store) (h : Handle) (batch : List (Key × Response)) :
    Except CacheError Unit × Store :=
  s.commit h ((s.entries h).insertAll batch)

def put (s : Store) (h : Handle) (k : Key) (r : Response) : Except CacheError Unit × Store :=
  s.putAll h [(k, r)]

/-- Removes an entry and tells whether it was there; nothing is written if it was not. -/
def remove (s : Store) (h : Handle) (k : Key) : Except CacheError Bool × Store :=
  if (s.entries h).contains k then
    match s.commit h ((s.entries h).erase k) with
    | (.error e, s) => (.error e, s)
    | (.ok (), s) => (.ok true, s)
  else (.ok false, s)

end Store

end AssetCache
