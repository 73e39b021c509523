import AssetCache.Proofs.Store.Beside

namespace AssetCache.Store

variable {s : Store} {home name : String}

/-- How far an open has come that holds the lock of the registry and did not find the name there: it
is about to ask for the snapshot, or to read it, or to register what it has read; or it is about to
let the lock go. -/
inductive Opening where
  | testing
  | reading
  | loaded (entries : Entries)
  | ended (result : Except CacheError Handle)

def openStep (s : Store) (home name : String) : Opening → Opening × Store
  | .testing =>
    match s.disk.exists? (Snapshot.path home name) with
    | (.error e, disk) => (.ended (.error (.io e)), { s with disk })
    | (.ok false, disk) => (.loaded .empty, { s with disk })
    | (.ok true, disk) => (.reading, { s with disk })
  | .reading =>
    match s.disk.read (Snapshot.path home name) with
    | (.error e, disk) => (.ended (.error (.io e)), { s with disk })
    | (.ok bytes, disk) =>
      match Snapshot.load home name bytes with
      | .error e => (.ended (.error e), { s with disk })
      | .ok entries => (.loaded entries, { s with disk })
  | .loaded entries => (.ended (.ok (s.register name entries).1), (s.register name entries).2)
  | .ended result => (.ended result, s)

/-- How far a deletion has come: it is still to come; it has removed the name, which was registered
or not, and is about to ask for the snapshot, or to remove it; or it has ended. -/
inductive Deletion where
  | pending
  | testing (registered : Bool)
  | removing (registered : Bool)
  | ended (result : Except CacheError Bool)

def Deletion.Halfway : Deletion → Prop
  | .testing _ | .removing _ => True
  | _ => False

def deleteStep (s : Store) (home name : String) : Deletion → Deletion × Store
  | .pending => (.testing (s.registry.lookup name).isSome, s.unregister name)
  | .testing registered =>
    match s.disk.exists? (Snapshot.path home name) with
    | (.error e, disk) => (.ended (.error (.io e)), { s with disk })
    | (.ok false, disk) => (.ended (.ok registered), { s with disk })
    | (.ok true, disk) => (.removing registered, { s with disk })
  | .removing registered =>
    match s.disk.step (.remove (Snapshot.path home name)) with
    | (.error e, disk) => (.ended (.error (.io e)), { s with disk })
    | (.ok (), disk) => (.ended (.ok (registered || true)), { s with disk })
  | .ended result => (.ended result, s)

/-- An open that is left alone comes to what it is at one stroke. -/
theorem openStep_thrice (hhome : s.home = some home) (hnone : s.registry.lookup name = none) :
    (fun p : Opening × Store => p.2.openStep home name p.1)^[3] (.testing, s) =
      (.ended (s.openBucket name).1, (s.openBucket name).2) := by
  obtain ⟨_, registry, buckets, disk⟩ := s
  cases hhome
  rw [openBucket, hnone]
  simp only [Function.iterate_succ, Function.iterate_zero, Function.comp_apply, id, openStep, load]
  generalize disk.exists? (Snapshot.path home name) = asked
  obtain ⟨e | there, d⟩ := asked
  · rfl
  · cases there with
    | false => rfl
    | true =>
      dsimp only
      generalize d.read (Snapshot.path home name) = read
      obtain ⟨e | bytes, d'⟩ := read
      · rfl
      · dsimp only
        generalize Snapshot.load home name bytes = loaded
        cases loaded <;> rfl

theorem deleteStep_twice (hhome : s.home = some home) (name : String) (registered : Bool) :
    (fun p : Deletion × Store => p.2.deleteStep home name p.1)^[2] (.testing registered, s) =
      (.ended ((s.removeSnapshot name).1.map fun removed => registered || removed),
        (s.removeSnapshot name).2) := by
  obtain ⟨_, registry, buckets, disk⟩ := s
  cases hhome
  simp only [Function.iterate_succ, Function.iterate_zero, Function.comp_apply, id, deleteStep,
    removeSnapshot]
  generalize disk.exists? (Snapshot.path home name) = asked
  obtain ⟨e | (_ | _), d⟩ := asked
  · rfl
  · simp only [Except.map, Bool.or_false]
  · dsimp only
    generalize d.step (.remove (Snapshot.path home name)) = removed
    obtain ⟨e | ⟨⟩, d'⟩ := removed <;> rfl

theorem deleteStep_thrice (hhome : s.home = some home) :
    (fun p : Deletion × Store => p.2.deleteStep home name p.1)^[3] (.pending, s) =
      (.ended (s.delete name).1, (s.delete name).2) := by
  have htwice := deleteStep_twice (s := s.unregister name) hhome name
    (s.registry.lookup name).isSome
  rw [Function.iterate_succ_apply, deleteStep]
  dsimp only
  rw [htwice, delete]
  generalize (s.unregister name).removeSnapshot name = removed
  obtain ⟨e | removed, s'⟩ := removed <;> rfl

theorem openStep_testing (hhome : s.home = some home) (name : String) :
    ∃ d, ∃ o, s.openStep home name .testing = (o, { s with disk := d }) ∧
      d.entries = s.disk.entries ∧ ∀ entries, o = .loaded entries → s.stored name = .ok entries := by
  obtain ⟨_, registry, buckets, disk⟩ := s
  cases hhome
  rw [stored_eq, openStep]
  dsimp only
  obtain ⟨d, hd, ⟨m, hasked⟩ | hasked⟩ := disk.exists?_cases (Snapshot.path home name)
  · rw [hasked]
    exact ⟨d, _, rfl, hd, fun _ h => by cases h⟩
  rw [hasked, Disk.existsAt]
  cases disk.find (Snapshot.path home name) with
  | ok e => exact ⟨d, _, rfl, hd, fun _ h => by cases h⟩
  | error e =>
    dsimp only
    by_cases hnone : e = .notFound
    · rw [if_pos hnone]
      refine ⟨d, _, rfl, hd, fun entries h => ?_⟩
      cases h
      rw [Snapshot.found, if_pos hnone]
    · rw [if_neg hnone]
      exact ⟨d, _, rfl, hd, fun _ h => by cases h⟩

theorem openStep_reading (hhome : s.home = some home) (name : String) :
    ∃ d, ∃ o, s.openStep home name .reading = (o, { s with disk := d }) ∧
      d.entries = s.disk.entries ∧ ∀ entries, o = .loaded entries → s.stored name = .ok entries := by
  obtain ⟨_, registry, buckets, disk⟩ := s
  cases hhome
  rw [stored_eq, openStep]
  dsimp only
  obtain ⟨d, hd, ⟨m, hread⟩ | hread⟩ := disk.read_cases (Snapshot.path home name)
  · rw [hread]
    exact ⟨d, _, rfl, hd, fun _ h => by cases h⟩
  rw [hread, Disk.bytesAt]
  cases disk.find (Snapshot.path home name) with
  | error e => exact ⟨d, _, rfl, hd, fun _ h => by cases h⟩
  | ok e =>
    cases e with
    | folder => exact ⟨d, _, rfl, hd, fun _ h => by cases h⟩
    | file bytes =>
      dsimp only
      rw [Snapshot.found]
      cases Snapshot.load home name bytes with
      | error e => exact ⟨d, _, rfl, hd, fun _ h => by cases h⟩
      | ok entries =>
        refine ⟨d, _, rfl, hd, fun entries' h => ?_⟩
        cases h
        rfl

theorem deleteStep_testing (s : Store) (home name : String) (registered : Bool) :
    ∃ d, ∃ deletion, s.deleteStep home name (.testing registered) = (deletion, { s with disk := d }) ∧
      d.entries = s.disk.entries := by
  rw [deleteStep]
  obtain ⟨d, hd, ⟨m, hasked⟩ | hasked⟩ := s.disk.exists?_cases (Snapshot.path home name)
  · rw [hasked]
    exact ⟨d, _, rfl, hd⟩
  · rw [hasked]
    generalize s.disk.existsAt (Snapshot.path home name) = there
    obtain e | (_ | _) := there
    · exact ⟨d, _, rfl, hd⟩
    · exact ⟨d, _, rfl, hd⟩
    · exact ⟨d, _, rfl, hd⟩

theorem sound_reopened (hs : s.Sound) (name : String) :
    ((s.delete name).2.openBucket name).2.Sound :=
  (openBucket_same (perform_keeps hs (.delete name)).1 name).2

theorem sound_amid (hs : s.Sound) (name : String) :
    ((s.unregister name).openBucket name).2.Sound :=
  (openBucket_same (hs.unregister name hs.tree) name).2

end AssetCache.Store
