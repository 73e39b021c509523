import AssetCache.Proofs.Store.Effect

namespace AssetCache.Store

variable {s s' : Store} {home name : String} {h : Handle} {op : Op} {staged : Entries}

/-- How far a write has come that holds the lock of its bucket: nothing is done yet; it has staged
the entries and has these changes on the disk still to make; or it is about to leave. -/
inductive Progress where
  | locked
  | writing (staged : Entries) (rest : List Disk.Step)
  | leaving (result : Except CacheError Returned)
deriving DecidableEq

def proceed (s : Store) (h : Handle) (op : Op) : Progress → Progress × Store
  | .locked =>
    match op.target? s with
    | none => (.leaving (.ok (op.answer (s.entries h))), s)
    | some _ => (.writing (op.applied (s.entries h)) (s.changes op), s)
  | .writing staged [] => (.leaving (.ok (op.answer (s.entries h))), s.withEntries h staged)
  | .writing staged (change :: rest) =>
    match s.disk.step change with
    | (.error e, disk) => (.leaving (.error (.io e)), { s with disk })
    | (.ok (), disk) => (.writing staged rest, { s with disk })
  | .leaving result => (.leaving result, s)

/-- How a write ends if nothing else happens from here on. -/
def finish (s : Store) (h : Handle) (op : Op) : Progress → Except CacheError Returned × Store
  | .locked => s.perform op
  | .writing staged rest =>
    match s.disk.run rest with
    | (.error e, disk) => (.error (.io e), { s with disk })
    | (.ok (), disk) => (.ok (op.answer (s.entries h)), { s.withEntries h staged with disk })
  | .leaving result => (result, s)

theorem perform_of_target (hop : op.writes? = some h) (ht : op.target? s = some h) :
    s.perform op = s.finish h op (.writing (op.applied (s.entries h)) (s.changes op)) := by
  obtain ⟨_, hperform⟩ | ⟨hnone, _⟩ := perform_of_writes (s := s) hop
  · obtain ⟨home, registry, buckets, disk⟩ := s
    rw [hperform, finish, changes, ht]
    cases home with
    | none => rfl
    | some home =>
      rw [commit_eq rfl]
      dsimp only
      generalize disk.run _ = ran
      obtain ⟨e | ⟨⟩, d⟩ := ran <;> rfl
  · cases hnone.symm.trans ht

/-- A step of a write changes nothing of how it ends, so that one which nobody disturbs comes to
what the operation is at one stroke. -/
theorem finish_proceed (s : Store) (hop : op.writes? = some h) (p : Progress) :
    (s.proceed h op p).2.finish h op (s.proceed h op p).1 = s.finish h op p := by
  cases p with
  | locked =>
    rw [proceed]
    obtain ⟨ht, _⟩ | ⟨ht, _, hperform⟩ := perform_of_writes (s := s) hop
    · rw [ht]
      exact (perform_of_target hop ht).symm
    · rw [ht]
      exact hperform.symm
  | writing staged rest =>
    cases rest with
    | nil => rfl
    | cons change rest =>
      rw [proceed, finish, Disk.run]
      generalize s.disk.step change = stepped
      obtain ⟨e | ⟨⟩, d⟩ := stepped <;> rfl
  | leaving result => rfl

theorem proceed_keeps (s : Store) (h : Handle) (op : Op) (p : Progress) :
    (s.proceed h op p).2.home = s.home ∧ (s.proceed h op p).2.registry = s.registry ∧
      ∀ k : Handle, ((s.proceed h op p).2.buckets[k]?).map (·.name) =
        (s.buckets[k]?).map (·.name) := by
  cases p with
  | locked =>
    rw [proceed]
    cases op.target? s <;> exact ⟨rfl, rfl, fun _ => rfl⟩
  | writing staged rest =>
    cases rest with
    | nil =>
      refine ⟨rfl, rfl, fun k => ?_⟩
      rw [proceed]
      dsimp only
      rw [getElem?_withEntries]
      split
      · rw [Option.map_map]
        rfl
      · rfl
    | cons change rest =>
      rw [proceed]
      generalize s.disk.step change = stepped
      obtain ⟨e | ⟨⟩, d⟩ := stepped <;> exact ⟨rfl, rfl, fun _ => rfl⟩
  | leaving result => exact ⟨rfl, rfl, fun _ => rfl⟩

theorem proceed_change (s : Store) (h : Handle) (op : Op) (staged : Entries) (change : Disk.Step)
    (rest : List Disk.Step) :
    (∃ e, (s.proceed h op (.writing staged (change :: rest))).1 = .leaving (.error e)) ∨
      (s.proceed h op (.writing staged (change :: rest))).1 = .writing staged rest := by
  rw [proceed]
  generalize s.disk.step change = stepped
  obtain ⟨e | ⟨⟩, d⟩ := stepped
  · exact .inl ⟨_, rfl⟩
  · exact .inr rfl

theorem proceed_locked (s : Store) (h : Handle) (op : Op) :
    (∃ result, (s.proceed h op .locked).1 = .leaving result) ∨
      ∃ staged rest, (s.proceed h op .locked).1 = .writing staged rest := by
  rw [proceed]
  cases op.target? s with
  | none => exact .inl ⟨_, rfl⟩
  | some _ => exact .inr ⟨_, _, rfl⟩

theorem proceed_beside {p : Progress} (hp : ∀ staged change rest, p ≠ .writing staged (change :: rest)) :
    (s.proceed h op p).2.disk = s.disk ∧
      ∀ k, k ≠ h → (s.proceed h op p).2.buckets[k]? = s.buckets[k]? := by
  cases p with
  | locked =>
    rw [proceed]
    cases op.target? s <;> exact ⟨rfl, fun _ _ => rfl⟩
  | writing staged rest =>
    cases rest with
    | nil =>
      refine ⟨rfl, fun k hk => ?_⟩
      rw [proceed]
      dsimp only
      rw [getElem?_withEntries, if_neg (Ne.symm hk)]
    | cons change rest => exact absurd rfl (hp staged change rest)
  | leaving result => exact ⟨rfl, fun _ _ => rfl⟩

theorem finish_congr (hop : op.writes? = some h) (hhome : s'.home = s.home) (hdisk : s'.disk = s.disk)
    (hbucket : s'.buckets[h]? = s.buckets[h]?) (p : Progress) :
    (s'.finish h op p).2.home = (s.finish h op p).2.home ∧
      (s'.finish h op p).2.disk = (s.finish h op p).2.disk ∧
      (s'.finish h op p).2.entries h = (s.finish h op p).2.entries h := by
  have hentries : s'.entries h = s.entries h := by rw [entries, entries, hbucket]
  have hname : s'.bucketName h = s.bucketName h := by rw [bucketName, bucketName, hbucket]
  have hwriting : ∀ staged rest,
      (s'.finish h op (.writing staged rest)).2.home = (s.finish h op (.writing staged rest)).2.home ∧
      (s'.finish h op (.writing staged rest)).2.disk = (s.finish h op (.writing staged rest)).2.disk ∧
      (s'.finish h op (.writing staged rest)).2.entries h =
        (s.finish h op (.writing staged rest)).2.entries h := by
    intro staged rest
    rw [finish, finish, hdisk]
    generalize s.disk.run rest = ran
    obtain ⟨e | ⟨⟩, d⟩ := ran
    · exact ⟨hhome, rfl, hentries⟩
    · refine ⟨hhome, rfl, ?_⟩
      change (s'.withEntries h staged).entries h = (s.withEntries h staged).entries h
      rw [entries, entries, getElem?_withEntries, getElem?_withEntries, hbucket]
  cases p with
  | locked =>
    have htarget : op.target? s' = op.target? s := by
      cases op with
      | remove k key =>
        cases hop
        rw [Op.target?, Op.target?, hentries]
      | _ => rfl
    obtain ⟨ht, _⟩ | ⟨ht, _, hperform⟩ := perform_of_writes (s := s) hop
    · have hchanges : s'.changes op = s.changes op := by
        rw [changes, changes, htarget, ht, hhome]
        cases s.home with
        | none => rfl
        | some home =>
          dsimp only
          rw [hname, hentries]
      rw [finish, finish, perform_of_target hop ht, perform_of_target hop (htarget.trans ht),
        hentries, hchanges]
      exact hwriting _ _
    · obtain ⟨ht', _⟩ | ⟨_, _, hperform'⟩ := perform_of_writes (s := s') hop
      · cases (htarget.trans ht).symm.trans ht'
      · rw [finish, finish, hperform, hperform']
        exact ⟨hhome, hdisk, hentries⟩
  | writing staged rest => exact hwriting staged rest
  | leaving result => exact ⟨hhome, hdisk, hentries⟩

/-- The store once the write through `h`, if there is one, has ended. -/
def upTo (s : Store) (h : Handle) : Option (Op × Progress) → Store
  | none => s
  | some (op, p) => (s.finish h op p).2

theorem upTo_congr {w : Option (Op × Progress)} (hop : ∀ op p, w = some (op, p) → op.writes? = some h)
    (hhome : s'.home = s.home) (hdisk : s'.disk = s.disk)
    (hbucket : s'.buckets[h]? = s.buckets[h]?) :
    (s'.upTo h w).home = (s.upTo h w).home ∧ (s'.upTo h w).disk = (s.upTo h w).disk ∧
      (s'.upTo h w).entries h = (s.upTo h w).entries h := by
  cases w with
  | none =>
    refine ⟨hhome, hdisk, ?_⟩
    rw [upTo, upTo, entries, entries, hbucket]
  | some w => exact finish_congr (hop w.1 w.2 rfl) hhome hdisk hbucket w.2

theorem stored_congr (hhome : s'.home = s.home) (hdisk : s'.disk = s.disk) :
    s'.stored name = s.stored name := by
  rw [stored, stored, hhome, hdisk]

end AssetCache.Store
