import AssetCache.Proofs.Store.Atomicity

namespace AssetCache

theorem Entries.erase_of_not_contains {m : Entries} {k : Key} (h : m.contains k = false) :
    m.erase k = m := by
  apply ext_get?
  intro k'
  rw [get?_erase]
  by_cases hk : k' = k
  · subst hk
    rw [contains_eq_isSome, Option.isSome_eq_false_iff, Option.isNone_iff_eq_none] at h
    rw [if_pos rfl, h]
  · rw [if_neg hk]

namespace Store

variable {s s' : Store} {home name : String} {h : Handle} {op : Op} {staged : Entries}

/-- The bucket that an operation puts something into or removes something from. -/
def Op.writes? : Op → Option Handle
  | .put h _ _ | .putAll h _ | .remove h _ => some h
  | _ => none

def Op.applied (m : Entries) : Op → Entries
  | .put _ k r => m.insert k r
  | .putAll _ batch => m.insertAll batch
  | .remove _ k => m.erase k
  | _ => m

/-- The entries after an operation, which does nothing if it fails. -/
def Op.settled (m : Entries) (op : Op) : Except CacheError Returned → Entries
  | .ok _ => op.applied m
  | .error _ => m

def Op.answer (m : Entries) : Op → Returned
  | .remove _ k => .flag (m.contains k)
  | _ => .done

def changes (s : Store) (op : Op) : List Disk.Step :=
  match s.home, op.target? s with
  | some home, some h => Snapshot.commit home (s.bucketName h) (op.applied (s.entries h))
  | _, _ => []

/-- The operation commits what it makes of the entries, or there is nothing to remove. -/
theorem perform_of_writes (hop : op.writes? = some h) :
    (op.target? s = some h ∧ s.perform op =
      ((s.commit h (op.applied (s.entries h))).1.map fun _ => op.answer (s.entries h),
        (s.commit h (op.applied (s.entries h))).2)) ∨
    (op.target? s = none ∧ op.applied (s.entries h) = s.entries h ∧
      s.perform op = (.ok (op.answer (s.entries h)), s)) := by
  cases op with
  | put h' k r =>
    cases hop
    exact .inl ⟨rfl, rfl⟩
  | putAll h' batch =>
    cases hop
    exact .inl ⟨rfl, rfl⟩
  | remove h' k =>
    cases hop
    rw [Op.target?, perform, remove_eq]
    by_cases hk : (s.entries h).contains k = true
    · rw [if_pos hk, if_pos hk]
      simp only [Op.applied, Op.answer, hk]
      refine .inl ⟨trivial, ?_⟩
      generalize s.commit h ((s.entries h).erase k) = done
      obtain ⟨e | ⟨⟩, s'⟩ := done <;> rfl
    · rw [if_neg hk, if_neg hk, Op.answer]
      rw [Bool.not_eq_true] at hk
      rw [hk]
      exact .inr ⟨rfl, Entries.erase_of_not_contains hk, rfl⟩
  | openBucket n => cases hop
  | has n => cases hop
  | delete n => cases hop
  | get h' k => cases hop
  | contains h' k => cases hop
  | keys h' => cases hop
  | len h' => cases hop
  | restart => cases hop

theorem commit_eq (hhome : s.home = some home) (h : Handle) (staged : Entries) :
    s.commit h staged =
      match s.disk.run (Snapshot.commit home (s.bucketName h) staged) with
      | (.error e, d) => (.error (.io e), { s with disk := d })
      | (.ok (), d) => (.ok (), { s.withEntries h staged with disk := d }) := by
  obtain ⟨_, registry, buckets, disk⟩ := s
  cases hhome
  rfl

theorem commit_disk (hhome : s.home = some home) (h : Handle) (staged : Entries) :
    (s.commit h staged).2.disk = (s.disk.run (Snapshot.commit home (s.bucketName h) staged)).2 := by
  rw [commit_eq hhome]
  generalize s.disk.run _ = ran
  obtain ⟨e | ⟨⟩, d⟩ := ran <;> rfl

theorem commit_of_run (hhome : s.home = some home)
    (hrun : (s.disk.run (Snapshot.commit home (s.bucketName h) staged)).1 = .ok ()) :
    (s.commit h staged).1 = .ok () := by
  rw [commit_eq hhome]
  generalize s.disk.run _ = ran at hrun ⊢
  obtain ⟨_, d⟩ := ran
  cases hrun
  rfl

theorem perform_disk (hhome : s.home = some home) (hop : op.writes? = some h) :
    (s.perform op).2.disk = (s.disk.run (s.changes op)).2 := by
  obtain ⟨htarget, hperform⟩ | ⟨htarget, _, hperform⟩ := perform_of_writes (s := s) hop
  · rw [hperform, changes, htarget, hhome]
    exact commit_disk hhome h _
  · rw [hperform, changes, htarget, hhome]
    rfl

end Store

end AssetCache
