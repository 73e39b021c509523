import AssetCache.Proofs.Store.Crash

namespace AssetCache.Store

variable {s : Store} {name : String} {h : Handle}

def opens (s : Store) (name : String) : Nat → Store
  | 0 => s
  | k + 1 => ((s.opens name k).openBucket name).2

/-- However often the bucket is opened, it is told whether that did well as it was the first time. -/
def Steady (s : Store) (name : String) : Prop :=
  ∀ k, ((s.opens name k).openBucket name).1 = (s.openBucket name).1

theorem opens_opens (s : Store) (name : String) (j k : Nat) :
    (s.opens name j).opens name k = s.opens name (j + k) := by
  induction k with
  | zero => rfl
  | succ k ih => rw [← Nat.add_assoc, opens, opens, ih]

theorem openBucket_of_registered (hr : s.registry.lookup name = some h) :
    s.openBucket name = (.ok h, s) := by
  rw [openBucket, hr]

theorem opens_of_registered (hr : s.registry.lookup name = some h) (k : Nat) :
    s.opens name k = s := by
  induction k with
  | zero => rfl
  | succ k ih => rw [Store.opens, ih, openBucket_of_registered hr]

theorem openBucket_opens (ho : (s.openBucket name).1 = .ok h) (k : Nat) :
    (s.opens name k).openBucket name = s.openBucket name := by
  induction k with
  | zero => rfl
  | succ k ih =>
    rw [Store.opens, ih, openBucket_of_registered (openBucket_registered ho), ← ho]

theorem steady_of_ok (ho : (s.openBucket name).1 = .ok h) : s.Steady name := fun k =>
  congrArg (·.1) (openBucket_opens ho k)

theorem opens_same (hs : s.Sound) (name : String) (k : Nat) :
    s.Same (s.opens name k) ∧ (s.opens name k).Sound := by
  induction k with
  | zero => exact ⟨.refl s, hs⟩
  | succ k ih =>
    obtain ⟨hsame, hsound⟩ := openBucket_same ih.2 name
    exact ⟨ih.1.trans hsame, hsound⟩

theorem opens_disk (s : Store) (name : String) (k : Nat) :
    (s.opens name k).disk.entries = s.disk.entries := by
  induction k with
  | zero => rfl
  | succ k ih => exact (openBucket_disk _ name).trans ih

theorem openBucket_mishaps (hcalm : s.disk.mishaps = []) (name : String) :
    (s.openBucket name).2.disk.mishaps = [] := by
  have hload : (s.load name).2 = s := by rw [load_calm hcalm]
  rw [openBucket]
  cases s.registry.lookup name with
  | some h => exact hcalm
  | none =>
    generalize s.load name = loaded at hload ⊢
    obtain ⟨_ | _, s'⟩ := loaded
    · exact hload ▸ hcalm
    · exact hload ▸ hcalm

theorem commit_mishaps (hcalm : s.disk.mishaps = []) (h : Handle) (staged : Entries) :
    (s.commit h staged).2.disk.mishaps = [] := by
  rw [commit]
  cases s.home with
  | none => exact hcalm
  | some home =>
    have hrun := Disk.run_mishaps hcalm (Snapshot.commit home (s.bucketName h) staged)
    dsimp only
    generalize s.disk.run (Snapshot.commit home (s.bucketName h) staged) = ran at hrun ⊢
    obtain ⟨_ | _, d⟩ := ran
    · exact hrun
    · exact hrun

/-- A bucket that cannot be opened leaves all as it is. -/
theorem openBucket_calm (hcalm : s.disk.mishaps = []) {e : CacheError}
    (ho : (s.openBucket name).1 = .error e) : (s.openBucket name).2 = s := by
  have hload : s.load name = ((s.load name).1, s) := by rw [load_calm hcalm]
  rw [openBucket] at ho ⊢
  cases hr : s.registry.lookup name with
  | some h => rfl
  | none =>
    rw [hr, hload] at ho
    rw [hload]
    cases hl : (s.load name).1 with
    | error e => rfl
    | ok entries =>
      rw [hl] at ho
      cases ho

theorem steady_of_calm (hcalm : s.disk.mishaps = []) (name : String) : s.Steady name := by
  cases ho : (s.openBucket name).1 with
  | ok h => exact steady_of_ok ho
  | error e =>
    have hopens : ∀ k, s.opens name k = s := fun k => by
      induction k with
      | zero => rfl
      | succ k ih => rw [Store.opens, ih, openBucket_calm hcalm ho]
    exact fun k => by rw [hopens k]

end AssetCache.Store
