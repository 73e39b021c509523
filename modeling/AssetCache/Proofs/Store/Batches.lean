import AssetCache.Proofs.Store.Isolation

namespace AssetCache

namespace Disk

structure Accepts (home name : String) (d : Disk) : Prop where
  tree : d.IsTree
  calm : d.mishaps = []
  writable : d.Writable (Path.ofText home) (Snapshot.draftName name)
  file : d.at? (Snapshot.path home name) ≠ some .folder

variable {d : Disk} {home name : String}

/-- A snapshot is written and no other is touched, and the next can be written as well. -/
theorem Accepts.commit (hd : d.Accepts home name) (staged : Entries) :
    ∃ d', d.run (Snapshot.commit home name staged) = (.ok (), d') ∧ d'.Accepts home name ∧
      ∀ n, d'.bytesAt (Snapshot.path home n) =
        if Snapshot.fileName n = Snapshot.fileName name then .ok (Snapshot.encode name staged)
        else d.bytesAt (Snapshot.path home n) := by
  have hne := (Snapshot.fileName_ne_draftName name name).symm
  have hok : (d.run (Snapshot.commit home name staged)).1 = .ok () :=
    (run_replace_calm hd.tree hd.calm hne hd.writable.clear hd.writable.draft hd.file _).1
  obtain ⟨e, he, _⟩ | ⟨_, hreplaced⟩ := Snapshot.run_commit hd.tree home name staged
  · cases hok.symm.trans he
  refine ⟨_, Prod.ext hok rfl, ⟨hreplaced.tree, run_mishaps hd.calm _, ⟨?_, ?_⟩, ?_⟩, fun n => ?_⟩
  · exact clear_of_folder hreplaced.tree hreplaced.folder
  · simp [hreplaced.draft]
  · simp [Snapshot.path, hreplaced.file]
  · rw [bytesAt, Snapshot.path]
    by_cases hn : Snapshot.fileName n = Snapshot.fileName name
    · rw [if_pos hn, hn, find_of_at? hreplaced.tree hreplaced.file]
    · rw [if_neg hn, hreplaced.find hd.tree (Snapshot.fileName_ne_draftName n name) hn
        (hd.writable.clear.find hd.tree _)]
      rfl

end Disk

namespace Store

variable {s s' s'' : Store} {h : Handle} {m m' : Entries} {op : Op} {ops ops' : List Op}

structure Ready (s : Store) (h : Handle) : Prop where
  given : h < s.buckets.length
  accepts : ∀ home, s.home = some home → s.disk.Accepts home (s.bucketName h)

/-- `s'` is `s` but for the entries of one bucket, in memory and in its snapshot. -/
structure Committed (s : Store) (h : Handle) (m : Entries) (s' : Store) : Prop where
  home : s'.home = s.home
  registry : s'.registry = s.registry
  buckets : s'.buckets = (s.withEntries h m).buckets
  snapshots : ∀ home, s.home = some home → ∀ n, s'.disk.bytesAt (Snapshot.path home n) =
    if Snapshot.fileName n = Snapshot.fileName (s.bucketName h) then
      .ok (Snapshot.encode (s.bucketName h) m)
    else s.disk.bytesAt (Snapshot.path home n)

/-- The two are the same in memory, and the snapshots are the same to the byte. -/
structure Alike (s s' : Store) : Prop where
  home : s'.home = s.home
  registry : s'.registry = s.registry
  buckets : s'.buckets = s.buckets
  snapshots : ∀ home, s.home = some home → ∀ n,
    s'.disk.bytesAt (Snapshot.path home n) = s.disk.bytesAt (Snapshot.path home n)

def Mirrored (s : Store) (h : Handle) : Prop :=
  ∀ home, s.home = some home → s.disk.bytesAt (Snapshot.path home (s.bucketName h)) =
    .ok (Snapshot.encode (s.bucketName h) (s.entries h))

theorem bucketName_withEntries (s : Store) (h : Handle) (m : Entries) :
    (s.withEntries h m).bucketName h = s.bucketName h := by
  rw [bucketName, bucketName, getElem?_withEntries, if_pos rfl]
  cases s.buckets[h]? <;> rfl

theorem withEntries_withEntries (s : Store) (h : Handle) (m m' : Entries) :
    ((s.withEntries h m).withEntries h m').buckets = (s.withEntries h m').buckets := by
  refine List.ext_getElem? fun k => ?_
  simp only [getElem?_withEntries]
  by_cases hk : h = k
  · simp only [if_pos hk, Option.map_map]
    rfl
  · simp only [if_neg hk]

theorem withEntries_entries (hh : h < s.buckets.length) :
    (s.withEntries h (s.entries h)).buckets = s.buckets := by
  refine List.ext_getElem? fun k => ?_
  rw [getElem?_withEntries]
  split
  · next hk =>
    subst hk
    rw [entries, List.getElem?_eq_getElem hh]
    rfl
  · rfl

namespace Committed

theorem entries (hc : s.Committed h m s') (hh : h < s.buckets.length) : s'.entries h = m := by
  have hself : (s.withEntries h m).entries h = m := by rw [entries_withEntries hh, if_pos rfl]
  rwa [Store.entries, ← hc.buckets] at hself

theorem bucketName (hc : s.Committed h m s') : s'.bucketName h = s.bucketName h := by
  rw [← bucketName_withEntries s h m, Store.bucketName, hc.buckets]
  rfl

/-- Of two commits to one bucket nothing is left of the first. -/
theorem trans (hc : s.Committed h m s') (hc' : s'.Committed h m' s'') :
    s.Committed h m' s'' where
  home := hc'.home.trans hc.home
  registry := hc'.registry.trans hc.registry
  buckets := by
    rw [hc'.buckets, ← withEntries_withEntries s h m m', withEntries, withEntries, hc.buckets]
  snapshots home hhome n := by
    rw [hc'.snapshots home (hc.home.trans hhome), hc.bucketName, hc.snapshots home hhome]
    split <;> rfl

theorem alike (hc : s.Committed h m s') (hc' : s.Committed h m s'') : s'.Alike s'' where
  home := hc'.home.trans hc.home.symm
  registry := hc'.registry.trans hc.registry.symm
  buckets := hc'.buckets.trans hc.buckets.symm
  snapshots home hhome n := by
    have hhome' := hc.home.symm.trans hhome
    rw [hc.snapshots home hhome', hc'.snapshots home hhome']

theorem mirrored (hc : s.Committed h m s') (hh : h < s.buckets.length) : s'.Mirrored h := by
  intro home hhome
  rw [hc.bucketName, hc.entries hh, hc.snapshots home (hc.home.symm.trans hhome), if_pos rfl]

/-- To write what the bucket holds is to write its snapshot. -/
theorem alike_iff (hc : s.Committed h (s.entries h) s') (hh : h < s.buckets.length) :
    s.Alike s' ↔ s.Mirrored h := by
  constructor
  · intro halike home hhome
    rw [← halike.snapshots home hhome, hc.snapshots home hhome, if_pos rfl]
  · intro hmirrored
    refine ⟨hc.home, hc.registry, ?_, fun home hhome n => ?_⟩
    · rw [hc.buckets, withEntries_entries hh]
    · rw [hc.snapshots home hhome]
      split
      · next hn => rw [Snapshot.path, hn, ← Snapshot.path, hmirrored home hhome]
      · rfl

end Committed

theorem Ready.commit (hs : s.Ready h) (m : Entries) :
    ∃ s', s.commit h m = (.ok (), s') ∧ s.Committed h m s' ∧ s'.Ready h := by
  have hlength : (s.withEntries h m).buckets.length = s.buckets.length := List.length_modify ..
  cases hhome : s.home with
  | none =>
    have hnone : ∀ {home : String} {p : Prop}, s.home = some home → p := fun h => by
      rw [hhome] at h
      cases h
    refine ⟨s.withEntries h m, by rw [Store.commit, hhome]; rfl,
      ⟨rfl, rfl, rfl, fun _ h => hnone h⟩, ⟨hlength ▸ hs.given, fun _ h => hnone h⟩⟩
  | some home =>
    obtain ⟨d, hrun, haccepts, hsnapshots⟩ := (hs.accepts home hhome).commit m
    have hname := bucketName_withEntries s h m
    refine ⟨{ s.withEntries h m with disk := d }, ?_, ⟨rfl, rfl, rfl, fun home' hhome' n => ?_⟩,
      ⟨hlength ▸ hs.given, fun home' hhome' => ?_⟩⟩
    · rw [commit_eq hhome, hrun]
    · cases hhome.symm.trans hhome'
      exact hsnapshots n
    · cases hhome.symm.trans hhome'
      exact hname.symm ▸ haccepts

def performAll (s : Store) : List Op → Except CacheError Unit × Store
  | [] => (.ok (), s)
  | op :: ops =>
    match s.perform op with
    | (.error e, s) => (.error e, s)
    | (.ok _, s) => s.performAll ops

def Op.Writes (h : Handle) (m : Entries) : Op → Prop
  | .put k _ _ | .putAll k _ => k = h
  | .remove k key => k = h ∧ m.contains key = true
  | _ => False

def WritesAll (h : Handle) : Entries → List Op → Prop
  | _, [] => True
  | m, op :: ops => op.Writes h m ∧ WritesAll h (op.applied m) ops

def appliedAll (m : Entries) (ops : List Op) : Entries := ops.foldl Op.applied m

def RunsAlike (s : Store) (ops ops' : List Op) : Prop :=
  ∃ s₁ s₂, s.performAll ops = (.ok (), s₁) ∧ s.performAll ops' = (.ok (), s₂) ∧ s₁.Alike s₂

/-- After the run the bucket of `h` holds what it held, and its snapshot is what it was if it was
written for that. -/
def Restores (s : Store) (h : Handle) (ops : List Op) : Prop :=
  ∃ s', s.performAll ops = (.ok (), s') ∧ s'.entries h = s.entries h ∧ (s.Alike s' ↔ s.Mirrored h)

theorem Op.Writes.target (hop : op.Writes h (s.entries h)) :
    op.writes? = some h ∧ op.target? s = some h := by
  cases op with
  | put k key r | putAll k batch =>
    cases hop
    exact ⟨rfl, rfl⟩
  | remove k key =>
    obtain ⟨rfl, hkey⟩ := hop
    exact ⟨rfl, if_pos hkey⟩
  | _ => cases hop

theorem Ready.perform (hs : s.Ready h) (hop : op.Writes h (s.entries h)) :
    ∃ answer s', s.perform op = (.ok answer, s') ∧ s.Committed h (op.applied (s.entries h)) s' ∧
      s'.Ready h := by
  obtain ⟨hwrites, htarget⟩ := hop.target
  obtain ⟨s', hcommit, hc, hs'⟩ := hs.commit (op.applied (s.entries h))
  obtain ⟨_, hperform⟩ | ⟨hnone, _⟩ := perform_of_writes (s := s) hwrites
  · rw [hcommit] at hperform
    exact ⟨_, s', hperform, hc, hs'⟩
  · cases hnone.symm.trans htarget

/-- A run of writes is one commit of what they all come to. -/
theorem Ready.performAll (hs : s.Ready h) (hops : WritesAll h (s.entries h) (op :: ops)) :
    ∃ s', s.performAll (op :: ops) = (.ok (), s') ∧
      s.Committed h (appliedAll (s.entries h) (op :: ops)) s' ∧ s'.Ready h := by
  induction ops generalizing s op with
  | nil =>
    obtain ⟨answer, s', hperform, hc, hs'⟩ := hs.perform hops.1
    exact ⟨s', by rw [Store.performAll, hperform]; rfl, hc, hs'⟩
  | cons next ops ih =>
    obtain ⟨answer, s₁, hperform, hc, hs₁⟩ := hs.perform hops.1
    have hrest := hops.2
    rw [← hc.entries hs.given] at hrest
    obtain ⟨s', hrun, hc', hs'⟩ := ih hs₁ hrest
    rw [hc.entries hs.given] at hc'
    exact ⟨s', by rw [Store.performAll, hperform]; exact hrun, hc.trans hc', hs'⟩

theorem Ready.runsAlike {op' : Op} (hs : s.Ready h) (hops : WritesAll h (s.entries h) (op :: ops))
    (hops' : WritesAll h (s.entries h) (op' :: ops'))
    (happlied : appliedAll (s.entries h) (op :: ops) = appliedAll (s.entries h) (op' :: ops')) :
    s.RunsAlike (op :: ops) (op' :: ops') := by
  obtain ⟨s₁, hrun, hc, _⟩ := hs.performAll hops
  obtain ⟨s₂, hrun', hc', _⟩ := hs.performAll hops'
  exact ⟨s₁, s₂, hrun, hrun', hc.alike (happlied ▸ hc')⟩

theorem Ready.restores (hs : s.Ready h) (hops : WritesAll h (s.entries h) (op :: ops))
    (happlied : appliedAll (s.entries h) (op :: ops) = s.entries h) :
    s.Restores h (op :: ops) := by
  obtain ⟨s', hrun, hc, _⟩ := hs.performAll hops
  have hentries := hc.entries hs.given
  rw [happlied] at hc hentries
  exact ⟨s', hrun, hentries, hc.alike_iff hs.given⟩

def putEach (h : Handle) (batch : List (Key × Response)) : List Op :=
  batch.map fun p => .put h p.1 p.2

theorem writesAll_putEach (h : Handle) (m : Entries) (batch : List (Key × Response)) :
    WritesAll h m (putEach h batch) := by
  induction batch generalizing m with
  | nil => trivial
  | cons p batch ih => exact ⟨rfl, ih (m.insert p.1 p.2)⟩

theorem appliedAll_putEach (h : Handle) (m : Entries) (batch : List (Key × Response)) :
    appliedAll m (putEach h batch) = m.insertAll batch :=
  List.foldl_map

/-- Batches compose: to put two of them after one another is to put them as one, and to put the pairs
one by one, the last pair of a key being the one that stays. If they share no key they may be put in
either order. A put is undone by a removal and a removal by a put. All this is so in memory and, to
the byte, in the snapshot, which every write makes one of what the bucket holds. -/
theorem batches_compose_and_commute (hs : s.Ready h) (b₁ b₂ : List (Key × Response)) :
    s.RunsAlike [.putAll h (b₁ ++ b₂)] [.putAll h b₁, .putAll h b₂] ∧
    (b₁ ++ b₂ ≠ [] → s.RunsAlike [.putAll h (b₁ ++ b₂)] (putEach h (b₁ ++ b₂))) ∧
    (∃ s', s.performAll [.putAll h (b₁ ++ b₂)] = (.ok (), s') ∧ s'.Ready h ∧ s'.Mirrored h ∧
      ∀ k, (s'.entries h).get? k = ((b₁ ++ b₂).reverse.lookup k).or ((s.entries h).get? k)) ∧
    ((b₁.map (·.1)).Disjoint (b₂.map (·.1)) →
      s.RunsAlike [.putAll h b₁, .putAll h b₂] [.putAll h b₂, .putAll h b₁]) ∧
    ∀ k r, ((s.entries h).get? k = none → s.Restores h [.put h k r, .remove h k]) ∧
      ((s.entries h).get? k = some r → s.Restores h [.remove h k, .put h k r]) := by
  have hboth : WritesAll h (s.entries h) [.putAll h (b₁ ++ b₂)] := ⟨rfl, trivial⟩
  refine ⟨?_, fun hne => ?_, ?_, fun hdisjoint => ?_, fun k r => ⟨fun hnone => ?_, fun hsome => ?_⟩⟩
  · exact hs.runsAlike hboth ⟨rfl, rfl, trivial⟩ (Entries.insertAll_append _ b₁ b₂)
  · have heach := writesAll_putEach h (s.entries h) (b₁ ++ b₂)
    have happlied := appliedAll_putEach h (s.entries h) (b₁ ++ b₂)
    obtain ⟨p, batch, hbatch⟩ := List.exists_cons_of_ne_nil hne
    rw [hbatch] at hboth heach happlied ⊢
    exact hs.runsAlike hboth heach happlied.symm
  · obtain ⟨s', hrun, hc, hs'⟩ := hs.performAll hboth
    refine ⟨s', hrun, hs', hc.mirrored hs.given, fun k => ?_⟩
    rw [hc.entries hs.given]
    exact Entries.get?_insertAll (s.entries h) (b₁ ++ b₂) k
  · exact hs.runsAlike ⟨rfl, rfl, trivial⟩ ⟨rfl, rfl, trivial⟩
      (Entries.insertAll_comm (s.entries h) hdisjoint)
  · refine hs.restores ⟨rfl, ⟨rfl, ?_⟩, trivial⟩ (Entries.erase_insert hnone r)
    rw [Op.applied, Entries.contains_eq_isSome, Entries.get?_insert, if_pos rfl]
    rfl
  · refine hs.restores ⟨⟨rfl, ?_⟩, rfl, trivial⟩ (Entries.insert_erase hsome)
    rw [Entries.contains_eq_isSome, hsome]
    rfl

/-- A page is put twice in one batch, into a bucket without a snapshot, and then taken out and put
back; an icon comes before it or after it. -/
theorem batches_of_page :
    let page : Key := ⟨"GET", "http://a/"⟩
    let icon : Key := ⟨"GET", "http://a/icon"⟩
    let missing : Response := ⟨404, [], .empty⟩
    let found : Response := ⟨200, [("x", "y")], "found".toUTF8⟩
    let pages := [(page, missing), (page, found)]
    let s := ((begin (some "cache") .empty).perform (.openBucket "a")).2
    s.Ready 0 ∧
      s.RunsAlike [.putAll 0 (pages ++ [(icon, missing)])]
        [.put 0 page missing, .put 0 page found, .put 0 icon missing] ∧
      s.RunsAlike [.putAll 0 pages, .putAll 0 [(icon, missing)]]
        [.putAll 0 [(icon, missing)], .putAll 0 pages] ∧
      ∃ s', s.performAll [.putAll 0 (pages ++ [(icon, missing)])] = (.ok (), s') ∧
        (s'.entries 0).get? page = some found ∧ s'.Mirrored 0 ∧
        s'.Restores 0 [.remove 0 page, .put 0 page found] := by
  intro page icon missing found pages s
  have hdisk : s.disk = .empty := by decide +kernel
  have hready : s.Ready 0 := by
    refine ⟨by decide +kernel, fun home hhome => ?_⟩
    cases hhome
    rw [hdisk]
    refine ⟨Disk.isTree_empty, rfl, ⟨fun q post bytes _ hfile => ?_, by decide +kernel⟩,
      by decide +kernel⟩
    cases q <;> cases hfile
  obtain ⟨-, heach, ⟨s', hrun, hs', hmirrored, hentries⟩, horder, -⟩ :=
    batches_compose_and_commute hready pages [(icon, missing)]
  have hpage : (s'.entries 0).get? page = some found := by
    rw [hentries]
    rfl
  obtain ⟨-, -, -, -, hrestores⟩ := batches_compose_and_commute hs' [] []
  exact ⟨hready, heach (by simp), horder (by simp [pages, page, icon]), s', hrun, hpage, hmirrored,
    (hrestores page found).2 hpage⟩

end Store

end AssetCache
