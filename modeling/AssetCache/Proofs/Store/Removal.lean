import AssetCache.Proofs.Store.Isolation

namespace AssetCache.Store

variable {s s' : Store} {home name : String} {h : Handle} {e : CacheError}

theorem unregister_of_lookup_none (hnone : s.registry.lookup name = none) :
    s.unregister name = s := by
  have hkept : s.registry.filter (fun p => p.1 ≠ name) = s.registry := by
    apply List.filter_eq_self.mpr
    intro p hp
    have hne := List.lookup_eq_none_iff.mp hnone p hp
    rw [bne_iff_ne] at hne
    exact decide_eq_true hne.symm
  rw [unregister, hkept]

theorem contents_of_openBucket (hs : s.Sound) (hopen : (s.openBucket name).1 = .ok h) :
    s.contents name = .ok ((s.openBucket name).2.entries h) := by
  rw [← (openBucket_same hs name).1.contents]
  exact contents_of_registered (openBucket_registered hopen)

theorem Unchanged.contents (hsame : Unchanged s s') (n : String) :
    s'.contents n = s.contents n := by
  rw [Store.contents, Store.contents, hsame.registry, hsame.stored]
  simp only [hsame.entries]

theorem contents_unregister_self (s : Store) (name : String) :
    (s.unregister name).contents name = s.stored name := by
  rw [contents, Represents.lookup_unregister, if_pos rfl]
  rfl

theorem apart_unregister {n : String} (hn : n ≠ name) : Apart n s (s.unregister name) :=
  ⟨rfl, by rw [Represents.lookup_unregister, if_neg hn], fun _ _ _ => Iff.rfl, fun _ _ => rfl⟩

theorem apart_of_entries {d : Disk} (hd : d.entries = s.disk.entries) (n : String) :
    Apart n s { s with disk := d } :=
  ⟨rfl, rfl, fun _ _ _ => Iff.rfl, fun _ _ => Disk.find_entries hd _⟩

/-- Of its two halves a deletion that fails has done the first. -/
theorem delete_error (hs : s.disk.IsTree) (hhome : s.home = some home)
    (hfails : (s.delete name).1 = .error e) :
    ∃ d : Disk, d.entries = s.disk.entries ∧
      (s.delete name).2 = { s.unregister name with disk := d } := by
  obtain ⟨d, hd, -, ⟨_, -, hentries⟩ | ⟨⟨b, hok⟩, -⟩⟩ := delete_cases hs hhome name
  · exact ⟨d, hentries, hd⟩
  · rw [hok] at hfails
    cases hfails

/-- A deletion that fails, whichever of its accesses to the disk goes wrong, has made the store forget
the name and has done nothing else. So it has changed nothing if and only if the bucket was not open.
If it was, its name is missing now, and who opens it again begins with what is on the disk. -/
theorem failed_deletion_only_unregisters (hs : Reached home s)
    (hfails : (s.delete name).1 = .error e) :
    let s' := (s.delete name).2
    Unchanged (s.unregister name) s' ∧
      (∀ n, n ≠ name → Apart n s s') ∧
      (∀ h, (s'.openBucket name).1 = .ok h →
        s.stored name = .ok ((s'.openBucket name).2.entries h)) ∧
      (s.registry.lookup name = none →
        Unchanged s s' ∧ s'.names = s.names ∧ (∀ n, s'.contents n = s.contents n) ∧
          ∀ n, s'.present n = s.present n) ∧
      (Unchanged s s' → s.registry.lookup name = none) := by
  intro s'
  obtain ⟨hsound, hhome⟩ := hs.keeps
  obtain ⟨d, hentries, hd⟩ := delete_error hsound.tree hhome hfails
  have hdisk : Unchanged (s.unregister name) s' := by
    rw [show s' = _ from hd]
    exact unchanged_of_disk (.of_entries hentries)
  have hapart : ∀ n, Apart n (s.unregister name) s' := fun n => by
    rw [show s' = _ from hd]
    exact apart_of_entries (s := s.unregister name) hentries n
  have hsound' : s'.Sound := by
    rw [show s' = _ from hd]
    exact hsound.unregister name (hsound.tree.congr (Disk.at?_congr hentries))
  refine ⟨hdisk, fun n hn => (apart_unregister hn).trans (hapart n), fun h hopen => ?_,
    fun hnone => ?_, fun hsame => ?_⟩
  · rw [← contents_of_openBucket hsound' hopen, hdisk.contents, contents_unregister_self]
  · rw [unregister_of_lookup_none hnone] at hdisk hapart
    exact ⟨hdisk, by rw [names, names, hdisk.registry], hdisk.contents, fun n => (hapart n).present⟩
  · rw [← hsame.registry, hdisk.registry, Represents.lookup_unregister, if_pos rfl]

/-- A bucket is written to and cannot be taken from the disk: its name is gone, its entries are not. -/
theorem failed_deletion_of_written_bucket :
    let disk : Disk := ⟨[], [none, none, none, none, none, some ⟨.code 13, none⟩]⟩
    let opened := ((begin (some "cache") disk).perform (.openBucket "a")).2
    let s := (opened.perform (.put 0 ⟨"GET", "u"⟩ ⟨200, [], .empty⟩)).2
    let s' := (s.delete "a").2
    (s.delete "a").1 = .error (.io (.code 13)) ∧ s.names = ["a"] ∧ s'.names = [] ∧
      ¬ Unchanged s s' ∧ ∀ h, (s'.openBucket "a").1 = .ok h →
        s.stored "a" = .ok ((s'.openBucket "a").2.entries h) := by
  intro disk opened s s'
  have hdisk : disk.IsTree := Disk.isTree_empty.congr fun _ => rfl
  have hs : Reached "cache" s := ((Reached.begin hdisk).perform _).perform _
  have hfails : (s.delete "a").1 = .error (.io (.code 13)) := by decide +kernel
  obtain ⟨-, -, hopens, -, hchanges⟩ := failed_deletion_only_unregisters hs hfails
  refine ⟨hfails, by decide +kernel, by decide +kernel, fun hsame => ?_, hopens⟩
  have hregistered : s.registry.lookup "a" = some 0 := by decide +kernel
  cases hregistered.symm.trans (hchanges hsame)

/-- A folder stands in the place of the snapshot of an open bucket, which is then deleted: the
deletion fails, and all the same the bucket is gone from the names and cannot be opened any more. -/
theorem failed_deletion_loses_bucket :
    let opened := ((begin (some "store") .empty).perform (.openBucket "b")).2
    let s := { opened with disk := (opened.disk.makeFolders (Snapshot.path "store" "b")).2 }
    let s' := (s.delete "b").2
    Reached "store" s ∧ (s.delete "b").1 = .error (.io .isFolder) ∧
      (s.names = ["b"] ∧ (s.openBucket "b").1 = .ok 0) ∧
      s'.names = [] ∧ (s'.openBucket "b").1 = .error (.io .isFolder) := by
  intro opened s s'
  have hopened : Reached "store" opened := (Reached.begin Disk.isTree_empty).perform _
  have htree : (opened.disk.makeFolders (Snapshot.path "store" "b")).2.IsTree :=
    (Disk.makeFolders_keeps hopened.keeps.1.tree (List.prefix_refl _) "").1.tree
  refine ⟨hopened.disturb htree, ?_⟩
  decide +kernel

end AssetCache.Store
