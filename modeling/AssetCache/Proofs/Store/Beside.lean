import AssetCache.Proofs.Store.Atomicity

namespace AssetCache

namespace Disk

variable {d d' : Disk} {p f : Path} {a b : String} {e : Entry} {bytes : ByteArray}

theorem at?_of_find (h : d.find p = .ok e) : d.at? p = some e := by
  rw [find] at h
  cases hblocked : d.blocked p with
  | some e' =>
    rw [hblocked] at h
    cases h
  | none =>
    rw [hblocked] at h
    cases hat : d.at? p with
    | none =>
      rw [hat] at h
      cases h
    | some e' =>
      rw [hat] at h
      cases h
      rfl

theorem at?_of_find_notFound (hd : d.IsTree) (h : d.find p = .error .notFound) :
    d.at? p = none := by
  cases hat : d.at? p with
  | none => rfl
  | some e =>
    rw [find_of_at? hd hat] at h
    cases h

theorem not_barred_of_folder (hd : d.IsTree) (hf : d.at? f = some .folder) :
    ¬ d.Barred (f ++ [a]) := by
  intro hbarred
  have hclear := (blocked_append hd a).mpr hf
  obtain ⟨q, post, bytes, hq, hpost, hfile⟩ := hbarred
  rw [hq, blocked, blockedFrom_of_barred hd [] q post hpost hfile] at hclear
  cases hclear

theorem erase_keeps (hd : d.IsTree) (hfile : d.at? (f ++ [a]) ≠ some .folder) :
    KeepsBut f a d (d.erase (f ++ [a])) where
  tree := isTree_erase hd (by simp) hfile
  files q bytes hq := by rw [at?_erase (by simp), if_neg hq]
  beside name hn := by rw [at?_erase (by simp), if_neg (by simpa using hn)]

theorem find_erase (hd : d.IsTree) (hfile : d.at? (f ++ [a]) = some (.file bytes)) :
    (d.erase (f ++ [a])).find (f ++ [a]) = .error .notFound := by
  have hkeeps : KeepsBut f a d (d.erase (f ++ [a])) := erase_keeps hd (by simp [hfile])
  have hfolder : d.at? f = some .folder := hd f a (by simp [hfile])
  apply find_of_not_barred
  · rw [at?_erase (by simp), if_pos rfl]
  · rw [hkeeps.barred_iff]
    exact not_barred_of_folder hd hfolder

theorem step_remove (hd : d.IsTree) (f : Path) (a : String) :
    KeepsBut f a d (d.step (.remove (f ++ [a]))).2 ∧
      ((∃ e, (d.step (.remove (f ++ [a]))).1 = .error e ∧
        (d.step (.remove (f ++ [a]))).2.entries = d.entries) ∨
      ((d.step (.remove (f ++ [a]))).1 = .ok () ∧
        (d.step (.remove (f ++ [a]))).2.find (f ++ [a]) = .error .notFound)) := by
  obtain ⟨d₁, he, hstep⟩ := d.step_cases (.remove (f ++ [a]))
  have hkeeps : KeepsBut f a d d₁ := .of_entries hd he
  obtain ⟨m, hstep⟩ | hstep := hstep
  · rw [hstep]
    exact ⟨hkeeps, .inl ⟨m.error, rfl, he⟩⟩
  · rw [hstep, perform, removeFile]
    cases hfind : d₁.find (f ++ [a]) with
    | error e => exact ⟨hkeeps, .inl ⟨e, rfl, he⟩⟩
    | ok entry =>
      cases entry with
      | folder => exact ⟨hkeeps, .inl ⟨.isFolder, rfl, he⟩⟩
      | file bytes =>
        have hat := at?_of_find hfind
        exact ⟨hkeeps.trans (erase_keeps hkeeps.tree (by simp [hat])),
          .inr ⟨rfl, find_erase hkeeps.tree hat⟩⟩

/-- Beside a file that was replaced the same is found, if anything could be found there. -/
theorem Replaced.find (hd : d.IsTree) (h : Replaced f a b bytes d d') {name : String}
    (ha : name ≠ a) (hb : name ≠ b)
    (hfind : (∃ e, d.find (f ++ [name]) = .ok e) ∨ d.find (f ++ [name]) = .error .notFound) :
    d'.find (f ++ [name]) = d.find (f ++ [name]) := by
  have hbeside := h.beside name ha hb
  obtain ⟨e, hfind⟩ | hfind := hfind
  · rw [hfind]
    exact find_of_at? h.tree (hbeside.trans (at?_of_find hfind))
  · rw [hfind]
    exact find_of_not_barred (hbeside.trans (at?_of_find_notFound hd hfind))
      (not_barred_of_folder h.tree h.folder)

end Disk

theorem Snapshot.found_ok {home name : String} {result : Except SystemError Disk.Entry}
    {m : Entries} (h : found home name result = .ok m) :
    (∃ e, result = .ok e) ∨ result = .error .notFound := by
  cases result with
  | ok e => exact .inl ⟨e, rfl⟩
  | error e =>
    rw [found] at h
    by_cases hnone : e = .notFound
    · exact .inr (by rw [hnone])
    · rw [if_neg hnone] at h
      cases h

namespace Store

variable {s s' : Store} {home name n : String} {h : Handle} {m staged : Entries}

theorem removeSnapshot_cases (hs : s.disk.IsTree) (hhome : s.home = some home) (name : String) :
    ∃ d, (s.removeSnapshot name).2 = { s with disk := d } ∧
      Disk.KeepsBut (Disk.Path.ofText home) (Snapshot.fileName name) s.disk d ∧
      ((∃ e, (s.removeSnapshot name).1 = .error e ∧ d.entries = s.disk.entries) ∨
        (∃ b, (s.removeSnapshot name).1 = .ok b) ∧
          d.find (Snapshot.path home name) = .error .notFound) := by
  obtain ⟨_, registry, buckets, disk⟩ := s
  cases hhome
  rw [removeSnapshot]
  dsimp only
  obtain ⟨d, hd, hx⟩ := disk.exists?_cases (Snapshot.path home name)
  have hkeeps : Disk.KeepsBut (Disk.Path.ofText home) (Snapshot.fileName name) disk d :=
    .of_entries hs hd
  obtain ⟨m, hx⟩ | hx := hx
  · simp only [hx]
    exact ⟨d, rfl, hkeeps, .inl ⟨_, rfl, hd⟩⟩
  simp only [hx, Disk.existsAt]
  cases hfind : disk.find (Snapshot.path home name) with
  | error e =>
    by_cases hnone : e = .notFound
    · subst hnone
      exact ⟨d, rfl, hkeeps, .inr ⟨⟨false, rfl⟩, by rw [Disk.find_entries hd, hfind]⟩⟩
    · simp only [hnone, if_false]
      exact ⟨d, rfl, hkeeps, .inl ⟨_, rfl, hd⟩⟩
  | ok entry =>
    obtain ⟨hremove, hcases⟩ :=
      Disk.step_remove hkeeps.tree (Disk.Path.ofText home) (Snapshot.fileName name)
    rw [← Snapshot.path] at hremove hcases
    dsimp only
    generalize d.step (.remove (Snapshot.path home name)) = removed at hremove hcases
    obtain ⟨result, d'⟩ := removed
    obtain ⟨e, he, hd'⟩ | ⟨hok, hgone⟩ := hcases
    · cases he
      exact ⟨d', rfl, hkeeps.trans hremove, .inl ⟨_, rfl, hd'.trans hd⟩⟩
    · cases hok
      exact ⟨d', rfl, hkeeps.trans hremove, .inr ⟨⟨true, rfl⟩, hgone⟩⟩

theorem delete_eq (s : Store) (name : String) : s.delete name =
    (((s.unregister name).removeSnapshot name).1.map fun removed =>
      (s.registry.lookup name).isSome || removed, ((s.unregister name).removeSnapshot name).2) := by
  rw [delete]
  generalize (s.unregister name).removeSnapshot name = removed
  obtain ⟨e | b, s'⟩ := removed <;> rfl

theorem delete_in_memory (hhome : s.home = none) (name : String) :
    s.delete name = (.ok (s.registry.lookup name).isSome, s.unregister name) := by
  obtain ⟨_, registry, buckets, disk⟩ := s
  cases hhome
  rw [delete_eq]
  simp [removeSnapshot, unregister, Except.map]

/-- A bucket whose deletion fails is registered no more, but its snapshot is as it was. -/
theorem delete_cases (hs : s.disk.IsTree) (hhome : s.home = some home) (name : String) :
    ∃ d, (s.delete name).2 = { s.unregister name with disk := d } ∧
      Disk.KeepsBut (Disk.Path.ofText home) (Snapshot.fileName name) s.disk d ∧
      ((∃ e, (s.delete name).1 = .error e ∧ d.entries = s.disk.entries) ∨
        (∃ b, (s.delete name).1 = .ok b) ∧
          d.find (Snapshot.path home name) = .error .notFound) := by
  obtain ⟨d, hd, hkeeps, hcases⟩ := removeSnapshot_cases (s := s.unregister name) hs hhome name
  refine ⟨d, by rw [delete_eq, hd], hkeeps, ?_⟩
  rw [delete_eq]
  obtain ⟨e, he, hentries⟩ | ⟨⟨b, hb⟩, hgone⟩ := hcases
  · exact .inl ⟨e, by rw [he]; rfl, hentries⟩
  · exact .inr ⟨⟨_, by rw [hb]; rfl⟩, hgone⟩

/-- To all who ask for the bucket `name`, `s'` is `s`. -/
structure SameAt (name : String) (s s' : Store) : Prop where
  home : s'.home = s.home
  registry : s'.registry.lookup name = s.registry.lookup name
  entries : ∀ h, s.registry.lookup name = some h → s'.entries h = s.entries h
  file : ∀ home, s.home = some home →
    s'.disk.find (Snapshot.path home name) = s.disk.find (Snapshot.path home name)

namespace SameAt

theorem stored (h : SameAt name s s') : s'.stored name = s.stored name := by
  rw [stored_eq, stored_eq, h.home]
  cases hhome : s.home with
  | none => rfl
  | some home =>
    dsimp only
    rw [h.file home hhome]

theorem contents (h : SameAt name s s') : s'.contents name = s.contents name := by
  rw [Store.contents, Store.contents, h.registry, h.stored]
  cases hr : s.registry.lookup name with
  | none => rfl
  | some k =>
    dsimp only
    rw [h.entries k hr]

theorem refl (name : String) (s : Store) : SameAt name s s :=
  ⟨rfl, rfl, fun _ _ => rfl, fun _ _ => rfl⟩

theorem of_entries {d : Disk} (hd : d.entries = s.disk.entries) :
    SameAt name s { s with disk := d } :=
  ⟨rfl, rfl, fun _ _ => rfl, fun _ _ => Disk.find_entries hd _⟩

end SameAt

/-- A bucket is not concerned if another is opened, nor if it is not opened itself in the end. -/
theorem openBucket_beside (hs : s.Sound) (hne : n = name → ∃ e, (s.openBucket n).1 = .error e) :
    SameAt name s (s.openBucket n).2 := by
  rw [openBucket] at hne ⊢
  cases hr : s.registry.lookup n with
  | some h => exact .refl name s
  | none =>
    rw [hr] at hne
    obtain ⟨d, hd, hload, _⟩ := s.load_cases n
    cases hl : s.load n with
    | mk result s₁ =>
      rw [hl] at hload hne
      subst hload
      cases result with
      | error e => exact .of_entries hd
      | ok entries =>
        have hname : ¬ name = n := by
          intro he
          obtain ⟨e, he⟩ := hne he.symm
          cases he
        have hb : (name == n) = false := by simpa using hname
        refine ⟨rfl, by simp [register, List.lookup_cons, hb], fun h hh => ?_,
          fun _ _ => Disk.find_entries hd _⟩
        obtain ⟨b, hbucket, _⟩ := hs.registered name h hh
        have hlt := (List.getElem?_eq_some_iff.mp hbucket).1
        rw [entries_eq hbucket]
        exact entries_eq ((List.getElem?_append_left hlt).trans hbucket)

theorem has_beside (s : Store) (n name : String) : SameAt name s (s.has n).2 := by
  obtain ⟨d, hd, hhas⟩ := has_disk s n
  rw [hhas]
  exact .of_entries hd

theorem delete_beside (hs : s.Sound) (hne : name ≠ n)
    (hfile : s.home = none ∨ Snapshot.fileName name ≠ Snapshot.fileName n) :
    SameAt name s (s.delete n).2 := by
  have hlookup : (s.unregister n).registry.lookup name = s.registry.lookup name := by
    rw [Represents.lookup_unregister, if_neg hne]
  cases hhome : s.home with
  | none =>
    rw [delete_in_memory hhome]
    exact ⟨rfl, hlookup, fun _ _ => rfl, fun _ _ => rfl⟩
  | some home =>
    have hfile : Snapshot.fileName name ≠ Snapshot.fileName n := by simpa [hhome] using hfile
    obtain ⟨d, hd, hkeeps, _⟩ := delete_cases hs.tree hhome n
    rw [hd]
    refine ⟨rfl, hlookup, fun _ _ => rfl, fun home' hhome' => ?_⟩
    cases hhome.symm.trans hhome'
    exact hkeeps.find hs.tree hfile

theorem commit_beside (hs : s.Sound) (hstored : s.home ≠ none → s.stored name = .ok m)
    (hne : s.registry.lookup name ≠ some h)
    (hfile : s.home = none ∨ Snapshot.fileName name ≠ Snapshot.fileName (s.bucketName h)) :
    SameAt name s (s.commit h staged).2 := by
  have hentries : ∀ k, s.registry.lookup name = some k →
      (s.withEntries h staged).entries k = s.entries k := by
    intro k hk
    obtain ⟨b, hb, _⟩ := hs.registered name k hk
    have hhk : ¬ h = k := by
      intro he
      subst he
      exact hne hk
    rw [entries_withEntries (List.getElem?_eq_some_iff.mp hb).1, if_neg hhk]
  have hdraft := Snapshot.fileName_ne_draftName name (s.bucketName h)
  obtain ⟨home, e, d, hhome, hc, hkeeps⟩ | ⟨d, hc, ⟨hnone, rfl⟩ | ⟨home, hhome, hreplaced⟩⟩ :=
    commit_cases hs h staged
  · rw [hc]
    refine ⟨rfl, rfl, fun _ _ => rfl, fun home' hhome' => ?_⟩
    cases hhome.symm.trans hhome'
    exact hkeeps.find hs.tree hdraft
  · rw [hc]
    exact ⟨rfl, rfl, hentries, fun _ _ => rfl⟩
  · rw [hc]
    refine ⟨rfl, rfl, hentries, fun home' hhome' => ?_⟩
    cases hhome.symm.trans hhome'
    have hfile : Snapshot.fileName name ≠ Snapshot.fileName (s.bucketName h) := by
      simpa [hhome] using hfile
    have hstored := hstored (by simp [hhome])
    rw [stored_eq, hhome] at hstored
    refine hreplaced.find hs.tree hdraft hfile (Snapshot.found_ok hstored)

end Store

end AssetCache
