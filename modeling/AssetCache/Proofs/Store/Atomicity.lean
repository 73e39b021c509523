import AssetCache.Proofs.Store.Refinement

namespace AssetCache.Store

variable {s : Store} {home name : String} {h : Handle} {staged : Entries}

/-- The stores that processes come to which keep their buckets under `home`, one after the other,
while others change what is on the disk. -/
inductive Reached (home : String) : Store → Prop
  | begin {d : Disk} (hd : d.IsTree) : Reached home (begin (some home) d)
  | perform {s : Store} (hs : Reached home s) (op : Op) : Reached home (s.perform op).2
  | disturb {s : Store} (hs : Reached home s) {d : Disk} (hd : d.IsTree) :
    Reached home { s with disk := d }

theorem has_disk (s : Store) (name : String) :
    ∃ d : Disk, d.entries = s.disk.entries ∧ (s.has name).2 = { s with disk := d } := by
  obtain ⟨home, registry, buckets, disk⟩ := s
  rw [has]
  dsimp only
  cases registry.lookup name with
  | some h => exact ⟨disk, rfl, rfl⟩
  | none =>
    cases home with
    | none => exact ⟨disk, rfl, rfl⟩
    | some home =>
      obtain ⟨d, hd, hx⟩ := disk.exists?_cases (Snapshot.path home name)
      obtain ⟨m, hx⟩ | hx := hx
      · simp only [hx]
        exact ⟨d, hd, rfl⟩
      · simp only [hx]
        cases disk.existsAt (Snapshot.path home name) with
        | error e => exact ⟨d, hd, rfl⟩
        | ok there => exact ⟨d, hd, rfl⟩

theorem isTree_removeFile {d : Disk} (hd : d.IsTree) (p : Disk.Path) (name : String) :
    (d.removeFile (p ++ [name])).2.IsTree := by
  rw [Disk.removeFile]
  split
  · exact hd
  · exact hd
  · next bytes hf =>
    refine Disk.isTree_erase hd (by simp) fun hfolder => ?_
    rw [Disk.find_of_at? hd hfolder] at hf
    cases hf

theorem removeSnapshot_disk (hs : s.disk.IsTree) (name : String) :
    ∃ d : Disk, d.IsTree ∧ (s.removeSnapshot name).2 = { s with disk := d } := by
  obtain ⟨home, registry, buckets, disk⟩ := s
  cases home with
  | none => exact ⟨disk, hs, rfl⟩
  | some home =>
    rw [removeSnapshot]
    dsimp only
    obtain ⟨d, hd, hx⟩ := disk.exists?_cases (Snapshot.path home name)
    have htree : d.IsTree := hs.congr (Disk.at?_congr hd)
    obtain ⟨m, hx⟩ | hx := hx
    · simp only [hx]
      exact ⟨d, htree, rfl⟩
    simp only [hx]
    cases disk.existsAt (Snapshot.path home name) with
    | error e => exact ⟨d, htree, rfl⟩
    | ok there =>
      cases there with
      | false => exact ⟨d, htree, rfl⟩
      | true =>
        obtain ⟨d', hd', hstep⟩ := d.step_cases (.remove (Snapshot.path home name))
        have htree' : d'.IsTree := htree.congr (Disk.at?_congr hd')
        obtain ⟨m, hstep⟩ | hstep := hstep
        · simp only [hstep]
          exact ⟨d', htree', rfl⟩
        · have hremoved : (d'.perform (.remove (Snapshot.path home name))).2.IsTree :=
            isTree_removeFile htree' _ _
          simp only [hstep]
          generalize d'.perform (.remove (Snapshot.path home name)) = removed at hremoved
          obtain ⟨e | ⟨⟩, d''⟩ := removed
          · exact ⟨d'', hremoved, rfl⟩
          · exact ⟨d'', hremoved, rfl⟩

theorem delete_disk (hs : s.disk.IsTree) (name : String) :
    ∃ d : Disk, d.IsTree ∧ (s.delete name).2 = { s.unregister name with disk := d } := by
  obtain ⟨d, hd, hremoved⟩ := removeSnapshot_disk (s := s.unregister name) hs name
  refine ⟨d, hd, ?_⟩
  rw [delete, ← hremoved]
  generalize (s.unregister name).removeSnapshot name = removed
  obtain ⟨e | b, s'⟩ := removed <;> rfl

theorem Sound.unregister (hs : s.Sound) (name : String) {d : Disk} (hd : d.IsTree) :
    ({ s.unregister name with disk := d } : Store).Sound := by
  refine ⟨fun n h hn => hs.registered n h ?_, hd⟩
  have hlookup := Represents.lookup_unregister s name n
  by_cases hne : n = name
  · rw [if_pos hne] at hlookup
    cases hlookup.symm.trans hn
  · rw [if_neg hne] at hlookup
    exact hlookup.symm.trans hn

theorem commit_keeps (hs : s.Sound) (h : Handle) (staged : Entries) :
    (s.commit h staged).2.Sound ∧ (s.commit h staged).2.home = s.home := by
  cases hc : (s.commit h staged).1 with
  | error e => exact ⟨(commit_error hs hc).2, (commit_error hs hc).1.home⟩
  | ok _ => exact ⟨(commit_ok hs hc).1, (commit_ok hs hc).2.2.1⟩

theorem remove_eq (s : Store) (h : Handle) (k : Key) :
    s.remove h k = if (s.entries h).contains k then
      ((s.commit h ((s.entries h).erase k)).1.map fun _ => true,
        (s.commit h ((s.entries h).erase k)).2)
      else (.ok false, s) := by
  rw [remove]
  by_cases hk : (s.entries h).contains k = true
  · rw [if_pos hk, if_pos hk]
    generalize s.commit h ((s.entries h).erase k) = done
    obtain ⟨e | ⟨⟩, s'⟩ := done <;> rfl
  · rw [if_neg hk, if_neg hk]

theorem perform_keeps (hs : s.Sound) (op : Op) :
    (s.perform op).2.Sound ∧ (s.perform op).2.home = s.home := by
  cases op with
  | openBucket name => exact ⟨(openBucket_same hs name).2, (openBucket_same hs name).1.home⟩
  | has name =>
    obtain ⟨d, hd, hhas⟩ := has_disk s name
    rw [perform, hhas]
    exact ⟨⟨hs.registered, hs.tree.congr (Disk.at?_congr hd)⟩, rfl⟩
  | delete name =>
    obtain ⟨d, hd, hdelete⟩ := delete_disk hs.tree name
    rw [perform, hdelete]
    exact ⟨hs.unregister name hd, rfl⟩
  | put h k r => exact commit_keeps hs h _
  | putAll h batch => exact commit_keeps hs h _
  | remove h k =>
    rw [perform, remove_eq]
    by_cases hk : (s.entries h).contains k = true
    · rw [if_pos hk]
      exact commit_keeps hs h _
    · rw [if_neg hk]
      exact ⟨hs, rfl⟩
  | get h k => exact ⟨hs, rfl⟩
  | contains h k => exact ⟨hs, rfl⟩
  | keys h => exact ⟨hs, rfl⟩
  | len h => exact ⟨hs, rfl⟩
  | restart => exact ⟨sound_begin s.home hs.tree, rfl⟩

theorem Reached.keeps (hs : Reached home s) : s.Sound ∧ s.home = some home := by
  induction hs with
  | begin hd => exact ⟨sound_begin _ hd, rfl⟩
  | perform hs op ih =>
    obtain ⟨hsound, hhome⟩ := perform_keeps ih.1 op
    exact ⟨hsound, hhome.trans ih.2⟩
  | disturb hs hd ih => exact ⟨⟨ih.1.registered, hd⟩, ih.2⟩

/-- In memory nothing has changed, and neither has what the next process would find. -/
structure Unchanged (s s' : Store) : Prop where
  registry : s'.registry = s.registry
  entries : ∀ h, s'.entries h = s.entries h
  stored : ∀ name, s'.stored name = s.stored name

theorem unchanged_of_disk {d : Disk} (h : s.Same { s with disk := d }) :
    Unchanged s { s with disk := d } :=
  ⟨rfl, fun _ => rfl, h.stored⟩

theorem openBucket_unchanged {e : CacheError} (he : (s.openBucket name).1 = .error e) :
    Unchanged s (s.openBucket name).2 := by
  rw [openBucket] at he ⊢
  cases hr : s.registry.lookup name with
  | some h =>
    rw [hr] at he
    cases he
  | none =>
    rw [hr] at he
    obtain ⟨d, hd, hload, _⟩ := s.load_cases name
    cases hl : s.load name with
    | mk result s₁ =>
      rw [hl] at he hload
      subst hload
      cases result with
      | error e => exact unchanged_of_disk (.of_entries hd)
      | ok entries => cases he

theorem commit_unchanged (hs : s.Sound) {e : CacheError} (he : (s.commit h staged).1 = .error e) :
    Unchanged s (s.commit h staged).2 := by
  have hsame := (commit_error hs he).1
  obtain ⟨home, e', d, _, hc, _⟩ | ⟨d, hc, _⟩ := commit_cases hs h staged
  · rw [hc] at hsame ⊢
    exact unchanged_of_disk hsame
  · rw [hc] at he
    cases he

theorem commit_stored (hs : s.Sound) (hhome : s.home = some home) (hh : h < s.buckets.length)
    (hok : (s.commit h staged).1 = .ok ()) :
    (s.commit h staged).2.stored (s.bucketName h) = .ok ((s.commit h staged).2.entries h) := by
  rw [(commit_ok hs hok).2.2.2 h hh, if_pos rfl]
  obtain ⟨_, _, _, _, hc, _⟩ | ⟨d, hc, ⟨hnone, _⟩ | ⟨home', hhome', hd⟩⟩ := commit_cases hs h staged
  · rw [hc] at hok
    cases hok
  · rw [hhome] at hnone
    cases hnone
  · cases hhome.symm.trans hhome'
    have hfound : d.find (Snapshot.path home (s.bucketName h)) =
        .ok (.file (Snapshot.encode (s.bucketName h) staged)) :=
      Disk.find_of_at? hd.tree hd.file
    rw [hc, stored_eq]
    dsimp only [withEntries]
    rw [hhome]
    dsimp only
    rw [hfound, Snapshot.found, Snapshot.load_encode]

theorem map_eq_error {α β ε : Type} {r : Except ε α} {f : α → β} {e : ε} (h : r.map f = .error e) :
    r = .error e := by
  cases r with
  | error e' =>
    cases h
    rfl
  | ok a => cases h

theorem map_eq_ok {α β ε : Type} {r : Except ε α} {f : α → β} {b : β} (h : r.map f = .ok b) :
    ∃ a, r = .ok a := by
  cases r with
  | error e => cases h
  | ok a => exact ⟨a, rfl⟩

/-- The bucket whose entries an operation replaces: those that put, and one that removes what is
there. -/
def Op.target? (s : Store) : Op → Option Handle
  | .put h _ _ | .putAll h _ => some h
  | .remove h k => if (s.entries h).contains k then some h else none
  | _ => none

theorem perform_unchanged (hs : s.Sound) {op : Op} (hop : ∀ name, op ≠ .delete name)
    {e : CacheError} (he : (s.perform op).1 = .error e) : Unchanged s (s.perform op).2 := by
  cases op with
  | openBucket name => exact openBucket_unchanged (map_eq_error he)
  | has name =>
    obtain ⟨d, hd, hhas⟩ := has_disk s name
    rw [perform, hhas]
    exact unchanged_of_disk (.of_entries hd)
  | delete name => exact absurd rfl (hop name)
  | put h k r => exact commit_unchanged hs (map_eq_error he)
  | putAll h batch => exact commit_unchanged hs (map_eq_error he)
  | remove h k =>
    rw [perform, remove_eq] at he ⊢
    by_cases hk : (s.entries h).contains k = true
    · rw [if_pos hk] at he ⊢
      exact commit_unchanged hs (map_eq_error (map_eq_error he))
    · rw [if_neg hk] at he
      cases he
  | get h k => cases he
  | contains h k => cases he
  | keys h => cases he
  | len h => cases he
  | restart => cases he

theorem perform_stored (hs : s.Sound) (hhome : s.home = some home) (hh : h < s.buckets.length)
    {op : Op} (ht : op.target? s = some h) {answer : Returned}
    (hok : (s.perform op).1 = .ok answer) :
    (s.perform op).2.stored (s.bucketName h) = .ok ((s.perform op).2.entries h) := by
  cases op with
  | put k key r =>
    cases ht
    obtain ⟨⟨⟩, hok⟩ := map_eq_ok hok
    exact commit_stored hs hhome hh hok
  | putAll k batch =>
    cases ht
    obtain ⟨⟨⟩, hok⟩ := map_eq_ok hok
    exact commit_stored hs hhome hh hok
  | remove k key =>
    rw [Op.target?] at ht
    by_cases hk : (s.entries k).contains key = true
    · rw [if_pos hk] at ht
      cases ht
      rw [perform, remove_eq, if_pos hk] at hok ⊢
      obtain ⟨_, hok⟩ := map_eq_ok hok
      obtain ⟨⟨⟩, hok⟩ := map_eq_ok hok
      exact commit_stored hs hhome hh hok
    · rw [if_neg hk] at ht
      cases ht
  | openBucket name => cases ht
  | has name => cases ht
  | delete name => cases ht
  | get k key => cases ht
  | contains k key => cases ht
  | keys k => cases ht
  | len k => cases ht
  | restart => cases ht

/-- Whichever of its accesses to the disk goes wrong, an operation that fails has left every bucket
as it was, in memory and on disk; only the deletion of a whole bucket may stop halfway. A bucket that
was written to is on the disk as it is in memory. -/
theorem failed_op_changes_nothing (hs : Reached home s) (op : Op) :
    ((∀ name, op ≠ .delete name) → ∀ e, (s.perform op).1 = .error e →
      Unchanged s (s.perform op).2) ∧
    ∀ h, op.target? s = some h → h < s.buckets.length → ∀ answer,
      (s.perform op).1 = .ok answer →
      (s.perform op).2.stored (s.bucketName h) = .ok ((s.perform op).2.entries h) := by
  obtain ⟨hsound, hhome⟩ := hs.keeps
  exact ⟨fun hop _ he => perform_unchanged hsound hop he,
    fun _ ht hh _ hok => perform_stored hsound hhome hh ht hok⟩

/-- The second of three accesses of a put goes wrong, with a part of the file written; the same put
does well afterwards. -/
theorem failed_put_changes_nothing :
    let disk : Disk := ⟨[], [none, none, some ⟨.code 28, some 3⟩]⟩
    let s := ((begin (some "cache") disk).perform (.openBucket "a")).2
    let put := Op.put 0 ⟨"GET", "u"⟩ ⟨200, [], .empty⟩
    Unchanged s (s.perform put).2 ∧
      (((s.perform put).2.perform put).2.stored "a" =
        .ok (((s.perform put).2.perform put).2.entries 0)) := by
  intro disk s put
  have hdisk : disk.IsTree := Disk.isTree_empty.congr fun _ => rfl
  have hs : Reached "cache" s := .perform (.begin hdisk) _
  obtain ⟨hfails, _⟩ := failed_op_changes_nothing hs put
  obtain ⟨_, hagrees⟩ := failed_op_changes_nothing (hs.perform put) put
  refine ⟨hfails (fun _ h => nomatch h) (.io (.code 28)) (by decide +kernel), ?_⟩
  exact hagrees 0 rfl (by decide +kernel) .done (by decide +kernel)

end AssetCache.Store
