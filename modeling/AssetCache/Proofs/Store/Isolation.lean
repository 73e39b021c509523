import AssetCache.Proofs.Disk.Stops
import AssetCache.Proofs.Store.Beside
import AssetCache.Proofs.Store.Effect

namespace AssetCache

namespace Snapshot

variable {home name name' : String}

/-- The files of two buckets are four, in whatever folder. -/
theorem nodup_files (home : String) (hne : fileName name ≠ fileName name') :
    [path home name, draftPath home name, path home name', draftPath home name'].Nodup := by
  have hdraft : draftName name ≠ draftName name' := fun h => hne (fileName_eq_of_draftName_eq h)
  have hname := fileName_ne_draftName name
  have hname' := fileName_ne_draftName name'
  simp [path, draftPath, hne, hdraft, hname name, hname name', hname' name', (hname' name).symm]

end Snapshot

namespace Disk

variable {d d' : Disk} {f : Path} {a b name : String} {bytes : ByteArray}

theorem clear_of_makeFolders (hd : d.IsTree) (h : (d.makeFolders f).1 = .ok ()) : d.Clear f := by
  intro q post bytes hq hfile
  obtain ⟨hkeeps, hfolder⟩ := makeFolders_keeps hd (List.prefix_refl f) ""
  have hne : q ≠ f ++ [""] := by
    intro he
    have hlength := congrArg List.length hq
    simp only [he, List.length_append, List.length_singleton] at hlength
    omega
  exact clear_of_folder hkeeps.tree (hfolder h) q post bytes hq ((hkeeps.files q bytes hne).mpr hfile)

theorem clear_of_run_replace (hd : d.IsTree) (h : (d.run (replace f a b bytes)).1 = .ok ()) :
    d.Clear f := by
  obtain ⟨d₁, he, hstep⟩ := d.step_cases (.makeFolders f)
  have hkeeps : KeepsBut f a d d₁ := .of_entries hd he
  rw [replace, run] at h
  obtain ⟨m, hstep⟩ | hstep := hstep
  · rw [hstep] at h
    cases h
  · rw [hstep, perform] at h
    have hok : (d₁.makeFolders f).1 = .ok () := by
      generalize d₁.makeFolders f = made at h
      obtain ⟨e | ⟨⟩, d₂⟩ := made
      · cases h
      · rfl
    intro q post bytes hq hfile
    rw [← at?_congr he] at hfile
    exact clear_of_makeFolders hkeeps.tree hok q post bytes hq hfile

theorem Clear.find (hd : d.IsTree) (hf : d.Clear f) (name : String) :
    (∃ e, d.find (f ++ [name]) = .ok e) ∨ d.find (f ++ [name]) = .error .notFound := by
  cases hat : d.at? (f ++ [name]) with
  | some e => exact .inl ⟨e, find_of_at? hd hat⟩
  | none =>
    refine .inr (find_of_not_barred hat ?_)
    rintro ⟨q, post, bytes, hq, hpost, hfile⟩
    obtain ⟨post, last, rfl⟩ := List.eq_nil_or_concat post |>.resolve_left hpost
    rw [List.concat_eq_append, ← List.append_assoc] at hq
    exact hf q post bytes (List.append_inj_left' hq rfl) hfile

end Disk

namespace Store

variable {s s' s'' : Store} {home a b n : String} {h : Handle} {op : Op} {staged : Entries}

def present (s : Store) (name : String) : Except CacheError Bool :=
  (({ s with disk := s.disk.calm } : Store).has name).1

/-- The handle leads to a bucket of this name, be it registered or not. -/
def Leads (s : Store) (h : Handle) (name : String) : Prop :=
  ∃ bucket, s.buckets[h]? = some bucket ∧ bucket.name = name

theorem leads_congr
    (hnames : (s'.buckets[k]?).map (·.name) = (s.buckets[k]?).map (·.name)) :
    s'.Leads k name ↔ s.Leads k name := by
  have hleads : ∀ s : Store, s.Leads k name ↔ (s.buckets[k]?).map (·.name) = some name := fun s => by
    rw [Leads, Option.map_eq_some_iff]
  rw [hleads, hleads, hnames]

/-- The operation is one on the bucket `name`, by its name or through one of its handles. -/
def Op.On (s : Store) (name : String) : Op → Prop
  | .openBucket n | .has n | .delete n => n = name
  | .put h _ _ | .putAll h _ | .remove h _ | .get h _ | .contains h _ | .keys h | .len h =>
    s.Leads h name
  | .restart => False

inductive Works (name : String) (s : Store) : Store → Prop
  | refl : Works name s s
  | step {s' : Store} (hw : Works name s s') {op : Op} (hop : op.On s' name) :
    Works name s (s'.perform op).2

/-- To whoever names the bucket `b` or has a handle of it, `s'` is `s`. -/
structure Apart (b : String) (s s' : Store) : Prop where
  home : s'.home = s.home
  registry : s'.registry.lookup b = s.registry.lookup b
  buckets : ∀ (h : Handle) bucket, bucket.name = b →
    (s'.buckets[h]? = some bucket ↔ s.buckets[h]? = some bucket)
  file : ∀ home, s.home = some home →
    s'.disk.find (Snapshot.path home b) = s.disk.find (Snapshot.path home b)

namespace Apart

theorem refl (b : String) (s : Store) : Apart b s s :=
  ⟨rfl, rfl, fun _ _ _ => Iff.rfl, fun _ _ => rfl⟩

theorem trans (h : Apart b s s') (h' : Apart b s' s'') : Apart b s s'' where
  home := h'.home.trans h.home
  registry := h'.registry.trans h.registry
  buckets k bucket hb := (h'.buckets k bucket hb).trans (h.buckets k bucket hb)
  file home hhome := (h'.file home (h.home.trans hhome)).trans (h.file home hhome)

theorem of_entries {d : Disk} (hd : d.entries = s.disk.entries) : Apart b s { s with disk := d } :=
  ⟨rfl, rfl, fun _ _ _ => Iff.rfl, fun _ _ => Disk.find_entries hd _⟩

theorem stored (h : Apart b s s') : s'.stored b = s.stored b := by
  rw [stored_eq, stored_eq, h.home]
  cases hhome : s.home with
  | none => rfl
  | some home =>
    dsimp only
    rw [h.file home hhome]

theorem present (h : Apart b s s') : s'.present b = s.present b := by
  rw [Store.present, Store.present, has, has]
  dsimp only
  rw [h.registry, h.home]
  cases s.registry.lookup b with
  | some k => rfl
  | none =>
    cases hhome : s.home with
    | none => rfl
    | some home =>
      dsimp only
      rw [Disk.exists?_calm rfl, Disk.exists?_calm rfl, Disk.existsAt, Disk.existsAt, Disk.find_calm,
        Disk.find_calm, h.file home hhome]
      cases s.disk.find (Snapshot.path home b) with
      | ok e => rfl
      | error e => by_cases he : e = .notFound <;> simp [he]

end Apart

theorem register_apart (hne : b ≠ a) (entries : Entries) : Apart b s (s.register a entries).2 := by
  have hb : (b == a) = false := by simpa using hne
  refine ⟨rfl, by simp [register, List.lookup_cons, hb], fun h bucket hname => ?_, fun _ _ => rfl⟩
  rw [register, List.getElem?_append]
  split
  · rfl
  · next hlt =>
    have hnone : s.buckets[h]? = none := List.getElem?_eq_none (Nat.le_of_not_lt hlt)
    rw [hnone]
    refine ⟨fun hnew => ?_, fun h => by cases h⟩
    rw [List.getElem?_singleton] at hnew
    split at hnew
    · cases hnew
      exact absurd hname.symm hne
    · cases hnew

theorem openBucket_apart (hne : b ≠ a) : Apart b s (s.openBucket a).2 := by
  rw [openBucket]
  cases s.registry.lookup a with
  | some h => exact .refl b s
  | none =>
    obtain ⟨d, hd, hload, -⟩ := s.load_cases a
    generalize s.load a = loaded at hload
    obtain ⟨e | entries, s₁⟩ := loaded
    · cases hload
      exact .of_entries hd
    · cases hload
      exact (Apart.of_entries hd).trans (register_apart hne entries)

theorem has_apart (s : Store) (a b : String) : Apart b s (s.has a).2 := by
  obtain ⟨d, hd, hhas⟩ := has_disk s a
  rw [hhas]
  exact .of_entries hd

theorem delete_apart (hs : s.Sound) (hfile : Snapshot.fileName b ≠ Snapshot.fileName a) :
    Apart b s (s.delete a).2 := by
  have hne : b ≠ a := fun h => hfile (congrArg Snapshot.fileName h)
  have hregistry : (s.unregister a).registry.lookup b = s.registry.lookup b := by
    rw [Represents.lookup_unregister, if_neg hne]
  cases hhome : s.home with
  | none =>
    rw [delete_in_memory hhome]
    exact ⟨rfl, hregistry, fun _ _ _ => Iff.rfl, fun _ _ => rfl⟩
  | some home =>
    obtain ⟨d, hd, hkeeps, -⟩ := delete_cases hs.tree hhome a
    rw [hd]
    refine ⟨rfl, hregistry, fun _ _ _ => Iff.rfl, fun home' hhome' => ?_⟩
    cases hhome.symm.trans hhome'
    exact hkeeps.find hs.tree hfile

theorem withEntries_buckets (hh : s.Leads h a) (hne : b ≠ a) {bucket : Bucket}
    (hname : bucket.name = b) (k : Handle) :
    (s.withEntries h staged).buckets[k]? = some bucket ↔ s.buckets[k]? = some bucket := by
  rw [getElem?_withEntries]
  by_cases hk : h = k
  · subst hk
    obtain ⟨bucket', hbucket, hname'⟩ := hh
    rw [if_pos rfl, hbucket]
    constructor
    · intro h
      cases h
      exact absurd (hname.symm.trans hname') hne
    · intro h
      cases h
      exact absurd (hname.symm.trans hname') hne
  · rw [if_neg hk]

theorem commit_apart (hs : s.Sound) (hh : s.Leads h a)
    (hfile : Snapshot.fileName b ≠ Snapshot.fileName a) (staged : Entries) :
    Apart b s (s.commit h staged).2 := by
  have hne : b ≠ a := fun h => hfile (congrArg Snapshot.fileName h)
  have hbuckets : ∀ (k : Handle) (bucket : Bucket), bucket.name = b →
      ((s.withEntries h staged).buckets[k]? = some bucket ↔ s.buckets[k]? = some bucket) :=
    fun k _ hname => withEntries_buckets hh hne hname k
  have hname : s.bucketName h = a := by
    obtain ⟨bucket, hbucket, hname⟩ := hh
    rw [bucketName_eq hbucket, hname]
  have hdraft := Snapshot.fileName_ne_draftName b a
  cases hhome : s.home with
  | none =>
    rw [commit, hhome]
    exact ⟨rfl, rfl, hbuckets, fun _ h => by cases hhome.symm.trans h⟩
  | some home =>
    have hrun := Snapshot.run_commit hs.tree home a staged
    have hclear : (s.disk.run (Snapshot.commit home a staged)).1 = .ok () →
        s.disk.Clear (Disk.Path.ofText home) := Disk.clear_of_run_replace hs.tree
    rw [commit_eq hhome, hname]
    generalize s.disk.run (Snapshot.commit home a staged) = ran at hrun hclear
    obtain ⟨result, d⟩ := ran
    obtain ⟨e, he, hkeeps⟩ | ⟨hok, hreplaced⟩ := hrun
    · cases he
      refine ⟨rfl, rfl, fun _ _ _ => Iff.rfl, fun home' hhome' => ?_⟩
      cases hhome.symm.trans hhome'
      exact hkeeps.find hs.tree hdraft
    · cases hok
      refine ⟨rfl, rfl, hbuckets, fun home' hhome' => ?_⟩
      cases hhome.symm.trans hhome'
      exact hreplaced.find hs.tree hdraft hfile ((hclear rfl).find hs.tree _)

theorem perform_apart (hs : s.Sound) (hfile : Snapshot.fileName b ≠ Snapshot.fileName a)
    (hop : op.On s a) : Apart b s (s.perform op).2 := by
  have hne : b ≠ a := fun h => hfile (congrArg Snapshot.fileName h)
  cases op with
  | openBucket n =>
    cases hop
    exact openBucket_apart hne
  | has n => exact has_apart s n b
  | delete n =>
    cases hop
    exact delete_apart hs hfile
  | put h k r => exact commit_apart hs hop hfile _
  | putAll h batch => exact commit_apart hs hop hfile _
  | remove h k =>
    rw [perform, remove_eq]
    split
    · exact commit_apart hs hop hfile _
    · exact .refl b s
  | get h k => exact .refl b s
  | contains h k => exact .refl b s
  | keys h => exact .refl b s
  | len h => exact .refl b s
  | restart => cases hop

theorem Works.apart (hs : s.Sound) (hfile : Snapshot.fileName b ≠ Snapshot.fileName a)
    (hw : Works a s s') : Apart b s s' ∧ s'.Sound := by
  induction hw with
  | refl => exact ⟨.refl b s, hs⟩
  | step _ hop ih =>
    obtain ⟨hapart, hsound⟩ := ih
    exact ⟨hapart.trans (perform_apart hsound hfile hop), (perform_keeps hsound _).1⟩

/-- Whatever is done with the bucket `a`, through handles of any age and with any access to the disk
going wrong, the bucket `b` stays what it is: to those who hold it, to those who ask for it and to
the next process. No file of the one is a file of the other. -/
theorem buckets_are_apart (hs : s.Sound) (hdigest : Digest.Sha256.digest a.toUTF8.data.toList ≠
      Digest.Sha256.digest b.toUTF8.data.toList) (hw : Works a s s') :
    s'.registry.lookup b = s.registry.lookup b ∧
      (∀ (h : Handle) bucket, bucket.name = b →
        (s'.buckets[h]? = some bucket ↔ s.buckets[h]? = some bucket)) ∧
      s'.present b = s.present b ∧ s'.stored b = s.stored b ∧
      ∀ home, [Snapshot.path home a, Snapshot.draftPath home a, Snapshot.path home b,
        Snapshot.draftPath home b].Nodup := by
  have hfile : Snapshot.fileName a ≠ Snapshot.fileName b := fun h =>
    hdigest (Snapshot.digest_eq_of_fileName_eq h)
  obtain ⟨hapart, -⟩ := hw.apart hs hfile.symm
  exact ⟨hapart.registry, hapart.buckets, hapart.present, hapart.stored,
    fun home => Snapshot.nodup_files home hfile⟩

/-- A bucket whose name looks like the draft of `assets` in another folder is opened, written to,
written to by half and deleted. The entries of `assets` stay. -/
theorem draft_namesake_leaves_assets :
    let page : Key := ⟨"GET", "u"⟩
    let put := Op.put 0 page ⟨200, [], .empty⟩
    let mishaps := List.replicate 9 none ++ [some ⟨.code 28, some 2⟩]
    let s := (((begin (some "cache") ⟨[], mishaps⟩).perform (.openBucket "assets")).2.perform put).2
    let put' := Op.put 1 page ⟨404, [], .empty⟩
    let opened := (s.perform (.openBucket "../assets.json.tmp")).2
    let failed := ((opened.perform put').2.perform put').1
    let s' := (((opened.perform put').2.perform put').2.perform (.delete "../assets.json.tmp")).2
    failed = .error (.io (.code 28)) ∧ s'.registry.lookup "assets" = some 0 ∧
      s'.present "assets" = .ok true ∧ s'.entries 0 = s.entries 0 ∧
      s'.stored "assets" = s.stored "assets" := by
  intro page put mishaps s put' opened failed s'
  have hbegin : (begin (some "cache") ⟨[], mishaps⟩).Sound := sound_begin _ Disk.isTree_empty
  have hs : s.Sound := (perform_keeps (perform_keeps hbegin (.openBucket "assets")).1 put).1
  have hleads : ∀ t : Store, (t.buckets[1]?).map (·.name) = some "../assets.json.tmp" →
      t.Leads 1 "../assets.json.tmp" := fun t h => by
    obtain ⟨bucket, hbucket, hname⟩ := Option.map_eq_some_iff.mp h
    exact ⟨bucket, hbucket, hname⟩
  have hopened : Works "../assets.json.tmp" s opened := .step .refl rfl
  have hput : Works "../assets.json.tmp" s (opened.perform put').2 :=
    .step hopened (hleads _ (by decide +kernel))
  have hfailed : Works "../assets.json.tmp" s ((opened.perform put').2.perform put').2 :=
    .step hput (hleads _ (by decide +kernel))
  have hw : Works "../assets.json.tmp" s s' := .step hfailed rfl
  have hdigest : Digest.Sha256.digest "../assets.json.tmp".toUTF8.data.toList ≠
      Digest.Sha256.digest "assets".toUTF8.data.toList := by decide +kernel
  obtain ⟨hregistry, hbuckets, hpresent, hstored, -⟩ := buckets_are_apart hs hdigest hw
  obtain ⟨bucket, hbucket⟩ : ∃ bucket, s.buckets[0]? = some bucket :=
    Option.isSome_iff_exists.mp (by decide +kernel)
  have hname : bucket.name = "assets" := by
    have hof : s.bucketName 0 = "assets" := by decide +kernel
    rwa [bucketName_eq hbucket] at hof
  have hkept := (hbuckets 0 bucket hname).mpr hbucket
  refine ⟨by decide +kernel, hregistry.trans (by decide +kernel), hpresent.trans (by decide +kernel),
    ?_, hstored⟩
  rw [entries, entries, hkept, hbucket]

end Store

end AssetCache
