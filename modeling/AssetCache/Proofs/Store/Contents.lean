import AssetCache.Proofs.Disk
import AssetCache.Proofs.Store.Entries
import AssetCache.Store

namespace AssetCache

namespace Snapshot

theorem fileName_ne_draftName (name name' : String) : fileName name ≠ draftName name' := by
  intro h
  have hlast := congrArg (fun s : String => s.toList.getLast?) h
  simp [fileName, draftName] at hlast

theorem run_commit {d : Disk} (hd : d.IsTree) (home name : String) (staged : Entries) :
    (∃ e, (d.run (commit home name staged)).1 = .error e ∧
      Disk.KeepsBut (Disk.Path.ofText home) (draftName name) d
        (d.run (commit home name staged)).2) ∨
    ((d.run (commit home name staged)).1 = .ok () ∧
      Disk.Replaced (Disk.Path.ofText home) (draftName name) (fileName name) (encode name staged) d
        (d.run (commit home name staged)).2) :=
  Disk.run_replace hd (fileName_ne_draftName name name).symm _

/-- What a snapshot's place has to offer. -/
def found (home name : String) : Except SystemError Disk.Entry → Except CacheError Entries
  | .ok (.file bytes) => load home name bytes
  | .ok .folder => .error (.io .isFolder)
  | .error e => if e = .notFound then .ok .empty else .error (.io e)

end Snapshot

namespace Store

variable {s s' : Store} {name : String} {h k : Handle} {staged : Entries}

/-- Every name stands for a bucket of that name, and the disk is a tree. -/
structure Sound (s : Store) : Prop where
  registered : ∀ name h, s.registry.lookup name = some h →
    ∃ b, s.buckets[h]? = some b ∧ b.name = name
  tree : s.disk.IsTree

/-- The entries a bucket would begin with if the next process opened it and every access did
well. -/
def stored (s : Store) (name : String) : Except CacheError Entries :=
  ((begin s.home s.disk.calm).load name).1

/-- The entries of a bucket, or those it would begin with if it is not open. -/
def contents (s : Store) (name : String) : Except CacheError Entries :=
  match s.registry.lookup name with
  | some h => .ok (s.entries h)
  | none => s.stored name

theorem sound_begin (home : Option String) {disk : Disk} (hd : disk.IsTree) :
    (begin home disk).Sound :=
  ⟨fun _ _ h => (nomatch h), hd⟩

theorem contents_of_registered (hr : s.registry.lookup name = some h) :
    s.contents name = .ok (s.entries h) := by
  rw [contents, hr]

theorem entries_eq {b : Bucket} (hb : s.buckets[h]? = some b) : s.entries h = b.entries := by
  rw [entries, hb]

theorem bucketName_eq {b : Bucket} (hb : s.buckets[h]? = some b) : s.bucketName h = b.name := by
  rw [bucketName, hb]

theorem load_cases (s : Store) (name : String) :
    ∃ d : Disk, d.entries = s.disk.entries ∧ (s.load name).2 = { s with disk := d } ∧
      ((∃ e, (s.load name).1 = .error e) ∨
        (s.load name).1 = match s.home with
          | none => .ok .empty
          | some home => Snapshot.found home name (s.disk.find (Snapshot.path home name))) := by
  obtain ⟨home, registry, buckets, disk⟩ := s
  cases home with
  | none => exact ⟨disk, rfl, rfl, .inr rfl⟩
  | some home =>
    rw [load]
    dsimp only
    obtain ⟨d, he, hx⟩ := disk.exists?_cases (Snapshot.path home name)
    rcases hx with ⟨m, hx⟩ | hx
    · simp only [hx]
      exact ⟨d, he, rfl, .inl ⟨_, rfl⟩⟩
    simp only [hx, Disk.existsAt]
    cases hf : disk.find (Snapshot.path home name) with
    | error e =>
      by_cases hnone : e = .notFound
      · subst hnone
        exact ⟨d, he, rfl, .inr rfl⟩
      · simp only [hnone, if_false]
        exact ⟨d, he, rfl, .inl ⟨_, rfl⟩⟩
    | ok e =>
      obtain ⟨d', he', hr⟩ := d.read_cases (Snapshot.path home name)
      rcases hr with ⟨m, hr⟩ | hr
      · simp only [hr]
        exact ⟨d', he'.trans he, rfl, .inl ⟨_, rfl⟩⟩
      simp only [hr, Disk.bytesAt, Disk.find_entries he, hf]
      cases e with
      | folder => exact ⟨d', he'.trans he, rfl, .inl ⟨_, rfl⟩⟩
      | file bytes => exact ⟨d', he'.trans he, rfl, .inr rfl⟩

theorem load_calm (hcalm : s.disk.mishaps = []) (name : String) :
    s.load name = (match s.home with
      | none => .ok .empty
      | some home => Snapshot.found home name (s.disk.find (Snapshot.path home name)), s) := by
  obtain ⟨home, registry, buckets, disk⟩ := s
  cases home with
  | none => rfl
  | some home =>
    simp only [load, Disk.exists?_calm hcalm, Disk.existsAt]
    cases hf : disk.find (Snapshot.path home name) with
    | error e =>
      by_cases hnone : e = .notFound
      · subst hnone
        rfl
      · simp only [hnone, if_false, Snapshot.found]
    | ok e =>
      simp only [Disk.read_calm hcalm, Disk.bytesAt, hf]
      cases e <;> rfl

theorem stored_eq (s : Store) (name : String) :
    s.stored name = match s.home with
      | none => .ok .empty
      | some home => Snapshot.found home name (s.disk.find (Snapshot.path home name)) := by
  rw [stored, load_calm rfl]
  simp only [begin, Disk.find_calm]

theorem stored_of_load {entries : Entries} (h : (s.load name).1 = .ok entries) :
    s.stored name = .ok entries := by
  obtain ⟨d, _, _, ⟨e, he⟩ | he⟩ := s.load_cases name
  · rw [he] at h
    cases h
  · rw [stored_eq, ← he, h]

/-- To all who ask for the contents of a bucket `s'` is `s`, and handles go on to mean what they
meant. -/
structure Same (s s' : Store) : Prop where
  home : s'.home = s.home
  contents : ∀ name, s'.contents name = s.contents name
  stored : ∀ name, s'.stored name = s.stored name
  registry : ∀ name h, s.registry.lookup name = some h → s'.registry.lookup name = some h
  buckets : ∀ (h : Handle) b, s.buckets[h]? = some b → s'.buckets[h]? = some b

namespace Same

variable {s'' : Store}

theorem refl (s : Store) : s.Same s :=
  ⟨rfl, fun _ => rfl, fun _ => rfl, fun _ _ h => h, fun _ _ h => h⟩

theorem trans (h : s.Same s') (h' : s'.Same s'') : s.Same s'' where
  home := h'.home.trans h.home
  contents name := (h'.contents name).trans (h.contents name)
  stored name := (h'.stored name).trans (h.stored name)
  registry name k hk := h'.registry name k (h.registry name k hk)
  buckets k b hb := h'.buckets k b (h.buckets k b hb)

theorem of_disk {d : Disk} (hd : ∀ home name, s.home = some home →
    d.find (Snapshot.path home name) = s.disk.find (Snapshot.path home name)) :
    s.Same { s with disk := d } := by
  have hs : ∀ name, ({ s with disk := d } : Store).stored name = s.stored name := fun name => by
    rw [stored_eq, stored_eq]
    dsimp only
    cases hh : s.home with
    | none => rfl
    | some home => simp only [hd home name hh]
  refine ⟨rfl, fun name => ?_, hs, fun _ _ h => h, fun _ _ h => h⟩
  rw [Store.contents, Store.contents, hs]
  rfl

theorem of_entries {d : Disk} (hd : d.entries = s.disk.entries) : s.Same { s with disk := d } :=
  of_disk fun _ _ _ => Disk.find_entries hd _

end Same

theorem register_same (hs : s.Sound) {entries : Entries} (hn : s.registry.lookup name = none)
    (hstored : s.stored name = .ok entries) : s.Same (s.register name entries).2 := by
  have hbuckets : ∀ (h : Handle) b, s.buckets[h]? = some b →
      (s.register name entries).2.buckets[h]? = some b := fun h b hb =>
    (List.getElem?_append_left (List.getElem?_eq_some_iff.mp hb).1).trans hb
  have hregistry : ∀ n, n ≠ name →
      (s.register name entries).2.registry.lookup n = s.registry.lookup n := fun n hne => by
    have hb : (n == name) = false := by simpa using hne
    simp [register, List.lookup_cons, hb]
  refine ⟨rfl, fun n => ?_, fun n => ?_, fun n h hr => ?_, hbuckets⟩
  · by_cases hne : n = name
    · subst hne
      have hself : (s.register n entries).2.registry.lookup n = some s.buckets.length := by
        simp [register]
      have hnew : (s.register n entries).2.buckets[s.buckets.length]? = some ⟨n, entries⟩ := by
        simp [register]
      rw [contents_of_registered hself, entries_eq hnew, contents, hn, hstored]
    · rw [contents, contents, hregistry n hne]
      cases hr : s.registry.lookup n with
      | none =>
        dsimp only
        rw [stored_eq, stored_eq]
        rfl
      | some h =>
        obtain ⟨b, hb, _⟩ := hs.registered n h hr
        dsimp only
        rw [entries_eq hb, entries_eq (hbuckets h b hb)]
  · rw [stored_eq, stored_eq]
    rfl
  · have hne : n ≠ name := fun he => by rw [he, hn] at hr; cases hr
    rw [hregistry n hne, hr]

theorem register_sound (hs : s.Sound) (name : String) (entries : Entries) :
    (s.register name entries).2.Sound := by
  refine ⟨fun n h hr => ?_, hs.tree⟩
  by_cases hne : n = name
  · subst hne
    simp only [register, List.lookup_cons_self, Option.some.injEq] at hr
    exact ⟨⟨n, entries⟩, by simp [register, ← hr], rfl⟩
  · have hb : (n == name) = false := by simpa using hne
    simp only [register, List.lookup_cons, hb] at hr
    obtain ⟨b, hb, hn⟩ := hs.registered n h hr
    exact ⟨b, (List.getElem?_append_left (List.getElem?_eq_some_iff.mp hb).1).trans hb, hn⟩

theorem openBucket_same (hs : s.Sound) (name : String) :
    s.Same (s.openBucket name).2 ∧ (s.openBucket name).2.Sound := by
  rw [openBucket]
  cases hr : s.registry.lookup name with
  | some h => exact ⟨.refl s, hs⟩
  | none =>
    obtain ⟨d, hd, hload, _⟩ := s.load_cases name
    have hsame : s.Same { s with disk := d } := .of_entries hd
    have hsound : ({ s with disk := d } : Store).Sound :=
      ⟨hs.registered, hs.tree.congr (Disk.at?_congr hd)⟩
    cases hl : s.load name with
    | mk result s₁ =>
      rw [hl] at hload
      subst hload
      cases result with
      | error e => exact ⟨hsame, hsound⟩
      | ok entries =>
        have hstored : s.stored name = .ok entries := stored_of_load (by rw [hl])
        exact ⟨hsame.trans (register_same hsound hr (by rw [hsame.stored, hstored])),
          register_sound hsound name entries⟩

theorem openBucket_registered (h : (s.openBucket name).1 = .ok k) :
    (s.openBucket name).2.registry.lookup name = some k := by
  rw [openBucket] at h ⊢
  cases hr : s.registry.lookup name with
  | some h' =>
    rw [hr] at h
    cases h
    exact hr
  | none =>
    rw [hr] at h
    cases hl : s.load name with
    | mk result s₁ =>
      rw [hl] at h
      cases result with
      | error e => cases h
      | ok entries =>
        cases h
        simp [register]

def withEntries (s : Store) (h : Handle) (staged : Entries) : Store :=
  { s with buckets := s.buckets.modify h fun b => { b with entries := staged } }

/-- A commit fails and changes nothing in memory, or does well on disk and in memory. -/
theorem commit_cases (hs : s.Sound) (h : Handle) (staged : Entries) :
    (∃ home e d, s.home = some home ∧ s.commit h staged = (.error e, { s with disk := d }) ∧
      Disk.KeepsBut (Disk.Path.ofText home) (Snapshot.draftName (s.bucketName h)) s.disk d) ∨
    (∃ d, s.commit h staged = (.ok (), { s.withEntries h staged with disk := d }) ∧
      ((s.home = none ∧ d = s.disk) ∨ ∃ home, s.home = some home ∧
        Disk.Replaced (Disk.Path.ofText home) (Snapshot.draftName (s.bucketName h))
          (Snapshot.fileName (s.bucketName h)) (Snapshot.encode (s.bucketName h) staged)
          s.disk d)) := by
  obtain ⟨home, registry, buckets, disk⟩ := s
  cases home with
  | none => exact .inr ⟨disk, rfl, .inl ⟨rfl, rfl⟩⟩
  | some home =>
    rw [commit]
    dsimp only
    generalize bucketName _ h = name
    have hrun := Snapshot.run_commit hs.tree home name staged
    generalize disk.run (Snapshot.commit home name staged) = ran at hrun ⊢
    obtain ⟨result, d⟩ := ran
    rcases hrun with ⟨e, hr, hk⟩ | ⟨hr, hk⟩
    · cases hr
      exact .inl ⟨home, .io e, d, rfl, rfl, hk⟩
    · cases hr
      exact .inr ⟨d, rfl, .inr ⟨home, rfl, hk⟩⟩

theorem commit_error {e : CacheError} (hs : s.Sound) (he : (s.commit h staged).1 = .error e) :
    s.Same (s.commit h staged).2 ∧ (s.commit h staged).2.Sound := by
  rcases commit_cases hs h staged with ⟨home, _, d, hh, hc, hk⟩ | ⟨d, hc, _⟩
  · rw [hc]
    refine ⟨.of_disk fun home' name hh' => ?_, hs.registered, hk.tree⟩
    cases hh.symm.trans hh'
    exact hk.find hs.tree (Snapshot.fileName_ne_draftName _ _)
  · rw [hc] at he
    cases he

theorem getElem?_withEntries (s : Store) (h : Handle) (staged : Entries) (k : Handle) :
    (s.withEntries h staged).buckets[k]? =
      if h = k then s.buckets[k]?.map fun b => { b with entries := staged } else s.buckets[k]? := by
  rw [withEntries, List.getElem?_modify]
  split <;> simp

theorem entries_withEntries (hk : k < s.buckets.length) :
    (s.withEntries h staged).entries k = if h = k then staged else s.entries k := by
  rw [entries, entries, getElem?_withEntries, List.getElem?_eq_getElem hk]
  by_cases hk' : h = k <;> simp [hk']

theorem commit_ok (hs : s.Sound) (hok : (s.commit h staged).1 = .ok ()) :
    (s.commit h staged).2.Sound ∧ (s.commit h staged).2.registry = s.registry ∧
      (s.commit h staged).2.home = s.home ∧
      ∀ k < s.buckets.length, (s.commit h staged).2.entries k =
        if h = k then staged else s.entries k := by
  rcases commit_cases hs h staged with ⟨_, _, _, _, hc, _⟩ | ⟨d, hc, hd⟩
  · rw [hc] at hok
    cases hok
  · rw [hc]
    refine ⟨⟨fun name k hr => ?_, ?_⟩, rfl, rfl, fun k hk => entries_withEntries hk⟩
    · obtain ⟨b, hb, hn⟩ := hs.registered name k hr
      by_cases hk : h = k
      · exact ⟨{ b with entries := staged }, by
          simp only [getElem?_withEntries, hk, if_true, hb, Option.map_some], hn⟩
      · exact ⟨b, by simp only [getElem?_withEntries, hk, if_false, hb], hn⟩
    · rcases hd with ⟨_, rfl⟩ | ⟨_, _, hd⟩
      · exact hs.tree
      · exact hd.tree

end Store

end AssetCache
