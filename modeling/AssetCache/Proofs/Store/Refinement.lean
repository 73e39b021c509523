import AssetCache.Proofs.Store.Codec
import AssetCache.Proofs.Store.Contents
import Mathlib.Data.Set.Basic

namespace AssetCache

namespace Digest

theorem hexDigit_injective {m n : Nat} (hm : m < 16) (hn : n < 16)
    (h : hexDigit m = hexDigit n) : m = n := by
  have hall : ∀ m < 16, ∀ n < 16, hexDigit m = hexDigit n → m = n := by decide
  exact hall m hm n hn h

theorem hex_injective {a b : List UInt8} (h : hex a = hex b) : a = b := by
  induction a generalizing b with
  | nil =>
    cases b with
    | nil => rfl
    | cons y ys => cases h
  | cons x xs ih =>
    cases b with
    | nil => cases h
    | cons y ys =>
      have hx := x.toNat_lt
      have hy := y.toNat_lt
      simp only [hex, List.flatMap_cons, List.cons_append, List.nil_append, List.cons.injEq] at h
      obtain ⟨hhigh, hlow, hrest⟩ := h
      have hdiv := hexDigit_injective (by omega) (by omega) hhigh
      have hmod := hexDigit_injective (by omega) (by omega) hlow
      have hxy : x = y := UInt8.toNat_inj.mp (by omega)
      rw [hxy, ih hrest]

end Digest

namespace Snapshot

variable {name name' : String}

theorem digest_eq_of_fileName_eq (h : fileName name = fileName name') :
    Digest.Sha256.digest name.toUTF8.data.toList = Digest.Sha256.digest name'.toUTF8.data.toList := by
  have hlist := congrArg String.toList h
  simp only [fileName, stem, String.toList_append, String.toList_ofList,
    List.append_cancel_right_eq] at hlist
  exact Digest.hex_injective hlist

theorem fileName_eq_of_draftName_eq (h : draftName name = draftName name') :
    fileName name = fileName name' := by
  refine String.toList_inj.mp ?_
  have hlist := congrArg String.toList h
  simpa only [draftName, String.toList_append, List.append_cancel_right_eq] using hlist

end Snapshot

namespace Store

/-- What can be done with a store. Buckets are named when they are opened and by handle then. -/
inductive Op where
  | openBucket (name : String)
  | has (name : String)
  | delete (name : String)
  | put (h : Handle) (k : Key) (r : Response)
  | putAll (h : Handle) (batch : List (Key × Response))
  | remove (h : Handle) (k : Key)
  | get (h : Handle) (k : Key)
  | contains (h : Handle) (k : Key)
  | keys (h : Handle)
  | len (h : Handle)
  | restart

inductive Returned where
  | handle (h : Handle)
  | flag (b : Bool)
  | done
  | response (r : Option Response)
  | keys (ks : List Key)
  | size (n : Nat)
deriving DecidableEq

def perform (s : Store) : Op → Except CacheError Returned × Store
  | .openBucket name => ((s.openBucket name).1.map .handle, (s.openBucket name).2)
  | .has name => ((s.has name).1.map .flag, (s.has name).2)
  | .delete name => ((s.delete name).1.map .flag, (s.delete name).2)
  | .put h k r => ((s.put h k r).1.map fun _ => .done, (s.put h k r).2)
  | .putAll h batch => ((s.putAll h batch).1.map fun _ => .done, (s.putAll h batch).2)
  | .remove h k => ((s.remove h k).1.map .flag, (s.remove h k).2)
  | .get h k => (.ok (.response ((s.entries h).get? k)), s)
  | .contains h k => (.ok (.flag ((s.entries h).contains k)), s)
  | .keys h => (.ok (.keys (s.entries h).keys), s)
  | .len h => (.ok (.size (s.entries h).size), s)
  | .restart => (.ok .done, s.reopened)

end Store

/-- A map from names to maps, with the handles that were given out since the bucket of the name was
deleted or the process began, and with the names under which something was written since the
bucket was deleted. -/
structure Ideal where
  contents : String → Key → Option Response
  held : List (Handle × String)
  written : String → Bool

namespace Ideal

open Store

def empty : Ideal := ⟨fun _ _ => none, [], fun _ => false⟩

def update (f : Key → Option Response) (k : Key) (r : Option Response) : Key → Option Response :=
  fun k' => if k' = k then r else f k'

def updateAll (f : Key → Option Response) (batch : List (Key × Response)) :
    Key → Option Response :=
  batch.foldl (fun f p => update f p.1 (some p.2)) f

def bucket (a : Ideal) (h : Handle) : Key → Option Response :=
  match a.held.lookup h with
  | some name => a.contents name
  | none => fun _ => none

def write (a : Ideal) (name : String) (f : Key → Option Response) : Ideal :=
  { a with
    contents := fun n => if n = name then f else a.contents n
    written := fun n => n = name || a.written n }

def writeTo (a : Ideal) (h : Handle) (f : Key → Option Response) : Ideal :=
  match a.held.lookup h with
  | some name => a.write name f
  | none => a

/-- The state after an operation; a new handle is the one that was answered. -/
def after (a : Ideal) : Op → Except CacheError Returned → Ideal
  | .openBucket name, .ok (.handle h) => { a with held := (h, name) :: a.held }
  | .delete name, _ =>
    { contents := fun n => if n = name then fun _ => none else a.contents n
      held := a.held.filter fun p => p.2 ≠ name
      written := fun n => n ≠ name && a.written n }
  | .put h k r, _ => a.writeTo h (update (a.bucket h) k (some r))
  | .putAll h batch, _ => a.writeTo h (updateAll (a.bucket h) batch)
  | .remove h k, _ =>
    if (a.bucket h k).isSome then a.writeTo h (update (a.bucket h) k none) else a
  | .restart, _ => { a with held := [] }
  | _, _ => a

/-- Buckets are used by handles that are held, and only these names are. -/
def Admits (a : Ideal) (names : Set String) : Op → Prop
  | .openBucket name | .has name | .delete name => name ∈ names
  | .put h _ _ | .putAll h _ | .remove h _ | .get h _ | .contains h _ | .keys h | .len h =>
    (a.held.lookup h).isSome
  | .restart => True

structure KeysOf (f : Key → Option Response) (ks : List Key) : Prop where
  sorted : ks.Pairwise (· < ·)
  mem_iff : ∀ k, k ∈ ks ↔ (f k).isSome

/-- A bucket is there if it is open or something was written to it. -/
def Has (a : Ideal) (name : String) : Prop := (∃ h, (h, name) ∈ a.held) ∨ a.written name

def Expects (a : Ideal) : Op → Returned → Prop
  | .openBucket _, answer => ∃ h, answer = .handle h
  | .has name, answer | .delete name, answer => ∃ b, answer = .flag b ∧ (b = true ↔ a.Has name)
  | .put _ _ _, answer | .putAll _ _, answer | .restart, answer => answer = .done
  | .remove h k, answer | .contains h k, answer => answer = .flag (a.bucket h k).isSome
  | .get h k, answer => answer = .response (a.bucket h k)
  | .keys h, answer => ∃ ks, answer = .keys ks ∧ KeysOf (a.bucket h) ks
  | .len h, answer => ∃ ks, answer = .size ks.length ∧ KeysOf (a.bucket h) ks

end Ideal

/-- As long as the operations are admitted, the store does each of them well and answers as the
map does. -/
def Store.Agrees (names : Set String) (s : Store) (a : Ideal) : List Store.Op → Prop
  | [] => True
  | op :: ops => a.Admits names op →
    (∃ answer, (s.perform op).1 = .ok answer ∧ a.Expects op answer) ∧
      Agrees names (s.perform op).2 (a.after op (s.perform op).1) ops

namespace Store

variable {names : Set String} {home name : String} {s : Store} {a : Ideal} {d d' : Disk}
  {h : Handle} {f : Key → Option Response}

def Distinct (names : Set String) : Prop :=
  ∀ n ∈ names, ∀ n' ∈ names, Digest.Sha256.digest n.toUTF8.data.toList =
    Digest.Sha256.digest n'.toUTF8.data.toList → n = n'

structure Usable (names : Set String) (home : String) (d : Disk) : Prop where
  calm : d.mishaps = []
  tree : d.IsTree
  clear : d.Clear (Disk.Path.ofText home)
  draft : ∀ name ∈ names, d.at? (Snapshot.draftPath home name) ≠ some .folder

/-- The snapshot of a bucket, if there has to be one. -/
def Saved (home name : String) (written : Bool) (f : Key → Option Response) (d : Disk) : Prop :=
  if written then ∃ e : Entries, e.get? = f ∧
    d.at? (Snapshot.path home name) = some (.file (Snapshot.encode name e))
  else f = (fun _ => none) ∧ d.at? (Snapshot.path home name) = none

structure Represents (names : Set String) (home : String) (a : Ideal) (s : Store) : Prop where
  place : s.home = some home
  usable : Usable names home s.disk
  saved : ∀ name ∈ names, Saved home name (a.written name) (a.contents name) s.disk
  registry : ∀ name h, s.registry.lookup name = some h ↔ (h, name) ∈ a.held
  bucket : ∀ h name, (h, name) ∈ a.held →
    name ∈ names ∧ ∃ b, s.buckets[h]? = some b ∧ b.name = name ∧ b.entries.get? = a.contents name

theorem fileName_injective (hn : Distinct names) {n n' : String} (h : n ∈ names) (h' : n' ∈ names)
    (he : Snapshot.fileName n = Snapshot.fileName n') : n = n' :=
  hn n h n' h' (Snapshot.digest_eq_of_fileName_eq he)

theorem draftName_injective (hn : Distinct names) {n n' : String} (h : n ∈ names)
    (h' : n' ∈ names) (he : Snapshot.draftName n = Snapshot.draftName n') : n = n' :=
  fileName_injective hn h h' (Snapshot.fileName_eq_of_draftName_eq he)

theorem Usable.not_barred (hu : Usable names home d) (name : String) :
    ¬ d.Barred (Disk.Path.ofText home ++ [name]) := by
  rintro ⟨q, post, bytes, hp, hpost, hq⟩
  obtain ⟨post', last, rfl⟩ := List.eq_nil_or_concat post |>.resolve_left hpost
  rw [List.concat_eq_append, ← List.append_assoc] at hp
  exact hu.clear q post' bytes (List.append_inj_left' hp rfl) hq

theorem Saved.find {w : Bool} (hu : Usable names home d) (hs : Saved home name w f d) :
    if w then ∃ e : Entries, e.get? = f ∧
      d.find (Snapshot.path home name) = .ok (.file (Snapshot.encode name e))
    else f = (fun _ => none) ∧ d.find (Snapshot.path home name) = .error .notFound := by
  cases w with
  | true =>
    obtain ⟨e, he, hd⟩ := hs
    exact ⟨e, he, Disk.find_of_at? hu.tree hd⟩
  | false =>
    obtain ⟨hf, hd⟩ := hs
    exact ⟨hf, Disk.find_of_not_barred hd (hu.not_barred _)⟩

theorem Saved.exists? {w : Bool} (hu : Usable names home d) (hs : Saved home name w f d) :
    d.exists? (Snapshot.path home name) = (.ok w, d) := by
  rw [Disk.exists?_calm hu.calm, Disk.existsAt]
  have hfind := hs.find hu
  cases w with
  | true =>
    obtain ⟨e, _, hfind⟩ := hfind
    rw [hfind]
  | false =>
    rw [hfind.2]
    rfl

theorem Usable.erase (hu : Usable names home d) (hfile : d.at? (Snapshot.path home name) ≠ some .folder) :
    Usable names home (d.erase (Snapshot.path home name)) := by
  have hne : Snapshot.path home name ≠ [] := by simp [Snapshot.path]
  have hat? : ∀ p, p ≠ Snapshot.path home name →
      (d.erase (Snapshot.path home name)).at? p = d.at? p := fun p hp => by
    rw [Disk.at?_erase hne, if_neg hp]
  refine ⟨hu.calm, Disk.isTree_erase hu.tree hne hfile, fun q post bytes hq => ?_, fun n hn => ?_⟩
  · rw [hat? q fun he => ?_]
    · exact hu.clear q post bytes hq
    · have hlength := congrArg List.length hq
      rw [he] at hlength
      simp only [Snapshot.path, List.length_append, List.length_singleton] at hlength
      omega
  · rw [hat? _ fun he => ?_]
    · exact hu.draft n hn
    · exact Snapshot.fileName_ne_draftName name n
        (List.singleton_inj.mp (List.append_cancel_left he)).symm

theorem removeSnapshot_of_saved {w : Bool} (hplace : s.home = some home)
    (hu : Usable names home s.disk) (hs : Saved home name w f s.disk) :
    ∃ d : Disk, s.removeSnapshot name = (.ok w, { s with disk := d }) ∧ Usable names home d ∧
      d.at? (Snapshot.path home name) = none ∧
      ∀ p, p ≠ Snapshot.path home name → d.at? p = s.disk.at? p := by
  have hexists := hs.exists? hu
  have hfind := hs.find hu
  obtain ⟨_, registry, buckets, disk⟩ := s
  cases hplace
  simp only [removeSnapshot, hexists]
  cases w with
  | false => exact ⟨disk, rfl, hu, hs.2, fun _ _ => rfl⟩
  | true =>
    obtain ⟨e, _, hfile⟩ := hfind
    obtain ⟨e', _, hat⟩ := hs
    have hne : Snapshot.path home name ≠ [] := by simp [Snapshot.path]
    refine ⟨disk.erase (Snapshot.path home name), ?_, hu.erase (by simp [hat]), ?_, fun p hp => ?_⟩
    · simp only [Disk.step_calm hu.calm, Disk.perform, Disk.removeFile, hfile]
    · rw [Disk.at?_erase hne, if_pos rfl]
    · rw [Disk.at?_erase hne, if_neg hp]

namespace Represents

theorem load (hr : Represents names home a s) (hname : name ∈ names) :
    ∃ e : Entries, s.load name = (.ok e, s) ∧ e.get? = a.contents name := by
  rw [load_calm hr.usable.calm, hr.place]
  have hfind := (hr.saved name hname).find hr.usable
  dsimp only
  generalize a.written name = w at hfind
  cases w with
  | true =>
    obtain ⟨e, he, hfind⟩ := hfind
    exact ⟨e, by rw [hfind, Snapshot.found, Snapshot.load_encode], he⟩
  | false => exact ⟨.empty, by rw [hfind.2]; rfl, hfind.1.symm⟩

theorem openBucket (hr : Represents names home a s) (hname : name ∈ names) :
    ∃ h, (s.openBucket name).1 = .ok h ∧
      Represents names home { a with held := (h, name) :: a.held } (s.openBucket name).2 := by
  rw [Store.openBucket]
  cases hl : s.registry.lookup name with
  | some h =>
    refine ⟨h, rfl, hr.place, hr.usable, hr.saved, fun n k => ?_, fun k n hk => ?_⟩
    · rw [hr.registry, List.mem_cons]
      refine ⟨.inr, fun hm => hm.elim (fun he => ?_) id⟩
      cases he
      exact (hr.registry name h).mp hl
    · rcases List.mem_cons.mp hk with he | hk
      · cases he
        exact hr.bucket h name ((hr.registry name h).mp hl)
      · exact hr.bucket k n hk
  | none =>
    obtain ⟨e, hload, he⟩ := hr.load hname
    rw [hload]
    refine ⟨s.buckets.length, rfl, hr.place, hr.usable, hr.saved, fun n k => ?_, fun k n hk => ?_⟩
    · simp only [register, List.lookup_cons, List.mem_cons]
      by_cases hn : n = name
      · subst hn
        have hnot : (k, n) ∉ a.held := fun hk => by
          rw [(hr.registry n k).mpr hk] at hl
          cases hl
        simp [hnot, eq_comm]
      · have hb : (n == name) = false := by simpa using hn
        simp [hb, hn, hr.registry]
    · rcases List.mem_cons.mp hk with hk | hk
      · cases hk
        exact ⟨hname, ⟨name, e⟩, by simp [register], rfl, he⟩
      · obtain ⟨hn, b, hb, hrest⟩ := hr.bucket k n hk
        have hlt := (List.getElem?_eq_some_iff.mp hb).1
        exact ⟨hn, b, (List.getElem?_append_left hlt).trans hb, hrest⟩

theorem isSome_lookup_iff (hr : Represents names home a s) (name : String) :
    (s.registry.lookup name).isSome = true ↔ ∃ h, (h, name) ∈ a.held := by
  rw [Option.isSome_iff_exists]
  exact exists_congr fun h => hr.registry name h

theorem has (hr : Represents names home a s) (hname : name ∈ names) :
    ∃ b, s.has name = (.ok b, s) ∧ (b = true ↔ a.Has name) := by
  have hiff := hr.isSome_lookup_iff name
  have hexists := (hr.saved name hname).exists? hr.usable
  obtain ⟨_, registry, buckets, disk⟩ := s
  cases hr.place
  rw [Store.has, Ideal.Has, ← hiff]
  dsimp only at hexists ⊢
  cases hl : registry.lookup name with
  | some h => exact ⟨true, rfl, by simp⟩
  | none =>
    refine ⟨a.written name, ?_, by simp⟩
    dsimp only
    rw [hexists]

theorem lookup_unregister (s : Store) (name n : String) :
    (s.unregister name).registry.lookup n = if n = name then none else s.registry.lookup n := by
  rw [unregister]
  split
  · next h =>
    subst h
    exact lookup_filter_neg _ (by simp)
  · next h => exact lookup_filter_pos _ (by simp [h])

theorem delete_of_usable (hr : Represents names home a s) (hn : name ∈ names)
    (hu : Usable names home d) (hgone : d.at? (Snapshot.path home name) = none)
    (hbeside : ∀ n ∈ names, n ≠ name →
      d.at? (Snapshot.path home n) = s.disk.at? (Snapshot.path home n)) (answer) :
    Represents names home (a.after (.delete name) answer)
      { s.unregister name with disk := d } where
  place := hr.place
  usable := hu
  saved n hmem := by
    have hsaved := hr.saved n hmem
    by_cases hname : n = name
    · subst hname
      simpa [Ideal.after, Saved] using hgone
    · simpa [Ideal.after, Saved, hname, hbeside n hmem hname] using hsaved
  registry n k := by
    rw [lookup_unregister]
    by_cases hname : n = name <;> simp [Ideal.after, hname, hr.registry]
  bucket k n hk := by
    obtain ⟨hk, hname⟩ := List.mem_filter.mp hk
    have hname : n ≠ name := by simpa using hname
    simpa [Ideal.after, hname, unregister] using hr.bucket k n hk

theorem delete (hn : Distinct names) (hr : Represents names home a s) (hname : name ∈ names) :
    ∃ b, (s.delete name).1 = .ok b ∧ (b = true ↔ a.Has name) ∧
      ∀ answer, Represents names home (a.after (.delete name) answer) (s.delete name).2 := by
  have hiff := hr.isSome_lookup_iff name
  obtain ⟨d, hremove, hu, hgone, hbeside⟩ := removeSnapshot_of_saved (s := s.unregister name)
    hr.place hr.usable (hr.saved name hname)
  rw [Store.delete, hremove]
  refine ⟨_, rfl, ?_, hr.delete_of_usable hname hu hgone fun n hmem hne => hbeside _ fun he => ?_⟩
  · rw [Bool.or_eq_true, Ideal.Has, ← hiff]
  · exact hne (fileName_injective hn hmem hname (List.singleton_inj.mp (List.append_cancel_left he)))

theorem usable_of_replaced (hn : Distinct names) (hu : Usable names home d)
    (hcalm : d'.mishaps = []) (hname : name ∈ names) {bytes : ByteArray}
    (hd : Disk.Replaced (Disk.Path.ofText home) (Snapshot.draftName name)
      (Snapshot.fileName name) bytes d d') : Usable names home d' := by
  refine ⟨hcalm, hd.tree, fun q post bytes hq hfile => ?_, fun n hmem => ?_⟩
  · have hfolder := hd.folder
    rw [hq] at hfolder
    rcases post with _ | ⟨x, post⟩
    · rw [List.append_nil] at hfolder
      cases hfile.symm.trans hfolder
    · have habove := hd.tree.folder_above (x :: post) (by simp) (by rw [hfolder]; simp)
      cases hfile.symm.trans habove
  · by_cases hne : n = name
    · subst hne
      rw [Snapshot.draftPath, hd.draft]
      simp
    · rw [Snapshot.draftPath, hd.beside _ (fun he => hne (draftName_injective hn hmem hname he))
        (Snapshot.fileName_ne_draftName name n).symm]
      exact hu.draft n hmem

/-- A commit replaces the snapshot and the entries, and nothing else. -/
theorem commit_replaces (hr : Represents names home a s) (hh : (h, name) ∈ a.held)
    (staged : Entries) :
    ∃ d, s.commit h staged = (.ok (), { s.withEntries h staged with disk := d }) ∧
      d.mishaps = [] ∧ Disk.Replaced (Disk.Path.ofText home) (Snapshot.draftName name)
        (Snapshot.fileName name) (Snapshot.encode name staged) s.disk d := by
  obtain ⟨hname, b, hb, hbname, _⟩ := hr.bucket h name hh
  have hu := hr.usable
  have hfile : s.disk.at? (Snapshot.path home name) ≠ some .folder := by
    have hsaved := hr.saved name hname
    rw [Saved] at hsaved
    split at hsaved
    · obtain ⟨_, _, hat⟩ := hsaved
      simp [hat]
    · simp [hsaved.2]
  obtain ⟨hrun, hcalm⟩ := Disk.run_replace_calm hu.tree hu.calm
    (Snapshot.fileName_ne_draftName name name).symm hu.clear (hu.draft name hname) hfile
    (Snapshot.encode name staged)
  refine ⟨(s.disk.run (Snapshot.commit home name staged)).2, ?_, hcalm, ?_⟩
  · have hrun' : (s.disk.run (Snapshot.commit home name staged)).1 = .ok () := hrun
    have hbucketName : s.bucketName h = name := (bucketName_eq hb).trans hbname
    have hplace := hr.place
    clear hr hcalm hrun hfile hu hb
    obtain ⟨_, registry, buckets, disk⟩ := s
    cases hplace
    rw [Store.commit]
    dsimp only at hrun' ⊢
    rw [hbucketName]
    generalize disk.run (Snapshot.commit home name staged) = ran at hrun' ⊢
    obtain ⟨result, d⟩ := ran
    cases hrun'
    rfl
  · rcases Snapshot.run_commit hu.tree home name staged with ⟨e, he, _⟩ | ⟨_, hd⟩
    · cases he.symm.trans hrun
    · exact hd

theorem saved_of_replaced (hn : Distinct names) (hr : Represents names home a s)
    (hname : name ∈ names) {staged : Entries}
    (hd : Disk.Replaced (Disk.Path.ofText home) (Snapshot.draftName name)
      (Snapshot.fileName name) (Snapshot.encode name staged) s.disk d) {n : String}
    (hmem : n ∈ names) :
    Saved home n ((a.write name staged.get?).written n) ((a.write name staged.get?).contents n)
      d := by
  by_cases hne : n = name
  · subst hne
    simp only [Saved, Ideal.write, decide_true, Bool.true_or, if_true]
    exact ⟨staged, rfl, hd.file⟩
  · have hbeside := hd.beside (Snapshot.fileName n) (Snapshot.fileName_ne_draftName n name)
      fun he => hne (fileName_injective hn hmem hname he)
    have hsaved := hr.saved n hmem
    simp only [Saved, Ideal.write, hne, decide_false, Bool.false_or, if_false, Snapshot.path]
      at hsaved ⊢
    rw [hbeside]
    exact hsaved

theorem commit (hn : Distinct names) (hr : Represents names home a s) (hh : (h, name) ∈ a.held)
    (staged : Entries) :
    (s.commit h staged).1 = .ok () ∧
      Represents names home (a.write name staged.get?) (s.commit h staged).2 := by
  obtain ⟨hname, b, hb, hbname, _⟩ := hr.bucket h name hh
  obtain ⟨d, hcommit, hcalm, hreplaced⟩ := hr.commit_replaces hh staged
  rw [hcommit]
  refine ⟨rfl, hr.place, usable_of_replaced hn hr.usable hcalm hname hreplaced,
    fun n hmem => saved_of_replaced hn hr hname hreplaced hmem, hr.registry, fun k n hk => ?_⟩
  obtain ⟨hmem, b', hb', hb'name, hget⟩ := hr.bucket k n hk
  refine ⟨hmem, ?_⟩
  by_cases hne : n = name
  · subst hne
    -- of the handles of one name only the registered one is held
    have hkh : h = k := by
      have h₁ := (hr.registry n h).mpr hh
      rw [(hr.registry n k).mpr hk] at h₁
      exact (Option.some.inj h₁).symm
    subst hkh
    exact ⟨{ b' with entries := staged }, by
      simp only [getElem?_withEntries, if_true, hb', Option.map_some], hb'name, by
      simp only [Ideal.write, if_true]⟩
  · have hkh : ¬ h = k := fun he => by
      subst he
      cases hb.symm.trans hb'
      exact hne (hb'name.symm.trans hbname)
    exact ⟨b', by simp only [getElem?_withEntries, hkh, if_false, hb'], hb'name, by
      simp only [Ideal.write, hne, if_false, hget]⟩

theorem reopened (hr : Represents names home a s) :
    Represents names home { a with held := [] } s.reopened where
  place := hr.place
  usable := hr.usable
  saved := hr.saved
  registry n k := by simp [Store.reopened, begin]
  bucket k n hk := (nomatch hk)

theorem get?_entries (hr : Represents names home a s) (hh : a.held.lookup h = some name) :
    (h, name) ∈ a.held ∧ (s.entries h).get? = a.contents name ∧ a.bucket h = a.contents name := by
  obtain ⟨l, r, hl, _⟩ := List.lookup_eq_some_iff.mp hh
  have hmem : (h, name) ∈ a.held := hl ▸ List.mem_append_right _ List.mem_cons_self
  obtain ⟨_, b, hb, _, hget⟩ := hr.bucket h name hmem
  exact ⟨hmem, by rw [entries_eq hb, hget], by rw [Ideal.bucket, hh]⟩

end Represents

theorem get?_insert_eq_update (e : Entries) (k : Key) (r : Response) :
    (e.insert k r).get? = Ideal.update e.get? k (some r) :=
  funext fun k' => Entries.get?_insert e k r k'

theorem get?_erase_eq_update (e : Entries) (k : Key) :
    (e.erase k).get? = Ideal.update e.get? k none :=
  funext fun k' => Entries.get?_erase e k k'

theorem get?_insertAll_eq_updateAll (e : Entries) (batch : List (Key × Response)) :
    (e.insertAll batch).get? = Ideal.updateAll e.get? batch := by
  induction batch generalizing e with
  | nil => rfl
  | cons p batch ih =>
    refine (ih (e.insert p.1 p.2)).trans ?_
    rw [get?_insert_eq_update]
    rfl

namespace Represents

theorem putAll (hn : Distinct names) (hr : Represents names home a s)
    (hh : (a.held.lookup h).isSome) (batch : List (Key × Response)) :
    (s.putAll h batch).1 = .ok () ∧ Represents names home
      (a.writeTo h (Ideal.updateAll (a.bucket h) batch)) (s.putAll h batch).2 := by
  obtain ⟨name, hh⟩ := Option.isSome_iff_exists.mp hh
  obtain ⟨hmem, hget, hbucket⟩ := hr.get?_entries hh
  have hcommit := hr.commit hn hmem ((s.entries h).insertAll batch)
  rw [get?_insertAll_eq_updateAll, hget, ← hbucket] at hcommit
  rw [Ideal.writeTo, hh]
  exact hcommit

theorem remove (hn : Distinct names) (hr : Represents names home a s)
    (hh : (a.held.lookup h).isSome) (k : Key) :
    (s.remove h k).1 = .ok (a.bucket h k).isSome ∧ ∀ answer,
      Represents names home (a.after (.remove h k) answer) (s.remove h k).2 := by
  obtain ⟨name, hh⟩ := Option.isSome_iff_exists.mp hh
  obtain ⟨hmem, hget, hbucket⟩ := hr.get?_entries hh
  have hcontains : (s.entries h).contains k = (a.bucket h k).isSome := by
    rw [Entries.contains_eq_isSome, hget, hbucket]
  have hcommit := hr.commit hn hmem ((s.entries h).erase k)
  rw [get?_erase_eq_update, hget, ← hbucket] at hcommit
  obtain ⟨hok, hr'⟩ := hcommit
  simp only [Store.remove, hcontains, Ideal.after]
  cases hsome : (a.bucket h k).isSome with
  | false =>
    simp only [Bool.false_eq_true, if_false]
    exact ⟨trivial, fun _ => hr⟩
  | true =>
    simp only [if_true]
    rw [Ideal.writeTo, hh]
    generalize s.commit h ((s.entries h).erase k) = done at hok hr' ⊢
    obtain ⟨result, s'⟩ := done
    cases hok
    exact ⟨rfl, fun _ => hr'⟩

end Represents

theorem keysOf_keys (e : Entries) : Ideal.KeysOf e.get? e.keys :=
  ⟨e.sorted_keys, fun _ => Entries.mem_keys_iff⟩

/-- One operation: it does well, answers as the map does, and leaves the store standing for what
the map is then. -/
theorem perform_refines (hn : Distinct names) (hr : Represents names home a s) {op : Op}
    (hop : a.Admits names op) :
    (∃ answer, (s.perform op).1 = .ok answer ∧ a.Expects op answer) ∧
      Represents names home (a.after op (s.perform op).1) (s.perform op).2 := by
  cases op with
  | openBucket name =>
    obtain ⟨h, ho, hr'⟩ := hr.openBucket hop
    simp only [perform, ho, Except.map]
    exact ⟨⟨_, rfl, h, rfl⟩, hr'⟩
  | has name =>
    obtain ⟨b, hb, hiff⟩ := hr.has hop
    simp only [perform, hb, Except.map]
    exact ⟨⟨_, rfl, b, rfl, hiff⟩, hr⟩
  | delete name =>
    obtain ⟨b, hb, hiff, hr'⟩ := hr.delete hn hop
    simp only [perform, hb, Except.map]
    exact ⟨⟨_, rfl, b, rfl, hiff⟩, hr' _⟩
  | put h k r =>
    obtain ⟨hok, hr'⟩ := hr.putAll hn hop [(k, r)]
    simp only [perform, put, hok, Except.map]
    exact ⟨⟨_, rfl, rfl⟩, hr'⟩
  | putAll h batch =>
    obtain ⟨hok, hr'⟩ := hr.putAll hn hop batch
    simp only [perform, hok, Except.map]
    exact ⟨⟨_, rfl, rfl⟩, hr'⟩
  | remove h k =>
    obtain ⟨hok, hr'⟩ := hr.remove hn hop k
    simp only [perform, hok, Except.map]
    exact ⟨⟨_, rfl, rfl⟩, hr' _⟩
  | get h k =>
    obtain ⟨name, hh⟩ := Option.isSome_iff_exists.mp hop
    obtain ⟨_, hget, hbucket⟩ := hr.get?_entries hh
    exact ⟨⟨_, rfl, by rw [hget, ← hbucket]; rfl⟩, hr⟩
  | contains h k =>
    obtain ⟨name, hh⟩ := Option.isSome_iff_exists.mp hop
    obtain ⟨_, hget, hbucket⟩ := hr.get?_entries hh
    exact ⟨⟨_, rfl, by rw [Entries.contains_eq_isSome, hget, ← hbucket]; rfl⟩, hr⟩
  | keys h =>
    obtain ⟨name, hh⟩ := Option.isSome_iff_exists.mp hop
    obtain ⟨_, hget, hbucket⟩ := hr.get?_entries hh
    exact ⟨⟨_, rfl, _, rfl, hbucket ▸ hget ▸ keysOf_keys _⟩, hr⟩
  | len h =>
    obtain ⟨name, hh⟩ := Option.isSome_iff_exists.mp hop
    obtain ⟨_, hget, hbucket⟩ := hr.get?_entries hh
    refine ⟨⟨_, rfl, _, ?_, hbucket ▸ hget ▸ keysOf_keys _⟩, hr⟩
    rw [Entries.keys, List.length_map]
    rfl
  | restart => exact ⟨⟨_, rfl, rfl⟩, hr.reopened⟩

theorem agrees_of_represents (hn : Distinct names) (ops : List Op)
    (hr : Represents names home a s) : s.Agrees names a ops := by
  induction ops generalizing s a with
  | nil => trivial
  | cons op ops ih =>
    intro hop
    obtain ⟨hanswer, hr'⟩ := perform_refines hn hr hop
    exact ⟨hanswer, ih hr'⟩

/-- A store that begins in a folder of its own, with the snapshots that others before it left there,
refines the map they stand for, through every sequence of operations and restarts. -/
theorem begin_agrees (names : Set String) (hn : Distinct names) (home : String) (disk : Disk)
    (hu : Usable names home disk) (a : Ideal) (ha : a.held = [])
    (hsaved : ∀ name ∈ names, Saved home name (a.written name) (a.contents name) disk)
    (ops : List Op) : (begin (some home) disk).Agrees names a ops :=
  agrees_of_represents hn ops
    { place := rfl
      usable := hu
      saved := hsaved
      registry := fun name h => by simp [begin, ha]
      bucket := fun h name hh => by simp [ha] at hh }

/-- Two buckets in a new folder. -/
theorem begin_agrees_in_new_folder :
    (begin (some "cache") .empty).Agrees (fun name => name = "a" ∨ name = "b") .empty
      [.openBucket "a", .openBucket "b", .put 0 ⟨"GET", "u"⟩ ⟨200, [], .empty⟩, .restart, .has "a",
        .openBucket "a", .get 0 ⟨"GET", "u"⟩, .delete "a", .has "a"] := by
  have hdigest : Digest.Sha256.digest "a".toUTF8.data.toList ≠
      Digest.Sha256.digest "b".toUTF8.data.toList := by decide +kernel
  have hfile : ∀ p bytes, Disk.empty.at? p ≠ some (.file bytes) := fun p bytes h => by
    simp only [Disk.at?, Disk.empty, List.lookup_nil] at h
    split at h <;> cases h
  refine begin_agrees _ ?_ "cache" .empty ⟨rfl, Disk.isTree_empty, fun q _ bytes _ => hfile q bytes,
    fun name _ => ?_⟩ .empty rfl (fun name _ => ⟨rfl, ?_⟩) _
  · rintro n (rfl | rfl) n' (rfl | rfl) he
    · rfl
    · exact absurd he hdigest
    · exact absurd he.symm hdigest
    · rfl
  · simp [Disk.at?, Disk.empty, Snapshot.draftPath]
  · simp [Disk.at?, Disk.empty, Snapshot.path]

end Store

end AssetCache
