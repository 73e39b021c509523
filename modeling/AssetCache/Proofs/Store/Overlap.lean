import AssetCache.Proofs.Disk.Stops
import AssetCache.Proofs.Store.Crash
import AssetCache.Proofs.Store.Isolation
import AssetCache.Proofs.Store.Stages
import AssetCache.Proofs.Store.Writing
import Mathlib.Logic.Function.Basic
import Mathlib.Logic.Relation

namespace AssetCache.Store

variable {s s' : Store} {home name : String} {h k : Handle} {op : Op}

/-- The bucket `name` is deleted once. `missed` opens did not find it and wait for the lock of the
registry, and one may have that lock. The writes have the locks of their buckets; those that have let
them go are in `written`. -/
structure Overlap where
  store : Store
  missed : Nat
  opening : Option Opening
  deletion : Deletion
  writers : Handle → Option (Op × Progress)
  written : List (Handle × Op × Except CacheError Returned)

namespace Overlap

variable {t t' : Overlap}

def begin (s : Store) : Overlap := ⟨s, 0, none, .pending, fun _ => none, []⟩

def proceeds (t : Overlap) (h : Handle) (op : Op) (p : Progress) : Overlap :=
  { t with
    store := (t.store.proceed h op p).2
    writers := Function.update t.writers h (some (op, (t.store.proceed h op p).1)) }

inductive Event where
  | looks
  | takes
  | opens
  | unlocks
  | locks (h : Handle)
  | writes (h : Handle)
  | releases (h : Handle)
  | deletes

/-- A step of anyone: an open looks for the name, takes the registry's lock and looks again, goes on,
and lets the lock go; a write through a handle of the bucket takes the bucket's lock, goes on, and
lets it go; the deletion goes on. -/
inductive Step (home name : String) : Overlap → Event → Overlap → Prop
  | looks {t : Overlap} (hfree : t.opening = none) :
    Step home name t .looks { t with
      missed := if (t.store.registry.lookup name).isSome then t.missed else t.missed + 1 }
  | takes {t : Overlap} {n : Nat} (hmissed : t.missed = n + 1) (hfree : t.opening = none) :
    Step home name t .takes { t with
      missed := n
      opening := if (t.store.registry.lookup name).isSome then none else some .testing }
  | opens {t : Overlap} {o : Opening} (hopening : t.opening = some o) :
    Step home name t .opens { t with
      store := (t.store.openStep home name o).2
      opening := some (t.store.openStep home name o).1 }
  | unlocks {t : Overlap} {result : Except CacheError Handle}
    (hopening : t.opening = some (.ended result)) :
    Step home name t .unlocks { t with opening := none }
  | locks {t : Overlap} {h : Handle} {op : Op} (hleads : t.store.Leads h name)
    (hop : op.writes? = some h) (hfree : t.writers h = none) :
    Step home name t (.locks h) { t with
      writers := Function.update t.writers h (some (op, .locked)) }
  | writes {t : Overlap} {h : Handle} {op : Op} {p : Progress}
    (hwriter : t.writers h = some (op, p)) :
    Step home name t (.writes h) (t.proceeds h op p)
  | releases {t : Overlap} {h : Handle} {op : Op} {result : Except CacheError Returned}
    (hwriter : t.writers h = some (op, .leaving result)) :
    Step home name t (.releases h) { t with
      writers := Function.update t.writers h none
      written := t.written ++ [(h, op, result)] }
  | deletes {t : Overlap} (hfree : t.deletion = .pending → t.opening = none) :
    Step home name t .deletes { t with
      store := (t.store.deleteStep home name t.deletion).2
      deletion := (t.store.deleteStep home name t.deletion).1 }

def Reaches (home name : String) (allowed : Overlap → Event → Prop) : Overlap → Overlap → Prop :=
  Relation.ReflTransGen fun t t' => ∃ e, allowed t e ∧ Step home name t e t'

structure Quiet (t : Overlap) : Prop where
  missed : t.missed = 0
  opening : t.opening = none
  writers : ∀ h, t.writers h = none
  deletion : ∃ result, t.deletion = .ended result

/-- The bucket `name` is the one of the handle `h`, or nobody has it. -/
def Current (name : String) (t : Overlap) (h : Handle) : Prop :=
  match t.store.registry.lookup name with
  | some k => k = h
  | none => t.opening = none

/-- No open begins to load a bucket of which a deletion has removed the name and not yet settled the
snapshot, and no write changes the disk for a bucket in whose place there is another. -/
def Fenced (name : String) (t : Overlap) : Event → Prop
  | .takes => t.store.registry.lookup name = none → ¬ t.deletion.Halfway
  | .writes h => ∀ op staged change rest,
    t.writers h = some (op, .writing staged (change :: rest)) → t.Current name h
  | _ => True

/-- What the writes through handles of the bucket have still to do. -/
structure Writes (home name : String) (s : Store) (h : Handle) (op : Op) (p : Progress) : Prop where
  hop : op.writes? = some h
  leads : s.Leads h name
  rest : ∀ staged rest, p = .writing staged rest → rest <:+ Snapshot.commit home name staged
  free : ∀ staged rest, p = .writing staged rest → rest.length ≤ 1 →
    Disk.Free (Disk.Path.ofText home) (Snapshot.draftName name) s.disk

structure Inv (home name : String) (t : Overlap) : Prop where
  sound : t.store.Sound
  place : t.store.home = some home
  opening : ∀ o, t.opening = some o → (∃ r, o = .ended r) ∨ t.store.registry.lookup name = none
  loaded : ∀ entries, t.opening = some (.loaded entries) → t.store.stored name = .ok entries
  halfway : t.deletion.Halfway → t.store.registry.lookup name = none ∧ t.opening = none
  writers : ∀ h op p, t.writers h = some (op, p) → Writes home name t.store h op p
  agrees : ∀ h, t.store.registry.lookup name = some h →
    (t.store.upTo h (t.writers h)).stored name = .ok ((t.store.upTo h (t.writers h)).entries h)

theorem Writes.congr (hw : Writes home name s h op p) (hleads : ∀ k, s.Leads k name → s'.Leads k name)
    (hfree : Disk.Free (Disk.Path.ofText home) (Snapshot.draftName name) s.disk →
      Disk.Free (Disk.Path.ofText home) (Snapshot.draftName name) s'.disk) :
    Writes home name s' h op p where
  hop := hw.hop
  leads := hleads h hw.leads
  rest := hw.rest
  free staged rest hp hlength := hfree (hw.free staged rest hp hlength)

theorem Writes.proceed {p : Progress} (hw : Writes home name s h op p) (hs : s.Sound)
    (hhome : s.home = some home) :
    (s.proceed h op p).2.disk.IsTree ∧
      (Disk.Free (Disk.Path.ofText home) (Snapshot.draftName name) s.disk →
        Disk.Free (Disk.Path.ofText home) (Snapshot.draftName name) (s.proceed h op p).2.disk) ∧
      Writes home name (s.proceed h op p).2 h op (s.proceed h op p).1 := by
  have hab := (Snapshot.fileName_ne_draftName name name).symm
  obtain ⟨_, _, hnames⟩ := s.proceed_keeps h op p
  have hleads := (leads_congr (hnames h)).mpr hw.leads
  cases p with
  | locked =>
    rw [Store.proceed]
    obtain ⟨htarget, _⟩ | ⟨htarget, _, _⟩ := perform_of_writes (s := s) hw.hop
    · obtain ⟨bucket, hbucket, hname⟩ := hw.leads
      have hchanges : s.changes op = Snapshot.commit home name (op.applied (s.entries h)) := by
        rw [changes, htarget, hhome]
        dsimp only
        rw [bucketName_eq hbucket, hname]
      rw [htarget, hchanges]
      refine ⟨hs.tree, id, hw.hop, hw.leads, fun staged rest h => ?_, fun staged rest h hlength => ?_⟩
      · cases h
        exact List.suffix_refl _
      · cases h
        exact absurd hlength (by simp [Snapshot.commit])
    · rw [htarget]
      exact ⟨hs.tree, id, hw.hop, hw.leads, fun _ _ h => (by cases h), fun _ _ h => by cases h⟩
  | writing staged rest =>
    cases rest with
    | nil => exact ⟨hs.tree, id, hw.hop, hleads, fun _ _ h => (by cases h), fun _ _ h => by cases h⟩
    | cons change rest =>
      have hrest := hw.rest staged (change :: rest) rfl
      have hmem := hrest.subset List.mem_cons_self
      obtain ⟨htree, hfree⟩ := Disk.step_of_replace hs.tree hab hrest fun h =>
        hw.free staged (change :: rest) rfl (by simp [h])
      rw [Store.proceed] at hleads ⊢
      have hstays := fun hd : Disk.Free (Disk.Path.ofText home) (Snapshot.draftName name) s.disk =>
        hd.step hab hmem
      generalize s.disk.step change = stepped at htree hfree hstays hleads ⊢
      obtain ⟨e | ⟨⟩, d⟩ := stepped
      · exact ⟨htree, hstays, hw.hop, hleads, fun _ _ h => (by cases h), fun _ _ h => by cases h⟩
      · refine ⟨htree, hstays, hw.hop, hleads, fun staged' rest' h => ?_, fun staged' rest' h => ?_⟩
        · cases h
          exact (List.suffix_cons change rest).trans hrest
        · cases h
          exact hfree rfl
  | leaving result => exact ⟨hs.tree, id, hw⟩

namespace Inv

theorem looks (ht : Inv home name t) (n : Nat) : Inv home name { t with missed := n } :=
  ⟨ht.sound, ht.place, ht.opening, ht.loaded, ht.halfway, ht.writers, ht.agrees⟩

theorem takes (ht : Inv home name t) (n : Nat) (hfree : t.opening = none)
    (hfenced : t.store.registry.lookup name = none → ¬ t.deletion.Halfway) :
    Inv home name { t with
      missed := n
      opening := if (t.store.registry.lookup name).isSome then none else some .testing } := by
  cases hlookup : t.store.registry.lookup name with
  | some k =>
    rw [Option.isSome_some, if_pos rfl, ← hfree]
    exact ht.looks n
  | none =>
    rw [Option.isSome_none, if_neg Bool.false_ne_true]
    exact ⟨ht.sound, ht.place, fun _ _ => .inr hlookup, fun _ h => (nomatch h),
      fun h => absurd h (hfenced hlookup), ht.writers, ht.agrees⟩

theorem unlocks (ht : Inv home name t) : Inv home name { t with opening := none } :=
  ⟨ht.sound, ht.place, fun _ h => (nomatch h), fun _ h => (nomatch h),
    fun h => ⟨(ht.halfway h).1, rfl⟩, ht.writers, ht.agrees⟩

theorem asks (ht : Inv home name t) (hnone : t.store.registry.lookup name = none) {d : Disk}
    (hd : d.entries = t.store.disk.entries) :
    Inv home name { t with store := { t.store with disk := d } } where
  sound := ⟨ht.sound.registered, ht.sound.tree.congr (Disk.at?_congr hd)⟩
  place := ht.place
  opening := ht.opening
  loaded entries h := ((Same.of_entries hd).stored name).trans (ht.loaded entries h)
  halfway := ht.halfway
  writers h op p hw := (ht.writers h op p hw).congr (fun _ hk => hk) fun hfree => hfree.congr hd
  agrees _ hh := nomatch hnone.symm.trans hh

theorem goes (ht : Inv home name t) {o o' : Opening} (hopening : t.opening = some o)
    (hnone : t.store.registry.lookup name = none)
    (hloaded : ∀ entries, o' = .loaded entries → t.store.stored name = .ok entries) :
    Inv home name { t with opening := some o' } where
  sound := ht.sound
  place := ht.place
  opening _ _ := .inr hnone
  loaded entries h := by
    cases h
    exact hloaded entries rfl
  halfway h := nomatch hopening.symm.trans (ht.halfway h).2
  writers := ht.writers
  agrees := ht.agrees

theorem registers (ht : Inv home name t) {entries : Entries}
    (hopening : t.opening = some (.loaded entries)) :
    Inv home name { t with
      store := (t.store.register name entries).2
      opening := some (.ended (.ok (t.store.register name entries).1)) } := by
  have hnone : t.store.registry.lookup name = none := by
    obtain ⟨r, h⟩ | hnone := ht.opening _ hopening
    · cases h
    · exact hnone
  have hstored := ht.loaded entries hopening
  have hsame := register_same ht.sound hnone hstored
  have hleads : ∀ k, t.store.Leads k name → (t.store.register name entries).2.Leads k name :=
    fun k ⟨bucket, hbucket, hname⟩ => ⟨bucket, hsame.buckets k bucket hbucket, hname⟩
  refine ⟨register_sound ht.sound name entries, ht.place, fun o ho => ?_, fun entries h => ?_,
    fun h => ?_, fun h op p hw => (ht.writers h op p hw).congr hleads id, fun h hh => ?_⟩
  · cases ho
    exact .inl ⟨_, rfl⟩
  · cases h
  · cases hopening.symm.trans (ht.halfway h).2
  · -- nobody can have written through a handle that was not there
    have hself : h = t.store.buckets.length := by
      simp only [register, List.lookup_cons_self, Option.some.injEq] at hh
      exact hh.symm
    have hw : t.writers h = none := by
      cases hw : t.writers h with
      | none => rfl
      | some w =>
        obtain ⟨bucket, hbucket, _⟩ := (ht.writers h w.1 w.2 hw).leads
        rw [hself, List.getElem?_eq_none (Nat.le_refl _)] at hbucket
        cases hbucket
    have hnew : (t.store.register name entries).2.buckets[h]? = some ⟨name, entries⟩ := by
      rw [hself]
      simp [register]
    dsimp only
    rw [hw, upTo, hsame.stored, hstored, entries_eq hnew]

theorem opens (ht : Inv home name t) {o : Opening} (hopening : t.opening = some o) :
    Inv home name { t with
      store := (t.store.openStep home name o).2
      opening := some (t.store.openStep home name o).1 } := by
  cases o with
  | testing =>
    obtain ⟨r, h⟩ | hnone := ht.opening _ hopening
    · cases h
    obtain ⟨d, o', hstep, hd, hloaded⟩ := openStep_testing ht.place name
    rw [hstep]
    exact (ht.goes hopening hnone hloaded).asks hnone hd
  | reading =>
    obtain ⟨r, h⟩ | hnone := ht.opening _ hopening
    · cases h
    obtain ⟨d, o', hstep, hd, hloaded⟩ := openStep_reading ht.place name
    rw [hstep]
    exact (ht.goes hopening hnone hloaded).asks hnone hd
  | loaded entries => exact ht.registers hopening
  | ended result =>
    have hsame : { t with opening := some (Opening.ended result) } = t := by rw [← hopening]
    rw [openStep, hsame]
    exact ht

theorem locks (ht : Inv home name t) (hleads : t.store.Leads h name) (hop : op.writes? = some h)
    (hfree : t.writers h = none) :
    Inv home name { t with writers := Function.update t.writers h (some (op, .locked)) } := by
  refine ⟨ht.sound, ht.place, ht.opening, ht.loaded, ht.halfway, fun k op' p hw => ?_,
    fun k hk => ?_⟩
  · dsimp only at hw
    by_cases hkh : k = h
    · subst hkh
      rw [Function.update_self] at hw
      cases hw
      exact ⟨hop, hleads, fun _ _ h => (nomatch h), fun _ _ h => (nomatch h)⟩
    · rw [Function.update_of_ne hkh] at hw
      exact ht.writers k op' p hw
  · dsimp only
    by_cases hkh : k = h
    · subst hkh
      have hagrees := ht.agrees k hk
      rw [hfree] at hagrees
      have hholds : Holds home name t.store k (t.store.entries k) :=
        ⟨ht.sound, ht.place, hk, rfl, hagrees⟩
      have hafter := hholds.perform hop
      rw [Function.update_self, upTo, finish, hafter.stored, hafter.entries]
    · rw [Function.update_of_ne hkh]
      exact ht.agrees k hk

theorem releases (ht : Inv home name t) {result : Except CacheError Returned}
    (hwriter : t.writers h = some (op, .leaving result))
    (written : List (Handle × Op × Except CacheError Returned)) :
    Inv home name { t with
      writers := Function.update t.writers h none
      written := written } := by
  refine ⟨ht.sound, ht.place, ht.opening, ht.loaded, ht.halfway, fun k op' p hw => ?_,
    fun k hk => ?_⟩
  · dsimp only at hw
    by_cases hkh : k = h
    · subst hkh
      rw [Function.update_self] at hw
      cases hw
    · rw [Function.update_of_ne hkh] at hw
      exact ht.writers k op' p hw
  · dsimp only
    by_cases hkh : k = h
    · subst hkh
      have hagrees := ht.agrees k hk
      rw [hwriter] at hagrees
      rw [Function.update_self]
      exact hagrees
    · rw [Function.update_of_ne hkh]
      exact ht.agrees k hk

/-- A write goes on whose step does not touch what others have: none but its own bucket, and the disk
only if that bucket is the one of the name or nobody has the name. -/
theorem writes (ht : Inv home name t) {p : Progress} (hwriter : t.writers h = some (op, p))
    (hfenced : t.Fenced name (.writes h)) :
    Inv home name (t.proceeds h op p) := by
  have hwrites := ht.writers h op p hwriter
  obtain ⟨hhome, hregistry, hnames⟩ := t.store.proceed_keeps h op p
  obtain ⟨htree, hfree, hnext⟩ := hwrites.proceed ht.sound ht.place
  have hleads : ∀ k, t.store.Leads k name → (t.store.proceed h op p).2.Leads k name :=
    fun k hk => (leads_congr (hnames k)).mpr hk
  rw [proceeds]
  -- where the fence would not let it touch the disk, the step does not
  have hbeside : ¬ t.Current name h → (t.store.proceed h op p).2.disk = t.store.disk ∧
      ∀ k, k ≠ h → (t.store.proceed h op p).2.buckets[k]? = t.store.buckets[k]? := fun hcurrent =>
    proceed_beside fun staged change rest hp => hcurrent (hfenced op staged change rest (hp ▸ hwriter))
  refine ⟨⟨fun n k hk => ?_, htree⟩, hhome.trans ht.place, fun o ho => ?_, fun entries ho => ?_,
    fun h => ?_, fun k op' p' hw => ?_, fun k hk => ?_⟩
  · rw [hregistry] at hk
    exact (leads_congr (hnames k)).mpr (ht.sound.registered n k hk)
  · rw [hregistry]
    exact ht.opening o ho
  · have hnot : ¬ t.Current name h := by
      obtain ⟨r, hr⟩ | hnone := ht.opening _ ho
      · cases hr
      · rw [Current, hnone]
        exact fun h => nomatch ho.symm.trans h
    rw [stored_congr hhome (hbeside hnot).1]
    exact ht.loaded entries ho
  · rw [hregistry]
    exact ht.halfway h
  · dsimp only at hw
    by_cases hkh : k = h
    · subst hkh
      rw [Function.update_self] at hw
      cases hw
      exact hnext
    · rw [Function.update_of_ne hkh] at hw
      exact (ht.writers k op' p' hw).congr hleads hfree
  · rw [hregistry] at hk
    have hagrees := ht.agrees k hk
    dsimp only
    by_cases hkh : k = h
    · subst hkh
      rw [hwriter] at hagrees
      rw [Function.update_self, upTo, finish_proceed t.store hwrites.hop]
      exact hagrees
    · have hnot : ¬ t.Current name h := by
        rw [Current, hk]
        exact hkh
      obtain ⟨hdisk, hbucket⟩ := hbeside hnot
      obtain ⟨hhome', hdisk', hentries'⟩ := upTo_congr (fun op p hw => (ht.writers k op p hw).hop)
        hhome hdisk (hbucket k hkh)
      rw [Function.update_of_ne hkh, stored_congr hhome' hdisk', hentries']
      exact hagrees

theorem deleted (ht : Inv home name t) (hnone : t.store.registry.lookup name = none)
    (hfree : t.opening = none) (deletion : Deletion) :
    Inv home name { t with deletion := deletion } :=
  ⟨ht.sound, ht.place, ht.opening, ht.loaded, fun _ => ⟨hnone, hfree⟩, ht.writers, ht.agrees⟩

theorem unregisters (ht : Inv home name t) (hfree : t.opening = none) :
    Inv home name { t with store := t.store.unregister name } := by
  have hnone : (t.store.unregister name).registry.lookup name = none := by
    rw [Represents.lookup_unregister, if_pos rfl]
  refine ⟨ht.sound.unregister name ht.sound.tree, ht.place, fun o ho => .inr hnone,
    fun entries ho => ?_, fun h => ⟨hnone, hfree⟩, fun k op p hw => ?_, fun k hk => ?_⟩
  · cases hfree.symm.trans ho
  · exact (ht.writers k op p hw).congr (fun _ hk => hk) id
  · cases hnone.symm.trans hk

theorem removes (ht : Inv home name t) (hnone : t.store.registry.lookup name = none)
    (hfree : t.opening = none) :
    Inv home name { t with store := { t.store with
      disk := (t.store.disk.step (.remove (Snapshot.path home name))).2 } } := by
  obtain ⟨hkeeps, _⟩ :=
    Disk.step_remove ht.sound.tree (Disk.Path.ofText home) (Snapshot.fileName name)
  refine ⟨⟨ht.sound.registered, hkeeps.tree⟩, ht.place, ht.opening, fun entries ho => ?_, ht.halfway,
    fun k op p hw => (ht.writers k op p hw).congr (fun _ hk => hk) fun hd => ⟨hkeeps.tree, ?_⟩,
    fun k hk => ?_⟩
  · cases hfree.symm.trans ho
  · rw [Snapshot.path, hkeeps.beside _ (Snapshot.fileName_ne_draftName name name).symm]
    exact hd.free
  · cases hnone.symm.trans hk

theorem deletes (ht : Inv home name t) (hfree : t.deletion = .pending → t.opening = none) :
    Inv home name { t with
      store := (t.store.deleteStep home name t.deletion).2
      deletion := (t.store.deleteStep home name t.deletion).1 } := by
  cases hdeletion : t.deletion with
  | pending =>
    have hnone : (t.store.unregister name).registry.lookup name = none := by
      rw [Represents.lookup_unregister, if_pos rfl]
    exact (ht.unregisters (hfree hdeletion)).deleted hnone (hfree hdeletion) _
  | testing registered =>
    obtain ⟨hnone, hopening⟩ := ht.halfway (by rw [hdeletion]; trivial)
    obtain ⟨d, deletion, hstep, hd⟩ := deleteStep_testing t.store home name registered
    rw [hstep]
    exact (ht.asks hnone hd).deleted hnone hopening _
  | removing registered =>
    obtain ⟨hnone, hopening⟩ := ht.halfway (by rw [hdeletion]; trivial)
    have hremoved := (ht.removes hnone hopening).deleted hnone hopening
    rw [deleteStep]
    generalize t.store.disk.step (.remove (Snapshot.path home name)) = stepped at hremoved ⊢
    obtain ⟨e | ⟨⟩, d⟩ := stepped <;> exact hremoved _
  | ended result =>
    have hsame : { t with deletion := Deletion.ended result } = t := by rw [← hdeletion]
    rw [deleteStep, hsame]
    exact ht

theorem step (ht : Inv home name t) {e : Event} (hfenced : t.Fenced name e)
    (hstep : Step home name t e t') : Inv home name t' := by
  cases hstep with
  | looks => exact ht.looks _
  | takes _ hfree => exact ht.takes _ hfree hfenced
  | opens hopening => exact ht.opens hopening
  | unlocks => exact ht.unlocks
  | locks hleads hop hfree => exact ht.locks hleads hop hfree
  | writes hwriter => exact ht.writes hwriter hfenced
  | releases hwriter => exact ht.releases hwriter _
  | deletes hfree => exact ht.deletes hfree

end Inv

theorem inv_begin (hs : s.Sound) (hhome : s.home = some home)
    (hagrees : ∀ h, s.registry.lookup name = some h → s.stored name = .ok (s.entries h)) :
    Inv home name (begin s) where
  sound := hs
  place := hhome
  opening _ h := nomatch h
  loaded _ h := nomatch h
  halfway h := h.elim
  writers _ _ _ h := nomatch h
  agrees := hagrees

theorem Reaches.inv (ht : Inv home name t) (hreaches : Reaches home name (Fenced name) t t') :
    Inv home name t' := by
  induction hreaches with
  | refl => exact ht
  | tail _ hstep ih =>
    obtain ⟨e, hfenced, hstep⟩ := hstep
    exact ih.step hfenced hstep

end Overlap

end AssetCache.Store
