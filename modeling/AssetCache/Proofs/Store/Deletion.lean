import AssetCache.Proofs.Store.Overlap

namespace AssetCache.Store

variable {s : Store} {home name : String} {h : Handle} {op : Op}

namespace Overlap

variable {t : Overlap}

section Alone

variable {allowed : Overlap → Event → Prop}

theorem reaches_opens (hopens : ∀ t, allowed t .opens) (n : Nat) {o : Opening}
    (hopening : t.opening = some o) :
    Reaches home name allowed t { t with
      store := ((fun p : Opening × Store => p.2.openStep home name p.1)^[n] (o, t.store)).2
      opening := some ((fun p : Opening × Store => p.2.openStep home name p.1)^[n] (o, t.store)).1 } := by
  induction n generalizing t o with
  | zero =>
    have hsame : { t with opening := some o } = t := by rw [← hopening]
    simp only [Function.iterate_zero, id, hsame]
    exact .refl
  | succ n ih =>
    simp only [Function.iterate_succ_apply]
    exact .head ⟨.opens, hopens t, .opens hopening⟩ (ih rfl)

theorem reaches_deletes (hdeletes : ∀ t, allowed t .deletes) (n : Nat)
    (hopening : t.opening = none) :
    Reaches home name allowed t { t with
      store := ((fun p : Deletion × Store => p.2.deleteStep home name p.1)^[n] (t.deletion, t.store)).2
      deletion :=
        ((fun p : Deletion × Store => p.2.deleteStep home name p.1)^[n] (t.deletion, t.store)).1 } := by
  induction n generalizing t with
  | zero => exact .refl
  | succ n ih =>
    simp only [Function.iterate_succ_apply]
    exact .head ⟨.deletes, hdeletes t, .deletes fun _ => hopening⟩ (ih hopening)

theorem reaches_open (hfence : ∀ t e, Fenced name t e → allowed t e)
    (hhome : t.store.home = some home) (hnone : t.store.registry.lookup name = none)
    (hopening : t.opening = none) (htakes : allowed { t with missed := t.missed + 1 } .takes) :
    Reaches home name allowed t { t with store := (t.store.openBucket name).2 } := by
  let looked : Overlap := { t with missed := t.missed + 1 }
  have hlooked : Step home name t .looks looked := by
    have hlooks := @Step.looks home name t hopening
    rwa [hnone] at hlooks
  let taken : Overlap := { t with opening := some .testing }
  have htaken : Step home name looked .takes taken := by
    have htakes := @Step.takes home name looked t.missed rfl hopening
    rwa [hnone] at htakes
  have hopens := @reaches_opens home name taken allowed (fun t => hfence t .opens trivial) 3 _ rfl
  have hthrice := openStep_thrice hhome hnone
  rw [show taken.store = t.store from rfl, hthrice] at hopens
  have hunlocks := @Step.unlocks home name _ (t.store.openBucket name).1 (Eq.refl
    ({ taken with
      store := (t.store.openBucket name).2
      opening := some (.ended (t.store.openBucket name).1) } : Overlap).opening)
  have hfree : { t with store := (t.store.openBucket name).2, opening := none } =
      { t with store := (t.store.openBucket name).2 } := by rw [← hopening]
  rw [← hfree]
  exact .head ⟨.looks, hfence t .looks trivial, hlooked⟩ (.head ⟨.takes, htakes, htaken⟩
    (hopens.tail ⟨.unlocks, hfence _ .unlocks trivial, hunlocks⟩))

def ends (t : Overlap) (h : Handle) (op : Op) (p : Progress) : Overlap :=
  { t with
    store := (t.store.finish h op p).2
    writers := Function.update t.writers h none
    written := t.written ++ [(h, op, (t.store.finish h op p).1)] }

theorem ends_proceeds (hop : op.writes? = some h) (t : Overlap) (p : Progress) :
    (t.proceeds h op p).ends h op (t.store.proceed h op p).1 = t.ends h op p := by
  simp only [ends, proceeds, finish_proceed t.store hop, Function.update_idem]

/-- A write that is left alone, while nobody changes what it is allowed. -/
theorem reaches_ends (hreleases : ∀ t, allowed t (.releases h))
    (hwrites : ∀ t' : Overlap, t'.store.registry = t.store.registry → t'.opening = t.opening →
      allowed t' (.writes h))
    (hop : op.writes? = some h) {p : Progress} (hwriter : t.writers h = some (op, p)) :
    Reaches home name allowed t (t.ends h op p) := by
  have hleaving : ∀ (t : Overlap) result, t.writers h = some (op, .leaving result) →
      Reaches home name allowed t (t.ends h op (.leaving result)) :=
    fun t result hwriter => .single ⟨.releases h, hreleases t, .releases hwriter⟩
  have hself : ∀ (t : Overlap) p, (t.proceeds h op p).writers h =
      some (op, (t.store.proceed h op p).1) := fun t p => Function.update_self ..
  have hwriting : ∀ (rest : List Disk.Step) (t' : Overlap) staged,
      t'.store.registry = t.store.registry → t'.opening = t.opening →
      t'.writers h = some (op, .writing staged rest) →
      Reaches home name allowed t' (t'.ends h op (.writing staged rest)) := by
    intro rest
    induction rest with
    | nil =>
      intro t' staged hregistry hopening hwriter
      refine .head ⟨.writes h, hwrites t' hregistry hopening, .writes hwriter⟩ ?_
      rw [← ends_proceeds hop]
      exact hleaving _ _ (hself ..)
    | cons change rest ih =>
      intro t' staged hregistry hopening hwriter
      refine .head ⟨.writes h, hwrites t' hregistry hopening, .writes hwriter⟩ ?_
      have hnext := hself t' (.writing staged (change :: rest))
      rw [← ends_proceeds hop]
      obtain ⟨e, hp⟩ | hp := t'.store.proceed_change h op staged change rest
      · rw [hp] at hnext ⊢
        exact hleaving _ _ hnext
      · have hkeeps := (t'.store.proceed_keeps h op (.writing staged (change :: rest))).2.1
        rw [hp] at hnext ⊢
        exact ih _ staged (hkeeps.trans hregistry) hopening hnext
  cases p with
  | locked =>
    refine .head ⟨.writes h, hwrites t rfl rfl, .writes hwriter⟩ ?_
    have hnext := hself t .locked
    have hkeeps := (t.store.proceed_keeps h op .locked).2.1
    rw [← ends_proceeds hop]
    obtain ⟨result, hp⟩ | ⟨staged, rest, hp⟩ := t.store.proceed_locked h op
    · rw [hp] at hnext ⊢
      exact hleaving _ _ hnext
    · rw [hp] at hnext ⊢
      exact hwriting rest _ staged hkeeps rfl hnext
  | writing staged rest => exact hwriting rest t staged rfl rfl hwriter
  | leaving result => exact hleaving t result hwriter

theorem reaches_write (hfence : ∀ t e, Fenced name t e → allowed t e)
    (hwrites : ∀ t' : Overlap, t'.store.registry = t.store.registry → t'.opening = t.opening →
      allowed t' (.writes h))
    (hop : op.writes? = some h) (hleads : t.store.Leads h name) (hfree : t.writers h = none) :
    Reaches home name allowed t { t with
      store := (t.store.perform op).2
      written := t.written ++ [(h, op, (t.store.perform op).1)] } := by
  have hends := @reaches_ends home name h op
    { t with writers := Function.update t.writers h (some (op, .locked)) } allowed
    (fun t => hfence t (.releases h) trivial) hwrites hop .locked (Function.update_self ..)
  have hwriters : Function.update t.writers h none = t.writers := by
    rw [← hfree, Function.update_eq_self]
  rw [ends, Function.update_idem, hwriters] at hends
  exact .head ⟨.locks h, hfence t (.locks h) trivial, .locks hleads hop hfree⟩ hends

theorem reaches_reopened (hfence : ∀ t e, Fenced name t e → allowed t e) (hs : s.Sound)
    (hhome : s.home = some home) (hop : op.writes? = some h)
    (hcurrent : ((s.delete name).2.openBucket name).2.registry.lookup name = some h) :
    let opened := ((s.delete name).2.openBucket name).2
    ∃ t, Reaches home name allowed (begin s) t ∧ t.Quiet ∧ t.deletion = .ended (s.delete name).1 ∧
      t.written = [(h, op, (opened.perform op).1)] ∧ t.store = (opened.perform op).2 := by
  intro opened
  have hdeleted := @reaches_deletes home name (begin s) allowed
    (fun t => hfence t .deletes trivial) 3 rfl
  rw [show (begin s).store = s from rfl, show (begin s).deletion = .pending from rfl,
    deleteStep_thrice hhome] at hdeleted
  obtain ⟨d, _, hdelete⟩ := delete_disk hs.tree name
  have hnone : (s.delete name).2.registry.lookup name = none := by
    rw [hdelete]
    exact (Represents.lookup_unregister s name name).trans (if_pos rfl)
  have hplace : (s.delete name).2.home = some home := by
    rw [hdelete]
    exact hhome
  have hopened := hdeleted.trans (reaches_open hfence hplace hnone rfl
    (hfence _ .takes fun _ h => h))
  have hwritten := hopened.trans (reaches_write hfence
    (fun t hregistry _ => hfence t (.writes h) fun _ _ _ _ _ => by
      rw [Current, hregistry, hcurrent])
    hop ((sound_reopened hs name).registered name h hcurrent) rfl)
  exact ⟨_, hwritten, ⟨rfl, rfl, fun _ => rfl, _, rfl⟩, rfl, rfl, rfl⟩

theorem reaches_amid (hallowed : ∀ t e, allowed t e) (hs : s.Sound) (hhome : s.home = some home)
    (hop : op.writes? = some h)
    (hcurrent : ((s.unregister name).openBucket name).2.registry.lookup name = some h) :
    let opened := ((s.unregister name).openBucket name).2
    ∃ t, Reaches home name allowed (begin s) t ∧ t.Quiet ∧
      t.deletion = .ended (((opened.perform op).2.removeSnapshot name).1.map fun removed =>
        (s.registry.lookup name).isSome || removed) ∧
      t.written = [(h, op, (opened.perform op).1)] ∧
      t.store = ((opened.perform op).2.removeSnapshot name).2 := by
  intro opened
  let halfway : Overlap := { begin s with
    store := s.unregister name
    deletion := .testing (s.registry.lookup name).isSome }
  have hhalfway : Reaches home name allowed (begin s) halfway :=
    @reaches_deletes home name (begin s) allowed (fun t => hallowed t _) 1 rfl
  have hnone : (s.unregister name).registry.lookup name = none :=
    (Represents.lookup_unregister s name name).trans (if_pos rfl)
  have hopened := @reaches_open home name halfway allowed (fun t e _ => hallowed t e) hhome hnone rfl
    (hallowed _ _)
  have hsound := sound_amid hs name
  have hwritten := @reaches_write home name h op { halfway with store := opened } allowed
    (fun t e _ => hallowed t e) (fun t _ _ => hallowed t _) hop (hsound.registered name h hcurrent)
    rfl
  have hremoved := @reaches_deletes home name { halfway with
    store := (opened.perform op).2
    written := [(h, op, (opened.perform op).1)] } allowed (fun t => hallowed t _) 2 rfl
  have hplace : (opened.perform op).2.home = some home :=
    ((perform_keeps hsound op).2.trans (openBucket_same (hs.unregister name hs.tree) name).1.home).trans
      hhome
  dsimp only [halfway] at hremoved
  rw [deleteStep_twice hplace] at hremoved
  exact ⟨_, hhalfway.trans (hopened.trans (hwritten.trans hremoved)),
    ⟨rfl, rfl, fun _ => rfl, _, rfl⟩, rfl, rfl, rfl⟩

theorem reaches_late (hallowed : ∀ t e, allowed t e) (ht : t.Quiet) (hop : op.writes? = some h)
    (hleads : t.store.Leads h name) :
    ∃ t', Reaches home name allowed t t' ∧ t'.Quiet ∧ t'.deletion = t.deletion ∧
      t'.written = t.written ++ [(h, op, (t.store.perform op).1)] ∧
      t'.store = (t.store.perform op).2 := by
  have hwritten := @reaches_write home name h op t allowed (fun t e _ => hallowed t e)
    (fun t _ _ => hallowed t _) hop hleads (ht.writers h)
  exact ⟨_, hwritten, ⟨ht.missed, ht.opening, ht.writers, ht.deletion⟩, rfl, rfl, rfl⟩

end Alone

end Overlap

/-- A bucket may be deleted while others open it and write to it, whichever accesses to the disk go
wrong, as long as nobody begins to load it between the two halves of the deletion and no handle from
before the deletion writes once the bucket is opened again: then whoever has the bucket has in memory
what the next process will find, whenever nobody writes. -/
theorem fenced_deletion_is_safe {t : Overlap} (hs : s.Sound) (hhome : s.home = some home)
    (hagrees : ∀ h, s.registry.lookup name = some h → s.stored name = .ok (s.entries h))
    (ht : Overlap.Reaches home name (Overlap.Fenced name) (.begin s) t)
    (hfree : ∀ h, t.writers h = none) :
    t.store.registry.lookup name = none ∨ ∃ h, t.store.registry.lookup name = some h ∧
      t.store.stored name = .ok (t.store.entries h) := by
  have hinv := Overlap.Reaches.inv (Overlap.inv_begin hs hhome hagrees) ht
  cases hlookup : t.store.registry.lookup name with
  | none => exact .inl rfl
  | some h =>
    have hagrees := hinv.agrees h hlookup
    rw [hfree h] at hagrees
    exact .inr ⟨h, rfl, hagrees⟩

theorem reopened_bucket_is_safe :
    let s := ((begin (some "cache") .empty).openBucket "a").2
    let opened := ((s.delete "a").2.openBucket "a").2
    let put := Op.put 1 ⟨"GET", "new"⟩ ⟨200, [], .empty⟩
    (opened.perform put).2.registry.lookup "a" = some 1 ∧
      (opened.perform put).2.stored "a" = .ok ((opened.perform put).2.entries 1) := by
  intro s opened put
  have hs : Holds "cache" "a" s 0 _ :=
    holds_reopen Disk.isTree_empty (Prod.ext (by decide +kernel) rfl)
  have hagrees : ∀ h, s.registry.lookup "a" = some h → s.stored "a" = .ok (s.entries h) := by
    intro h hh
    cases hs.registered.symm.trans hh
    rw [hs.stored, hs.entries]
  have hcurrent : opened.registry.lookup "a" = some 1 := by decide +kernel
  have hlookup : (opened.perform put).2.registry.lookup "a" = some 1 := by decide +kernel
  obtain ⟨t, ht, hquiet, -, -, hstore⟩ :=
    @Overlap.reaches_reopened s "cache" "a" 1 put _ (fun _ _ h => h) hs.sound hs.place rfl hcurrent
  have hsafe : ∀ u, t.store = u → u.registry.lookup "a" = some 1 →
      u.stored "a" = .ok (u.entries 1) := by
    rintro _ rfl hlookup
    obtain hnone | ⟨h, hh, hstored⟩ :=
      fenced_deletion_is_safe hs.sound hs.place hagrees ht hquiet.writers
    · cases hlookup.symm.trans hnone
    · cases hlookup.symm.trans hh
      exact hstored
  exact ⟨hlookup, hsafe _ hstore hlookup⟩

/-- What goes wrong without the fence. A bucket is opened between the two halves of its deletion and
written to: the next process finds nothing of that. Or it is opened after its deletion, and a handle
from before writes: the next process finds what that one wrote. -/
theorem unfenced_deletion_loses_entries :
    let old := Op.put 0 ⟨"GET", "old"⟩ ⟨200, [], .empty⟩
    let new := Op.put 1 ⟨"GET", "new"⟩ ⟨200, [], .empty⟩
    let s := ((begin (some "cache") .empty).openBucket "a").2
    (∃ t, Overlap.Reaches "cache" "a" (fun _ _ => True) (.begin s) t ∧ t.Quiet ∧
      t.deletion = .ended (.ok true) ∧ t.written = [(1, new, .ok .done)] ∧
      t.store.registry.lookup "a" = some 1 ∧ (t.store.entries 1).keys = [⟨"GET", "new"⟩] ∧
      t.store.stored "a" = .ok .empty) ∧
    ∃ t, Overlap.Reaches "cache" "a" (fun _ _ => True) (.begin s) t ∧ t.Quiet ∧
      t.deletion = .ended (.ok true) ∧ t.written = [(1, new, .ok .done), (0, old, .ok .done)] ∧
      t.store.registry.lookup "a" = some 1 ∧ (t.store.entries 1).keys = [⟨"GET", "new"⟩] ∧
      ∃ m, t.store.stored "a" = .ok m ∧ m.keys = [⟨"GET", "old"⟩] := by
  intro old new s
  have hs : Holds "cache" "a" s 0 _ :=
    holds_reopen Disk.isTree_empty (Prod.ext (by decide +kernel) rfl)
  constructor
  · let opened := ((s.unregister "a").openBucket "a").2
    have hcurrent : opened.registry.lookup "a" = some 1 := by decide +kernel
    obtain ⟨t, ht, hquiet, hdeletion, hwritten, hstore⟩ :=
      @Overlap.reaches_amid s "cache" "a" 1 new (fun _ _ => True) (fun _ _ => trivial) hs.sound
        hs.place rfl hcurrent
    have hput : (opened.perform new).1 = .ok .done := by decide +kernel
    have hdeleted : ((opened.perform new).2.removeSnapshot "a").1 = .ok true := by
      decide +kernel
    rw [hdeleted, hs.registered] at hdeletion
    rw [hput] at hwritten
    refine ⟨t, ht, hquiet, hdeletion, hwritten, ?_, ?_, ?_⟩
    · rw [hstore]
      decide +kernel
    · rw [hstore]
      decide +kernel
    · rw [hstore]
      decide +kernel
  · let opened := ((s.delete "a").2.openBucket "a").2
    let late := (opened.perform new).2
    have hcurrent : opened.registry.lookup "a" = some 1 := by decide +kernel
    obtain ⟨t, ht, hquiet, hdeletion, hwritten, hstore⟩ :=
      @Overlap.reaches_reopened s "cache" "a" 1 new (fun _ _ => True) (fun _ _ _ => trivial) hs.sound
        hs.place rfl hcurrent
    have hdeleted : (s.delete "a").1 = .ok true := by decide +kernel
    have hnew : (opened.perform new).1 = .ok .done := by decide +kernel
    have hold : (late.perform old).1 = .ok .done := by decide +kernel
    have hbucket : late.buckets[0]? = some ⟨"a", .empty⟩ := by decide +kernel
    have hplace : late.home = some "cache" := by decide +kernel
    have hlate : late.Sound := (perform_keeps (sound_reopened hs.sound "a") new).1
    obtain ⟨t', ht', hquiet', hdeletion', hwritten', hstore'⟩ :=
      @Overlap.reaches_late "cache" "a" 0 old t (fun _ _ => True) (fun _ _ => trivial) hquiet rfl
        (hstore ▸ ⟨_, hbucket, rfl⟩)
    rw [hnew] at hwritten
    rw [hdeletion, hdeleted] at hdeletion'
    rw [hstore, hwritten, hold] at hwritten'
    rw [hstore] at hstore'
    have hstored := perform_stored hlate hplace (by decide +kernel) (Eq.refl (old.target? late)) hold
    rw [bucketName_eq hbucket] at hstored
    refine ⟨t', ht.trans ht', hquiet', hdeletion', hwritten', ?_, ?_, (late.perform old).2.entries 0,
      ?_, ?_⟩
    · rw [hstore']
      decide +kernel
    · rw [hstore']
      decide +kernel
    · rw [hstore']
      exact hstored
    · decide +kernel

end AssetCache.Store
