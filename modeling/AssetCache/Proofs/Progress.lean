import AssetCache.Front
import AssetCache.Proofs.Install

namespace AssetCache.Manager

variable {net : Network} {m m' m'' : Manager} {requests : List Request}
  {t : Task Manager (Except InstallError Unit)}

/-- What every step does: the manager's own data stay, and so does what names stand for. -/
structure Extends (m m' : Manager) : Prop where
  name : m'.name = m.name
  manifest : m'.manifest = m.manifest
  origin : m'.origin = m.origin
  registry : ∀ name h, m.store.registry.lookup name = some h →
    m'.store.registry.lookup name = some h
  sound : m.store.Sound → m'.store.Sound

/-- What every step does that is not a commit: no bucket changes. -/
structure Quiet (m m' : Manager) : Prop where
  name : m'.name = m.name
  manifest : m'.manifest = m.manifest
  origin : m'.origin = m.origin
  store : m.store.Sound → m.store.Same m'.store ∧ m'.store.Sound

theorem Extends.refl (m : Manager) : m.Extends m := ⟨rfl, rfl, rfl, fun _ _ h => h, id⟩

theorem Extends.trans (h : m.Extends m') (h' : m'.Extends m'') : m.Extends m'' where
  name := h'.name.trans h.name
  manifest := h'.manifest.trans h.manifest
  origin := h'.origin.trans h.origin
  registry n k hk := h'.registry n k (h.registry n k hk)
  sound hs := h'.sound (h.sound hs)

namespace Quiet

theorem of_store (hn : m'.name = m.name) (hm : m'.manifest = m.manifest)
    (ho : m'.origin = m.origin) (hs : m'.store = m.store) : m.Quiet m' :=
  ⟨hn, hm, ho, fun h => hs.symm ▸ ⟨.refl _, h⟩⟩

theorem refl (m : Manager) : m.Quiet m := of_store rfl rfl rfl rfl

theorem trans (h : m.Quiet m') (h' : m'.Quiet m'') : m.Quiet m'' where
  name := h'.name.trans h.name
  manifest := h'.manifest.trans h.manifest
  origin := h'.origin.trans h.origin
  store hs :=
    ⟨(h.store hs).1.trans (h'.store (h.store hs).2).1, (h'.store (h.store hs).2).2⟩

theorem of_bare (h : m'.bare = m.bare) : m.Quiet m' :=
  of_store (name_of_bare h) (manifest_of_bare h) (origin_of_bare h) (store_of_bare h)

theorem bucket (m : Manager) : m.Quiet m.bucket.2 :=
  ⟨rfl, rfl, rfl, fun hs => Store.openBucket_same hs m.name⟩

theorem recordInstall (m : Manager) (result : Except InstallError Unit) :
    m.Quiet (m.recordInstall result) := by
  cases result with
  | error e => exact of_store rfl rfl rfl rfl
  | ok _ =>
    by_cases hp : m.phase = .uninitialized <;>
      simp only [Manager.recordInstall, withMetrics, hp, if_true, if_false] <;>
      exact of_store rfl rfl rfl rfl

theorem activate (m : Manager) : m.Quiet m.activate.2 := by
  by_cases hp : m.phase = .populated <;>
    simp only [Manager.activate, hp, if_true, if_false] <;>
    exact of_store rfl rfl rfl rfl

theorem recordMiss (m : Manager) (ok : Bool) : m.Quiet (m.recordMiss ok) := by
  cases ok <;> exact of_store rfl rfl rfl rfl

end Quiet

theorem Extends.of_quiet (h : m.Quiet m') (hs : m.store.Sound) : m.Extends m' :=
  ⟨h.name, h.manifest, h.origin, (h.store hs).1.registry, fun hs => (h.store hs).2⟩

theorem fetchTask_keeps (net : Network) (r : Request) :
    (fetchTask net r).Keeps Quiet fun _ => True := by
  intro m
  refine ⟨.bucket m, ?_⟩
  cases m.bucket.1 with
  | error e => trivial
  | ok h =>
    intro m
    refine ⟨.refl m, ?_⟩
    dsimp only
    cases (m.entries h).get? r.key with
    | some response => exact fun m => ⟨.of_store rfl rfl rfl rfl, trivial⟩
    | none =>
      intro m
      refine ⟨.of_store rfl rfl rfl rfl, Task.Keeps.waits ?_ _⟩
      cases (net r).outcome with
      | crash => trivial
      | response response => exact fun m => ⟨.recordMiss m true, trivial⟩
      | failure e => exact fun m => ⟨.recordMiss m false, trivial⟩

/-- The bucket is open and holds the network's responses to all entries of the manifest. -/
def Serves [Idna] (net : Network) (m : Manager) : Prop :=
  ∃ requests h, Manifest.resolve m.origin m.manifest = .ok requests ∧
    m.store.registry.lookup m.name = some h ∧
    ∀ r ∈ requests, ∃ response, (net r).outcome = .response response ∧
      (m.store.entries h).get? r.key = some response

theorem Serves.quiet [Idna] (h : Serves net m) (hm : m.store.Sound) (hq : m.Quiet m') :
    Serves net m' := by
  obtain ⟨requests, h, hr, hh, hresponses⟩ := h
  obtain ⟨hsame, _⟩ := hq.store hm
  obtain ⟨b, hb, _⟩ := hm.registered m.name h hh
  refine ⟨requests, h, by rw [hq.origin, hq.manifest, hr], ?_, ?_⟩
  · rw [hq.name]
    exact hsame.registry _ _ hh
  · rw [Store.entries_eq (hsame.buckets h b hb), ← Store.entries_eq hb]
    exact hresponses

def Ending (k : Except InstallError Unit → Task Manager (Except InstallError Unit)) : Prop :=
  ∀ result, (k result).Keeps Quiet (· = some result)

def storing (net : Network) (requests : List Request) (h : Handle) :
    Except InstallError Unit → Task Manager (Except InstallError Unit)
  | .error e => .done (.error e)
  | .ok () => .perform (storeAll h (harvest net requests))

def fetching (net : Network) (requests : List Request) :
    Except CacheError Handle → Task Manager (Except InstallError Unit)
  | .error e => .done (.error (failed e))
  | .ok h => (gather net requests).bind (storing net requests h)

/-- How far an install has come that is not past its commit. -/
inductive Pending [Idna] (net : Network) (m : Manager) :
    Task Manager (Except InstallError Unit) → Prop
  | fresh {k} (hk : Ending k) : Pending net m ((populate net).bind k)
  | resolved {k requests} (hk : Ending k)
    (hr : Manifest.resolve m.origin m.manifest = .ok requests) :
    Pending net m ((Task.act bucket (fetching net requests)).bind k)
  | gathering {k requests h} {t : Task Manager (Except InstallError Unit)} (hk : Ending k)
    (hr : Manifest.resolve m.origin m.manifest = .ok requests)
    (hh : m.store.registry.lookup m.name = some h)
    (ht : t.Keeps (fun m m' => m'.bare = m.bare) fun result =>
      result = some (.ok ()) → ∀ r ∈ requests, net.Grants r) :
    Pending net m ((t.bind (storing net requests h)).bind k)

inductive Stage [Idna] (net : Network) (m : Manager) :
    Task Manager (Except InstallError Unit) → Prop
  | pending {t : Task _ _} (ht : Pending net m t) : Stage net m t
  | succeeded {t : Task _ _} (ht : t.Keeps Quiet (· = some (.ok ()))) : Stage net m t
  | failed {t : Task _ _} (ht : t.Keeps Quiet (· ≠ some (.ok ()))) : Stage net m t

def unlucky : Manager :=
  begin "" [] ⟨[], none, .plain [], none, none⟩ (.begin (some "") ⟨[], [some ⟨.notFound, none⟩]⟩)

theorem storeAll_unlucky (hs : m.store = unlucky.store) (h : Handle)
    (batch : List (Key × Response)) : ∃ e, (storeAll h batch m).1 = .error e := by
  rw [storeAll, hs]
  exact ⟨_, rfl⟩

theorem Ending.run {k : Except InstallError Unit → Task Manager (Except InstallError Unit)}
    (hk : Ending k) (result : Except InstallError Unit) (m : Manager) :
    ((k result).run m).1 = some result :=
  (Task.Keeps.run (hk result) Quiet.refl (fun _ _ _ => Quiet.trans) m).2

/-- Nothing is certain of an install before its commit: that may still go wrong. -/
theorem Pending.run_unlucky [Idna] (h : Pending net m t) : (t.run unlucky).1 ≠ some (.ok ()) := by
  cases h with
  | fresh hk =>
    rw [Task.run_bind]
    rcases populate_cases net unlucky with ⟨e, _, hrun⟩ | ⟨e, _, hrun⟩ | ⟨_, h, _, ho, _⟩
    · rw [hrun]
      simp [hk.run]
    · rw [hrun]
      simp [hk.run]
    · cases ho
  | resolved hk hr =>
    have hopen : (bucket unlucky).1 = .error (.io .notFound) := rfl
    rw [Task.bind, Task.run]
    dsimp only
    rw [hopen]
    intro h
    cases (hk.run _ _).symm.trans h
  | @gathering k requests h t hk hr hh ht =>
    have hbare := (ht.run (fun _ => rfl) (fun _ _ _ h h' => h'.trans h) unlucky).1
    rw [Task.run_bind, Task.run_bind]
    generalize t.run unlucky = ran at hbare ⊢
    obtain ⟨_ | e | _, m₁⟩ := ran
    · intro h
      cases h
    · intro h
      cases (hk.run _ _).symm.trans h
    · obtain ⟨e, he⟩ := storeAll_unlucky (store_of_bare hbare) h (harvest net requests)
      simp only [storing, Task.perform, Task.run, he]
      intro h
      cases (hk.run _ _).symm.trans h

theorem Pending.of_extends [Idna] (h : Pending net m t) (he : m.Extends m') : Pending net m' t := by
  cases h with
  | fresh hk => exact .fresh hk
  | resolved hk hr => exact .resolved hk (by rw [he.origin, he.manifest, hr])
  | gathering hk hr hh ht =>
    exact .gathering hk (by rw [he.origin, he.manifest, hr])
      (by rw [he.name]; exact he.registry _ _ hh) ht

theorem storeAll_spec [Idna] {h : Handle} (hm : m.store.Sound)
    (hr : Manifest.resolve m.origin m.manifest = .ok requests)
    (hh : m.store.registry.lookup m.name = some h) (hg : ∀ r ∈ requests, net.Grants r) :
    ((∃ e, (storeAll h (harvest net requests) m).1 = .error e) ∧
      m.Quiet (storeAll h (harvest net requests) m).2) ∨
    ((storeAll h (harvest net requests) m).1 = .ok () ∧
      m.Extends (storeAll h (harvest net requests) m).2 ∧
      Serves net (storeAll h (harvest net requests) m).2) := by
  rcases storeAll_cases h (harvest net requests) m with ⟨e, hp, hs⟩ | ⟨hp, hs, hbare⟩
  · rw [hs]
    exact .inl ⟨⟨_, rfl⟩, rfl, rfl, rfl, fun hm => Store.commit_error hm hp⟩
  · obtain ⟨hsound, hregistry, _, hentries⟩ := Store.commit_ok hm hp
    obtain ⟨b, hb, _⟩ := hm.registered m.name h hh
    have hentries := hentries h (List.getElem?_eq_some_iff.mp hb).1
    rw [if_pos rfl] at hentries
    have hname := name_of_bare hbare
    have hmanifest := manifest_of_bare hbare
    have horigin := origin_of_bare hbare
    have hstore := store_of_bare hbare
    generalize (storeAll h (harvest net requests) m).2 = m' at hname hmanifest horigin hstore ⊢
    dsimp only at hname hmanifest horigin hstore
    have hregistry' : m'.store.registry = m.store.registry := by rw [hstore]; exact hregistry
    refine .inr ⟨hs, ⟨hname, hmanifest, horigin, fun n k hk => by rw [hregistry', hk],
      fun _ => hstore ▸ hsound⟩, requests, h, by rw [horigin, hmanifest, hr],
      by rw [hregistry', hname, hh], ?_⟩
    rw [hstore, Store.putAll, hentries]
    exact (get?_insertAll_harvest (Manifest.nodup_keys_resolve hr) hg _).1

/-- One step of an install that is not past its commit: it leaves the buckets alone and has not
succeeded, or it is the commit. -/
theorem Pending.advance [Idna] (hm : m.store.Sound) (h : Pending net m t) :
    (m.Quiet (t.advance m).2 ∧
      (Pending net (t.advance m).2 (t.advance m).1 ∨
        (t.advance m).1.Keeps Quiet (· ≠ some (.ok ())))) ∨
    ((t.advance m).1.Keeps Quiet (· = some (.ok ())) ∧ m.Extends (t.advance m).2 ∧
      Serves net (t.advance m).2) := by
  have hfails : ∀ {k : Except InstallError Unit → Task Manager (Except InstallError Unit)},
      Ending k → ∀ e, (k (.error e)).Keeps Quiet (· ≠ some (.ok ())) := fun hk e =>
    (hk (.error e)).mono (fun _ _ h => h) fun _ h => by rw [h]; simp
  cases h with
  | @fresh k hk =>
    refine .inl ⟨.refl m, ?_⟩
    change Pending net m (Task.bind _ k) ∨ Task.Keeps _ _ (Task.bind _ k)
    cases hr : Manifest.resolve m.origin m.manifest with
    | error e => exact .inr (hfails hk e)
    | ok requests => exact .inl (.resolved hk hr)
  | @resolved k requests hk hr =>
    refine .inl ⟨.bucket m, ?_⟩
    change Pending net m.bucket.2 ((fetching net requests m.bucket.1).bind k) ∨
      ((fetching net requests m.bucket.1).bind k).Keeps _ _
    cases ho : m.bucket.1 with
    | error e => exact .inr (hfails hk _)
    | ok h =>
      exact .inl (.gathering hk hr (Store.openBucket_registered ho)
        ((gather_keeps net requests).mono (fun _ _ h => h) fun _ h => h.1.mp))
  | @gathering k requests h t hk hr hh ht =>
    cases t with
    | done result =>
      cases result with
      | error e =>
        obtain ⟨hq, hrest⟩ := (hfails hk e).advance Quiet.refl m
        exact .inl ⟨hq, .inr hrest⟩
      | ok _ =>
        change (m.Quiet (storeAll h (harvest net requests) m).2 ∧
            (_ ∨ (k (storeAll h (harvest net requests) m).1).Keeps _ _)) ∨
          ((k (storeAll h (harvest net requests) m).1).Keeps _ _ ∧ _)
        rcases storeAll_spec hm hr hh (ht rfl) with ⟨⟨e, he⟩, hq⟩ | ⟨hok, hext, hserves⟩
        · rw [he]
          exact .inl ⟨hq, .inr (hfails hk e)⟩
        · rw [hok]
          exact .inr ⟨hk _, hext, hserves⟩
    | crash => exact .inl ⟨.refl m, .inr (fun h => (nomatch h))⟩
    | wait next => exact .inl ⟨.refl m, .inl (.gathering hk hr hh ht)⟩
    | act step next =>
      obtain ⟨hbare, hnext⟩ := ht m
      have hq := Quiet.of_bare hbare
      have hp : Pending net m (((next (step m).1).bind (storing net requests h)).bind k) :=
        .gathering hk hr hh hnext
      exact .inl ⟨hq, .inl (hp.of_extends (.of_quiet hq hm))⟩

/-- An install has succeeded as soon as it cannot fail any more. -/
def Succeeded (t : Task Manager (Except InstallError Unit)) : Prop := t.Certain (.ok ())

theorem succeeded_of_keeps (h : t.Keeps Quiet (· = some (.ok ()))) : Succeeded t :=
  h.mono (fun _ _ _ => trivial) fun _ h => h

theorem not_succeeded_of_keeps (h : t.Keeps Quiet (· ≠ some (.ok ()))) : ¬ Succeeded t := fun hs =>
  (h.run Quiet.refl (fun _ _ _ => Quiet.trans) unlucky).2 (hs.run unlucky)

theorem Pending.not_succeeded [Idna] (h : Pending net m t) : ¬ Succeeded t := fun hs =>
  h.run_unlucky (hs.run unlucky)

namespace Stage

theorem of_extends [Idna] (h : Stage net m t) (he : m.Extends m') : Stage net m' t := by
  cases h with
  | pending ht => exact .pending (ht.of_extends he)
  | succeeded ht => exact .succeeded ht
  | failed ht => exact .failed ht

/-- An install succeeds with one step, and then serves; no other step changes a bucket. -/
theorem advance [Idna] (hm : m.store.Sound) (h : Stage net m t) :
    m.Extends (t.advance m).2 ∧ Stage net (t.advance m).2 (t.advance m).1 ∧
      ((m.Quiet (t.advance m).2 ∧ (Succeeded (t.advance m).1 → Succeeded t)) ∨
        (¬ Succeeded t ∧ Succeeded (t.advance m).1 ∧ Serves net (t.advance m).2)) := by
  cases h with
  | pending ht =>
    rcases ht.advance hm with ⟨hq, hp | hf⟩ | ⟨hs, he, hserves⟩
    · exact ⟨.of_quiet hq hm, .pending hp, .inl ⟨hq, fun h => absurd h hp.not_succeeded⟩⟩
    · exact ⟨.of_quiet hq hm, .failed hf, .inl ⟨hq, fun h => absurd h (not_succeeded_of_keeps hf)⟩⟩
    · exact ⟨he, .succeeded hs, .inr ⟨ht.not_succeeded, succeeded_of_keeps hs, hserves⟩⟩
  | succeeded ht =>
    obtain ⟨hq, hs⟩ := Task.Keeps.advance ht Quiet.refl m
    exact ⟨.of_quiet hq hm, .succeeded hs, .inl ⟨hq, fun _ => succeeded_of_keeps ht⟩⟩
  | failed ht =>
    obtain ⟨hq, hf⟩ := Task.Keeps.advance ht Quiet.refl m
    exact ⟨.of_quiet hq hm, .failed hf, .inl ⟨hq, fun h => absurd h (not_succeeded_of_keeps hf)⟩⟩

end Stage

theorem pending_installTask [Idna] (net : Network) (m : Manager) :
    Pending net m (installTask net) :=
  .fresh fun result m => ⟨.recordInstall m result, rfl⟩

theorem pending_worker [Idna] (net : Network) (m : Manager) :
    Pending net m (worker net).install := by
  rw [worker, installTask, Task.bind_assoc]
  refine .fresh fun result m => ⟨.recordInstall m result, ?_⟩
  cases result with
  | error e => exact rfl
  | ok _ => exact fun m => ⟨.activate m, rfl⟩

end AssetCache.Manager
