import AssetCache.Proofs.Accounts.Batch
import AssetCache.Proofs.Store.Removal

namespace AssetCache

namespace Store

/-- Nothing is new but that the bucket of this name may have been opened. It then has the entries
that were stored for it. -/
structure Opened (name : String) (s s' : Store) : Prop where
  home : s'.home = s.home
  files : s'.disk.entries = s.disk.entries
  memory : (s'.registry = s.registry ∧ s'.buckets = s.buckets) ∨
    ∃ entries, s.registry.lookup name = none ∧ s.stored name = .ok entries ∧
      s'.registry = (name, s.buckets.length) :: s.registry ∧
      s'.buckets = s.buckets ++ [⟨name, entries⟩]

namespace Opened

variable {s s' s'' : Store} {name : String} {h : Handle}

theorem refl (s : Store) : Opened name s s := ⟨rfl, rfl, .inl ⟨rfl, rfl⟩⟩

theorem of_registered (ho : Opened name s s') (hr : s.registry.lookup name = some h) :
    s'.registry = s.registry ∧ s'.buckets = s.buckets := by
  obtain hsame | ⟨entries, hnone, -⟩ := ho.memory
  · exact hsame
  · cases hr.symm.trans hnone

theorem stored (ho : Opened name s s') (n : String) : s'.stored n = s.stored n := by
  rw [stored_eq, stored_eq, ho.home]
  simp only [Disk.find_entries ho.files]

theorem trans (ho : Opened name s s') (ho' : Opened name s' s'') : Opened name s s'' where
  home := ho'.home.trans ho.home
  files := ho'.files.trans ho.files
  memory := by
    obtain ⟨hregistry, hbuckets⟩ | ⟨entries, hnone, hstored, hregistry, hbuckets⟩ := ho.memory
    · have hmemory := ho'.memory
      rwa [hregistry, hbuckets, ho.stored] at hmemory
    · have hopen : s'.registry.lookup name = some s.buckets.length := by
        rw [hregistry, List.lookup_cons_self]
      obtain ⟨hregistry', hbuckets'⟩ := ho'.of_registered hopen
      exact .inr ⟨entries, hnone, hstored, hregistry'.trans hregistry, hbuckets'.trans hbuckets⟩

theorem openBucket (s : Store) (name : String) : Opened name s (s.openBucket name).2 := by
  rw [Store.openBucket]
  cases hr : s.registry.lookup name with
  | some h => exact refl s
  | none =>
    obtain ⟨d, hd, hload, -⟩ := s.load_cases name
    cases hl : s.load name with
    | mk result loaded =>
      rw [hl] at hload
      subst hload
      cases result with
      | error e => exact ⟨rfl, hd, .inl ⟨rfl, rfl⟩⟩
      | ok entries =>
        have hstored : s.stored name = .ok entries := stored_of_load (by rw [hl])
        exact ⟨rfl, hd, .inr ⟨entries, hr, hstored, rfl, rfl⟩⟩

theorem same (ho : Opened name s s') (hs : s.Sound) : s.Same s' := by
  obtain ⟨home, registry, buckets, disk⟩ := s'
  obtain ⟨hhome, hfiles,
    ⟨hregistry, hbuckets⟩ | ⟨entries, hnone, hstored, hregistry, hbuckets⟩⟩ := ho
  · cases hhome
    cases hregistry
    cases hbuckets
    exact .of_entries hfiles
  · cases hhome
    cases hregistry
    cases hbuckets
    have hsame : s.Same { s with disk := disk } := .of_entries hfiles
    have hsound : ({ s with disk := disk } : Store).Sound :=
      ⟨hs.registered, hs.tree.congr (Disk.at?_congr hfiles)⟩
    exact hsame.trans (register_same hsound hnone (by rw [hsame.stored, hstored]))

end Opened

end Store

namespace Manager

variable {net : Network} {r : Request} {m m' m'' : Manager} {h : Handle}

/-- What a fetch event may do to a manager besides counting: it may open the bucket. -/
structure ReadOnly (m m' : Manager) : Prop where
  name : m'.name = m.name
  manifest : m'.manifest = m.manifest
  origin : m'.origin = m.origin
  phase : m'.phase = m.phase
  store : m.store.Opened m.name m'.store

namespace ReadOnly

theorem refl (m : Manager) : m.ReadOnly m := ⟨rfl, rfl, rfl, rfl, .refl _⟩

theorem trans (hm : m.ReadOnly m') (hm' : m'.ReadOnly m'') : m.ReadOnly m'' where
  name := hm'.name.trans hm.name
  manifest := hm'.manifest.trans hm.manifest
  origin := hm'.origin.trans hm.origin
  phase := hm'.phase.trans hm.phase
  store := hm.store.trans (hm.name ▸ hm'.store)

theorem bucket (m : Manager) : m.ReadOnly m.bucket.2 := ⟨rfl, rfl, rfl, rfl, .openBucket _ _⟩

theorem countHit (m : Manager) : m.ReadOnly m.countHit := ⟨rfl, rfl, rfl, rfl, .refl _⟩

theorem countMiss (m : Manager) (r : Request) : m.ReadOnly (m.countMiss.call r) :=
  ⟨rfl, rfl, rfl, rfl, .refl _⟩

theorem recordMiss (m : Manager) (ok : Bool) : m.ReadOnly (m.recordMiss ok) := by
  cases ok <;> exact ⟨rfl, rfl, rfl, rfl, .refl _⟩

end ReadOnly

theorem conclude_readOnly (o : Outcome) : (conclude o).Keeps ReadOnly fun _ => True := by
  cases o with
  | crash => trivial
  | response response => exact fun m => ⟨.recordMiss m true, trivial⟩
  | failure e => exact fun m => ⟨.recordMiss m false, trivial⟩

theorem lookUp_readOnly (net : Network) (r : Request) (opened : Except CacheError Handle) :
    (lookUp net r opened).Keeps ReadOnly fun _ => True := by
  cases opened with
  | error e => trivial
  | ok h =>
    refine fun m => ⟨.refl m, ?_⟩
    dsimp only
    cases (m.entries h).get? r.key with
    | some response => exact fun m => ⟨.countHit m, trivial⟩
    | none =>
      rw [serve, forward_eq]
      exact fun m => ⟨.countMiss m r, (conclude_readOnly _).waits _⟩

/-- No step of a fetch event does more than to read, whatever is done between two of them. -/
theorem fetchTask_readOnly (net : Network) (r : Request) :
    (fetchTask net r).Keeps ReadOnly fun _ => True := by
  rw [fetchTask_eq]
  exact fun m => ⟨.bucket m, lookUp_readOnly net r _⟩

theorem fetch_eq (net : Network) (r : Request) (m : Manager) :
    fetch net r m = (lookUp net r m.bucket.1).run m.bucket.2 := by
  rw [fetch, fetchTask_eq]
  rfl

theorem readOnly_of_bucket (net : Network) (r : Request) (m : Manager) :
    m.bucket.2.ReadOnly (fetch net r m).2 := by
  rw [fetch_eq]
  exact ((lookUp_readOnly net r _).run ReadOnly.refl (fun _ _ _ => ReadOnly.trans) _).1

theorem fetch_readOnly (net : Network) (r : Request) (m : Manager) :
    m.ReadOnly (fetch net r m).2 :=
  (ReadOnly.bucket m).trans (readOnly_of_bucket net r m)

structure Hit (response : Response) (m : Manager)
    (ran : Option (Except CacheError Response) × Manager) : Prop where
  answer : ran.1 = some (.ok response)
  calls : ran.2.calls = m.calls
  stats : ran.2.stats = { m.stats with hits := m.stats.hits + 1 }

/-- The network is asked once, for this very request, and it is answered with what comes of that. -/
structure Miss (r : Request) (o : Outcome) (m : Manager)
    (ran : Option (Except CacheError Response) × Manager) : Prop where
  answer : ran.1 = o.answer
  calls : ran.2.calls = r :: m.calls
  stats : ran.2.stats = { m.stats with
    misses := m.stats.misses + 1, networkErrors := m.stats.networkErrors + o.errors }

structure Refusal (e : CacheError) (m : Manager)
    (ran : Option (Except CacheError Response) × Manager) : Prop where
  answer : ran.1 = some (.error e)
  calls : ran.2.calls = m.calls
  stats : ran.2.stats = m.stats
  metrics : ran.2.metrics = m.metrics

theorem fetch_of_closed {e : CacheError} (ho : m.bucket.1 = .error e) :
    Refusal e m (fetch net r m) := by
  rw [fetch_eq, ho]
  exact ⟨rfl, rfl, rfl, rfl⟩

theorem fetch_of_found {response : Response} (ho : m.bucket.1 = .ok h)
    (hfound : (m.bucket.2.entries h).get? r.key = some response) :
    Hit response m (fetch net r m) := by
  rw [fetch_eq, ho, lookUp, Task.run]
  dsimp only
  rw [hfound]
  exact ⟨rfl, rfl, rfl⟩

theorem fetch_of_missing (ho : m.bucket.1 = .ok h)
    (hnone : (m.bucket.2.entries h).get? r.key = none) :
    Miss r (net r).outcome m (fetch net r m) := by
  have hrun : fetch net r m = (conclude (net r).outcome).run (m.bucket.2.countMiss.call r) := by
    rw [fetch_eq, ho, lookUp, Task.run]
    dsimp only
    rw [hnone, serve, forward_eq, Task.run]
    exact Task.run_waits _ _ _
  rw [hrun]
  cases (net r).outcome with
  | crash | response | failure => exact ⟨rfl, rfl, rfl⟩

def fetchInTurn (events : List (Network × Request)) (m : Manager) : Manager :=
  events.foldl (fun m e => (fetch e.1 e.2 m).2) m

theorem fetchInTurn_readOnly (events : List (Network × Request)) (m : Manager) :
    m.ReadOnly (fetchInTurn events m) := by
  induction events generalizing m with
  | nil => exact .refl m
  | cons e rest ih => exact (fetch_readOnly e.1 e.2 m).trans (ih _)

theorem miss_again (ho : m.bucket.1 = .ok h) (hnone : (m.bucket.2.entries h).get? r.key = none)
    (hm : m.bucket.2.ReadOnly m') : Miss r (net r).outcome m' (fetch net r m') := by
  have hopen : m.bucket.2.store.registry.lookup m.bucket.2.name = some h :=
    Store.openBucket_registered ho
  obtain ⟨hregistry, hbuckets⟩ := hm.store.of_registered hopen
  have hbucket : m'.bucket = (.ok h, m') := by
    have hopen' : m'.store.registry.lookup m'.name = some h := by rw [hregistry, hm.name, hopen]
    rw [bucket, Store.openBucket_of_registered hopen']
  have hentries : (m'.bucket.2.entries h).get? r.key = none := by
    rw [hbucket, entries, Store.entries, hbuckets]
    exact hnone
  exact fetch_of_missing (congrArg (·.1) hbucket) hentries

/-- A fetch event is answered from the bucket first. If the bucket opens and holds something under
the key of the request, that is the answer and the network is not asked; if it lacks the key, the
network is asked once for the very request, and so it will be when the request comes again, whatever
has come between; if it does not open, nothing else is done. In none of this is an entry, a file or
the phase changed, and of the request nothing but its method and its URL without the fragment tells
whether it hits. -/
theorem fetch_is_cache_first (net : Network) (r : Request) (m : Manager) (hm : m.store.Sound) :
    (∀ h, m.bucket.1 = .ok h → ∃ entries, m.store.contents m.name = .ok entries ∧
      (∀ response, entries.get? r.key = some response → Hit response m (fetch net r m)) ∧
      (entries.get? r.key = none → Miss r (net r).outcome m (fetch net r m) ∧
        ∀ (events : List (Network × Request)) (now : Network),
          let m' := fetchInTurn events (fetch net r m).2
          Miss r (now r).outcome m' (fetch now r m'))) ∧
    (∀ e, m.bucket.1 = .error e → Refusal e m (fetch net r m)) ∧
    (fetchTask net r).Keeps ReadOnly (fun _ => True) ∧
    m.ReadOnly (fetch net r m).2 ∧ m.store.Same (fetch net r m).2.store ∧
    ∀ (now : Network) (r' : Request), r'.method = r.method →
      r'.url.withoutFragment = r.url.withoutFragment →
      r'.key = r.key ∧ (fetch now r' m).2.stats.hits = (fetch net r m).2.stats.hits := by
  have hreads := fetch_readOnly net r m
  refine ⟨fun h ho => ?_, fun e he => fetch_of_closed he, fetchTask_readOnly net r, hreads,
    hreads.store.same hm, fun now r' hmethod hurl => ?_⟩
  · refine ⟨m.bucket.2.entries h, Store.contents_of_openBucket hm ho, fun response hfound =>
      fetch_of_found ho hfound, fun hnone => ⟨fetch_of_missing ho hnone, fun events now => ?_⟩⟩
    exact miss_again ho hnone ((readOnly_of_bucket net r m).trans (fetchInTurn_readOnly events _))
  · have hkey : r'.key = r.key := by rw [Request.key, Request.key, Key.of, Key.of, hmethod, hurl]
    refine ⟨hkey, ?_⟩
    cases ho : m.bucket.1 with
    | error e =>
      have hrefused : Refusal e m (fetch now r' m) := fetch_of_closed ho
      rw [hrefused.stats, (fetch_of_closed ho).stats]
    | ok h =>
      cases hfound : (m.bucket.2.entries h).get? r.key with
      | some response =>
        have hhit : Hit response m (fetch now r' m) := fetch_of_found ho (hkey ▸ hfound)
        rw [hhit.stats, (fetch_of_found ho hfound).stats]
      | none =>
        have hmiss : Miss r' (now r').outcome m (fetch now r' m) :=
          fetch_of_missing ho (hkey ▸ hfound)
        rw [hmiss.stats, (fetch_of_missing ho hfound).stats]

/-- A page in an open bucket is served under a fragment and with other headers. A HEAD for it goes
to the network, which is too slow. -/
theorem fetch_of_page_and_head :
    let url : Url := ⟨"http".toList, some ⟨[], "a".toList, none⟩, .segments [[]], none, none⟩
    let page : Response := ⟨200, [], "page".toUTF8⟩
    let store := ((Store.begin none .empty).register "assets"
      (.ofList [((Request.get url).key, page)])).2
    let m := begin "assets" [] url store
    let net : Network := fun _ => ⟨2, .failure (.timeout "late")⟩
    let get : Request := ⟨.get, { url with fragment := some "top".toList }, [("a", "b")], none⟩
    let head : Request := ⟨⟨"HEAD", by decide⟩, url, [], none⟩
    m.store.Sound ∧ Hit page m (fetch net get m) ∧
      Miss head (.failure (.timeout "late")) m (fetch net head m) := by
  intro url page store m net get head
  have hm : m.store.Sound :=
    Store.register_sound (Store.sound_begin none Disk.isTree_empty) "assets" _
  have ho : m.bucket.1 = .ok 0 := by decide +kernel
  obtain ⟨hopens, -⟩ := fetch_is_cache_first net get m hm
  obtain ⟨entries, hentries, hhit, -⟩ := hopens 0 ho
  obtain ⟨hopens', -⟩ := fetch_is_cache_first net head m hm
  obtain ⟨entries', hentries', -, hmiss⟩ := hopens' 0 ho
  cases hentries
  cases hentries'
  exact ⟨hm, hhit page (by decide +kernel), (hmiss (by decide +kernel)).1⟩

end Manager

end AssetCache
