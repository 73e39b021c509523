import AssetCache.Proofs.Accounts.Fetch

namespace AssetCache.Manager

variable {net : Network} {m m' m'' : Manager} {requests : List Request} {h : Handle}

/-- The size that was told of the bucket is the number of its entries, among them all those of the
manifest. -/
def Gauged [Idna] (m : Manager) : Prop :=
  ∃ requests h, Manifest.resolve m.origin m.manifest = .ok requests ∧
    m.store.registry.lookup m.name = some h ∧
    m.metrics.size? m.name = some (m.store.entries h).size ∧
    ∀ r ∈ requests, ((m.store.entries h).get? r.key).isSome

/-- What another install stores leaves the number of entries as it is, so that it makes no difference
when it is told. -/
theorem Gauged.size_harvest [Idna] (hg : m.Gauged) (net : Network)
    (hr : Manifest.resolve m.origin m.manifest = .ok requests)
    (hh : m.store.registry.lookup m.name = some h) :
    ((m.store.entries h).insertAll (harvest net requests)).size = (m.store.entries h).size := by
  obtain ⟨requests', k, hr', hk, -, hkeys⟩ := hg
  cases hr.symm.trans hr'
  cases hh.symm.trans hk
  refine Entries.size_insertAll fun p hp => ?_
  obtain ⟨r, hmem, hr⟩ := List.mem_filterMap.mp hp
  obtain ⟨response, -, rfl⟩ := Option.map_eq_some_iff.mp hr
  exact hkeys r hmem

/-- What any step may do: names stand for the same buckets, and a size that is right stays right. -/
def Evolves [Idna] (m m' : Manager) : Prop :=
  m.store.Sound → m.Extends m' ∧ (m.Gauged → m'.Gauged)

theorem Evolves.refl [Idna] (m : Manager) : m.Evolves m := fun _ => ⟨.refl m, id⟩

theorem Evolves.trans [Idna] (h : m.Evolves m') (h' : m'.Evolves m'') : m.Evolves m'' := by
  intro hm
  obtain ⟨hext, hgauged⟩ := h hm
  obtain ⟨hext', hgauged'⟩ := h' (hext.sound hm)
  exact ⟨hext.trans hext', hgauged' ∘ hgauged⟩

theorem Still.evolves [Idna] (h : m.Still m') : m.Evolves m' := by
  refine fun hm => ⟨.of_quiet h.toQuiet hm, ?_⟩
  rintro ⟨requests, k, hr, hk, hsize, hkeys⟩
  obtain ⟨hsame, -⟩ := h.store hm
  obtain ⟨b, hb, -⟩ := hm.registered m.name k hk
  have hentries : m'.store.entries k = m.store.entries k := by
    rw [Store.entries_eq (hsame.buckets k b hb), Store.entries_eq hb]
  refine ⟨requests, k, by rw [h.origin, h.manifest, hr], h.name ▸ hsame.registry _ _ hk, ?_, ?_⟩
  · rw [hentries, h.name, Metrics.size?, h.sizes]
    exact hsize
  · rw [hentries]
    exact hkeys

structure Aside [Idna] (m m' : Manager) : Prop where
  evolves : m.Evolves m'
  accounts : m'.accounts = m.accounts

theorem Aside.refl [Idna] (m : Manager) : m.Aside m := ⟨.refl m, rfl⟩

theorem Aside.of_still [Idna] (h : m.Still m') (ha : m'.accounts = m.accounts) : m.Aside m' :=
  ⟨h.evolves, ha⟩

theorem aside_bucket [Idna] (m : Manager) : m.Aside m.bucket.2 := .of_still ⟨.bucket m, rfl⟩ rfl

theorem aside_recordInstall [Idna] (m : Manager) (result : Except InstallError Unit) :
    m.Aside (m.recordInstall result) := by
  have hkept : (m.recordInstall result).metrics.sizes = m.metrics.sizes ∧
      (m.recordInstall result).accounts = m.accounts := by
    cases result with
    | error e => exact ⟨rfl, rfl⟩
    | ok _ =>
      rw [recordInstall]
      split <;> exact ⟨rfl, rfl⟩
  exact .of_still ⟨.recordInstall m result, hkept.1⟩ hkept.2

theorem aside_activate [Idna] (m : Manager) : m.Aside m.activate.2 := by
  have hkept : m.activate.2.metrics.sizes = m.metrics.sizes ∧
      m.activate.2.accounts = m.accounts := by
    rw [activate]
    dsimp only
    split <;> exact ⟨rfl, rfl⟩
  exact .of_still ⟨.activate m, hkept.1⟩ hkept.2

structure Collects (m m' : Manager) : Prop where
  bare : m'.bare = m.bare
  sizes : m'.metrics.sizes = m.metrics.sizes
  accounts : m'.accounts = m.accounts

namespace Collects

theorem refl (m : Manager) : m.Collects m := ⟨rfl, rfl, rfl⟩

theorem trans (h : m.Collects m') (h' : m'.Collects m'') : m.Collects m'' :=
  ⟨h'.bare.trans h.bare, h'.sizes.trans h.sizes, h'.accounts.trans h.accounts⟩

theorem addFetch (m : Manager) (ok : Bool) :
    m.Collects (m.withMetrics (·.addFetch "install" ok)) := by
  have hcount : ∀ ok', (m.metrics.addFetch "install" ok).fetchCount "fallback" ok' =
      m.metrics.fetchCount "fallback" ok' := fun ok' => by
    rw [Metrics.fetchCount_addFetch, if_neg (by simp)]
  refine ⟨rfl, rfl, ?_⟩
  rw [Manager.accounts, withMetrics, hcount, hcount]
  rfl

theorem countAnswer (m : Manager) (o : Outcome) : m.Collects (m.countAnswer o) := by
  cases o with
  | crash => exact refl m
  | failure e => exact addFetch m false
  | response response => exact addFetch m true

theorem look (net : Network) (requests : List Request) (n : Nat) (p : Request × Nat)
    (m : Manager) : m.Collects (Manager.look net requests n p m).2 := by
  have hcall : m.Collects (if n = 0 then m.call p.1 else m) := by
    split
    · exact ⟨rfl, rfl, rfl⟩
    · exact refl m
  rw [Manager.look]
  split
  · exact hcall.trans (countAnswer _ _)
  · exact hcall

theorem rounds (net : Network) (requests : List Request) (n count : Nat) :
    (Manager.rounds net requests n count).Keeps Collects fun _ => True := by
  induction count generalizing n with
  | zero => trivial
  | succ count ih =>
    rw [Manager.rounds.eq_def]
    refine fun m => ⟨round_keeps refl (fun _ _ _ h h' => h.trans h') (look net requests n)
      requests.zipIdx m, ?_⟩
    cases (Manager.round net requests n requests.zipIdx m).1 with
    | fails | crashes => trivial
    | goesOn =>
      cases count with
      | zero => trivial
      | succ count => exact ih (n + 1)

theorem aside [Idna] (h : m.Collects m') : m.Aside m' :=
  .of_still ⟨.of_bare h.bare, h.sizes⟩ h.accounts

end Collects

theorem storeAll_size (h : Handle) (batch : List (Key × Response)) (m : Manager) :
    (storeAll h batch m).2.accounts = m.accounts ∧
      ((storeAll h batch m).1 = .ok () →
        (storeAll h batch m).2.metrics.size? (storeAll h batch m).2.name =
          some ((storeAll h batch m).2.store.entries h).size) ∧
      ((storeAll h batch m).1 ≠ .ok () →
        (storeAll h batch m).2.metrics.sizes = m.metrics.sizes) := by
  rw [storeAll]
  generalize m.store.putAll h batch = put
  obtain ⟨result, store⟩ := put
  cases result with
  | error e => exact ⟨rfl, fun hok => (by cases hok), fun _ => rfl⟩
  | ok _ => exact ⟨rfl, fun _ => List.lookup_cons_self, fun hno => absurd rfl hno⟩

theorem storeAll_gauged [Idna] (hm : m.store.Sound)
    (hr : Manifest.resolve m.origin m.manifest = .ok requests)
    (hh : m.store.registry.lookup m.name = some h) (hg : ∀ r ∈ requests, net.Grants r) :
    m.Aside (storeAll h (harvest net requests) m).2 ∧
      ((storeAll h (harvest net requests) m).1 = .ok () →
        (storeAll h (harvest net requests) m).2.Gauged) := by
  obtain ⟨haccounts, hsize, hsizes⟩ := storeAll_size h (harvest net requests) m
  obtain ⟨⟨e, he⟩, hq⟩ | ⟨hok, hext, requests', k, hr', hk, hresponses⟩ := storeAll_spec hm hr hh hg
  · rw [he] at hsizes ⊢
    exact ⟨.of_still ⟨hq, hsizes (nomatch ·)⟩ haccounts, (nomatch ·)⟩
  · have hsame : h = k := by
      have hk' := hext.registry _ _ hh
      rw [← hext.name, hk] at hk'
      exact (Option.some.inj hk').symm
    subst hsame
    have hgauged : (storeAll h (harvest net requests) m).2.Gauged := by
      refine ⟨requests', h, hr', hk, hsize hok, fun r hr => ?_⟩
      obtain ⟨response, -, hget⟩ := hresponses r hr
      rw [hget]
      rfl
    exact ⟨⟨fun _ => ⟨hext, fun _ => hgauged⟩, haccounts⟩, fun _ => hgauged⟩

def Tells [Idna] (result : Option (Except InstallError Unit)) (m : Manager) : Prop :=
  m.store.Sound ∧ (result = some (.ok ()) → m.Gauged)

theorem Tells.evolves [Idna] {result : Option (Except InstallError Unit)} (h : Tells result m)
    (he : m.Evolves m') : Tells result m' := by
  obtain ⟨hext, hgauged⟩ := he h.1
  exact ⟨hext.sound h.1, hgauged ∘ h.2⟩

structure Ready [Idna] (requests : List Request) (h : Handle) (m : Manager) : Prop where
  sound : m.store.Sound
  resolved : Manifest.resolve m.origin m.manifest = .ok requests
  registered : m.store.registry.lookup m.name = some h

theorem Ready.evolves [Idna] (hready : Ready requests h m) (he : m.Evolves m') :
    Ready requests h m' := by
  obtain ⟨hext, -⟩ := he hready.sound
  exact ⟨hext.sound hready.sound, by rw [hext.origin, hext.manifest, hready.resolved],
    by rw [hext.name]; exact hext.registry _ _ hready.registered⟩

theorem fetching_tells [Idna] (net : Network) (hready : Ready requests h m) :
    (fetching net requests (.ok h)).Follows Evolves Aside Tells m := by
  have hgather : (gather net requests).Follows Evolves Aside (fun result m =>
      (result = some (.ok ()) → ∀ r ∈ requests, net.Grants r) ∧ Ready requests h m) m := by
    have hkeeps := (Collects.rounds net requests 0 (longestDelay net requests + 1)).and
      (gather_keeps net requests)
    exact .of_keeps (hkeeps.mono (fun _ _ hm => hm.1.aside) fun _ hresult => hresult.2.1.mp)
      (fun _ _ hready he => hready.evolves he)
      (fun _ _ hready haside => ⟨haside, hready.evolves haside.evolves⟩) hready
  refine hgather.bind Evolves.refl (fun result m hresult => ?_) fun m hcrash => ?_
  · obtain ⟨hgrants, hready⟩ := hresult
    cases result with
    | error e => exact fun m' he => ⟨(hready.evolves he).sound, (nomatch ·)⟩
    | ok _ =>
      intro m' he
      have hready' := hready.evolves he
      obtain ⟨haside, hgauged⟩ := storeAll_gauged hready'.sound hready'.resolved
        hready'.registered (hgrants rfl)
      refine ⟨haside, fun m'' he' => ?_⟩
      have htells : Tells (some (storeAll h (harvest net requests) m').1)
          (storeAll h (harvest net requests) m').2 :=
        ⟨(hready'.evolves haside.evolves).sound, fun hok => hgauged (Option.some.inj hok)⟩
      exact htells.evolves he'
  · exact ⟨hcrash.2.sound, (nomatch ·)⟩

/-- Whatever else is done meanwhile, an install that succeeds tells the size of the bucket. -/
theorem populate_tells [Idna] (net : Network) (hm : m.store.Sound) :
    (populate net).Follows Evolves Aside Tells m := by
  intro m₁ he₁
  have hm₁ := (he₁ hm).1.sound hm
  refine ⟨.refl m₁, ?_⟩
  dsimp only
  cases hr : Manifest.resolve m₁.origin m₁.manifest with
  | error e => exact fun m₂ he₂ => ⟨(he₂ hm₁).1.sound hm₁, (nomatch ·)⟩
  | ok requests =>
    intro m₂ he₂
    obtain ⟨hext, -⟩ := he₂ hm₁
    have haside := aside_bucket m₂
    have hm₃ := (haside.evolves (hext.sound hm₁)).1.sound (hext.sound hm₁)
    refine ⟨haside, ?_⟩
    cases ho : m₂.bucket.1 with
    | error e => exact fun m₃ he₃ => ⟨(he₃ hm₃).1.sound hm₃, (nomatch ·)⟩
    | ok h =>
      refine fetching_tells net ⟨hm₃, ?_, Store.openBucket_registered ho⟩
      change Manifest.resolve m₂.origin m₂.manifest = _
      rw [hext.origin, hext.manifest, hr]

theorem installTask_tells [Idna] (net : Network) (hm : m.store.Sound) :
    (installTask net).Follows Evolves Aside Tells m := by
  refine (populate_tells net hm).bind Evolves.refl (fun result m hresult => ?_) fun _ h => h
  intro m' he
  have haside := aside_recordInstall m' result
  refine ⟨haside, fun m'' he' => (hresult.evolves he).evolves ?_⟩
  exact haside.evolves.trans he'

theorem worker_tells [Idna] (net : Network) (hm : m.store.Sound) :
    (worker net).install.Follows Evolves Aside Tells m := by
  refine (installTask_tells net hm).bind Evolves.refl (fun result m hresult => ?_) fun _ h => h
  cases result with
  | error e => exact fun m' he => hresult.evolves he
  | ok _ =>
    intro m' he
    have haside := aside_activate m'
    refine ⟨haside, fun m'' he' => (hresult.evolves he).evolves ?_⟩
    exact haside.evolves.trans he'

end AssetCache.Manager
