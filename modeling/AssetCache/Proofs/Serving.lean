import AssetCache.Proofs.Dispatcher
import AssetCache.Proofs.Progress
import Mathlib.Logic.Relation

namespace AssetCache

open Manager

structure Site.Harmless (s s' : Site) : Prop where
  origin : s'.origin = s.origin
  manager : s.manager.Quiet s'.manager
  installing : s'.dispatcher.installing = s.dispatcher.installing
  fetching : s'.dispatcher.fetching = s.dispatcher.fetching
  replies : ∀ n result, (n, .installed result) ∈ s'.dispatcher.replies →
    (n, .installed result) ∈ s.dispatcher.replies

namespace Site.Harmless

variable {s s' : Site} {net : Network}

theorem refl (s : Site) : s.Harmless s := ⟨rfl, .refl _, rfl, rfl, fun _ _ h => h⟩

theorem health (s : Site) (time : String) : s.Harmless (s.health time).2 := by
  have hq := Quiet.bucket s.manager
  rw [Site.health]
  generalize s.manager.bucket = opened at hq ⊢
  obtain ⟨e | h, m⟩ := opened <;> exact ⟨rfl, hq, rfl, rfl, fun _ _ h => h⟩

theorem forward [Idna] (net : Network) (hi : s.dispatcher.Idle) (r : Http.Inbound) :
    s.Harmless (s.forward (worker net) r).2 := by
  have hfetch : ∀ r, s.Harmless { s with dispatcher := (s.dispatcher.fetch (worker net) r).2 } := by
    intro r
    rw [Dispatcher.fetch_idle _ hi]
    split
    · exact ⟨rfl, (Task.Keeps.run (fetchTask_keeps net r) Quiet.refl (fun _ _ _ => Quiet.trans) _).1,
        rfl, rfl, fun _ _ h => (nomatch h)⟩
    · exact refl s
  rw [Site.forward]
  split
  · exact refl s
  · split
    · exact refl s
    · next url _ =>
      have h := hfetch (Site.request r url)
      generalize s.dispatcher.fetch (worker net) (Site.request r url) = done at h ⊢
      obtain ⟨e | response, d⟩ := done
      · exact h
      · dsimp only
        split <;> exact h

theorem readOnly {r : Http.Inbound} {page : Unit → Http.Page × Site}
    (h : s.Harmless (page ()).2) : s.Harmless (Site.readOnly r page s).2 := by
  rw [Site.readOnly]
  split
  · exact h
  · split
    · exact h
    · exact refl s

theorem answer [Idna] (net : Network) (hi : s.dispatcher.Idle) (r : Http.Inbound)
    (c : Circumstances) :
    s.Harmless (s.answer (worker net) r c).2 := by
  have hroute : ∀ r, s.Harmless (s.route (worker net) r c.time).2 := by
    intro r
    rw [Site.route]
    split
    · exact readOnly (health s c.time)
    · split
      · exact readOnly (refl s)
      · exact forward net hi r
  exact hroute _

end Site.Harmless

/-- A site among those who use its manager besides it. Installs are kept with the network that they
ask; `worker` is the one that the dispatcher's install asks, `latest` that of the install that was
the latest to succeed. -/
structure Scene where
  site : Site
  worker : Network
  installs : List (Network × Task Manager (Except InstallError Unit))
  fetches : List (Task Manager (Except CacheError Response))
  latest : Option Network

namespace Scene

def begin (site : Site) (net : Network) : Scene := ⟨site, net, [], [], none⟩

def manager (s : Scene) : Manager := s.site.manager

/-- How a step from `t` to `t'` of an install changes the record of the latest to succeed. -/
def Records (net : Network) (t t' : Task Manager (Except InstallError Unit))
    (latest latest' : Option Network) : Prop :=
  (¬ Succeeded t ∧ Succeeded t' ∧ latest' = some net) ∨
    (¬ (¬ Succeeded t ∧ Succeeded t') ∧ latest' = latest)

/-- Whatever may happen next, each install and each fetch with a network of its own. Requests that
come in while the dispatcher is busy are events that are sent to it. -/
inductive Step [Idna] : Scene → Scene → Prop
  | beginInstall (s : Scene) (net : Network) :
    Step s { s with installs := (net, installTask net) :: s.installs }
  | install (s : Scene) {before after : List (Network × Task Manager (Except InstallError Unit))}
    {net : Network} {t : Task Manager (Except InstallError Unit)} {latest : Option Network}
    (hs : s.installs = before ++ (net, t) :: after)
    (hl : Records net t (t.advance s.manager).1 s.latest latest) :
    Step s { s with
      site := s.site.withManager (t.advance s.manager).2
      installs := before ++ (net, (t.advance s.manager).1) :: after
      latest }
  | beginFetch (s : Scene) (net : Network) (r : Request) :
    Step s { s with fetches := fetchTask net r :: s.fetches }
  | fetch (s : Scene) {before after : List (Task Manager (Except CacheError Response))}
    {t : Task Manager (Except CacheError Response)} (hs : s.fetches = before ++ t :: after) :
    Step s { s with
      site := s.site.withManager (t.advance s.manager).2
      fetches := before ++ (t.advance s.manager).1 :: after }
  | activate (s : Scene) : Step s { s with site := s.site.withManager s.manager.activate.2 }
  | dispatch (s : Scene) {net : Network} {a : Dispatcher.Action} {d : Dispatcher Manager}
    (ha : a ≠ .install) (hd : s.site.dispatcher.step (Manager.worker net) a = some d) :
    Step s { s with
      site := { s.site with dispatcher := d }
      worker := if a = .take then net else s.worker }
  | dispatchInstall (s : Scene) {net : Network} {ticket : Nat}
    {t : Task Manager (Except InstallError Unit)} {d : Dispatcher Manager}
    {latest : Option Network} (ht : s.site.dispatcher.installing = some (ticket, t))
    (hd : s.site.dispatcher.step (Manager.worker net) .install = some d)
    (hl : Records s.worker t (t.advance s.manager).1 s.latest latest) :
    Step s { s with site := { s.site with dispatcher := d }, latest }
  | health (s : Scene) (time : String) : Step s { s with site := (s.site.health time).2 }
  | answer (s : Scene) (net : Network) (r : Http.Inbound) (c : Circumstances)
    (hi : s.site.dispatcher.Idle) :
    Step s { s with site := (s.site.answer (Manager.worker net) r c).2 }

def Reaches [Idna] : Scene → Scene → Prop := Relation.ReflTransGen Step

/-- How far an install has come; if it has succeeded, some install is on record. -/
def Tracked [Idna] (m : Manager) (latest : Option Network) (net : Network)
    (t : Task Manager (Except InstallError Unit)) : Prop :=
  Stage net m t ∧ (Succeeded t → latest.isSome)

structure Inv [Idna] (m₀ : Manager) (s : Scene) : Prop where
  kept : m₀.Extends s.manager
  sound : s.manager.store.Sound
  installs : ∀ p ∈ s.installs, Tracked s.manager s.latest p.1 p.2
  working : ∀ p, s.site.dispatcher.installing = some p →
    Tracked s.manager s.latest s.worker p.2
  fetches : ∀ t ∈ s.fetches, t.Keeps Quiet fun _ => True
  fetching : ∀ p ∈ s.site.dispatcher.fetching, p.2.Keeps Quiet fun _ => True
  replies : ∀ n, (n, .installed (.ok ())) ∈ s.site.dispatcher.replies → s.latest.isSome
  latest : ∀ net, s.latest = some net → Serves net s.manager

variable {s s' : Scene} {m m' m₀ : Manager} {net : Network} {latest latest' : Option Network}
  {t : Task Manager (Except InstallError Unit)}

theorem Tracked.mono [Idna] (h : Tracked m latest net t) (he : m.Extends m')
    (hl : latest.isSome → latest'.isSome) : Tracked m' latest' net t :=
  ⟨h.1.of_extends he, fun hs => hl (h.2 hs)⟩

theorem tracked_of_pending [Idna] (h : Pending net m t) : Tracked m latest net t :=
  ⟨.pending h, fun hs => absurd hs h.not_succeeded⟩

/-- One step of an install: if it is the commit, its own responses are served from then on. -/
theorem Tracked.advance [Idna] (hm : m.store.Sound) (h : Tracked m latest net t)
    (hl : Records net t (t.advance m).1 latest latest')
    (hserves : ∀ net, latest = some net → Serves net m) :
    m.Extends (t.advance m).2 ∧ Tracked (t.advance m).2 latest' net (t.advance m).1 ∧
      (latest.isSome → latest'.isSome) ∧
      ∀ net, latest' = some net → Serves net (t.advance m).2 := by
  obtain ⟨hext, hstage, ⟨hq, hback⟩ | ⟨hnot, hdone, hnew⟩⟩ := h.1.advance hm
  · have hlatest : latest' = latest := by
      rcases hl with ⟨hn, hs, _⟩ | ⟨_, hl⟩
      · exact absurd (hback hs) hn
      · exact hl
    subst hlatest
    exact ⟨hext, ⟨hstage, fun hs => h.2 (hback hs)⟩, id, fun n hn => (hserves n hn).quiet hm hq⟩
  · have hlatest : latest' = some net := by
      rcases hl with ⟨_, _, hl⟩ | ⟨hn, _⟩
      · exact hl
      · exact absurd ⟨hnot, hdone⟩ hn
    subst hlatest
    exact ⟨hext, ⟨hstage, fun _ => rfl⟩, fun _ => rfl, fun n hn => by cases hn; exact hnew⟩

namespace Inv

theorem begin [Idna] (site : Site) (hm : site.manager.store.Sound) (hi : site.dispatcher.Idle)
    (hr : ∀ n, (n, .installed (.ok ())) ∉ site.dispatcher.replies) (net : Network) :
    Inv site.manager (begin site net) where
  kept := .refl _
  sound := hm
  installs := fun _ h => (nomatch h)
  working p h := by
    have : (none : Option _) = some p := hi.installing.symm.trans h
    cases this
  fetches := fun _ h => (nomatch h)
  fetching p h := by
    have : p ∈ ([] : List _) := hi.fetching ▸ h
    cases this
  replies n h := absurd h (hr n)
  latest := fun _ h => (nomatch h)

theorem update [Idna] (h : Inv m₀ s) (hm : s'.manager = m') (hext : s.manager.Extends m')
    (hsome : s.latest.isSome → s'.latest.isSome)
    (hserves : ∀ net, s'.latest = some net → Serves net m')
    (hinstalls : ∀ p ∈ s'.installs, p ∈ s.installs ∨ Tracked m' s'.latest p.1 p.2)
    (hworking : ∀ p, s'.site.dispatcher.installing = some p →
      (s.site.dispatcher.installing = some p ∧ s'.worker = s.worker) ∨
        Tracked m' s'.latest s'.worker p.2)
    (hfetches : ∀ t ∈ s'.fetches, t ∈ s.fetches ∨ t.Keeps Quiet fun _ => True)
    (hfetching : ∀ p ∈ s'.site.dispatcher.fetching,
      p ∈ s.site.dispatcher.fetching ∨ p.2.Keeps Quiet fun _ => True)
    (hreplies : ∀ n, (n, .installed (.ok ())) ∈ s'.site.dispatcher.replies →
      (n, .installed (.ok ())) ∈ s.site.dispatcher.replies ∨ s'.latest.isSome) :
    Inv m₀ s' := by
  subst hm
  exact
    { kept := h.kept.trans hext
      sound := hext.sound h.sound
      installs p hp := (hinstalls p hp).elim (fun hp => (h.installs p hp).mono hext hsome) id
      working p hp := (hworking p hp).elim
        (fun ⟨hp, hw⟩ => hw.symm ▸ (h.working p hp).mono hext hsome) id
      fetches t ht := (hfetches t ht).elim (h.fetches t) id
      fetching p hp := (hfetching p hp).elim (h.fetching p) id
      replies n hn := (hreplies n hn).elim (fun hn => hsome (h.replies n hn)) id
      latest := hserves }

theorem harmless [Idna] (h : Inv m₀ s) {site : Site} (hs : s.site.Harmless site) :
    Inv m₀ { s with site } :=
  h.update rfl (.of_quiet hs.manager h.sound) id
    (fun net hnet => (h.latest net hnet).quiet h.sound hs.manager) (fun _ => .inl)
    (fun _ hp => .inl ⟨hs.installing ▸ hp, rfl⟩) (fun _ => .inl)
    (fun _ hp => .inl (hs.fetching ▸ hp)) (fun n hn => .inl (hs.replies n _ hn))

theorem quiet [Idna] (h : Inv m₀ s) (hq : s.manager.Quiet m) :
    Inv m₀ { s with site := s.site.withManager m } :=
  h.harmless ⟨rfl, hq, rfl, rfl, fun _ _ h => h⟩

theorem install [Idna] (h : Inv m₀ s) {before after : List (Network × Task Manager _)}
    (hs : s.installs = before ++ (net, t) :: after)
    (hl : Records net t (t.advance s.manager).1 s.latest latest) :
    Inv m₀ { s with
      site := s.site.withManager (t.advance s.manager).2
      installs := before ++ (net, (t.advance s.manager).1) :: after
      latest } := by
  have htracked := h.installs (net, t) (by simp [hs])
  obtain ⟨hext, hnew, hsome, hserves⟩ := htracked.advance h.sound hl h.latest
  refine h.update rfl hext hsome hserves (fun p hp => ?_) (fun _ hp => .inl ⟨hp, rfl⟩)
    (fun _ => .inl) (fun _ => .inl) (fun _ => .inl)
  rw [hs]
  rcases List.mem_append.mp hp with hp | hp
  · exact .inl (List.mem_append_left _ hp)
  · rcases List.mem_cons.mp hp with rfl | hp
    · exact .inr hnew
    · exact .inl (List.mem_append_right _ (List.mem_cons_of_mem _ hp))

theorem fetch [Idna] (h : Inv m₀ s) {before after : List (Task Manager _)}
    {t : Task Manager (Except CacheError Response)} (hs : s.fetches = before ++ t :: after) :
    Inv m₀ { s with
      site := s.site.withManager (t.advance s.manager).2
      fetches := before ++ (t.advance s.manager).1 :: after } := by
  obtain ⟨hq, hkeeps⟩ := (h.fetches t (by simp [hs])).advance Quiet.refl s.manager
  refine (h.quiet hq).update rfl (.refl _) id (h.quiet hq).latest (fun _ => .inl)
    (fun _ hp => .inl ⟨hp, rfl⟩) (fun t' ht => ?_) (fun _ => .inl) (fun _ => .inl)
  rw [hs]
  rcases List.mem_append.mp ht with ht | ht
  · exact .inl (List.mem_append_left _ ht)
  · rcases List.mem_cons.mp ht with rfl | ht
    · exact .inr hkeeps
    · exact .inl (List.mem_append_right _ (List.mem_cons_of_mem _ ht))

theorem dispatch [Idna] (h : Inv m₀ s) {a : Dispatcher.Action} {d : Dispatcher Manager}
    (ha : a ≠ .install) (hd : s.site.dispatcher.step (Manager.worker net) a = some d) :
    Inv m₀ { s with
      site := { s.site with dispatcher := d }
      worker := if a = .take then net else s.worker } := by
  cases a with
  | install => exact absurd rfl ha
  | send e =>
    cases Dispatcher.step_send hd
    exact h.harmless ⟨rfl, .refl _, rfl, rfl, fun _ _ h => h⟩
  | take =>
    obtain ⟨hshared, hreplies, hwork⟩ := Dispatcher.step_take hd
    refine h.update hshared (.refl _) id h.latest (fun _ => .inl)
      (fun p hp => .inr ?_) (fun _ => .inl) (fun p hp => ?_) (fun n hn => .inl (hreplies ▸ hn))
    · rcases hwork with ⟨ticket, hi, _⟩ | ⟨_, _, hi, _⟩
      · cases hi.symm.trans hp
        exact tracked_of_pending (pending_worker net _)
      · cases hi.symm.trans hp
    · rcases hwork with ⟨_, _, hf⟩ | ⟨_, r, _, hf⟩
      · exact .inl (hf ▸ hp)
      · rcases List.mem_append.mp (hf ▸ hp) with hp | hp
        · exact .inl hp
        · cases List.mem_singleton.mp hp
          exact .inr (fetchTask_keeps net r)
  | fetch ticket =>
    obtain ⟨t, ht, rfl⟩ := Dispatcher.step_fetch hd
    obtain ⟨hq, hkeeps⟩ := (h.fetching _ ht).advance Quiet.refl s.manager
    obtain ⟨hshared, hinstalling, hfetching, hreplies⟩ := Dispatcher.afterFetch_spec
      { s.site.dispatcher with shared := (t.advance s.manager).2 } ticket (t.advance s.manager).1
    refine (h.quiet hq).update hshared (.refl _) id (h.quiet hq).latest (fun _ => .inl)
      (fun p hp => .inl ⟨hinstalling ▸ hp, rfl⟩) (fun _ => .inl) (fun p hp => ?_)
      (fun n hn => .inl (hreplies n _ hn))
    rcases hfetching p hp with hp | rfl
    · exact .inl hp
    · exact .inr hkeeps

theorem dispatchInstall [Idna] (h : Inv m₀ s) {ticket : Nat} {d : Dispatcher Manager}
    (ht : s.site.dispatcher.installing = some (ticket, t))
    (hd : s.site.dispatcher.step (Manager.worker net) .install = some d)
    (hl : Records s.worker t (t.advance s.manager).1 s.latest latest) :
    Inv m₀ { s with site := { s.site with dispatcher := d }, latest } := by
  obtain ⟨ticket', t', ht', rfl⟩ := Dispatcher.step_install hd
  cases ht.symm.trans ht'
  obtain ⟨hext, hnew, hsome, hserves⟩ := (h.working _ ht).advance h.sound hl h.latest
  obtain ⟨hshared, hfetching, hinstalling, hreplies⟩ := Dispatcher.afterInstall_spec
    { s.site.dispatcher with shared := (t.advance s.manager).2 } ticket (t.advance s.manager).1
  refine h.update hshared hext hsome hserves (fun _ => .inl)
    (fun p hp => .inr ?_) (fun _ => .inl) (fun p hp => .inl (hfetching ▸ hp)) (fun n hn => ?_)
  · cases hinstalling p hp
    exact hnew
  · refine (hreplies n _ hn).imp id fun hdone => hnew.2 ?_
    rw [hdone]
    exact rfl

theorem step [Idna] (h : Inv m₀ s) (hs : Step s s') : Inv m₀ s' := by
  cases hs with
  | beginInstall net =>
    refine h.update rfl (.refl _) id h.latest (fun p hp => ?_) (fun _ hp => .inl ⟨hp, rfl⟩)
      (fun _ => .inl) (fun _ => .inl) (fun _ => .inl)
    rcases List.mem_cons.mp hp with rfl | hp
    · exact .inr (tracked_of_pending (pending_installTask net _))
    · exact .inl hp
  | install hs hl => exact h.install hs hl
  | beginFetch net r =>
    refine h.update rfl (.refl _) id h.latest (fun _ => .inl) (fun _ hp => .inl ⟨hp, rfl⟩)
      (fun t ht => ?_) (fun _ => .inl) (fun _ => .inl)
    rcases List.mem_cons.mp ht with rfl | ht
    · exact .inr (fetchTask_keeps net r)
    · exact .inl ht
  | fetch hs => exact h.fetch hs
  | activate => exact h.quiet (.activate _)
  | dispatch ha hd => exact h.dispatch ha hd
  | dispatchInstall ht hd hl => exact h.dispatchInstall ht hd hl
  | health time => exact h.harmless (.health _ time)
  | answer net r c hi => exact h.harmless (.answer net hi r c)

theorem reaches [Idna] (h : Inv m₀ s) (hs : s.Reaches s') : Inv m₀ s' := by
  induction hs with
  | refl => exact h
  | tail _ hs ih => exact ih.step hs

end Inv

theorem Reaches.origin [Idna] (hs : s.Reaches s') : s'.site.origin = s.site.origin := by
  induction hs with
  | refl => rfl
  | tail _ hs ih =>
    rw [← ih]
    cases hs with
    | health time => exact (Site.Harmless.health _ time).origin
    | answer net r c hi => exact (Site.Harmless.answer net hi r c).origin
    | _ => rfl

theorem succeeded_advance (h : Succeeded t) (m : Manager) : Succeeded (t.advance m).1 :=
  (Task.Keeps.advance h (fun _ => trivial) m).2

theorem Records.trans {t' t'' : Task Manager (Except InstallError Unit)}
    {latest'' : Option Network} (hback : Succeeded t → Succeeded t')
    (hback' : Succeeded t' → Succeeded t'') (h : Records net t t' latest latest')
    (h' : Records net t' t'' latest' latest'') : Records net t t'' latest latest'' := by
  rcases h with ⟨hn, hs, hl⟩ | ⟨hc, hl⟩
  · rcases h' with ⟨hn', _, _⟩ | ⟨_, hl'⟩
    · exact absurd hs hn'
    · exact .inl ⟨hn, hback' hs, hl'.trans hl⟩
  · rcases h' with ⟨hn', hs', hl'⟩ | ⟨hc', hl'⟩
    · exact .inl ⟨fun ht => hn' (hback ht), hs', hl'⟩
    · refine .inr ⟨fun ⟨hn, hs⟩ => hc' ⟨fun ht' => hc ⟨hn, ht'⟩, hs⟩, hl'.trans hl⟩

theorem records_exists (net : Network) (t t' : Task Manager (Except InstallError Unit))
    (latest : Option Network) : ∃ latest', Records net t t' latest latest' := by
  by_cases h : ¬ Succeeded t ∧ Succeeded t'
  · exact ⟨some net, .inl ⟨h.1, h.2, rfl⟩⟩
  · exact ⟨latest, .inr ⟨h, rfl⟩⟩

def ended : Option (Except InstallError Unit) → Task Manager (Except InstallError Unit)
  | some result => .done result
  | none => .crash

theorem reaches_run [Idna] (rest : List (Network × Task Manager (Except InstallError Unit)))
    (hs : s.installs = (net, t) :: rest) :
    (Succeeded t → Succeeded (ended (t.run s.manager).1)) ∧
    ∃ latest, Records net t (ended (t.run s.manager).1) s.latest latest ∧
      s.Reaches { s with
        site := s.site.withManager (t.run s.manager).2
        installs := (net, ended (t.run s.manager).1) :: rest
        latest } := by
  induction t generalizing s with
  | done result =>
    obtain ⟨site, worker, installs, fetches, latest⟩ := s
    cases hs
    exact ⟨id, latest, .inr ⟨fun h => h.1 h.2, rfl⟩, .refl⟩
  | crash =>
    obtain ⟨site, worker, installs, fetches, latest⟩ := s
    cases hs
    exact ⟨id, latest, .inr ⟨fun h => h.1 h.2, rfl⟩, .refl⟩
  | wait next ih =>
    obtain ⟨latest, hl⟩ := records_exists net (.wait next) next s.latest
    have hstep : Step s { s with
        site := s.site.withManager s.manager, installs := [] ++ (net, next) :: rest, latest } :=
      .install s hs hl
    obtain ⟨hback, latest', hl', hreach⟩ := ih (s := { s with
        site := s.site.withManager s.manager, installs := [] ++ (net, next) :: rest, latest }) rfl
    exact ⟨hback, latest', hl.trans id hback hl', hreach.head hstep⟩
  | act step next ih =>
    obtain ⟨latest, hl⟩ := records_exists net (.act step next) (next (step s.manager).1) s.latest
    have hstep : Step s { s with
        site := s.site.withManager (step s.manager).2
        installs := [] ++ (net, next (step s.manager).1) :: rest, latest } := .install s hs hl
    obtain ⟨hback, latest', hl', hreach⟩ := ih (step s.manager).1 (s := { s with
        site := s.site.withManager (step s.manager).2
        installs := [] ++ (net, next (step s.manager).1) :: rest, latest }) rfl
    have hfirst := fun h => succeeded_advance (t := .act step next) h s.manager
    exact ⟨fun h => hback (hfirst h), latest', hl.trans hfirst hback hl', hreach.head hstep⟩

theorem reaches_install [Idna] (hok : (Manager.install net s.manager).1 = some (.ok ())) :
    s.Reaches { s with
      site := s.site.withManager (Manager.install net s.manager).2
      installs := (net, .done (.ok ())) :: s.installs
      latest := some net } := by
  have hbegin := Step.beginInstall s net
  obtain ⟨_, latest, hl, hreach⟩ := reaches_run s.installs
    (s := { s with installs := (net, installTask net) :: s.installs }) rfl
  change Records net _ (ended (Manager.install net s.manager).1) s.latest latest at hl
  change Reaches _ { s with
    site := s.site.withManager (Manager.install net s.manager).2
    installs := (net, ended (Manager.install net s.manager).1) :: s.installs, latest } at hreach
  rw [hok] at hl hreach
  have hlatest : latest = some net := by
    rcases hl with ⟨_, _, hl⟩ | ⟨hn, _⟩
    · exact hl
    · exact absurd ⟨(pending_installTask net s.manager).not_succeeded, rfl⟩ hn
  subst hlatest
  exact hreach.head hbegin

end Scene

namespace Manager

variable {net : Network} {m : Manager} {h : Handle} {r : Request} {response : Response}

theorem key_withFragment (url : Url) (fragment : Option (List Char)) (headers : List Header)
    (body : Option ByteArray) :
    Request.key ⟨.get, { url with fragment }, headers, body⟩ = (Request.get url).key :=
  Key.of_withFragment .get url fragment

theorem fetch_of_stored (hh : m.store.registry.lookup m.name = some h)
    (hr : (m.store.entries h).get? r.key = some response) :
    fetch net r m = (some (.ok response), m.countHit) := by
  have hbucket : m.bucket = (.ok h, m) := by
    rw [bucket, Store.openBucket, hh]
  rw [fetch, fetchTask, Task.run, hbucket]
  simp only [Task.run, entries, hr]

end Manager

theorem Scene.serves_of_reaches [Idna] {m : Manager} (hm : m.store.Sound) {origin : Url}
    {capacity : Nat}
    {net₀ net : Network} {s : Scene}
    (hs : (Scene.begin ⟨origin, .begin capacity m⟩ net₀).Reaches s) (hnet : s.latest = some net) :
    ∃ requests h, Manifest.resolve m.origin m.manifest = .ok requests ∧ s.manager.name = m.name ∧
      s.manager.store.registry.lookup s.manager.name = some h ∧
      ∀ r ∈ requests, ∃ response, (net r).outcome = .response response ∧
        (s.manager.store.entries h).get? r.key = some response := by
  have hinv := (Scene.Inv.begin ⟨origin, .begin capacity m⟩ hm ⟨rfl, rfl, rfl⟩
    (fun _ h => (nomatch h)) net₀).reaches hs
  obtain ⟨requests, h, hr, hh, hresponses⟩ := hinv.latest net hnet
  have hr' : Manifest.resolve m.origin m.manifest = .ok requests := by
    rw [← hr, hinv.kept.origin, hinv.kept.manifest]
    rfl
  exact ⟨requests, h, hr', hinv.kept.name, hh, hresponses⟩

/-- After an install has succeeded, every entry of the manifest is in the bucket with what the
latest one to succeed was sent for it, and a GET for it is answered with that and nothing else. -/
theorem served_after_install [Idna] {m : Manager} (hm : m.store.Sound) (origin : Url)
    (capacity : Nat)
    (net₀ : Network) {s : Scene}
    (hs : (Scene.begin ⟨origin, .begin capacity m⟩ net₀).Reaches s) :
    ((∃ net, (net, .done (.ok ())) ∈ s.installs) ∨
        (∃ n, (n, .installed (.ok ())) ∈ s.site.dispatcher.replies) → s.latest.isSome) ∧
      ∀ net, s.latest = some net → ∃ requests entries,
        Manifest.resolve m.origin m.manifest = .ok requests ∧
        s.manager.store.contents m.name = .ok entries ∧
        ∀ r ∈ requests, ∃ response, (net r).outcome = .response response ∧
          entries.get? r.key = some response ∧
          ∀ now fragment headers body, ∃ m',
            s.manager.fetch now ⟨.get, { r.url with fragment }, headers, body⟩ =
              (some (.ok response), m') ∧
            m'.calls = s.manager.calls ∧ m'.store = s.manager.store ∧
            m'.stats = { s.manager.stats with hits := s.manager.stats.hits + 1 } := by
  refine ⟨?_, fun net hnet => ?_⟩
  · have hinv := (Scene.Inv.begin ⟨origin, .begin capacity m⟩ hm ⟨rfl, rfl, rfl⟩
      (fun _ h => (nomatch h)) net₀).reaches hs
    rintro (⟨net, h⟩ | ⟨n, h⟩)
    · exact (hinv.installs _ h).2 rfl
    · exact hinv.replies n h
  · obtain ⟨requests, h, hr, hname, hh, hresponses⟩ := Scene.serves_of_reaches hm hs hnet
    refine ⟨requests, s.manager.store.entries h, hr, ?_, fun r hmem => ?_⟩
    · exact Store.contents_of_registered (hname ▸ hh)
    · obtain ⟨response, ho, hget⟩ := hresponses r hmem
      refine ⟨response, ho, hget, fun now fragment headers body =>
        ⟨s.manager.countHit, ?_, rfl, rfl, rfl⟩⟩
      refine Manager.fetch_of_stored hh ?_
      obtain ⟨_, _, url, _, rfl⟩ := Manifest.eq_get_of_mem_resolve hr hmem
      rw [Manager.key_withFragment]
      exact hget

open scoped Idna

/-- Two assets over a bucket that holds an old response for the second. After an install that is
answered with the new one late, the new one is served, whatever stands behind the hash sign. -/
theorem served_after_install_into_memory :
    let origin : Url := ⟨"http".toList, some ⟨[], "a".toList, none⟩, .segments [[]], none, none⟩
    let asset := fun name : String => Request.get { origin with path := .segments [name.toList] }
    let first : Response := ⟨200, [("Vary", "accept")], ⟨#[1]⟩⟩
    let second : Response := ⟨204, [], .empty⟩
    let net : Network := fun r =>
      if r = asset "x" then ⟨0, .response first⟩ else ⟨2, .response second⟩
    let store := (((Store.begin none .empty).openBucket "assets").2.put 0 (asset "y").key
      ⟨200, [], ⟨#[0]⟩⟩).2
    let m := Manager.begin "assets" ["x", "y"] origin store
    ∃ s, (Scene.begin ⟨origin, .begin 1 m⟩ net).Reaches s ∧ s.latest = some net ∧
      ∀ now fragment headers body, ∃ m',
        s.manager.fetch now ⟨.get, { (asset "y").url with fragment }, headers, body⟩ =
          (some (.ok second), m') ∧
        m'.calls = s.manager.calls ∧ m'.stats = { s.manager.stats with hits := 1 } := by
  intro origin asset first second net store m
  have hopened := (Store.openBucket_same (Store.sound_begin none Disk.isTree_empty) "assets").2
  have hm : m.store.Sound := (Store.commit_ok hopened rfl).1
  have hok : (Manager.install net m).1 = some (.ok ()) := by decide +kernel
  have hs := Scene.reaches_install (s := Scene.begin ⟨origin, .begin 1 m⟩ net) hok
  obtain ⟨-, hserved⟩ := served_after_install hm origin 1 net hs
  obtain ⟨requests, _, hresolve, -, hserved⟩ := hserved net rfl
  have hrequests : Manifest.resolve m.origin m.manifest = .ok [asset "x", asset "y"] := by
    decide +kernel
  cases hresolve.symm.trans hrequests
  obtain ⟨response, houtcome, -, hfetch⟩ := hserved (asset "y") (by decide)
  have hresponse : response = second := by
    have hnet : net (asset "y") = ⟨2, .response second⟩ := if_neg (by decide +kernel)
    rw [hnet] at houtcome
    exact (Outcome.response.inj houtcome).symm
  subst hresponse
  refine ⟨_, hs, rfl, fun now fragment headers body => ?_⟩
  obtain ⟨m', heq, hcalls, -, hstats⟩ := hfetch now fragment headers body
  exact ⟨m', heq, hcalls, hstats.trans (by decide +kernel)⟩

end AssetCache
