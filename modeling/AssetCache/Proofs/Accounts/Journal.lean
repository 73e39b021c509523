import AssetCache.Proofs.Accounts.Install
import AssetCache.Proofs.Containment
import AssetCache.Proofs.Delivery.Schedule
import Mathlib.Logic.Relation

namespace AssetCache

open Manager

/-- A site and those who use its manager besides it, with all fetch events that were ever begun.
`installed` tells whether an install that was sent to the dispatcher has succeeded. -/
structure Journal where
  site : Site
  installs : List (Task Manager (Except InstallError Unit))
  events : List FetchRecord
  installed : Bool

namespace Journal

def begin (site : Site) : Journal := ⟨site, [], [], false⟩

def manager (j : Journal) : Manager := j.site.manager

def record (j : Journal) (net : Network) : Dispatcher.Action → List FetchRecord
  | .take =>
    match j.site.dispatcher.queue with
    | (n, .fetch r) :: _ => .begin (some n) net r :: j.events
    | _ => j.events
  | .fetch n => j.events.map fun f => if f.ticket = some n then (f.advance j.manager).1 else f
  | _ => j.events

def reported (d : Dispatcher Manager) : Bool :=
  d.replies.any fun
    | (_, .installed (.ok ())) => true
    | _ => false

/-- Whatever may happen next, each install and each fetch with a network of its own. A request to the
HTTP front that is not about the cache itself is a fetch event that is sent to the dispatcher. -/
inductive Step [Idna] : Journal → Journal → Prop
  | beginInstall (j : Journal) (net : Network) :
    Step j { j with installs := installTask net :: j.installs }
  | install (j : Journal) {before after : List (Task Manager (Except InstallError Unit))}
    {t : Task Manager (Except InstallError Unit)} (ht : j.installs = before ++ t :: after) :
    Step j { j with
      site := j.site.withManager (t.advance j.manager).2
      installs := before ++ (t.advance j.manager).1 :: after }
  | beginFetch (j : Journal) (net : Network) (r : Request) :
    Step j { j with events := .begin none net r :: j.events }
  | fetch (j : Journal) {before after : List FetchRecord} {f : FetchRecord}
    (he : j.events = before ++ f :: after) (hf : f.ticket = none) :
    Step j { j with
      site := j.site.withManager (f.advance j.manager).2
      events := before ++ (f.advance j.manager).1 :: after }
  | activate (j : Journal) : Step j { j with site := j.site.withManager j.manager.activate.2 }
  | dispatch (j : Journal) {net : Network} {a : Dispatcher.Action} {d : Dispatcher Manager}
    (hd : j.site.dispatcher.step (Manager.worker net) a = some d) :
    Step j { j with
      site := { j.site with dispatcher := d }
      events := j.record net a
      installed := j.installed || reported d }
  | settle (j : Journal) :
    Step j { j with site := { j.site with dispatcher := j.site.dispatcher.settled } }
  | health (j : Journal) (time : String) : Step j { j with site := (j.site.health time).2 }

def Reaches [Idna] : Journal → Journal → Prop := Relation.ReflTransGen Step

/-- The fetch events that the dispatcher looks after are those on record that it has begun and that
have not ended. -/
structure Matches (d : Dispatcher Manager) (events : List FetchRecord) : Prop where
  fetching : ∀ p ∈ d.fetching, ∃ f ∈ events, f.ticket = some p.1 ∧ f.task = p.2
  delivered : ∀ f ∈ events, ∀ n, f.ticket = some n → f.ended = true ∨ (n, f.task) ∈ d.fetching
  once : (events.filterMap (·.ticket)).Nodup
  given : ∀ f ∈ events, ∀ n, f.ticket = some n → n < d.sent ∧ n ∉ d.queue.map (·.1)

structure Inv [Idna] (j : Journal) : Prop where
  sound : j.manager.store.Sound
  accounts : j.manager.accounts = .total j.events
  proper : ∀ f ∈ j.events, f.Proper
  installs : ∀ t ∈ j.installs, t.Follows Evolves Aside Tells j.manager
  installing : ∀ p, j.site.dispatcher.installing = some p →
    p.2.Follows Evolves Aside Tells j.manager
  installed : j.installed = true → j.manager.Gauged
  reported : reported j.site.dispatcher = true → j.manager.Gauged
  shaped : j.site.dispatcher.Shaped
  sent : Matches j.site.dispatcher j.events

variable {j j' : Journal} {m : Manager} {d d' : Dispatcher Manager} {net : Network} {n : Nat}
  {f : FetchRecord} {events before after : List FetchRecord}

namespace Matches

theorem ticket_ne (h : Matches d (before ++ f :: after)) (hf : f.ticket = some n)
    {g : FetchRecord} (hg : g ∈ before ++ after) : g.ticket ≠ some n := by
  have honce := h.once
  rw [(List.perm_middle.filterMap _).nodup_iff, List.filterMap_cons, hf] at honce
  exact fun heq => (List.nodup_cons.mp honce).1 (List.mem_filterMap.mpr ⟨g, hg, heq⟩)

theorem map_record (h : Matches d (before ++ f :: after)) (hf : f.ticket = some n)
    (g : FetchRecord → FetchRecord) :
    (before ++ f :: after).map (fun f => if f.ticket = some n then g f else f) =
      before ++ g f :: after := by
  have hsame : ∀ {l : List FetchRecord}, (∀ f' ∈ l, f' ∈ before ++ after) →
      l.map (fun f => if f.ticket = some n then g f else f) = l := by
    intro l hl
    refine (List.map_congr_left fun f' hf' => ?_).trans (List.map_id' l)
    exact if_neg (h.ticket_ne hf (hl f' hf'))
  rw [List.map_append, List.map_cons, if_pos hf, hsame fun _ => List.mem_append_left _,
    hsame fun _ => List.mem_append_right _]

theorem begin (capacity : Nat) (m : Manager) : Matches (.begin capacity m) [] where
  fetching _ h := nomatch h
  delivered _ h := nomatch h
  once := List.nodup_nil
  given _ h := nomatch h

theorem of_queue (h : Matches d events) (hfetching : d'.fetching = d.fetching)
    (hsent : d.sent ≤ d'.sent)
    (hqueue : ∀ n ∈ d'.queue.map (·.1), n ∈ d.queue.map (·.1) ∨ d.sent ≤ n) : Matches d' events where
  fetching := hfetching ▸ h.fetching
  delivered := hfetching ▸ h.delivered
  once := h.once
  given f hf n hn := by
    obtain ⟨hlt, hnot⟩ := h.given f hf n hn
    refine ⟨Nat.lt_of_lt_of_le hlt hsent, fun hmem => ?_⟩
    obtain hold | hnew := hqueue n hmem
    · exact hnot hold
    · omega

theorem beginDirect (h : Matches d events) (net : Network) (r : Request) :
    Matches d (.begin none net r :: events) where
  fetching p hp := by
    obtain ⟨f, hf, heq⟩ := h.fetching p hp
    exact ⟨f, List.mem_cons_of_mem _ hf, heq⟩
  delivered f hf n hn := by
    obtain rfl | hf := List.mem_cons.mp hf
    · cases hn
    · exact h.delivered f hf n hn
  once := h.once
  given f hf n hn := by
    obtain rfl | hf := List.mem_cons.mp hf
    · cases hn
    · exact h.given f hf n hn

theorem advanceDirect (h : Matches d (before ++ f :: after)) (f' : FetchRecord)
    (hf : f.ticket = none) (hf' : f'.ticket = none) : Matches d (before ++ f' :: after) := by
  have hrest : ∀ g ∈ before ++ after, g ∈ before ++ f :: after := fun g hg =>
    List.perm_middle.mem_iff.mpr (List.mem_cons_of_mem f hg)
  refine ⟨fun p hp => ?_, fun g hg n hn => ?_, ?_, fun g hg n hn => ?_⟩
  · obtain ⟨g, hg, hticket, htask⟩ := h.fetching p hp
    obtain rfl | hg := List.mem_cons.mp (List.perm_middle.mem_iff.mp hg)
    · cases hf.symm.trans hticket
    · exact ⟨g, List.perm_middle.mem_iff.mpr (List.mem_cons_of_mem f' hg), hticket, htask⟩
  · obtain rfl | hg := List.mem_cons.mp (List.perm_middle.mem_iff.mp hg)
    · cases hf'.symm.trans hn
    · exact h.delivered g (hrest g hg) n hn
  · have honce := h.once
    rw [List.filterMap_append, List.filterMap_cons, hf] at honce
    rw [List.filterMap_append, List.filterMap_cons, hf']
    exact honce
  · obtain rfl | hg := List.mem_cons.mp (List.perm_middle.mem_iff.mp hg)
    · cases hf'.symm.trans hn
    · exact h.given g (hrest g hg) n hn

theorem take {r : Request} {queue : List (Nat × Event)} (h : Matches d events) (hd : d.Shaped)
    (hq : d.queue = (n, .fetch r) :: queue) (net : Network) :
    Matches { d with queue, fetching := d.fetching ++ [(n, fetchTask net r)] }
      (.begin (some n) net r :: events) where
  fetching p hp := by
    obtain hp | hp := List.mem_append.mp hp
    · obtain ⟨f, hf, heq⟩ := h.fetching p hp
      exact ⟨f, List.mem_cons_of_mem _ hf, heq⟩
    · cases List.mem_singleton.mp hp
      exact ⟨_, List.mem_cons_self, rfl, rfl⟩
  delivered f hf k hk := by
    obtain rfl | hf := List.mem_cons.mp hf
    · cases hk
      exact .inr (List.mem_append_right _ List.mem_cons_self)
    · exact (h.delivered f hf k hk).imp id (List.mem_append_left _)
  once := by
    refine List.nodup_cons.mpr ⟨fun hmem => ?_, h.once⟩
    obtain ⟨f, hf, hn⟩ := List.mem_filterMap.mp hmem
    refine (h.given f hf n hn).2 ?_
    rw [hq]
    exact List.mem_cons_self
  given f hf k hk := by
    have hold := fun hf => h.given f hf k hk
    have hnew := hd.once.of_append_right
    have hgiven := hd.given n (List.mem_append_right _ (hq ▸ List.mem_cons_self))
    rw [hq, List.map_cons] at hold hnew
    obtain rfl | hf := List.mem_cons.mp hf
    · cases hk
      exact ⟨hgiven, (List.nodup_cons.mp hnew).1⟩
    · obtain ⟨hlt, hnot⟩ := hold hf
      exact ⟨hlt, fun hmem => hnot (List.mem_cons_of_mem _ hmem)⟩

theorem mem_afterFetch {rest : Task Manager (Except CacheError Response)}
    {p : Nat × Task Manager (Except CacheError Response)} (hn : n ∈ d.fetching.map (·.1)) :
    p ∈ (d.afterFetch n rest).fetching ↔
      (p ∈ d.fetching ∧ p.1 ≠ n) ∨ (p = (n, rest) ∧ rest.result? = none) := by
  have hmap : p ∈ (d.fetching.map fun f => if f.1 = n then (n, rest) else f) ↔
      (p ∈ d.fetching ∧ p.1 ≠ n) ∨ p = (n, rest) := by
    rw [List.mem_map]
    constructor
    · rintro ⟨q, hq, rfl⟩
      by_cases hqn : q.1 = n
      · exact .inr (if_pos hqn)
      · rw [if_neg hqn]
        exact .inl ⟨hq, hqn⟩
    · rintro (⟨hp, hpn⟩ | rfl)
      · exact ⟨p, hp, if_neg hpn⟩
      · obtain ⟨q, hq, hqn⟩ := List.mem_map.mp hn
        exact ⟨q, hq, if_pos hqn⟩
  cases rest with
  | done | crash => simp [Dispatcher.afterFetch, Dispatcher.reply, Task.result?]
  | wait | act => exact hmap.trans (or_congr_right (and_iff_left rfl).symm)

theorem fetch {t : Task Manager (Except CacheError Response)} (h : Matches d (before ++ f :: after))
    (f' : FetchRecord) (ht : (n, t) ∈ d.fetching) (hf : f.ticket = some n) (hf' : f'.ticket = some n) :
    Matches (d.afterFetch n f'.task) (before ++ f' :: after) := by
  have hn := List.mem_map_of_mem (f := (·.1)) ht
  have hrest : ∀ g ∈ before ++ after, g ∈ before ++ f :: after := fun g hg =>
    List.perm_middle.mem_iff.mpr (List.mem_cons_of_mem f hg)
  obtain ⟨hqueue, -, -, hsent, -⟩ := Dispatcher.afterFetch_queue d n f'.task
  refine ⟨fun p hp => ?_, fun g hg k hk => ?_, ?_, fun g hg k hk => ?_⟩
  · obtain ⟨hp, hpn⟩ | ⟨rfl, -⟩ := (mem_afterFetch hn).mp hp
    · obtain ⟨g, hg, hticket, htask⟩ := h.fetching p hp
      obtain rfl | hg := List.mem_cons.mp (List.perm_middle.mem_iff.mp hg)
      · cases hf.symm.trans hticket
        exact absurd rfl hpn
      · exact ⟨g, List.perm_middle.mem_iff.mpr (List.mem_cons_of_mem f' hg), hticket, htask⟩
    · exact ⟨f', List.perm_middle.mem_iff.mpr List.mem_cons_self, hf', rfl⟩
  · obtain rfl | hg := List.mem_cons.mp (List.perm_middle.mem_iff.mp hg)
    · cases hf'.symm.trans hk
      cases hended : g.task.result? with
      | some result =>
        refine .inl ?_
        rw [FetchRecord.ended, hended]
        rfl
      | none => exact .inr ((mem_afterFetch hn).mpr (.inr ⟨rfl, hended⟩))
    · refine (h.delivered g (hrest g hg) k hk).imp id fun hmem => ?_
      refine (mem_afterFetch hn).mpr (.inl ⟨hmem, fun hkn => ?_⟩)
      exact h.ticket_ne hf hg (hk.trans (congrArg some hkn))
  · have honce := h.once
    rw [List.filterMap_append, List.filterMap_cons, hf] at honce
    rw [List.filterMap_append, List.filterMap_cons, hf']
    exact honce
  · rw [hqueue, hsent]
    obtain rfl | hg := List.mem_cons.mp (List.perm_middle.mem_iff.mp hg)
    · cases hf'.symm.trans hk
      exact h.given f (List.perm_middle.mem_iff.mpr List.mem_cons_self) n hf
    · exact h.given g (hrest g hg) k hk

end Matches

namespace Inv

theorem begin [Idna] (origin : Url) (capacity : Nat) (name : String) (manifest : Manifest)
    (base : Url)
    {store : Store} (hs : store.Sound) :
    Inv (begin ⟨origin, .begin capacity (.begin name manifest base store)⟩) where
  sound := hs
  accounts := rfl
  proper _ h := nomatch h
  installs _ h := nomatch h
  installing _ h := nomatch h
  installed h := nomatch h
  reported h := nomatch h
  shaped := .begin capacity _
  sent := .begin capacity _

theorem update [Idna] (h : Inv j) (hm : j'.manager = m) (he : j.manager.Evolves m)
    (haccounts : m.accounts = .total j'.events)
    (hproper : ∀ f ∈ j'.events, f ∈ j.events ∨ f.Proper)
    (hinstalls : ∀ t ∈ j'.installs, t ∈ j.installs ∨ t.Follows Evolves Aside Tells m)
    (hinstalling : ∀ p, j'.site.dispatcher.installing = some p →
      j.site.dispatcher.installing = some p ∨ p.2.Follows Evolves Aside Tells m)
    (hinstalled : j'.installed = true → j.installed = true ∨
      Journal.reported j'.site.dispatcher = true)
    (hreported : Journal.reported j'.site.dispatcher = true →
      Journal.reported j.site.dispatcher = true ∨ m.Gauged)
    (hshaped : j'.site.dispatcher.Shaped) (hsent : Matches j'.site.dispatcher j'.events) :
    Inv j' := by
  subst hm
  obtain ⟨hext, hgauged⟩ := he h.sound
  have htrans : ∀ m m' m'' : Manager, m.Evolves m' → m'.Evolves m'' → m.Evolves m'' :=
    fun _ _ _ => .trans
  have hrep : Journal.reported j'.site.dispatcher = true → j'.manager.Gauged := fun hr =>
    (hreported hr).elim (fun hr => hgauged (h.reported hr)) id
  exact
    { sound := hext.sound h.sound
      accounts := haccounts
      proper f hf := (hproper f hf).elim (h.proper f) id
      installs t ht := (hinstalls t ht).elim (fun ht => (h.installs t ht).others htrans he) id
      installing p hp := (hinstalling p hp).elim
        (fun hp => (h.installing p hp).others htrans he) id
      installed hi := (hinstalled hi).elim (fun hi => hgauged (h.installed hi)) hrep
      reported := hrep
      shaped := hshaped
      sent := hsent }

theorem aside [Idna] (h : Inv j) (ha : j.manager.Aside m) :
    Inv { j with site := j.site.withManager m } :=
  h.update rfl ha.evolves (ha.accounts.trans h.accounts) (fun _ => .inl) (fun _ => .inl)
    (fun _ => .inl) .inl .inl { h.shaped with } { h.sent with }

theorem install [Idna] (h : Inv j) {before after : List (Task Manager (Except InstallError Unit))}
    {t : Task Manager (Except InstallError Unit)} (ht : j.installs = before ++ t :: after) :
    Inv { j with
      site := j.site.withManager (t.advance j.manager).2
      installs := before ++ (t.advance j.manager).1 :: after } := by
  have hmem : t ∈ j.installs := ht ▸ List.mem_append_right _ List.mem_cons_self
  obtain ⟨haside, hnext⟩ := (h.installs t hmem).advance (.refl _) (.refl _)
  refine (h.aside haside).update rfl (.refl _) (h.aside haside).accounts (fun _ => .inl)
    (fun t' ht' => ?_) (fun _ => .inl) .inl .inl { h.shaped with } { h.sent with }
  obtain rfl | ht' := List.mem_cons.mp (List.perm_middle.mem_iff.mp ht')
  · exact .inr hnext
  · refine .inl ?_
    change t' ∈ j.installs
    rw [ht]
    exact List.perm_middle.mem_iff.mpr (List.mem_cons_of_mem t ht')

theorem advance [Idna] (h : Inv j) (he : j.events = before ++ f :: after) {site : Site}
    {installed : Bool}
    (hm : site.manager = (f.advance j.manager).2)
    (hinstalling : site.dispatcher.installing = j.site.dispatcher.installing)
    (hinstalled : installed = true → j.installed = true ∨ Journal.reported site.dispatcher = true)
    (hreported : Journal.reported site.dispatcher = true →
      Journal.reported j.site.dispatcher = true)
    (hshaped : site.dispatcher.Shaped)
    (hsent : Matches site.dispatcher (before ++ (f.advance j.manager).1 :: after)) :
    Inv { j with site, events := before ++ (f.advance j.manager).1 :: after, installed } := by
  have hmem : ∀ g, g ∈ f :: (before ++ after) → g ∈ j.events := fun g hg =>
    he ▸ List.perm_middle.mem_iff.mpr hg
  obtain ⟨net, r, hstage⟩ := h.proper f (hmem f List.mem_cons_self)
  obtain ⟨hstage', hstep, hstill⟩ := hstage.advance j.manager
  refine h.update hm hstill.evolves (Accounts.total_replace hstep (he ▸ h.accounts))
    (fun g hg => ?_) (fun _ => .inl) (fun p hp => .inl (hinstalling ▸ hp)) hinstalled
    (fun hr => .inl (hreported hr)) hshaped hsent
  obtain rfl | hg := List.mem_cons.mp (List.perm_middle.mem_iff.mp hg)
  · exact .inr ⟨net, r, hstage'⟩
  · exact .inl (hmem g (List.mem_cons_of_mem f hg))

theorem fetch [Idna] (h : Inv j) (he : j.events = before ++ f :: after) (hf : f.ticket = none) :
    Inv { j with
      site := j.site.withManager (f.advance j.manager).2
      events := before ++ (f.advance j.manager).1 :: after } := by
  refine h.advance he rfl rfl .inl id { h.shaped with } ?_
  have hsent := h.sent
  rw [he] at hsent
  exact { hsent.advanceDirect (f.advance j.manager).1 hf hf with }

end Inv

theorem reported_iff : reported d = true ↔ ∃ n, (n, .installed (.ok ())) ∈ d.replies := by
  rw [reported, List.any_eq_true]
  constructor
  · rintro ⟨⟨n, r⟩, hmem, hr⟩
    split at hr
    · next heq =>
      cases heq
      exact ⟨_, hmem⟩
    · cases hr
  · rintro ⟨n, hmem⟩
    exact ⟨_, hmem, rfl⟩

namespace Inv

theorem take [Idna] (h : Inv j) (hd : j.site.dispatcher.step (Manager.worker net) .take = some d)
    {installed : Bool} (hinstalled : installed = true → j.installed = true ∨
      Journal.reported d = true) :
    Inv { j with
      site := { j.site with dispatcher := d }, events := j.record net .take, installed } := by
  have hshaped : d.Shaped := h.shaped.move (Dispatcher.move_of_step hd)
  obtain ⟨-, hi, rfl, n, e, queue, hq⟩ := Dispatcher.step_take_queue hd
  have hlater : ∀ k ∈ queue.map (·.1), k ∈ j.site.dispatcher.queue.map (·.1) := fun k hk => by
    rw [hq]
    exact List.mem_cons_of_mem _ hk
  rw [Dispatcher.take.eq_def, hq] at hinstalled hshaped ⊢
  cases e with
  | install =>
    have hrecord : j.record net .take = j.events := by rw [record, hq]
    rw [hrecord]
    refine h.update rfl (.refl _) h.accounts (fun _ => .inl) (fun _ => .inl) (fun p hp => ?_)
      hinstalled .inl hshaped (h.sent.of_queue rfl (Nat.le_refl _) fun k hk => .inl (hlater k hk))
    cases hp
    exact .inr (worker_tells net h.sound)
  | fetch r =>
    have hrecord : j.record net .take = .begin (some n) net r :: j.events := by rw [record, hq]
    rw [hrecord]
    refine h.update rfl (.refl _) (h.accounts.trans (Accounts.total_begin _ _ _ _).symm)
      (fun f hf => ?_) (fun _ => .inl) (fun _ => .inl) hinstalled .inl hshaped
      (h.sent.take h.shaped hq net)
    obtain rfl | hf := List.mem_cons.mp hf
    · exact .inr (FetchRecord.proper_begin (some n) net r)
    · exact .inl hf

theorem workInstall [Idna] (h : Inv j)
    (hd : j.site.dispatcher.step (Manager.worker net) .install = some d)
    {installed : Bool} (hinstalled : installed = true → j.installed = true ∨
      Journal.reported d = true) :
    Inv { j with site := { j.site with dispatcher := d }, installed } := by
  have hshaped : d.Shaped := h.shaped.move (Dispatcher.move_of_step hd)
  obtain ⟨n, t, ht, rfl⟩ := Dispatcher.step_install hd
  obtain ⟨haside, hnext⟩ := (h.installing _ ht).advance (.refl _) (.refl _)
  obtain ⟨hshared, hfetching, hinstalling, hreplies⟩ := Dispatcher.afterInstall_spec
    { j.site.dispatcher with shared := (t.advance j.manager).2 } n (t.advance j.manager).1
  obtain ⟨hqueue, -, hsent, -⟩ := Dispatcher.afterInstall_queue
    { j.site.dispatcher with shared := (t.advance j.manager).2 } n (t.advance j.manager).1
  have hlater : ∀ k ∈ (Dispatcher.afterInstall
      { j.site.dispatcher with shared := (t.advance j.manager).2 } n
      (t.advance j.manager).1).queue.map (·.1), k ∈ j.site.dispatcher.queue.map (·.1) := by
    intro k hk
    obtain ⟨hqueue, -⟩ | ⟨hqueue, -⟩ := hqueue
    · rw [hqueue] at hk
      cases hk
    · exact hqueue ▸ hk
  refine h.update hshared haside.evolves (haside.accounts.trans h.accounts) (fun _ => .inl)
    (fun _ => .inl) (fun p hp => ?_) hinstalled (fun hr => ?_) hshaped
    (h.sent.of_queue hfetching hsent.ge fun k hk => .inl (hlater k hk))
  · cases hinstalling p hp
    exact .inr hnext
  · obtain ⟨k, hk⟩ := reported_iff.mp hr
    refine (hreplies k _ hk).imp (fun hold => reported_iff.mpr ⟨k, hold⟩) fun hdone => ?_
    rw [hdone] at hnext
    exact (hnext _ (.refl _)).2 rfl

theorem workFetch [Idna] (h : Inv j)
    (hd : j.site.dispatcher.step (Manager.worker net) (.fetch n) = some d) {installed : Bool}
    (hinstalled : installed = true → j.installed = true ∨ Journal.reported d = true) :
    Inv { j with
      site := { j.site with dispatcher := d }, events := j.record net (.fetch n), installed } := by
  have hshaped : d.Shaped := h.shaped.move (Dispatcher.move_of_step hd)
  obtain ⟨t, ht, rfl⟩ := Dispatcher.step_fetch hd
  obtain ⟨f, hf, hticket, rfl⟩ := h.sent.fetching _ ht
  obtain ⟨before, after, he⟩ := List.append_of_mem hf
  obtain ⟨hshared, hinstalling, -, hreplies⟩ := Dispatcher.afterFetch_spec
    { j.site.dispatcher with shared := (f.task.advance j.manager).2 } n
    (f.task.advance j.manager).1
  have hsent := h.sent
  rw [he] at hsent
  have hrecord : j.record net (.fetch n) = before ++ (f.advance j.manager).1 :: after := by
    rw [record, he]
    exact hsent.map_record hticket _
  rw [hrecord]
  refine h.advance he hshared hinstalling hinstalled (fun hr => ?_) hshaped ?_
  · obtain ⟨k, hk⟩ := reported_iff.mp hr
    exact reported_iff.mpr ⟨k, hreplies k _ hk⟩
  · have hshared : Matches { j.site.dispatcher with shared := (f.task.advance j.manager).2 }
        (before ++ f :: after) := { hsent with }
    exact hshared.fetch (f.advance j.manager).1 ht hticket hticket

theorem dispatch [Idna] (h : Inv j) {a : Dispatcher.Action}
    (hd : j.site.dispatcher.step (Manager.worker net) a = some d) :
    Inv { j with
      site := { j.site with dispatcher := d }
      events := j.record net a
      installed := j.installed || Journal.reported d } := by
  have hinstalled : (j.installed || Journal.reported d) = true →
      j.installed = true ∨ Journal.reported d = true := (Bool.or_eq_true _ _).mp
  cases a with
  | send e =>
    have hshaped : d.Shaped := h.shaped.move (Dispatcher.move_of_step hd)
    cases Dispatcher.step_send hd
    refine h.update rfl (.refl _) h.accounts (fun _ => .inl) (fun _ => .inl) (fun _ => .inl)
      hinstalled .inl hshaped (h.sent.of_queue rfl (Nat.le_succ _) fun n hn => ?_)
    rw [Dispatcher.enqueue, List.map_append] at hn
    exact (List.mem_append.mp hn).imp id fun hn => (List.mem_singleton.mp hn).ge
  | take => exact h.take hd hinstalled
  | install => exact h.workInstall hd hinstalled
  | fetch n => exact h.workFetch hd hinstalled

theorem beginFetch [Idna] (h : Inv j) (net : Network) (r : Request) :
    Inv { j with events := .begin none net r :: j.events } := by
  refine h.update rfl (.refl _) (h.accounts.trans (Accounts.total_begin _ _ _ _).symm)
    (fun f hf => ?_) (fun _ => .inl) (fun _ => .inl) .inl .inl h.shaped (h.sent.beginDirect net r)
  obtain rfl | hf := List.mem_cons.mp hf
  · exact .inr (FetchRecord.proper_begin none net r)
  · exact .inl hf

theorem step [Idna] (h : Inv j) (hs : Step j j') : Inv j' := by
  cases hs with
  | beginInstall net =>
    refine h.update rfl (.refl _) h.accounts (fun _ => .inl) (fun t ht => ?_) (fun _ => .inl) .inl
      .inl h.shaped h.sent
    obtain rfl | ht := List.mem_cons.mp ht
    · exact .inr (installTask_tells net h.sound)
    · exact .inl ht
  | install ht => exact h.install ht
  | beginFetch net r => exact h.beginFetch net r
  | fetch he hf => exact h.fetch he hf
  | activate => exact h.aside (aside_activate _)
  | dispatch hd => exact h.dispatch hd
  | settle =>
    exact h.update rfl (.refl _) h.accounts (fun _ => .inl) (fun _ => .inl) (fun _ => .inl) .inl
      (fun hr => (nomatch hr)) { h.shaped with } { h.sent with }
  | health time =>
    rw [Site.health_site]
    exact h.aside (aside_bucket _)

theorem reaches [Idna] (h : Inv j) (hs : j.Reaches j') : Inv j' := by
  induction hs with
  | refl => exact h
  | tail _ hs ih => exact ih.step hs

end Inv

theorem reaches_endInstall [Idna] {t : Task Manager (Except InstallError Unit)}
    {rest : List (Task Manager (Except InstallError Unit))} (ht : j.installs = t :: rest) :
    j.Reaches { j with
      site := j.site.withManager (t.run j.manager).2
      installs := .ended (t.run j.manager).1 :: rest } := by
  induction t generalizing j with
  | done result =>
    obtain ⟨site, installs, events, installed⟩ := j
    cases ht
    exact .refl
  | crash =>
    obtain ⟨site, installs, events, installed⟩ := j
    cases ht
    exact .refl
  | wait next ih => exact .head (@Step.install _ j [] rest _ ht) (ih rfl)
  | act step next ih => exact .head (@Step.install _ j [] rest _ ht) (ih _ rfl)

/-- To install at once is one of the runs. -/
theorem reaches_install [Idna] (j : Journal) (net : Network) : j.Reaches { j with
    site := j.site.withManager (Manager.install net j.manager).2
    installs := .ended (Manager.install net j.manager).1 :: j.installs } :=
  .head (.beginInstall j net) (reaches_endInstall rfl)

theorem reaches_endFetch [Idna] {rest : List FetchRecord} (he : j.events = f :: rest)
    (hf : f.ticket = none) : ∃ f', f'.ticket = none ∧
      f'.task = .ended (f.task.run j.manager).1 ∧ j.Reaches { j with
        site := j.site.withManager (f.task.run j.manager).2, events := f' :: rest } := by
  obtain ⟨ticket, task, opened, calls⟩ := f
  cases hf
  induction task generalizing j opened calls with
  | done result =>
    obtain ⟨site, installs, events, installed⟩ := j
    cases he
    exact ⟨_, rfl, rfl, .refl⟩
  | crash =>
    obtain ⟨site, installs, events, installed⟩ := j
    cases he
    exact ⟨_, rfl, rfl, .refl⟩
  | wait next ih =>
    obtain ⟨f', hticket, htask, hreach⟩ := ih (j := { j with
      events := (FetchRecord.advance ⟨none, .wait next, opened, calls⟩ j.manager).1 :: rest }) _ _ rfl
    exact ⟨f', hticket, htask, .head (@Step.fetch _ j [] rest _ he rfl) hreach⟩
  | act step next ih =>
    obtain ⟨f', hticket, htask, hreach⟩ := ih _ (j := { j with
      site := j.site.withManager (step j.manager).2
      events := (FetchRecord.advance ⟨none, .act step next, opened, calls⟩ j.manager).1 :: rest })
      _ _ rfl
    exact ⟨f', hticket, htask, .head (@Step.fetch _ j [] rest _ he rfl) hreach⟩

theorem reaches_fetch [Idna] (j : Journal) (net : Network) (r : Request) : ∃ f, f.ticket = none ∧
    f.task = .ended (Manager.fetch net r j.manager).1 ∧ j.Reaches { j with
      site := j.site.withManager (Manager.fetch net r j.manager).2, events := f :: j.events } := by
  obtain ⟨f, hticket, htask, hreach⟩ := reaches_endFetch
    (j := { j with events := .begin none net r :: j.events }) rfl rfl
  exact ⟨f, hticket, htask, .head (.beginFetch j net r) hreach⟩

theorem reaches_run [Idna] {l : Trace Manager}
    (hr : Dispatcher.Run (Manager.worker net) j.site.dispatcher l d) :
    ∃ j', j.Reaches j' ∧ j'.site = { j.site with dispatcher := d } := by
  generalize hd : j.site.dispatcher = d₀ at hr
  induction hr with
  | refl =>
    subst hd
    exact ⟨j, .refl, rfl⟩
  | @step d₁ d₂ l _ a hs ih =>
    obtain ⟨j₁, hreach, hsite⟩ := ih
    have hstep : j₁.site.dispatcher.step (Manager.worker net) a = some d₂ := by
      rw [hsite]
      exact hs
    refine ⟨_, hreach.tail (.dispatch j₁ hstep), ?_⟩
    dsimp only
    rw [hsite]
  | settle _ ih =>
    obtain ⟨j₁, hreach, hsite⟩ := ih
    refine ⟨_, hreach.tail (.settle j₁), ?_⟩
    dsimp only
    rw [hsite]

end Journal

/-- What is kept of fetch events, when all of them have ended. -/
structure Manager.Balanced (m : Manager) (events : List FetchRecord) : Prop where
  /-- Each that could open its bucket was a hit or a miss. -/
  lookups : m.stats.hits + m.stats.misses = events.countP fun f => f.opened == some true
  networkErrors : m.stats.networkErrors ≤ m.stats.misses
  hits : m.metrics.hits = m.stats.hits
  cacheTimes : m.metrics.cacheTimes.count = m.stats.hits
  /-- A miss whose call crashed is missing from the metrics. -/
  misses : m.metrics.misses + events.countP (·.crashed) = m.stats.misses
  fetches : m.metrics.fetchCount "fallback" true + m.metrics.fetchCount "fallback" false =
    m.metrics.misses
  networkTimes : m.metrics.networkTimes.count = m.metrics.misses
  failed : m.metrics.fetchCount "fallback" false = m.stats.networkErrors
  calls : (events.map (·.calls)).sum = m.stats.misses

theorem Manager.balanced_of_total {m : Manager} {events : List FetchRecord}
    (ha : m.accounts = .total events) (hp : ∀ f ∈ events, f.Proper)
    (he : ∀ f ∈ events, f.ended = true) : m.Balanced events := by
  obtain ⟨hhits, hcacheTimes, hmisses, hnetworkTimes, hfailed, hle, hcalls⟩ :=
    Accounts.total_agrees events
  obtain ⟨hlookups, hanswered⟩ := Accounts.total_ended hp he
  rw [← ha] at hhits hcacheTimes hmisses hnetworkTimes hfailed hle hcalls hlookups hanswered
  exact ⟨hlookups, hle, hhits, hcacheTimes, (congrArg (· + _) hmisses).trans hanswered, hmisses.symm,
    hnetworkTimes.trans hmisses.symm, hfailed, hcalls.symm⟩

namespace Journal

structure Resting (j : Journal) : Prop where
  direct : ∀ f ∈ j.events, f.ticket = none → f.ended = true
  sent : j.site.dispatcher.fetching = []

/-- An install has succeeded, be it that the manager was asked for it or the dispatcher. -/
def HasInstalled (j : Journal) : Prop :=
  (∃ t ∈ j.installs, t.result? = some (some (.ok ()))) ∨ j.installed = true

theorem Inv.ended [Idna] (h : Inv j) (hr : j.Resting) : ∀ f ∈ j.events, f.ended = true := by
  intro f hf
  cases hticket : f.ticket with
  | none => exact hr.direct f hf hticket
  | some n =>
    obtain hended | hmem := h.sent.delivered f hf n hticket
    · exact hended
    · rw [hr.sent] at hmem
      cases hmem

theorem Inv.gauged [Idna] (h : Inv j) (hi : j.HasInstalled) : j.manager.Gauged := by
  obtain ⟨t, ht, hresult⟩ | hinstalled := hi
  · cases Task.eq_ended_of_result? hresult
    exact (h.installs _ ht _ (.refl _)).2 rfl
  · exact h.installed hinstalled

/-- The statistics and the metrics agree with each other and with the fetch events there were,
whenever no fetch is in progress; the size that is told of the bucket is right once an install has
succeeded, and no other install changes it. What the HTTP front does is one of the runs. -/
theorem accounts_balance [Idna] (origin base : Url) (capacity : Nat) (name : String)
    (manifest : Manifest)
    {store : Store} (hs : store.Sound) {j : Journal}
    (hj : (begin ⟨origin, .begin capacity (.begin name manifest base store)⟩).Reaches j) :
    (j.Resting → j.manager.Balanced j.events) ∧
      (j.HasInstalled → ∃ h, j.manager.store.registry.lookup j.manager.name = some h ∧
        j.manager.metrics.size? j.manager.name = some (j.manager.entries h).size ∧
        ∀ net requests, Manifest.resolve j.manager.origin j.manager.manifest = .ok requests →
          ((j.manager.entries h).insertAll (harvest net requests)).size =
            (j.manager.entries h).size) ∧
      ∀ net r c, ∃ j', j.Reaches j' ∧ j'.site = (j.site.answer (worker net) r c).2 := by
  have hinv := (Inv.begin origin capacity name manifest base hs).reaches hj
  refine ⟨fun hr => balanced_of_total hinv.accounts hinv.proper (hinv.ended hr), fun hi => ?_,
    fun net r c => ?_⟩
  · have hgauged := hinv.gauged hi
    obtain ⟨-, h, -, hh, hsize, -⟩ := id hgauged
    exact ⟨h, hh, hsize, fun net requests hr => hgauged.size_harvest net hr hh⟩
  · obtain ⟨-, hself | hhealth⟩ | ⟨-, hself⟩ | ⟨-, q, -, -, -, hfetch⟩ :=
      Site.answer_cases (worker net) j.site r c
    · exact ⟨j, .refl, hself.symm⟩
    · exact ⟨_, .single (.health j c.time), hhealth.symm⟩
    · exact ⟨j, .refl, hself.symm⟩
    · obtain ⟨l, hrun⟩ := Dispatcher.run_call hinv.shaped (.fetch q)
      rw [hfetch, Dispatcher.fetch_eq_call]
      exact reaches_run hrun

open scoped Idna

/-- After an install, a fetch event that is a hit and one whose call to the network crashes. -/
theorem balance_after_crash :
    let origin : Url := ⟨"http".toList, some ⟨[], "a".toList, none⟩, .segments [[]], none, none⟩
    let m := Manager.begin "assets" ["page"] origin (.begin none .empty)
    ∃ j, (begin ⟨origin, .begin 1 m⟩).Reaches j ∧ j.Resting ∧ j.HasInstalled ∧
      j.manager.stats = ⟨1, 1, 0⟩ ∧ j.manager.Balanced j.events := by
  intro origin m
  let page : Url := { origin with path := .segments ["page".toList] }
  let granting : Network := fun _ => ⟨0, .response ⟨200, [], .empty⟩⟩
  let crashing : Network := fun _ => ⟨0, .crash⟩
  obtain ⟨j₁, hreach₁, hmanager₁, hinstalls₁, hevents₁, hfetching₁⟩ :
      ∃ j, (begin ⟨origin, .begin 1 m⟩).Reaches j ∧
        j.manager = (Manager.install granting m).2 ∧
        j.installs = [.ended (Manager.install granting m).1] ∧ j.events = [] ∧
        j.site.dispatcher.fetching = [] :=
    ⟨_, reaches_install (begin ⟨origin, .begin 1 m⟩) granting, rfl, rfl, rfl, rfl⟩
  obtain ⟨f₁, -, htask₁, hreach₂⟩ := reaches_fetch j₁ crashing (.get page)
  obtain ⟨f₂, -, htask₂, hreach₃⟩ := reaches_fetch _ crashing (.get origin)
  have hj := (hreach₁.trans hreach₂).trans hreach₃
  obtain ⟨hbalanced, -⟩ := accounts_balance origin origin 1 "assets" ["page"]
    (Store.sound_begin none Disk.isTree_empty) hj
  have hok : (Manager.install granting m).1 = some (.ok ()) := by decide +kernel
  have hstats : (Manager.fetch crashing (.get origin) (Manager.fetch crashing (.get page)
      (Manager.install granting m).2).2).2.stats = ⟨1, 1, 0⟩ := by decide +kernel
  rw [← hmanager₁] at hstats
  rw [hok] at hinstalls₁
  have hended : ∀ f ∈ f₂ :: f₁ :: j₁.events, f.ended = true := by
    intro f hf
    rw [hevents₁] at hf
    rw [FetchRecord.ended]
    obtain rfl | hf := List.mem_cons.mp hf
    · rw [htask₂, Task.result?_ended]
      rfl
    · rw [List.mem_singleton.mp hf, htask₁, Task.result?_ended]
      rfl
  exact ⟨_, hj, ⟨fun f hf _ => hended f hf, hfetching₁⟩,
    .inl ⟨_, hinstalls₁ ▸ List.mem_cons_self, rfl⟩, hstats,
    hbalanced ⟨fun f hf _ => hended f hf, hfetching₁⟩⟩

end Journal

end AssetCache
