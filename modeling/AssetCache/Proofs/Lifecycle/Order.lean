import AssetCache.Proofs.Lifecycle.Install
import Mathlib.Logic.Relation

namespace AssetCache

open Manager

/-- A manager behind its dispatcher, among those who use it besides: the installs there were, sent or
not, the fetches that are done without the dispatcher, and all events that were sent. -/
structure Life where
  dispatcher : Dispatcher Manager
  installs : List InstallRun
  fetches : List (Task Manager (Except CacheError Response))
  sent : List (Nat × Event)

namespace Life

def begin (capacity : Nat) (m : Manager) : Life := ⟨.begin capacity m, [], [], []⟩

def manager (l : Life) : Manager := l.dispatcher.shared

def withManager (l : Life) (m : Manager) : Life :=
  { l with dispatcher := { l.dispatcher with shared := m } }

def installsAfter [Idna] (l : Life) (net : Network) : Dispatcher.Action → List InstallRun
  | .take =>
    match l.dispatcher.queue with
    | (n, .install) :: _ => .sent n net :: l.installs
    | _ => l.installs
  | .install =>
    match l.dispatcher.installing with
    | some (n, _) => l.installs.map fun r => if r.ticket = some n then r.advance l.manager else r
    | none => l.installs
  | _ => l.installs

def sentAfter (l : Life) : Dispatcher.Action → List (Nat × Event)
  | .send e => (l.dispatcher.sent, e) :: l.sent
  | _ => l.sent

/-- Whatever may happen next, each install and each fetch with a network of its own; of the storage
behind the manager anything may become at any time. -/
inductive Step [Idna] : Life → Life → Prop
  | beginInstall (l : Life) (net : Network) :
    Step l { l with installs := .direct net :: l.installs }
  | install (l : Life) {before after : List InstallRun} {r : InstallRun}
    (hr : l.installs = before ++ r :: after) (hticket : r.ticket = none) :
    Step l { l.withManager (r.task.advance l.manager).2 with
      installs := before ++ r.advance l.manager :: after }
  | beginFetch (l : Life) (net : Network) (r : Request) :
    Step l { l with fetches := fetchTask net r :: l.fetches }
  | fetch (l : Life) {before after : List (Task Manager (Except CacheError Response))}
    {t : Task Manager (Except CacheError Response)} (ht : l.fetches = before ++ t :: after) :
    Step l { l.withManager (t.advance l.manager).2 with
      fetches := before ++ (t.advance l.manager).1 :: after }
  | activate (l : Life) : Step l (l.withManager l.manager.activate.2)
  | storage (l : Life) (store : Store) : Step l (l.withManager { l.manager with store })
  | dispatch (l : Life) {net : Network} {a : Dispatcher.Action} {d : Dispatcher Manager}
    (hd : l.dispatcher.step (worker net) a = some d) :
    Step l { l with
      dispatcher := d, installs := l.installsAfter net a, sent := l.sentAfter a }
  | settle (l : Life) : Step l { l with dispatcher := l.dispatcher.settled }

def Reaches [Idna] : Life → Life → Prop := Relation.ReflTransGen Step

/-- The manager is activated, by whom it may concern or by the worker at the end of an install. -/
def Activates (l l' : Life) : Prop :=
  l'.manager = l.manager.activate.2 ∧ (l' = l.withManager l.manager.activate.2 ∨
    ∃ n next, l.dispatcher.installing = some (n, .act Manager.activate next))

variable {l l' : Life} {m : Manager} {net : Network} {n : Nat} {d : Dispatcher Manager}

theorem afterInstall_installing {σ : Type} (d : Dispatcher σ) (n : Nat)
    (rest : Task σ (Except InstallError Unit)) :
    (d.afterInstall n rest).installing = some (n, rest) ∨
      ((d.afterInstall n rest).installing = none ∧ rest.result?.isSome) := by
  cases rest with
  | done | crash => exact .inr ⟨rfl, rfl⟩
  | wait | act => exact .inl rfl

/-- The install that the dispatcher is at is on record; those sent before it have ended. Whatever was
sent is queued or on record, and a fetch is not begun before all installs sent before it have ended. -/
structure Ordered (d : Dispatcher Manager) (installs : List InstallRun)
    (sent : List (Nat × Event)) : Prop where
  shaped : d.Shaped
  sorted : (d.queue.map (·.1)).Pairwise (· < ·)
  working : ∀ n t, d.installing = some (n, t) → ∃ r ∈ installs, r.ticket = some n ∧ r.task = t
  others : ∀ r ∈ installs, ∀ n, r.ticket = some n →
    r.Ended ∨ d.installing = some (n, r.task)
  single : ∀ r ∈ installs, ∀ r' ∈ installs, r.ticket ≠ none → r'.ticket ≠ none →
    ¬ r.Ended → ¬ r'.Ended → r = r'
  known : d.running = true → ∀ n, (n, Event.install) ∈ sent →
    (n, Event.install) ∈ d.queue ∨ ∃ r ∈ installs, r.ticket = some n
  behind : ∀ k t, (k, t) ∈ d.fetching → ∀ n < k, (n, Event.install) ∈ sent →
    ∃ r ∈ installs, r.ticket = some n ∧ r.Ended

namespace Ordered

variable {installs : List InstallRun} {sent : List (Nat × Event)}

theorem begin (capacity : Nat) (m : Manager) : Ordered (.begin capacity m) [] [] where
  shaped := .begin capacity m
  sorted := .nil
  working _ _ h := nomatch h
  others _ h := nomatch h
  single _ h := nomatch h
  known _ _ h := nomatch h
  behind _ _ h := nomatch h

theorem aside (h : Ordered d installs sent) {installs' : List InstallRun}
    (hsent : ∀ r, r.ticket ≠ none → (r ∈ installs' ↔ r ∈ installs)) (m : Manager) :
    Ordered { d with shared := m } installs' sent := by
  have hfrom : ∀ {r n}, r.ticket = some n → (r ∈ installs' ↔ r ∈ installs) := fun hticket =>
    hsent _ (by rw [hticket]; exact nofun)
  refine ⟨{ h.shaped with }, h.sorted, fun n t hn => ?_, fun r hr n hticket => ?_,
    fun r hr r' hr' hr₀ hr₀' => ?_, fun hrun n hn => ?_, fun k t ht n hn hmem => ?_⟩
  · obtain ⟨r, hr, hticket, htask⟩ := h.working n t hn
    exact ⟨r, (hfrom hticket).mpr hr, hticket, htask⟩
  · exact h.others r ((hfrom hticket).mp hr) n hticket
  · exact h.single r ((hsent r hr₀).mp hr) r' ((hsent r' hr₀').mp hr') hr₀ hr₀'
  · refine (h.known hrun n hn).imp_right ?_
    rintro ⟨r, hr, hticket⟩
    exact ⟨r, (hfrom hticket).mpr hr, hticket⟩
  · obtain ⟨r, hr, hticket, hended⟩ := h.behind k t ht n hn hmem
    exact ⟨r, (hfrom hticket).mpr hr, hticket, hended⟩

theorem send [Idna] (h : Ordered d installs sent) {e : Event}
    (hd : d.step (worker net) (.send e) = some d') :
    Ordered d' installs ((d.sent, e) :: sent) := by
  have hshaped := h.shaped.move (Dispatcher.move_of_step hd)
  have hlt : ∀ k ∈ d.tickets, k < d.sent := h.shaped.given
  cases Dispatcher.step_send hd
  refine ⟨hshaped, ?_, h.working, h.others, h.single, fun hr k hk => ?_,
    fun k t ht n hn hsent => ?_⟩
  · rw [Dispatcher.enqueue, List.map_append, List.pairwise_append]
    refine ⟨h.sorted, List.pairwise_singleton _ _, fun a ha b hb => ?_⟩
    cases List.mem_singleton.mp hb
    exact hlt a (List.mem_append_right _ ha)
  · obtain heq | hk := List.mem_cons.mp hk
    · cases heq
      exact .inl (List.mem_append_right _ List.mem_cons_self)
    · exact (h.known hr k hk).imp_left (List.mem_append_left _)
  · have hk : k < d.sent :=
      hlt k (List.mem_append_left _ (List.mem_map.mpr ⟨(k, t), ht, rfl⟩))
    obtain heq | hsent := List.mem_cons.mp hsent
    · cases heq
      omega
    · exact h.behind k t ht n hn hsent

theorem ended_of_idle (h : Ordered d installs sent) (hi : d.installing = none) {r : InstallRun}
    (hr : r ∈ installs) (hticket : r.ticket = some n) : r.Ended := by
  obtain hended | hnow := h.others r hr n hticket
  · exact hended
  · rw [hi] at hnow
    cases hnow

theorem takeInstall [Idna] (h : Ordered d installs sent) {queue : List (Nat × Event)}
    (hi : d.installing = none) (hq : d.queue = (n, .install) :: queue)
    (hshaped : ({ d with
      queue, installing := some (n, (worker net).install) } : Dispatcher Manager).Shaped) :
    Ordered { d with queue, installing := some (n, (worker net).install) }
      (.sent n net :: installs) sent := by
  have hsorted := h.sorted
  rw [hq, List.map_cons, List.pairwise_cons] at hsorted
  have hended : ∀ r ∈ installs, r.ticket ≠ none → r.Ended := fun r hr hsent => by
    obtain ⟨k, hticket⟩ := Option.ne_none_iff_exists'.mp hsent
    exact h.ended_of_idle hi hr hticket
  refine ⟨hshaped, hsorted.2, fun k t hk => ?_, fun r hr k hticket => ?_,
    fun r hr r' hr' hsent hsent' hrest hrest' => ?_, fun hrun k hk => ?_, fun k t ht k' hlt hsent => ?_⟩
  · cases hk
    exact ⟨_, List.mem_cons_self, rfl, rfl⟩
  · obtain rfl | hr := List.mem_cons.mp hr
    · cases hticket
      exact .inr rfl
    · exact .inl (h.ended_of_idle hi hr hticket)
  · obtain rfl | hr := List.mem_cons.mp hr
    · obtain rfl | hr' := List.mem_cons.mp hr'
      · rfl
      · exact absurd (hended r' hr' hsent') hrest'
    · exact absurd (hended r hr hsent) hrest
  · have hknown := h.known hrun k hk
    rw [hq] at hknown
    obtain hmem | ⟨r, hr, hticket⟩ := hknown
    · obtain heq | hmem := List.mem_cons.mp hmem
      · cases heq
        exact .inr ⟨_, List.mem_cons_self, rfl⟩
      · exact .inl hmem
    · exact .inr ⟨r, List.mem_cons_of_mem _ hr, hticket⟩
  · obtain ⟨r, hr, hrest⟩ := h.behind k t ht k' hlt hsent
    exact ⟨r, List.mem_cons_of_mem _ hr, hrest⟩

theorem takeFetch [Idna] (h : Ordered d installs sent) {queue : List (Nat × Event)} {q : Request}
    (hrun : d.running = true) (hi : d.installing = none) (hq : d.queue = (n, .fetch q) :: queue)
    (hshaped : ({ d with
      queue, fetching := d.fetching ++ [(n, (worker net).fetch q)] } : Dispatcher Manager).Shaped) :
    Ordered { d with queue, fetching := d.fetching ++ [(n, (worker net).fetch q)] }
      installs sent := by
  have hsorted := h.sorted
  rw [hq, List.map_cons, List.pairwise_cons] at hsorted
  have hknown : ∀ k, (k, Event.install) ∈ sent →
      (k, Event.install) ∈ queue ∨ ∃ r ∈ installs, r.ticket = some k := fun k hk => by
    have hknown := h.known hrun k hk
    rw [hq] at hknown
    refine hknown.imp_left fun hmem => (List.mem_cons.mp hmem).resolve_left fun heq => ?_
    cases heq
  refine ⟨hshaped, hsorted.2, fun k t hk => ?_, h.others, h.single, fun _ => hknown,
    fun k t ht k' hlt hsent => ?_⟩
  · exact h.working k t hk
  · obtain ht | ht := List.mem_append.mp ht
    · exact h.behind k t ht k' hlt hsent
    · cases List.mem_singleton.mp ht
      -- what was sent before the head of the queue is queued no more
      obtain hmem | ⟨r, hr, hticket⟩ := hknown k' hsent
      · have hlater := hsorted.1 k' (List.mem_map.mpr ⟨_, hmem, rfl⟩)
        omega
      · exact ⟨r, hr, hticket, h.ended_of_idle hi hr hticket⟩

theorem workInstall (h : Ordered d installs sent) {t : Task Manager (Except InstallError Unit)}
    (hi : d.installing = some (n, t))
    (hshaped : ({ d with shared := (t.advance d.shared).2 }.afterInstall n
      (t.advance d.shared).1 : Dispatcher Manager).Shaped) :
    Ordered ({ d with shared := (t.advance d.shared).2 }.afterInstall n (t.advance d.shared).1)
      (installs.map fun r => if r.ticket = some n then r.advance d.shared else r) sent := by
  obtain ⟨hqueue, -, -, hfetching⟩ := Dispatcher.afterInstall_queue
    { d with shared := (t.advance d.shared).2 } n (t.advance d.shared).1
  have hinstalling := afterInstall_installing
    { d with shared := (t.advance d.shared).2 } n (t.advance d.shared).1
  generalize ({ d with shared := (t.advance d.shared).2 }.afterInstall n (t.advance d.shared).1 :
    Dispatcher Manager) = d' at hshaped hqueue hfetching hinstalling ⊢
  dsimp only at hqueue hfetching
  have hrecorded : ∀ k, (∃ r ∈ installs, r.ticket = some k) → ∃ r ∈ installs.map fun r =>
      if r.ticket = some n then r.advance d.shared else r, r.ticket = some k := by
    rintro k ⟨r, hr, hticket⟩
    refine ⟨_, List.mem_map.mpr ⟨r, hr, rfl⟩, ?_⟩
    split <;> exact hticket
  refine ⟨hshaped, ?_, fun k t' hk => ?_, fun r' hr' k hticket => ?_,
    fun r₁ hr₁ r₂ hr₂ hsent₁ hsent₂ hrest₁ hrest₂ => ?_, fun hrun k hk => ?_,
    fun k t' ht k' hlt hsent => ?_⟩
  · obtain ⟨hqueue, -⟩ | ⟨hqueue, -⟩ := hqueue
    · rw [hqueue]
      exact .nil
    · rw [hqueue]
      exact h.sorted
  · obtain hnow | ⟨hnow, -⟩ := hinstalling
    · cases hnow.symm.trans hk
      obtain ⟨r, hr, hticket, htask⟩ := h.working n t hi
      refine ⟨_, List.mem_map.mpr ⟨r, hr, if_pos hticket⟩, hticket, ?_⟩
      rw [InstallRun.advance, htask]
    · cases hnow.symm.trans hk
  · obtain ⟨r, hr, rfl⟩ := List.mem_map.mp hr'
    by_cases hn : r.ticket = some n
    · rw [if_pos hn] at hticket ⊢
      cases hn.symm.trans hticket
      obtain hended | hnow := h.others r hr n hn
      · exact .inl (hended.advance d.shared)
      · cases hi.symm.trans hnow
        obtain hnow | ⟨-, hended⟩ := hinstalling
        · exact .inr hnow
        · exact .inl hended
    · rw [if_neg hn] at hticket ⊢
      obtain hended | hnow := h.others r hr k hticket
      · exact .inl hended
      · cases hi.symm.trans hnow
        exact absurd hticket hn
  · obtain ⟨r, hr, rfl⟩ := List.mem_map.mp hr₁
    obtain ⟨r', hr', rfl⟩ := List.mem_map.mp hr₂
    have hback : ∀ r : InstallRun, (if r.ticket = some n then r.advance d.shared else r).ticket ≠ none →
        ¬ (if r.ticket = some n then r.advance d.shared else r).Ended →
          r.ticket ≠ none ∧ ¬ r.Ended := by
      intro r
      split
      · exact fun hsent hrest => ⟨hsent, fun hended => hrest (hended.advance d.shared)⟩
      · exact And.intro
    obtain ⟨hsent, hrest⟩ := hback r hsent₁ hrest₁
    obtain ⟨hsent', hrest'⟩ := hback r' hsent₂ hrest₂
    rw [h.single r hr r' hr' hsent hsent' hrest hrest']
  · obtain ⟨-, hstopped⟩ | ⟨hqueue, hrunning⟩ := hqueue
    · cases hstopped.symm.trans hrun
    · rw [hqueue]
      exact (h.known (hrunning.symm.trans hrun) k hk).imp_right (hrecorded k)
  · rw [hfetching] at ht
    obtain ⟨r, hr, hticket, hended⟩ := h.behind k t' ht k' hlt hsent
    refine ⟨_, List.mem_map.mpr ⟨r, hr, rfl⟩, ?_⟩
    split
    · exact ⟨hticket, hended.advance d.shared⟩
    · exact ⟨hticket, hended⟩

theorem workFetch (h : Ordered d installs sent) {t : Task Manager (Except CacheError Response)}
    (ht : (n, t) ∈ d.fetching) (hshaped : ({ d with shared := (t.advance d.shared).2 }.afterFetch n
      (t.advance d.shared).1 : Dispatcher Manager).Shaped) :
    Ordered ({ d with shared := (t.advance d.shared).2 }.afterFetch n (t.advance d.shared).1)
      installs sent := by
  obtain ⟨hqueue, hrunning, -⟩ := Dispatcher.afterFetch_queue
    { d with shared := (t.advance d.shared).2 } n (t.advance d.shared).1
  obtain ⟨-, hinstalling, hfetching, -⟩ := Dispatcher.afterFetch_spec
    { d with shared := (t.advance d.shared).2 } n (t.advance d.shared).1
  generalize ({ d with shared := (t.advance d.shared).2 }.afterFetch n (t.advance d.shared).1 :
    Dispatcher Manager) = d' at hshaped hqueue hrunning hinstalling hfetching ⊢
  dsimp only at hqueue hrunning hinstalling hfetching
  refine ⟨hshaped, by rw [hqueue]; exact h.sorted, by rw [hinstalling]; exact h.working,
    by rw [hinstalling]; exact h.others, h.single, by rw [hrunning, hqueue]; exact h.known,
    fun k t' ht' k' hlt hsent => ?_⟩
  obtain ht' | heq := hfetching _ ht'
  · exact h.behind k t' ht' k' hlt hsent
  · cases heq
    exact h.behind n t ht k' hlt hsent

theorem dispatch [Idna] {l : Life} (h : Ordered l.dispatcher l.installs l.sent)
    {a : Dispatcher.Action}
    (hd : l.dispatcher.step (worker net) a = some d) :
    Ordered d (l.installsAfter net a) (l.sentAfter a) := by
  have hshaped := h.shaped.move (Dispatcher.move_of_step hd)
  cases a with
  | send e => exact h.send hd
  | take =>
    obtain ⟨hrun, hi, rfl, n, e, queue, hq⟩ := Dispatcher.step_take_queue hd
    rw [Dispatcher.take.eq_def, hq] at hshaped ⊢
    rw [installsAfter, hq]
    cases e with
    | install => exact h.takeInstall hi hq hshaped
    | fetch q => exact h.takeFetch hrun hi hq hshaped
  | install =>
    obtain ⟨n, t, hi, rfl⟩ := Dispatcher.step_install hd
    rw [installsAfter, hi]
    exact h.workInstall hi hshaped
  | fetch n =>
    obtain ⟨t, ht, rfl⟩ := Dispatcher.step_fetch hd
    exact h.workFetch ht hshaped

end Ordered

end Life

end AssetCache
