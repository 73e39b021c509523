import AssetCache.Proofs.Accounts.Install
import AssetCache.Proofs.Delivery.Batch
import AssetCache.Proofs.Store.Opening
import Mathlib.Algebra.Order.Group.Multiset

namespace AssetCache

def Reply.ofInstall : Option (Except InstallError Unit) → Reply
  | some result => .installed result
  | none => .dropped

/-- What fetch events add to a manager. How often they open its bucket is a part of it. -/
structure Load where
  opens : Nat
  hits : Nat
  misses : Nat
  networkErrors : Nat
  calls : Multiset Request

namespace Load

instance : Zero Load := ⟨⟨0, 0, 0, 0, 0⟩⟩

instance : Add Load := ⟨fun x y => ⟨x.opens + y.opens, x.hits + y.hits, x.misses + y.misses,
  x.networkErrors + y.networkErrors, x.calls + y.calls⟩⟩

theorem zero_eq : (0 : Load) = ⟨0, 0, 0, 0, 0⟩ := rfl

theorem add_eq (x y : Load) : x + y = ⟨x.opens + y.opens, x.hits + y.hits, x.misses + y.misses,
    x.networkErrors + y.networkErrors, x.calls + y.calls⟩ := rfl

instance : AddCommMonoid Load where
  add_assoc x y z := by simp only [add_eq, add_assoc]
  zero_add x := by simp only [add_eq, zero_eq, zero_add]
  add_zero x := by simp only [add_eq, zero_eq, add_zero]
  add_comm x y := by
    simp only [add_eq, mk.injEq]
    exact ⟨Nat.add_comm _ _, Nat.add_comm _ _, Nat.add_comm _ _, Nat.add_comm _ _, add_comm _ _⟩
  nsmul := nsmulRec

end Load

def Outcome.answer : Outcome → Option (Except CacheError Response)
  | .response r => some (.ok r)
  | .failure e => some (.error (.fetch e))
  | .crash => none

def Outcome.errors : Outcome → Nat
  | .failure _ => 1
  | _ => 0

namespace Manager

variable {net : Network} {r : Request} {m m' : Manager} {x : Load}

/-- This much has been added to the statistics and the calls of a manager, and its bucket has been
opened so often; what it serves is the same. -/
structure Accrued (x : Load) (m m' : Manager) : Prop where
  name : m'.name = m.name
  phase : m'.phase = m.phase
  store : m'.store = m.store.opens m.name x.opens
  stats : m'.stats = ⟨m.stats.hits + x.hits, m.stats.misses + x.misses,
    m.stats.networkErrors + x.networkErrors⟩
  calls : (m'.calls : Multiset Request) = x.calls + m.calls

theorem accumulates : Accumulates Accrued where
  nothing m := ⟨rfl, rfl, rfl, rfl, (zero_add _).symm⟩
  both h h' := by
    refine ⟨h'.name.trans h.name, h'.phase.trans h.phase, ?_, ?_, ?_⟩
    · rw [h'.store, h.store, h.name, Store.opens_opens]
      rfl
    · rw [h'.stats, h.stats]
      simp only [Load.add_eq, Nat.add_assoc]
    · rw [h'.calls, h.calls, ← add_assoc, Load.add_eq, add_comm _ (Load.calls _)]

theorem adds_conclude (o : Outcome) (m : Manager) :
    (conclude o).Adds Accrued o.answer ⟨0, 0, 0, o.errors, 0⟩ m := by
  cases o with
  | crash => exact ⟨rfl, rfl⟩
  | response response =>
    refine ⟨0, 0, rfl, fun _ m _ => ⟨?_, rfl, rfl⟩⟩
    exact ⟨rfl, rfl, rfl, rfl, (zero_add _).symm⟩
  | failure e =>
    refine ⟨⟨0, 0, 0, 1, 0⟩, 0, (add_zero _).symm, fun _ m _ => ⟨?_, rfl, rfl⟩⟩
    exact ⟨rfl, rfl, rfl, rfl, (zero_add _).symm⟩

theorem adds_forward (net : Network) (r : Request) (m : Manager) : (forward net r).Adds Accrued
    (net r).outcome.answer ⟨0, 0, 1, (net r).outcome.errors, {r}⟩ m := by
  rw [forward_eq]
  refine ⟨⟨0, 0, 1, 0, {r}⟩, ⟨0, 0, 0, (net r).outcome.errors, 0⟩, ?_, fun _ m _ => ⟨?_, ?_⟩⟩
  · simp [Load.add_eq]
  · exact ⟨rfl, rfl, rfl, rfl, rfl⟩
  · exact (adds_conclude _ _).waits _

def loadOf (net : Network) (r : Request) : Option Response → Load
  | some _ => ⟨0, 1, 0, 0, 0⟩
  | none => ⟨0, 0, 1, (net r).outcome.errors, {r}⟩

def answerOf (net : Network) (r : Request) : Option Response → Option (Except CacheError Response)
  | some response => some (.ok response)
  | none => (net r).outcome.answer

theorem adds_serve (net : Network) (r : Request) (found : Option Response) (m : Manager) :
    (serve net r found).Adds Accrued (answerOf net r found) (loadOf net r found) m := by
  cases found with
  | none => exact adds_forward net r m
  | some response =>
    refine ⟨⟨0, 1, 0, 0, 0⟩, 0, (add_zero _).symm, fun _ m _ => ⟨?_, rfl, rfl⟩⟩
    exact ⟨rfl, rfl, rfl, rfl, (zero_add _).symm⟩

theorem adds_lookUp {h : Handle} (hh : m.store.registry.lookup m.name = some h) :
    (lookUp net r (.ok h)).Adds Accrued (answerOf net r ((m.entries h).get? r.key))
      (loadOf net r ((m.entries h).get? r.key)) m := by
  refine ⟨0, _, (zero_add _).symm, fun o m' ho => ⟨accumulates.nothing m', ?_⟩⟩
  have hentries : m'.entries h = m.entries h := by
    rw [entries, entries, ho.store, Store.opens_of_registered hh]
  dsimp only
  rw [hentries]
  exact adds_serve net r _ m'

def opening : Load := ⟨1, 0, 0, 0, 0⟩

def load (net : Network) (m : Manager) (r : Request) : Load :=
  match m.bucket with
  | (.error _, _) => opening
  | (.ok h, m) => opening + loadOf net r ((m.entries h).get? r.key)

def answer (net : Network) (m : Manager) (r : Request) : Option (Except CacheError Response) :=
  match m.bucket with
  | (.error e, _) => some (.error e)
  | (.ok h, m) => answerOf net r ((m.entries h).get? r.key)

theorem adds_fetchTask (net : Network) (r : Request) (hs : m.store.Steady m.name) :
    (fetchTask net r).Adds Accrued (answer net m r) (load net m r) m := by
  have hopening : ∀ m' : Manager, Accrued opening m' m'.bucket.2 := fun m' =>
    ⟨rfl, rfl, rfl, rfl, (zero_add _).symm⟩
  have hopen : ∀ x m', Accrued x m m' → m'.bucket.1 = m.bucket.1 := by
    intro x m' h
    change (m'.store.openBucket m'.name).1 = (m.store.openBucket m.name).1
    rw [h.store, h.name, hs x.opens]
  rw [fetchTask_eq, answer, load]
  cases ho : m.bucket with
  | mk opened m₁ =>
    rw [ho] at hopen
    cases opened with
    | error e =>
      refine ⟨opening, 0, (add_zero _).symm, fun x m' h => ⟨hopening m', ?_⟩⟩
      rw [hopen x m' h]
      exact ⟨rfl, rfl⟩
    | ok h =>
      refine ⟨opening, _, rfl, fun x m' hx => ⟨hopening m', ?_⟩⟩
      have hok : (m.store.openBucket m.name).1 = .ok h := congrArg (·.1) ho
      have hstore : m'.bucket.2.store = m₁.store := by
        change (m'.store.openBucket m'.name).2 = m₁.store
        rw [hx.store, hx.name, Store.openBucket_opens hok]
        exact congrArg (·.2.store) ho
      have hregistered : m'.bucket.2.store.registry.lookup m'.bucket.2.name = some h :=
        Store.openBucket_registered (hopen x m' hx)
      have hentries : m₁.entries h = m'.bucket.2.entries h := by rw [entries, entries, hstore]
      rw [hopen x m' hx]
      dsimp only
      rw [hentries]
      exact adds_lookUp hregistered

/-- What the manager is asked for directly adds as much, and has the same answer. -/
theorem fetch_accrued (net : Network) (r : Request) (hs : m.store.Steady m.name) :
    Accrued (load net m r) m (fetch net r m).2 ∧ (fetch net r m).1 = answer net m r :=
  (adds_fetchTask net r hs).run accumulates

theorem fetch_eq_none_iff (net : Network) (r : Request) (m : Manager) :
    (fetch net r m).1 = none ↔
      (fetch net r m).2.calls = r :: m.calls ∧ (net r).outcome = .crash := by
  have hkept : ∀ {calls : List Request} {p : Prop} {result : Except CacheError Response},
      calls = m.calls → (some result = none ↔ calls = r :: m.calls ∧ p) := by
    rintro _ p result rfl
    exact ⟨fun h => (by cases h), fun h => absurd h.1.symm (List.cons_ne_self r m.calls)⟩
  rw [fetch, fetchTask_eq, Task.run]
  dsimp only
  cases m.bucket.1 with
  | error e => exact hkept rfl
  | ok h =>
    rw [lookUp, Task.run]
    dsimp only
    cases (m.bucket.2.entries h).get? r.key with
    | some response => exact hkept rfl
    | none =>
      rw [serve, forward_eq, Task.run]
      dsimp only
      rw [Task.run_waits]
      cases (net r).outcome with
      | crash => exact ⟨fun _ => ⟨rfl, rfl⟩, fun _ => rfl⟩
      | response response => exact ⟨fun h => (by cases h), fun h => by cases h.2⟩
      | failure e => exact ⟨fun h => (by cases h), fun h => by cases h.2⟩

def fetchAll (net : Network) (requests : List Request) (m : Manager) : Manager :=
  requests.foldl (fun m r => (fetch net r m).2) m

theorem fetchAll_accrued (requests : List Request) (hs : m.store.Steady m.name)
    (hm : Accrued x m m') :
    Accrued (x + (requests.map (load net m)).sum) m (fetchAll net requests m') := by
  induction requests generalizing x m' with
  | nil => rwa [List.map_nil, List.sum_nil, add_zero]
  | cons r requests ih =>
    obtain ⟨hr, -⟩ := ((adds_fetchTask net r hs).others accumulates hm).run accumulates
    rw [List.map_cons, List.sum_cons, ← add_assoc]
    exact ih (accumulates.both hm hr)

def installAndServe [Idna] (net : Network) (m : Manager) :
    Option (Except InstallError Unit) × Manager :=
  match install net m with
  | (some (.ok ()), m') => (some (.ok ()), m'.activate.2)
  | (result, m') => (result, m')

theorem worker_install_run [Idna] (net : Network) (m : Manager) :
    (worker net).install.run m = installAndServe net m := by
  rw [worker, Task.run_bind, installAndServe, install]
  generalize (installTask net).run m = ran
  obtain ⟨_ | _ | _, m'⟩ := ran <;> rfl

theorem installAndServe_result [Idna] (net : Network) (m : Manager) :
    (installAndServe net m).1 = (install net m).1 := by
  rw [installAndServe]
  generalize install net m = ran
  obtain ⟨_ | _ | _, m'⟩ := ran <;> rfl

/-- The manager as the first event of a batch leaves it, if that is an install. -/
def ready [Idna] (net : Network) (first : Bool) (m : Manager) : Manager :=
  if first then (installAndServe net m).2 else m

theorem ready_sound [Idna] (net : Network) (first : Bool) (hm : m.store.Sound) :
    (ready net first m).store.Sound := by
  cases first with
  | false => exact hm
  | true =>
    have htells := Task.Follows.run (worker_tells net hm) Evolves.refl
    rw [worker_install_run] at htells
    exact htells.1

theorem store_recordInstall (m : Manager) (result : Except InstallError Unit) :
    (m.recordInstall result).store = m.store := by
  cases result with
  | error e => rfl
  | ok _ =>
    rw [recordInstall]
    split <;> rfl

theorem populate_mishaps [Idna] (net : Network) (hcalm : m.store.disk.mishaps = []) :
    ((populate net).run m).2.store.disk.mishaps = [] := by
  have hopened : m.opened.store.disk.mishaps = [] := Store.openBucket_mishaps hcalm m.name
  obtain ⟨e, -, hrun⟩ | ⟨e, -, hrun⟩ | ⟨requests, h, -, -, hgather⟩ := populate_cases net m
  · rw [hrun]
    exact hcalm
  · rw [hrun]
    exact hopened
  · obtain ⟨-, -, -, hbare⟩ | ⟨-, m₁, hbare, hrun⟩ := hgather
    · rw [store_of_bare hbare]
      exact hopened
    · rw [← store_of_bare hbare] at hopened
      have hput : (m₁.store.putAll h (harvest net requests)).2.disk.mishaps = [] :=
        Store.commit_mishaps hopened h _
      rw [hrun]
      obtain ⟨e, -, hstored⟩ | ⟨-, -, hstored⟩ := storeAll_cases h (harvest net requests) m₁
      · rw [hstored]
        exact hput
      · rw [store_of_bare hstored]
        exact hput

theorem ready_steady [Idna] (net : Network) (first : Bool) (hcalm : m.store.disk.mishaps = [])
    (name : String) : (ready net first m).store.Steady name := by
  refine Store.steady_of_calm ?_ name
  cases first with
  | false => exact hcalm
  | true =>
    have hpopulate := populate_mishaps net hcalm
    have hactivate : ∀ m : Manager, m.activate.2.store = m.store := fun m => by
      rw [activate]
      dsimp only
      split <;> rfl
    rw [ready, if_pos rfl, installAndServe, install_eq]
    generalize (populate net).run m = ran at hpopulate ⊢
    obtain ⟨_ | result, m'⟩ := ran
    · exact hpopulate
    · have hrecord : (m'.recordInstall result).store.disk.mishaps = [] :=
        (congrArg (·.disk.mishaps) (store_recordInstall m' result)).trans hpopulate
      cases result with
      | error e => exact hrecord
      | ok _ => exact (congrArg (·.disk.mishaps) (hactivate _)).trans hrecord

def events (first : Bool) (requests : List Request) : List Event :=
  (if first then [.install] else []) ++ requests.map .fetch

theorem getElem?_events {first : Bool} {requests : List Request} {i : Nat} :
    (events first requests)[first.toNat + i]? = requests[i]?.map .fetch := by
  cases first with
  | false =>
    rw [Bool.toNat_false, Nat.zero_add]
    exact List.getElem?_map
  | true =>
    rw [Bool.toNat_true, Nat.add_comm]
    exact List.getElem?_map

def forecast [Idna] (net : Network) (first : Bool) (m : Manager)
    (hi : first = true → (install net m).1 ≠ none)
    (hs : (ready net first m).store.Steady (ready net first m).name) :
    Dispatcher.Forecast (worker net) Accrued m where
  result := if first then (install net m).1 else none
  state := ready net first m
  share := load net (ready net first m)
  answer := answer net (ready net first m)
  install := by
    cases first with
    | false => rfl
    | true =>
      obtain ⟨result, hresult⟩ := Option.ne_none_iff_exists'.mp (hi rfl)
      rw [if_pos rfl, hresult, worker_install_run]
      exact Prod.ext ((installAndServe_result net m).trans hresult) rfl
  fetch r := adds_fetchTask net r hs

/-- A batch whose events all have replies, an install if it is to be the first and then fetches for
these requests, has come to what its events come to one after another. -/
structure Sequential [Idna] (net : Network) (first : Bool) (requests : List Request) (m : Manager)
    (l : Trace Manager) (d : Dispatcher Manager) : Prop where
  installed : first = true → ∃ result, (install net m).1 = some result ∧
    ∀ x, (0, x) ∈ Trace.replied l ↔ x = .installed result
  fetched : ∀ i r, requests[i]? = some r → ∀ x, (first.toNat + i, x) ∈ Trace.replied l ↔
    x = .ofFetch (fetch net r (ready net first m)).1
  /-- It is dropped just if its own call to the network is made and crashes. -/
  dropped : ∀ i r, requests[i]? = some r → ((first.toNat + i, .dropped) ∈ Trace.replied l ↔
    (fetch net r (ready net first m)).2.calls = r :: (ready net first m).calls ∧
      (net r).outcome = .crash)
  phase : d.shared.phase = (ready net first m).phase
  /-- No bucket is other than the install left it, open or not, nor is anything on the disk; it may
  be that the bucket has been opened since, if it was not open. -/
  store : (ready net first m).store.Same d.shared.store
  disk : d.shared.store.disk.entries = (ready net first m).store.disk.entries
  opened : ∀ h, (ready net first m).store.registry.lookup (ready net first m).name = some h →
    d.shared.store = (ready net first m).store
  alike : d.shared.store = (fetchAll net requests (ready net first m)).store
  stats : d.shared.stats = (fetchAll net requests (ready net first m)).stats
  calls : d.shared.calls.Perm (fetchAll net requests (ready net first m)).calls

section Forecast

variable [Idna] {first : Bool} (hi : first = true → (install net m).1 ≠ none)
  (hs : (ready net first m).store.Steady (ready net first m).name)

theorem forecast_result : (forecast net first m hi hs).result =
    if first then (install net m).1 else none := rfl

theorem forecast_events (requests : List Request) :
    (forecast net first m hi hs).events requests = events first requests := by
  rw [Dispatcher.Forecast.events, forecast_result]
  cases first with
  | false => rfl
  | true =>
    obtain ⟨result, hresult⟩ := Option.ne_none_iff_exists'.mp (hi rfl)
    rw [if_pos rfl, hresult]
    rfl

theorem sequential_of_forecast {requests : List Request} {l : Trace Manager}
    {d : Dispatcher Manager} (hm : m.store.Sound)
    (hd : Accrued (requests.map (load net (ready net first m))).sum (ready net first m) d.shared)
    (hreplies : ∀ n x, (n, x) ∈ Trace.replied l ↔
      ∃ e, (events first requests)[n]? = some e ∧ (forecast net first m hi hs).reply? e = some x) :
    Sequential net first requests m l d := by
  have hready : Accrued 0 (ready net first m) (ready net first m) := accumulates.nothing _
  have hq : Accrued _ _ (fetchAll net requests (ready net first m)) :=
    fetchAll_accrued requests hs hready
  rw [zero_add] at hq
  have hfetched : ∀ i r, requests[i]? = some r → ∀ x, (first.toNat + i, x) ∈ Trace.replied l ↔
      x = .ofFetch (fetch net r (ready net first m)).1 := by
    intro i r hr x
    rw [hreplies, getElem?_events, hr, (fetch_accrued net r hs).2]
    constructor
    · rintro ⟨_, he, hx⟩
      cases he
      exact (Option.some.inj hx).symm
    · rintro rfl
      exact ⟨.fetch r, rfl, rfl⟩
  refine ⟨?_, hfetched, fun i r hr => ?_, hd.phase, ?_, ?_, fun h hh => ?_, ?_, ?_, ?_⟩
  · rintro rfl
    obtain ⟨result, hresult⟩ := Option.ne_none_iff_exists'.mp (hi rfl)
    have hreply : (forecast net true m hi hs).reply? .install = some (.installed result) := by
      rw [Dispatcher.Forecast.reply?, forecast_result, if_pos rfl, hresult]
      rfl
    refine ⟨result, hresult, fun x => ?_⟩
    rw [hreplies]
    constructor
    · rintro ⟨_, he, hx⟩
      cases he
      exact Option.some.inj (hx.symm.trans hreply)
    · rintro rfl
      exact ⟨.install, rfl, hreply⟩
  · rw [hfetched i r hr, ← fetch_eq_none_iff]
    cases (fetch net r (ready net first m)).1 with
    | none => exact ⟨fun _ => rfl, fun _ => rfl⟩
    | some result => exact ⟨fun h => (by cases h), fun h => by cases h⟩
  · rw [hd.store]
    exact (Store.opens_same (ready_sound net first hm) _ _).1
  · rw [hd.store]
    exact Store.opens_disk _ _ _
  · rw [hd.store]
    exact Store.opens_of_registered hh _
  · rw [hd.store, hq.store]
  · rw [hd.stats, hq.stats]
  · exact Multiset.coe_eq_coe.mp (hd.calls.trans hq.calls.symm)

end Forecast

/-- Whatever the order in which the dispatcher and the fetches take their steps, and however small the
queue: every run over the events of a batch can be brought to its end, none gets stuck before all
events have replies, and then the batch has come to what its events come to one after another. The
install must not crash, and opening the bucket must not go well at one time and wrong at another. -/
theorem batch_is_sequential [Idna] {first : Bool} {requests : List Request} {capacity : Nat}
    {l : Trace Manager} {d : Dispatcher Manager} (hm : m.store.Sound)
    (hi : first = true → (install net m).1 ≠ none)
    (hs : (ready net first m).store.Steady (ready net first m).name)
    (hrun : Dispatcher.Run (worker net) (.begin capacity m) l d)
    (hentered : (Trace.entered l).map (·.2) = events first requests) :
    (∃ l' d', Dispatcher.Run (worker net) d l' d' ∧ Trace.entered l' = [] ∧
      ∀ p ∈ Trace.entered l, p.1 ∈ (Trace.replied (l ++ l')).map (·.1)) ∧
    ((∀ a, (∀ e, a ≠ .send e) → d.step (worker net) a = none) →
      ∀ p ∈ Trace.entered l, p.1 ∈ (Trace.replied l).map (·.1)) ∧
    ((∀ p ∈ Trace.entered l, p.1 ∈ (Trace.replied l).map (·.1)) →
      Sequential net first requests m l d) := by
  refine ⟨hrun.all_answered, hrun.answered_of_stuck, fun hall => ?_⟩
  rw [← forecast_events hi hs] at hentered
  obtain ⟨hd, hreplies⟩ := (forecast net first m hi hs).comes_true accumulates hrun hentered hall
  rw [forecast_events hi hs] at hreplies
  exact sequential_of_forecast hi hs hm hd hreplies

open scoped Idna

/-- An install and two fetches of which the second asks the network and crashes, while the first is
served between its steps. The queue has room for one event. -/
theorem batch_in_memory :
    let origin : Url := ⟨"http".toList, some ⟨[], "a".toList, none⟩, .segments [[]], none, none⟩
    let page : Url := { origin with path := .segments ["page".toList] }
    let net : Network := fun r => if r.url = page then ⟨0, .response ⟨200, [], .empty⟩⟩ else ⟨1, .crash⟩
    let m := begin "assets" ["page"] origin (.begin none .empty)
    ∃ l d, Dispatcher.Run (worker net) (.begin 0 m) l d ∧
      (Trace.entered l).map (·.2) = events true [.get page, .get origin] ∧
      Sequential net true [.get page, .get origin] m l d ∧
      (2, .dropped) ∈ Trace.replied l ∧ d.shared.stats = ⟨1, 1, 0⟩ := by
  intro origin page net m
  let actions : List Dispatcher.Action := [.send .install, .take, .install, .send (.fetch (.get page)),
    .install, .install, .install, .install, .install, .take, .send (.fetch (.get origin)), .take,
    .fetch 2, .fetch 1, .fetch 2, .fetch 1, .fetch 2, .fetch 1, .fetch 2]
  have hfollow : (Dispatcher.Run.follow (worker net) actions (.begin 0 m)).map (fun p =>
      ((Trace.entered p.1).map (·.2), (Trace.entered p.1).map (·.1), (Trace.replied p.1).map (·.1))) =
      some (events true [.get page, .get origin], [0, 1, 2], [0, 1, 2]) := by decide +kernel
  obtain ⟨⟨l, d⟩, hrun, hends⟩ := Option.map_eq_some_iff.mp hfollow
  obtain ⟨hentered, htickets⟩ := Prod.mk.inj hends
  obtain ⟨htickets, hreplied⟩ := Prod.mk.inj htickets
  have hrun : Dispatcher.Run (worker net) (.begin 0 m) l d := .of_follow actions hrun
  have hi : (install net m).1 ≠ none := by decide +kernel
  obtain ⟨-, -, hsequential⟩ := batch_is_sequential (Store.sound_begin none Disk.isTree_empty)
    (fun _ => hi) (ready_steady net true rfl _) hrun hentered
  have hdone : Sequential net true [.get page, .get origin] m l d := by
    refine hsequential fun p hp => ?_
    rw [hreplied, ← htickets]
    exact List.mem_map_of_mem hp
  refine ⟨l, d, hrun, hentered, hdone, ?_, ?_⟩
  · have hcrash : (net (.get origin)).outcome = .crash :=
      congrArg Answer.outcome (if_neg (by decide +kernel))
    exact (hdone.dropped 1 (.get origin) rfl).mpr ⟨by decide +kernel, hcrash⟩
  · exact hdone.stats.trans (by decide +kernel)

def replies [Idna] (net : Network) (first : Bool) (requests : List Request) (m : Manager) :
    List Reply :=
  (if first then [.ofInstall (install net m).1] else []) ++
    requests.map fun r => .ofFetch (fetch net r (ready net first m)).1

/-- A single thread sends all events of a batch, has a reply to each of them, and leaves the manager
as these events leave it one after another. -/
theorem batch_answers [Idna] {first : Bool} (hm : m.store.Sound)
    (hi : first = true → (install net m).1 ≠ none)
    (hs : (ready net first m).store.Steady (ready net first m).name) (requests : List Request)
    (capacity : Nat) : ∃ l d, Dispatcher.Run (worker net) (.begin capacity m) l d ∧
      Sequential net first requests m l d ∧
      (Dispatcher.begin capacity m).batch (worker net) (events first requests) =
        (.ok (replies net first requests m), d) := by
  obtain ⟨l, d, hrun, hentered, hall, hbatch⟩ :=
    (forecast net first m hi hs).batch_run accumulates capacity requests
  obtain ⟨hd, hreplies⟩ := (forecast net first m hi hs).comes_true accumulates hrun hentered hall
  rw [forecast_events hi hs] at hbatch hreplies
  refine ⟨l, d, hrun, sequential_of_forecast hi hs hm hd hreplies, ?_⟩
  have hfetches : ((requests.map Event.fetch).map fun e =>
      ((forecast net first m hi hs).reply? e).getD .dropped) =
      requests.map fun r => .ofFetch (fetch net r (ready net first m)).1 := by
    rw [List.map_map]
    refine List.map_congr_left fun r _ => ?_
    rw [(fetch_accrued net r hs).2]
    rfl
  rw [hbatch, events, replies, List.map_append, hfetches]
  cases first with
  | false => rfl
  | true =>
    have hreply : ((forecast net true m hi hs).reply? .install).getD .dropped =
        .ofInstall (install net m).1 := by
      rw [Dispatcher.Forecast.reply?, forecast_result, if_pos rfl]
      cases (install net m).1 <;> rfl
    rw [if_pos rfl, if_pos rfl, List.map_singleton, hreply]

end Manager

end AssetCache
