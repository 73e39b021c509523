import AssetCache.Proofs.Lifecycle.Order

namespace AssetCache

open Manager

def Phase.rank : Phase → Nat
  | uninitialized => 0
  | populated => 1
  | serving => 2

namespace Life

variable {l l' : Life} {m : Manager} {net : Network} {n : Nat} {d : Dispatcher Manager}

/-- The phase tells whether some install has reached its update, and whoever installs through the
worker finds the manager serving when that has done well. -/
structure Truthful (phase : Phase) (installs : List InstallRun) : Prop where
  updated : phase ≠ .uninitialized ↔ ∃ r ∈ installs, r.updated
  stages : ∀ r ∈ installs, r.Stage
  serving : ∀ r ∈ installs, r.ticket ≠ none → r.Succeeded → phase = .serving

namespace Truthful

variable {installs installs' : List InstallRun} {r : InstallRun}

theorem cons (h : Truthful m.phase installs) (hstage : r.Stage) (hnot : ¬ r.updated)
    (hrunning : ¬ r.Succeeded) : Truthful m.phase (r :: installs) where
  updated := by
    rw [h.updated]
    constructor
    · rintro ⟨r', hr', hupdated⟩
      exact ⟨r', List.mem_cons_of_mem _ hr', hupdated⟩
    · rintro ⟨r', hr', hupdated⟩
      obtain rfl | hr' := List.mem_cons.mp hr'
      · exact absurd hupdated hnot
      · exact ⟨r', hr', hupdated⟩
  stages := List.forall_mem_cons.mpr ⟨hstage, h.stages⟩
  serving := List.forall_mem_cons.mpr ⟨fun _ hsucceeded => absurd hsucceeded hrunning, h.serving⟩

theorem activate (h : Truthful m.phase installs) : Truthful m.activate.2.phase installs where
  updated := by
    rw [← h.updated, activate_phase]
    by_cases hp : m.phase = .populated <;> simp [hp]
  stages := h.stages
  serving r hr hsent hsucceeded := by
    rw [activate_phase, h.serving r hr hsent hsucceeded]
    rfl

/-- One install takes a step; of the others at most such take theirs that have ended. -/
theorem advance (h : Truthful m.phase installs) (hr : r ∈ installs)
    (hself : r.advance m ∈ installs')
    (honto : ∀ r' ∈ installs, r' ∈ installs' ∨ r'.advance m ∈ installs')
    (hfrom : ∀ r' ∈ installs', r' ∈ installs ∨
      ∃ r₀ ∈ installs, r' = r₀.advance m ∧ (r₀ = r ∨ r₀.Ended)) :
    Truthful (r.task.advance m).2.phase installs' := by
  obtain ⟨hstage, hturn⟩ := (h.stages r hr).advance m
  have hkept : (∃ r ∈ installs, r.updated) → ∃ r ∈ installs', r.updated := by
    rintro ⟨r', hr', hupdated⟩
    exact (honto r' hr').elim (fun hr' => ⟨r', hr', hupdated⟩) fun hr' => ⟨_, hr', .inl hupdated⟩
  -- who has succeeded now and is not `r` had succeeded before
  have hbefore : ∀ r' ∈ installs', r'.ticket ≠ none → r'.Succeeded →
      m.phase = .serving ∨ (r' = r.advance m) := by
    intro r' hr' hsent hsucceeded
    obtain hr' | ⟨r₀, hr₀, rfl, rfl | hended⟩ := hfrom r' hr'
    · exact .inl (h.serving r' hr' hsent hsucceeded)
    · exact .inr rfl
    · rw [InstallRun.Succeeded, (InstallRun.advance_of_ended hended m).1] at hsucceeded
      exact .inl (h.serving r₀ hr₀ hsent hsucceeded)
  refine ⟨?_, fun r' hr' => ?_, fun r' hr' hsent hsucceeded => ?_⟩
  · cases hturn with
    | aside hphase hupdated hsucceeded =>
      rw [hphase, h.updated]
      refine ⟨hkept, ?_⟩
      rintro ⟨r', hr', hupdated'⟩
      obtain hr' | ⟨r₀, hr₀, rfl, rfl | hended⟩ := hfrom r' hr'
      · exact ⟨r', hr', hupdated'⟩
      · exact ⟨r₀, hr₀, hupdated.mp hupdated'⟩
      · exact ⟨r₀, hr₀, (InstallRun.advance_of_ended hended m).2.2.mp hupdated'⟩
    | update hphase hupdated hsucceeded =>
      refine ⟨fun _ => ⟨_, hself, hupdated⟩, fun _ => ?_⟩
      rw [hphase, recordInstall_phase]
      by_cases hp : m.phase = .uninitialized <;> simp [hp]
    | activate htask hsent hupdated =>
      have hpopulated := h.updated.mpr ⟨r, hr, hupdated⟩
      refine ⟨fun _ => hkept ⟨r, hr, hupdated⟩, fun _ => ?_⟩
      rw [htask]
      change m.activate.2.phase ≠ _
      rw [activate_phase]
      by_cases hp : m.phase = .populated <;> simp [hp, hpopulated]
  · obtain hr' | ⟨r₀, hr₀, rfl, -⟩ := hfrom r' hr'
    · exact h.stages r' hr'
    · exact ((h.stages r₀ hr₀).advance m).1
  · cases hturn with
    | aside hphase hupdated hback =>
      rw [hphase]
      obtain hserving | rfl := hbefore r' hr' hsent hsucceeded
      · exact hserving
      · exact h.serving r hr hsent ((hback hsucceeded).resolve_right hsent)
    | update hphase hupdated hdirect =>
      obtain hserving | rfl := hbefore r' hr' hsent hsucceeded
      · rw [hphase, recordInstall_phase, hserving]
        rfl
      · exact absurd (hdirect hsucceeded) hsent
    | activate htask hsent hupdated =>
      have hpopulated := h.updated.mpr ⟨r, hr, hupdated⟩
      rw [htask]
      change m.activate.2.phase = _
      rw [activate_phase]
      cases hp : m.phase with
      | uninitialized => exact absurd hp hpopulated
      | populated | serving => rfl

end Truthful

structure Inv (l : Life) : Prop where
  truthful : Truthful l.manager.phase l.installs
  ordered : Ordered l.dispatcher l.installs l.sent
  fetches : ∀ t ∈ l.fetches, t.Keeps SamePhase fun _ => True
  fetching : ∀ p ∈ l.dispatcher.fetching, p.2.Keeps SamePhase fun _ => True

inductive Effect (l l' : Life) : Prop
  | aside (hphase : l'.manager.phase = l.manager.phase) : Effect l l'
  | update (hphase : l'.manager.phase = (l.manager.recordInstall (.ok ())).phase) : Effect l l'
  | activate (h : Activates l l') : Effect l l'

theorem Effect.rank_le (h : Effect l l') : l.manager.phase.rank ≤ l'.manager.phase.rank := by
  cases h with
  | aside hphase => exact Nat.le_of_eq (congrArg Phase.rank hphase.symm)
  | update hphase =>
    rw [hphase, recordInstall_phase]
    cases l.manager.phase <;> decide
  | activate h =>
    rw [h.1, activate_phase]
    cases l.manager.phase <;> decide

theorem Effect.activates (h : Effect l l') (hbefore : l.manager.phase ≠ .serving)
    (hafter : l'.manager.phase = .serving) : l.manager.phase = .populated ∧ Activates l l' := by
  cases h with
  | aside hphase => exact absurd (hphase.symm.trans hafter) hbefore
  | update hphase =>
    rw [hphase, recordInstall_phase] at hafter
    split at hafter
    · cases hafter
    · exact absurd hafter hbefore
  | activate h =>
    refine ⟨?_, h⟩
    rw [h.1, activate_phase] at hafter
    split at hafter
    · assumption
    · exact absurd hafter hbefore

namespace Inv

theorem begin (capacity : Nat) (hm : m.phase = .uninitialized) : Inv (begin capacity m) where
  truthful := ⟨⟨fun h => absurd hm h, fun ⟨_, h, _⟩ => (nomatch h)⟩, fun _ h => (nomatch h),
    fun _ h => (nomatch h)⟩
  ordered := .begin capacity m
  fetches _ h := nomatch h
  fetching _ h := nomatch h

theorem aside (h : Inv l) (hphase : Truthful m.phase l.installs) : Inv (l.withManager m) where
  truthful := hphase
  ordered := h.ordered.aside (fun _ _ => Iff.rfl) m
  fetches := h.fetches
  fetching := h.fetching

theorem install (h : Inv l) {before after : List InstallRun} {r : InstallRun}
    (hr : l.installs = before ++ r :: after) (hticket : r.ticket = none) :
    Inv { l.withManager (r.task.advance l.manager).2 with
      installs := before ++ r.advance l.manager :: after } := by
  refine ⟨?_, ?_, h.fetches, h.fetching⟩
  · refine h.truthful.advance (by rw [hr]; simp) (by simp) (fun r' hr' => ?_) fun r' hr' => ?_
    · rw [hr] at hr'
      obtain hr' | hr' := List.mem_append.mp hr'
      · exact .inl (List.mem_append_left _ hr')
      · obtain rfl | hr' := List.mem_cons.mp hr'
        · exact .inr (by simp)
        · exact .inl (List.mem_append_right _ (List.mem_cons_of_mem _ hr'))
    · rw [hr]
      obtain hr' | hr' := List.mem_append.mp hr'
      · exact .inl (List.mem_append_left _ hr')
      · obtain rfl | hr' := List.mem_cons.mp hr'
        · exact .inr ⟨r, by simp, rfl, .inl rfl⟩
        · exact .inl (List.mem_append_right _ (List.mem_cons_of_mem _ hr'))
  · refine h.ordered.aside (fun r' hsent => ?_) _
    have hne : r' ≠ r := fun heq => hsent (heq ▸ hticket)
    have hne' : r' ≠ r.advance l.manager := fun heq => hsent (heq ▸ hticket)
    rw [hr, List.mem_append, List.mem_append, List.mem_cons, List.mem_cons]
    simp only [hne, hne', false_or]

theorem fetch (h : Inv l) {before after : List (Task Manager (Except CacheError Response))}
    {t : Task Manager (Except CacheError Response)} (ht : l.fetches = before ++ t :: after) :
    SamePhase l.manager (t.advance l.manager).2 ∧
      Inv { l.withManager (t.advance l.manager).2 with
        fetches := before ++ (t.advance l.manager).1 :: after } := by
  have hfetches := h.fetches
  rw [ht, List.forall_mem_append, List.forall_mem_cons] at hfetches
  obtain ⟨hbefore, hkeeps, hafter⟩ := hfetches
  obtain ⟨hphase, hkeeps⟩ := hkeeps.advance (fun _ => rfl) l.manager
  refine ⟨hphase, ?_⟩
  have htruthful : Truthful (t.advance l.manager).2.phase l.installs := by
    rw [hphase]
    exact h.truthful
  exact { h.aside htruthful with
    fetches := List.forall_mem_append.mpr ⟨hbefore, List.forall_mem_cons.mpr ⟨hkeeps, hafter⟩⟩ }

theorem workInstall [Idna] (h : Inv l) (hd : l.dispatcher.step (worker net) .install = some d) :
    ∃ n, ∃ r ∈ l.installs, l.dispatcher.installing = some (n, r.task) ∧
      d.shared = (r.task.advance l.manager).2 ∧ d.fetching = l.dispatcher.fetching ∧
      Truthful d.shared.phase (l.installsAfter net .install) := by
  obtain ⟨n, t, hi, hd⟩ := Dispatcher.step_install hd
  obtain ⟨hshared, hfetching, -⟩ := Dispatcher.afterInstall_spec
    { l.dispatcher with shared := (t.advance l.dispatcher.shared).2 } n
    (t.advance l.dispatcher.shared).1
  rw [← hd] at hshared hfetching
  obtain ⟨r, hr, hticket, rfl⟩ := h.ordered.working n t hi
  refine ⟨n, r, hr, hi, hshared, hfetching, ?_⟩
  rw [installsAfter, hi, hshared]
  refine h.truthful.advance hr (List.mem_map.mpr ⟨r, hr, if_pos hticket⟩) (fun r' hr' => ?_)
    fun r' hr' => ?_
  · by_cases hn : r'.ticket = some n
    · exact .inr (List.mem_map.mpr ⟨r', hr', if_pos hn⟩)
    · exact .inl (List.mem_map.mpr ⟨r', hr', if_neg hn⟩)
  · obtain ⟨r₀, hr₀, rfl⟩ := List.mem_map.mp hr'
    by_cases hn : r₀.ticket = some n
    · rw [if_pos hn]
      refine .inr ⟨r₀, hr₀, rfl, ?_⟩
      obtain hended | hnow := h.ordered.others r₀ hr₀ n hn
      · exact .inr hended
      · have htask : r.task = r₀.task :=
          (Prod.mk.inj (Option.some.inj (hi.symm.trans hnow))).2
        by_cases hended : r₀.Ended
        · exact .inr hended
        · refine .inl (h.ordered.single r₀ hr₀ r hr (by rw [hn]; exact Option.some_ne_none n)
            (by rw [hticket]; exact Option.some_ne_none n) hended ?_)
          rw [InstallRun.Ended, htask]
          exact hended
    · rw [if_neg hn]
      exact .inl hr₀

end Inv

theorem effect_of_turn {r : InstallRun} (h : r.Turn l.manager)
    (hmanager : l'.manager = (r.task.advance l.manager).2)
    (hwork : r.ticket ≠ none → ∃ n, l.dispatcher.installing = some (n, r.task)) : Effect l l' := by
  cases h with
  | aside hphase => exact .aside (by rw [hmanager, hphase])
  | update hphase => exact .update (by rw [hmanager, hphase])
  | activate htask hsent =>
    obtain ⟨n, hi⟩ := hwork hsent
    rw [htask] at hi hmanager
    exact .activate ⟨hmanager, .inr ⟨n, _, hi⟩⟩

theorem Inv.dispatch [Idna] (h : Inv l) {a : Dispatcher.Action}
    (hd : l.dispatcher.step (worker net) a = some d) :
    Inv { l with dispatcher := d, installs := l.installsAfter net a, sent := l.sentAfter a } ∧
      Effect l { l with
        dispatcher := d, installs := l.installsAfter net a, sent := l.sentAfter a } := by
  have hordered := h.ordered.dispatch hd
  cases a with
  | send e =>
    cases Dispatcher.step_send hd
    exact ⟨⟨h.truthful, hordered, h.fetches, h.fetching⟩, .aside rfl⟩
  | take =>
    obtain ⟨hshared, -, hwork⟩ := Dispatcher.step_take hd
    have htruthful : Truthful d.shared.phase (l.installsAfter net .take) := by
      rw [hshared, installsAfter]
      split
      · refine h.truthful.cons (InstallRun.stage_sent _ net) id ?_
        rw [InstallRun.Succeeded, InstallRun.sent, worker_install_eq]
        exact fun h => by cases h
      · exact h.truthful
    refine ⟨⟨htruthful, hordered, h.fetches, fun p hp => ?_⟩,
      .aside (congrArg Manager.phase hshared)⟩
    obtain ⟨_, -, hfetching⟩ | ⟨_, r, -, hfetching⟩ := hwork
    · exact h.fetching p (hfetching ▸ hp)
    · obtain hp | hp := List.mem_append.mp (hfetching ▸ hp)
      · exact h.fetching p hp
      · cases List.mem_singleton.mp hp
        exact fetchTask_keeps_phase net r
  | install =>
    obtain ⟨n, r, hr, hi, hshared, hfetching, htruthful⟩ := h.workInstall hd
    exact ⟨⟨htruthful, hordered, h.fetches, fun p hp => h.fetching p (hfetching ▸ hp)⟩,
      effect_of_turn ((h.truthful.stages r hr).advance l.manager).2 hshared fun _ => ⟨n, hi⟩⟩
  | fetch n =>
    obtain ⟨t, ht, hd⟩ := Dispatcher.step_fetch hd
    obtain ⟨hphase, hkeeps⟩ := (h.fetching _ ht).advance (fun _ => rfl) l.dispatcher.shared
    obtain ⟨hshared, -, hfetching, -⟩ := Dispatcher.afterFetch_spec
      { l.dispatcher with shared := (t.advance l.dispatcher.shared).2 } n
      (t.advance l.dispatcher.shared).1
    rw [← hd] at hshared hfetching
    have hsame : d.shared.phase = l.manager.phase := by rw [hshared, hphase]; rfl
    have htruthful : Truthful d.shared.phase l.installs := by
      rw [hsame]
      exact h.truthful
    refine ⟨⟨htruthful, hordered, h.fetches, fun p hp => ?_⟩, .aside hsame⟩
    obtain hp | rfl := hfetching p hp
    · exact h.fetching p hp
    · exact hkeeps

theorem Inv.step [Idna] (h : Inv l) (hs : Step l l') : Inv l' ∧ Effect l l' := by
  cases hs with
  | beginInstall net =>
    have hrunning : ¬ (InstallRun.direct net).Succeeded := by
      rw [InstallRun.Succeeded, InstallRun.direct, installTask_eq]
      exact fun h => by cases h
    refine ⟨⟨h.truthful.cons (InstallRun.stage_direct net) id hrunning,
      h.ordered.aside (fun r hsent => ?_) _, h.fetches, h.fetching⟩, .aside rfl⟩
    rw [List.mem_cons]
    exact ⟨fun hr => hr.resolve_left fun heq => hsent (heq ▸ rfl), .inr⟩
  | install hr hticket =>
    refine ⟨h.install hr hticket, effect_of_turn ?_ rfl fun hsent => absurd hticket hsent⟩
    exact ((h.truthful.stages _ (by rw [hr]; simp)).advance l.manager).2
  | beginFetch net r =>
    exact ⟨{ h with
      fetches := List.forall_mem_cons.mpr ⟨fetchTask_keeps_phase net r, h.fetches⟩ }, .aside rfl⟩
  | fetch ht =>
    obtain ⟨hphase, hinv⟩ := h.fetch ht
    exact ⟨hinv, .aside hphase⟩
  | activate => exact ⟨h.aside h.truthful.activate, .activate ⟨rfl, .inl rfl⟩⟩
  | storage store => exact ⟨h.aside (m := { l.manager with store }) h.truthful, .aside rfl⟩
  | dispatch hd => exact h.dispatch hd
  | settle =>
    exact ⟨⟨h.truthful, { h.ordered with shaped := { h.ordered.shaped with } }, h.fetches,
      h.fetching⟩, .aside rfl⟩

theorem Inv.reaches [Idna] (h : Inv l) (hl : l.Reaches l') :
    Inv l' ∧ l.manager.phase.rank ≤ l'.manager.phase.rank := by
  induction hl with
  | refl => exact ⟨h, Nat.le_refl _⟩
  | tail _ hs ih =>
    obtain ⟨hinv, heffect⟩ := ih.1.step hs
    exact ⟨hinv, Nat.le_trans ih.2 heffect.rank_le⟩

def follow [Idna] (net : Network) : List Dispatcher.Action → Life → Option Life
  | [], l => some l
  | a :: actions, l =>
    match l.dispatcher.step (worker net) a with
    | none => none
    | some d => follow net actions { l with
        dispatcher := d, installs := l.installsAfter net a, sent := l.sentAfter a }

theorem reaches_follow [Idna] (net : Network) (actions : List Dispatcher.Action)
    (h : follow net actions l = some l') : l.Reaches l' := by
  induction actions generalizing l with
  | nil =>
    cases h
    exact .refl
  | cons a actions ih =>
    rw [follow] at h
    cases hd : l.dispatcher.step (worker net) a with
    | none =>
      rw [hd] at h
      cases h
    | some d =>
      rw [hd] at h
      exact .head (.dispatch l hd) (ih h)

/-- The phase of a manager is monotone and true, in whatever order installs, activations, fetches and
operations on the storage take their steps: it never goes back; it is not the first just if some
install has reached the update of the phase after its commit; it comes to serving by an activation
that finds the bucket populated; and it is serving once an install through the worker has done well.
A fetch that was sent after such an install begins only when the install has ended. -/
theorem phase_is_monotone_and_truthful [Idna] (capacity : Nat) (name : String) (manifest : Manifest)
    (origin : Url) (store : Store) {l : Life}
    (hl : (begin capacity (.begin name manifest origin store)).Reaches l) :
    (∀ l', l.Reaches l' → l.manager.phase.rank ≤ l'.manager.phase.rank) ∧
      (l.manager.phase ≠ .uninitialized ↔ ∃ r ∈ l.installs, r.updated) ∧
      (∀ l', Step l l' → l.manager.phase ≠ .serving → l'.manager.phase = .serving →
        l.manager.phase = .populated ∧ Activates l l') ∧
      (∀ r ∈ l.installs, r.ticket ≠ none → r.Succeeded → l.manager.phase = .serving) ∧
      ∀ k t, (k, t) ∈ l.dispatcher.fetching → ∀ n < k, (n, .install) ∈ l.sent →
        ∃ r ∈ l.installs, r.ticket = some n ∧ r.Ended ∧
          (r.Succeeded → l.manager.phase = .serving) := by
  obtain ⟨hinv, -⟩ := (Inv.begin capacity rfl).reaches hl
  refine ⟨fun l' hl' => (hinv.reaches hl').2, hinv.truthful.updated,
    fun l' hs => (hinv.step hs).2.activates, hinv.truthful.serving, fun k t ht n hn hsent => ?_⟩
  obtain ⟨r, hr, hticket, hended⟩ := hinv.ordered.behind k t ht n hn hsent
  exact ⟨r, hr, hticket, hended, hinv.truthful.serving r hr (by rw [hticket]; exact nofun)⟩

open scoped Idna

/-- A fetch is sent while an install is queued, which then does well: the fetch finds the manager
serving, and so does everything after it. -/
theorem fetch_behind_install_is_served :
    let origin : Url := ⟨"http".toList, some ⟨[], "a".toList, none⟩, .segments [[]], none, none⟩
    let m := Manager.begin "assets" ["page"] origin (.begin none .empty)
    ∃ l, (begin 2 m).Reaches l ∧ (∃ t, (1, t) ∈ l.dispatcher.fetching) ∧
      (∃ r ∈ l.installs, r.ticket = some 0 ∧ r.Ended) ∧ (∃ r ∈ l.installs, r.updated) ∧
      ∀ l', l.Reaches l' → l'.manager.phase = .serving := by
  intro origin m
  let net : Network := fun _ => ⟨0, .response ⟨200, [], .empty⟩⟩
  let actions : List Dispatcher.Action := [.send .install, .send (.fetch (.get origin)), .take,
    .install, .install, .install, .install, .install, .install, .take]
  have hfollow : (follow net actions (begin 2 m)).map (fun l =>
      (l.manager.phase, l.dispatcher.fetching.map (·.1), l.sent)) =
      some (.serving, [1], [(1, .fetch (.get origin)), (0, .install)]) := by decide +kernel
  obtain ⟨l, hl, heq⟩ := Option.map_eq_some_iff.mp hfollow
  obtain ⟨hphase, heq⟩ := Prod.mk.inj heq
  obtain ⟨hfetching, hsent⟩ := Prod.mk.inj heq
  obtain ⟨⟨k, t⟩, ht, hk⟩ : ∃ p ∈ l.dispatcher.fetching, p.1 = 1 :=
    List.mem_map.mp (hfetching ▸ List.mem_cons_self)
  cases hk
  have hreach := reaches_follow net actions hl
  obtain ⟨hmonotone, hupdated, -, -, hbehind⟩ := phase_is_monotone_and_truthful 2 "assets" ["page"]
    origin (.begin none .empty) hreach
  obtain ⟨r, hr, hticket, hended, -⟩ := hbehind 1 t ht 0 Nat.zero_lt_one (by rw [hsent]; simp)
  refine ⟨l, hreach, ⟨t, ht⟩, ⟨r, hr, hticket, hended⟩, hupdated.mp (by rw [hphase]; decide),
    fun l' hl' => ?_⟩
  have hrank := hmonotone l' hl'
  rw [hphase] at hrank
  cases hp : l'.manager.phase with
  | serving => rfl
  | uninitialized | populated =>
    rw [hp] at hrank
    exact absurd hrank (by decide)

end Life

end AssetCache
