import AssetCache.Proofs.Delivery.Order
import Mathlib.Algebra.BigOperators.Group.List.Basic

namespace AssetCache

structure Accumulates {σ L : Type} [AddCommMonoid L] (acc : L → σ → σ → Prop) : Prop where
  nothing (s : σ) : acc 0 s s
  both {x y : L} {s s' s'' : σ} : acc x s s' → acc y s' s'' → acc (x + y) s s''

namespace Task

variable {σ α L : Type} [AddCommMonoid L] {acc : L → σ → σ → Prop} {a b : Option α} {x y : L}
  {s s' : σ} {t : Task σ α}

/-- From this state on others may add whatever they do; the task then adds `x` in all, and its result,
or its absence after a crash, is `a`. -/
def Adds (acc : L → σ → σ → Prop) (a : Option α) : Task σ α → L → σ → Prop
  | done b, x, _ => x = 0 ∧ a = some b
  | crash, x, _ => x = 0 ∧ a = none
  | wait next, x, s => next.Adds acc a x s
  | act step next, x, s => ∃ y z, x = y + z ∧ ∀ o s', acc o s s' →
      acc y s' (step s').2 ∧ (next (step s').1).Adds acc a z (step s').2

namespace Adds

theorem others (hacc : Accumulates acc) (h : t.Adds acc a x s) (hs : acc y s s') :
    t.Adds acc a x s' := by
  induction t with
  | done b => exact h
  | crash => exact h
  | wait next ih => exact ih h
  | act step next =>
    obtain ⟨y, z, rfl, hstep⟩ := h
    exact ⟨y, z, rfl, fun o s'' ho => hstep _ s'' (hacc.both hs ho)⟩

theorem advance (hacc : Accumulates acc) (h : t.Adds acc a x s) : ∃ y z, x = y + z ∧
    acc y s (t.advance s).2 ∧ (t.advance s).1.Adds acc a z (t.advance s).2 := by
  cases t with
  | done b => exact ⟨0, x, (zero_add x).symm, hacc.nothing s, h⟩
  | crash => exact ⟨0, x, (zero_add x).symm, hacc.nothing s, h⟩
  | wait next => exact ⟨0, x, (zero_add x).symm, hacc.nothing s, h⟩
  | act step next =>
    obtain ⟨y, z, hx, hstep⟩ := h
    obtain ⟨hy, hz⟩ := hstep 0 s (hacc.nothing s)
    exact ⟨y, z, hx, hy, hz⟩

theorem run (hacc : Accumulates acc) (h : t.Adds acc a x s) :
    acc x s (t.run s).2 ∧ (t.run s).1 = a := by
  induction t generalizing x s with
  | done b =>
    obtain ⟨rfl, ha⟩ := h
    exact ⟨hacc.nothing s, ha.symm⟩
  | crash =>
    obtain ⟨rfl, ha⟩ := h
    exact ⟨hacc.nothing s, ha.symm⟩
  | wait next ih => exact ih h
  | act step next ih =>
    obtain ⟨y, z, rfl, hstep⟩ := h
    obtain ⟨hy, hz⟩ := hstep 0 s (hacc.nothing s)
    obtain ⟨hrest, ha⟩ := ih _ hz
    exact ⟨hacc.both hy hrest, ha⟩

theorem waits (h : t.Adds acc a x s) (n : Nat) : (Task.waits n t).Adds acc a x s := by
  induction n with
  | zero => exact h
  | succ n ih => exact ih

theorem of_result? (h : t.Adds acc a x s) (ht : t.result? = some b) : x = 0 ∧ a = b := by
  cases t with
  | done | crash =>
    cases ht
    exact h
  | wait | act => cases ht

end Adds

end Task

theorem sum_update_of_not_mem {α L : Type} [AddCommMonoid L] {n : Nat} {l : List (Nat × α)}
    (hn : n ∉ l.map (·.1)) (rem : Nat → L) (z : L) :
    (l.map fun p => Function.update rem n z p.1).sum = (l.map fun p => rem p.1).sum := by
  refine congrArg List.sum (List.map_congr_left fun p hp => Function.update_of_ne ?_ z rem)
  rintro rfl
  exact hn (List.mem_map_of_mem hp)

theorem sum_update {α L : Type} [AddCommMonoid L] {n : Nat} {y z : L} {rem : Nat → L}
    (h : rem n = y + z) {l : List (Nat × α)} (hl : (l.map (·.1)).Nodup) (hn : n ∈ l.map (·.1)) :
    (l.map fun p => rem p.1).sum = y + (l.map fun p => Function.update rem n z p.1).sum := by
  induction l with
  | nil => cases hn
  | cons p l ih =>
    rw [List.map_cons, List.nodup_cons] at hl
    rw [List.map_cons, List.map_cons, List.sum_cons, List.sum_cons]
    by_cases hp : p.1 = n
    · rw [hp] at hl
      rw [sum_update_of_not_mem hl.1, hp, Function.update_self, h, add_assoc]
    · have hn' : n ∈ l.map (·.1) := (List.mem_cons.mp hn).resolve_left (Ne.symm hp)
      rw [ih hl.2 hn', Function.update_of_ne hp, add_left_comm]

namespace Dispatcher

section Steps

variable {σ : Type} {w : Worker σ} (d : Dispatcher σ) (n : Nat)
  (rest : Task σ (Except CacheError Response))

theorem afterFetch_fetching :
    (∀ p ∈ (d.afterFetch n rest).fetching, (p ∈ d.fetching ∧ p.1 ≠ n) ∨ p = (n, rest)) ∧
      (∀ k ∈ d.fetching.map (·.1), k ∈ (d.afterFetch n rest).fetching.map (·.1) ∨
        k = n ∧ ∃ a, rest.result? = some a) ∧
      (d.afterFetch n rest).replies =
        (rest.result?.map fun a => (n, Reply.ofFetch a)).toList ++ d.replies := by
  have hended : (∀ p ∈ d.fetching.filter fun f => f.1 ≠ n, (p ∈ d.fetching ∧ p.1 ≠ n) ∨
        p = (n, rest)) ∧ ∀ k ∈ d.fetching.map (·.1),
          k ∈ (d.fetching.filter fun f => f.1 ≠ n).map (·.1) ∨ k = n := by
    refine ⟨fun p hp => ?_, fun k hk => ?_⟩
    · rw [List.mem_filter, decide_eq_true_eq] at hp
      exact .inl hp
    · obtain ⟨p, hp, rfl⟩ := List.mem_map.mp hk
      by_cases hpn : p.1 = n
      · exact .inr hpn
      · exact .inl (List.mem_map_of_mem (List.mem_filter.mpr ⟨hp, decide_eq_true hpn⟩))
  have hgoes : (∀ p ∈ d.fetching.map fun f => if f.1 = n then (n, rest) else f,
        (p ∈ d.fetching ∧ p.1 ≠ n) ∨ p = (n, rest)) ∧ ∀ k ∈ d.fetching.map (·.1),
          k ∈ (d.fetching.map fun f => if f.1 = n then (n, rest) else f).map (·.1) := by
    refine ⟨fun p hp => ?_, fun k hk => ?_⟩
    · obtain ⟨f, hf, rfl⟩ := List.mem_map.mp hp
      by_cases hfn : f.1 = n
      · exact .inr (if_pos hfn)
      · rw [if_neg hfn]
        exact .inl ⟨hf, hfn⟩
    · obtain ⟨p, hp, rfl⟩ := List.mem_map.mp hk
      refine List.mem_map.mpr ⟨_, List.mem_map_of_mem hp, ?_⟩
      by_cases hpn : p.1 = n <;> simp [hpn]
  cases rest with
  | done a => exact ⟨hended.1, fun k hk => (hended.2 k hk).imp id fun h => ⟨h, _, rfl⟩, rfl⟩
  | crash => exact ⟨hended.1, fun k hk => (hended.2 k hk).imp id fun h => ⟨h, _, rfl⟩, rfl⟩
  | wait next => exact ⟨hgoes.1, fun k hk => .inl (hgoes.2 k hk), rfl⟩
  | act step next => exact ⟨hgoes.1, fun k hk => .inl (hgoes.2 k hk), rfl⟩

end Steps

variable {σ L : Type} [AddCommMonoid L] {w : Worker σ} {acc : L → σ → σ → Prop} {s : σ}
  {d d' : Dispatcher σ} {g : Ledger σ} {n : Nat} {e : Event}

/-- A ticket is the place of its event among all that came. -/
theorem Inv.mem_entered_iff (h : Inv w g d) :
    (n, e) ∈ g.entered ↔ (g.entered.map (·.2))[n]? = some e := by
  have hplace : ∀ (k : Nat) (p : Nat × Event), g.entered[k]? = some p → p.1 = k := by
    intro k p hp
    have htickets : (g.entered.map (·.1))[k]? = (List.range d.sent)[k]? := by rw [h.tickets]
    rw [List.getElem?_map, hp] at htickets
    obtain ⟨_, hk⟩ := List.getElem?_eq_some_iff.mp htickets.symm
    rw [List.getElem_range] at hk
    exact hk.symm
  rw [List.getElem?_map, Option.map_eq_some_iff]
  constructor
  · intro hmem
    obtain ⟨k, hk⟩ := List.mem_iff_getElem?.mp hmem
    cases hplace k _ hk
    exact ⟨_, hk, rfl⟩
  · rintro ⟨p, hp, rfl⟩
    cases hplace n p hp
    exact List.mem_of_getElem? hp

/-- Where nobody can do anything but send, all events that came have a reply. -/
theorem Run.answered_of_stuck {capacity : Nat} {l : Trace σ} (h : Run w (.begin capacity s) l d)
    (hstuck : ∀ a, (∀ e, a ≠ .send e) → d.step w a = none) :
    ∀ p ∈ Trace.entered l, p.1 ∈ (Trace.replied l).map (·.1) := by
  have hinstalling : d.installing = none := by
    refine Option.eq_none_iff_forall_ne_some.mpr fun p hp => ?_
    have hstep := hstuck .install fun _ h => by cases h
    rw [Dispatcher.step, hp] at hstep
    cases hstep
  have hfetching : d.fetching = [] := by
    refine List.eq_nil_iff_forall_not_mem.mpr fun p hp => ?_
    have hstep := hstuck (.fetch p.1) fun _ h => by cases h
    rw [Dispatcher.step, lookup_of_nodup h.inv.nodup hp] at hstep
    cases hstep
  have hqueue : d.queue = [] := by
    obtain ⟨rest, -, -, hstop⟩ := h.inv.waiting
    cases hr : d.running with
    | false => exact (hstop hr).1
    | true =>
      have hstep := hstuck .take fun _ h => by cases h
      rw [Dispatcher.step, hr, hinstalling] at hstep
      by_contra hne
      simp [hne] at hstep
  exact fun p hp => h.inv.replied_of_idle ⟨hqueue, hinstalling, hfetching⟩ hp

theorem Run.replyTo_eq {capacity : Nat} {l : Trace σ} {r : Reply} (h : Run w (.begin capacity s) l d)
    (hreplies : d.replies = (Trace.replied l).reverse) (hr : (n, r) ∈ Trace.replied l) :
    d.replyTo n = r := by
  have honce : ((Trace.replied l).reverse.map (·.1)).Nodup := by
    rw [List.map_reverse, List.nodup_reverse]
    exact h.inv.once
  rw [replyTo, hreplies, lookup_of_nodup honce (List.mem_reverse.mpr hr)]
  rfl

/-- What a batch will come to. Its install, if there is one, has `result` and leads to `state`; from
then on a fetch adds its share and comes to its answer. -/
structure Forecast (w : Worker σ) (acc : L → σ → σ → Prop) (s : σ) where
  result : Option (Except InstallError Unit)
  state : σ
  share : Request → L
  answer : Request → Option (Except CacheError Response)
  install : match result with
    | none => state = s
    | some result => w.install.run s = (some result, state)
  fetch : ∀ r, (w.fetch r).Adds acc (answer r) (share r) state

namespace Forecast

variable {f : Forecast w acc s}

def events (f : Forecast w acc s) (requests : List Request) : List Event :=
  (f.result.map fun _ => Event.install).toList ++ requests.map .fetch

def reply? (f : Forecast w acc s) : Event → Option Reply
  | .install => f.result.map .installed
  | .fetch r => some (.ofFetch (f.answer r))

def load (f : Forecast w acc s) : Event → L
  | .install => 0
  | .fetch r => f.share r

def Expects (f : Forecast w acc s) (p : Nat × Event) : Prop :=
  p.2 = .install ↔ f.result.isSome = true ∧ p.1 = 0

structure Before (f : Forecast w acc s) (g : Ledger σ) (d : Dispatcher σ) : Prop where
  expected : f.result.isSome = true
  taken : g.taken = []
  installing : d.installing = none
  shared : d.shared = s

structure Installing (f : Forecast w acc s) (g : Ledger σ) (d : Dispatcher σ) : Prop where
  taken : g.taken = [(0, .install)]
  replied : g.replied = []
  install : ∃ t result, d.installing = some (0, t) ∧ f.result = some result ∧
    t.run d.shared = (some result, f.state)

/-- No install is left. What has been added, `x`, and what the fetches that go on have still to add
are the shares of all that were taken. -/
structure Fetching (f : Forecast w acc s) (g : Ledger σ) (d : Dispatcher σ) : Prop where
  running : d.running = true
  installing : d.installing = none
  installed : f.result.isSome = true → (0, .install) ∈ g.taken
  shares : ∃ (x : L) (rem : Nat → L), acc x f.state d.shared ∧
    (∀ p ∈ d.fetching, ∃ r, (p.1, .fetch r) ∈ g.taken ∧
      p.2.Adds acc (f.answer r) (rem p.1) d.shared) ∧
    (∀ n, n ∉ d.fetching.map (·.1) → rem n = 0) ∧
    x + (g.taken.map fun p => rem p.1).sum = (g.taken.map fun p => f.load p.2).sum
  replied : ∀ p ∈ g.replied, ∃ e, (p.1, e) ∈ g.taken ∧ f.reply? e = some p.2

inductive Course (f : Forecast w acc s) (g : Ledger σ) (d : Dispatcher σ) : Prop
  | before (h : f.Before g d)
  | installing (h : f.Installing g d)
  | fetching (h : f.Fetching g d)

theorem course_begin (f : Forecast w acc s) (hacc : Accumulates acc) (capacity : Nat) :
    f.Course (Trace.ledger []) (.begin capacity s) := by
  have hstate := f.install
  cases hr : f.result with
  | some result => exact .before ⟨by rw [hr]; rfl, rfl, rfl, rfl⟩
  | none =>
    rw [hr] at hstate
    refine .fetching ⟨rfl, rfl, fun h => ?_, ⟨0, fun _ => 0, ?_, fun _ hp => (nomatch hp),
      fun _ _ => rfl, zero_add _⟩, fun _ hp => (nomatch hp)⟩
    · rw [hr] at h
      cases h
    · rw [hstate]
      exact hacc.nothing s

theorem Before.take (h : f.Before g d) (hinv : Inv w g d) (hexp : ∀ p ∈ g.entered, f.Expects p)
    (hr : d.running = true) {queue : List (Nat × Event)} (hq : d.queue = (n, e) :: queue) :
    f.Installing (g.take n e) (d.take w) := by
  obtain ⟨rest, hrest, hqueue, -⟩ := hinv.waiting
  rw [h.taken, List.nil_append, ← hqueue hr, hq] at hrest
  have hn : n = 0 := by
    have htickets := hinv.tickets
    rw [hrest, List.map_cons] at htickets
    cases hsent : d.sent with
    | zero =>
      rw [hsent] at htickets
      cases htickets
    | succ k =>
      rw [hsent, List.range_succ_eq_map] at htickets
      exact (List.cons.inj htickets).1
  subst hn
  have he : e = .install :=
    (hexp (0, e) (hrest ▸ List.mem_cons_self)).mpr ⟨h.expected, rfl⟩
  subst he
  obtain ⟨result, hresult⟩ := Option.isSome_iff_exists.mp h.expected
  have hinstall := f.install
  rw [hresult] at hinstall
  have hreplied : g.replied = [] := by
    refine List.eq_nil_iff_forall_not_mem.mpr fun p hp => ?_
    obtain ⟨e, he, -⟩ := hinv.taken_of_replied hr hp
    rw [h.taken] at he
    cases he
  rw [Dispatcher.take.eq_def, hq]
  refine ⟨?_, hreplied, w.install, result, rfl, hresult, ?_⟩
  · rw [Ledger.take, h.taken]
    rfl
  · rw [← hinstall, ← h.shared]

namespace Fetching

variable {r : Request} {queue : List (Nat × Event)} {t : Task σ (Except CacheError Response)}

theorem take (h : f.Fetching g d) (hinv : Inv w g d) (hacc : Accumulates acc)
    (hr : d.running = true) (hq : d.queue = (n, .fetch r) :: queue) :
    f.Fetching (g.take n (.fetch r)) (d.take w) := by
  obtain ⟨hnew, -⟩ := hinv.untouched_of_queue hr (n := n) (by simp [hq])
  obtain ⟨x, rem, hx, hfetching, hzero, hsum⟩ := h.shares
  rw [Dispatcher.take.eq_def, hq]
  refine ⟨hr, h.installing, fun hsome => List.mem_append_left _ (h.installed hsome),
    ⟨x, Function.update rem n (f.share r), hx, fun p hp => ?_, fun k hk => ?_, ?_⟩, fun p hp => ?_⟩
  · obtain hp | hp := List.mem_append.mp hp
    · obtain ⟨q, htaken, hadds⟩ := hfetching p hp
      refine ⟨q, List.mem_append_left _ htaken, ?_⟩
      rw [Function.update_of_ne]
      · exact hadds
      · rintro rfl
        exact hnew (List.mem_map_of_mem htaken)
    · cases List.mem_singleton.mp hp
      refine ⟨r, List.mem_append_right _ List.mem_cons_self, ?_⟩
      rw [Function.update_self]
      exact (f.fetch r).others hacc hx
  · rw [List.map_append, List.mem_append, not_or] at hk
    rw [Function.update_of_ne fun heq => hk.2 (List.mem_singleton.mpr heq)]
    exact hzero k hk.1
  · rw [Ledger.take, List.map_append, List.map_append, List.sum_append, List.sum_append,
      sum_update_of_not_mem hnew, ← add_assoc, hsum]
    simp [load]
  · obtain ⟨e, htaken, hreply⟩ := h.replied p hp
    exact ⟨e, List.mem_append_left _ htaken, hreply⟩

theorem work (h : f.Fetching g d) (hinv : Inv w g d) (hacc : Accumulates acc)
    (ht : (n, t) ∈ d.fetching)
    (hd : d' = { d with shared := (t.advance d.shared).2 }.afterFetch n (t.advance d.shared).1) :
    f.Fetching ((g.work n d.shared).reply (d.newReplies d')) d' := by
  obtain ⟨x, rem, hx, hfetching, hzero, hsum⟩ := h.shares
  obtain ⟨r, htaken, hadds⟩ := hfetching _ ht
  obtain ⟨y, z, hyz, hy, hz⟩ := hadds.advance hacc
  obtain ⟨hpart, hgone, hreplies⟩ :=
    afterFetch_fetching { d with shared := (t.advance d.shared).2 } n (t.advance d.shared).1
  obtain ⟨-, hrunning, -⟩ :=
    afterFetch_queue { d with shared := (t.advance d.shared).2 } n (t.advance d.shared).1
  obtain ⟨hshared, hinstalling, -⟩ :=
    afterFetch_spec { d with shared := (t.advance d.shared).2 } n (t.advance d.shared).1
  rw [← hd] at hpart hgone hreplies hrunning hshared hinstalling
  have hnodup : (g.taken.map (·.1)).Nodup := by
    obtain ⟨rest, hrest, -⟩ := hinv.waiting
    have hentered : (g.entered.map (·.1)).Nodup := hinv.tickets ▸ List.nodup_range
    rw [hrest, List.map_append] at hentered
    exact hentered.of_append_left
  refine ⟨hrunning.trans h.running, hinstalling.trans h.installing, h.installed,
    ⟨x + y, Function.update rem n z, ?_, fun p hp => ?_, fun k hk => ?_, ?_⟩, fun p hp => ?_⟩
  · rw [hshared]
    exact hacc.both hx hy
  -- of the fetches that go on, only this one has less to add than before
  · rw [hshared]
    obtain ⟨hp, hpn⟩ | rfl := hpart p hp
    · obtain ⟨q, hq, hadds⟩ := hfetching p hp
      rw [Function.update_of_ne hpn]
      exact ⟨q, hq, hadds.others hacc hy⟩
    · rw [Function.update_self]
      exact ⟨r, htaken, hz⟩
  · by_cases hkn : k = n
    · subst hkn
      obtain hmem | ⟨-, a, ha⟩ := hgone k (List.mem_map_of_mem ht)
      · exact absurd hmem hk
      · rw [Function.update_self]
        exact (hz.of_result? ha).1
    · rw [Function.update_of_ne hkn]
      refine hzero k fun hmem => ?_
      obtain hmem | ⟨heq, -⟩ := hgone k hmem
      · exact hk hmem
      · exact hkn heq
  · have hleft := sum_update hyz hnodup (List.mem_map_of_mem htaken)
    change x + y + (g.taken.map _).sum = (g.taken.map _).sum
    rw [add_assoc, ← hleft, hsum]
  · obtain hp | hp := List.mem_append.mp hp
    · exact h.replied p hp
    · have hnew : d.newReplies d' = _ := newReplies_eq _ hreplies
      rw [hnew, List.mem_reverse, Option.mem_toList] at hp
      obtain ⟨a, ha, rfl⟩ := Option.map_eq_some_iff.mp hp
      exact ⟨.fetch r, htaken, by rw [reply?, (hz.of_result? ha).2]⟩

end Fetching

/-- An install that goes on comes to what it would come to alone; nothing else goes on meanwhile. -/
theorem Installing.work (h : f.Installing g d) (hinv : Inv w g d) (hacc : Accumulates acc)
    {t : Task σ (Except InstallError Unit)} (hi : d.installing = some (n, t))
    (hd : d' = { d with shared := (t.advance d.shared).2 }.afterInstall n (t.advance d.shared).1) :
    f.Course ((g.work n d.shared).reply (d.newReplies d')) d' := by
  obtain ⟨t', result, hinstalling, hresult, hrun⟩ := h.install
  cases hi.symm.trans hinstalling
  rw [← Task.run_advance] at hrun
  generalize t.advance d.shared = advanced at hrun hd
  obtain ⟨rest, s'⟩ := advanced
  subst hd
  have hgoes : ∀ {d' : Dispatcher σ}, d'.replies = d.replies → d'.installing = some (0, rest) →
      d'.shared = s' → f.Course ((g.work 0 d.shared).reply (d.newReplies d')) d' := by
    intro d' hreplies hinstalling hshared
    rw [newReplies_eq [] hreplies]
    refine .installing ⟨h.taken, ?_, rest, result, hinstalling, hresult, hshared.symm ▸ hrun⟩
    exact (List.append_nil _).trans h.replied
  cases rest with
  | done result' =>
    cases hrun
    have hnone : d.fetching = [] := by
      refine List.eq_nil_iff_forall_not_mem.mpr fun p hp => ?_
      obtain ⟨r, htaken, -⟩ := hinv.fetching p hp
      rw [h.taken] at htaken
      cases (Prod.mk.inj (List.mem_singleton.mp htaken)).2
    rw [newReplies_eq [(0, .installed result)] rfl]
    refine .fetching ⟨hinv.running_of_installing hi, rfl, fun _ => ?_,
      ⟨0, fun _ => 0, hacc.nothing _, fun p hp => ?_, fun _ _ => rfl, ?_⟩, fun p hp => ?_⟩
    · exact h.taken ▸ List.mem_cons_self
    · have hmem : p ∈ d.fetching := hp
      rw [hnone] at hmem
      cases hmem
    · change 0 + (g.taken.map _).sum = (g.taken.map _).sum
      rw [h.taken]
      simp [load]
    · have hmem : p ∈ g.replied ++ [(0, .installed result)] := hp
      rw [h.replied] at hmem
      cases List.mem_singleton.mp hmem
      exact ⟨.install, h.taken ▸ List.mem_cons_self, by rw [reply?, hresult]; rfl⟩
  | crash => cases hrun
  | wait next => exact hgoes rfl rfl rfl
  | act step next => exact hgoes rfl rfl rfl

namespace Course

theorem send (h : f.Course g d) (e : Event) : f.Course (g.enter d.sent e) (d.enqueue e) := by
  cases h with
  | before h => exact .before { h with }
  | installing h => exact .installing { h with }
  | fetching h => exact .fetching { h with }

theorem take (h : f.Course g d) (hinv : Inv w g d) (hacc : Accumulates acc)
    (hexp : ∀ p ∈ g.entered, f.Expects p) (hr : d.running = true) (hi : d.installing = none)
    {queue : List (Nat × Event)} (hq : d.queue = (n, e) :: queue) :
    f.Course (g.take n e) (d.take w) := by
  cases h with
  | before h => exact .installing (h.take hinv hexp hr hq)
  | installing h =>
    obtain ⟨t, result, hinstalling, -⟩ := h.install
    cases hi.symm.trans hinstalling
  | fetching h =>
    obtain ⟨hentered, -⟩ := hinv.not_taken_of_queue hr (q := (n, e)) (hq ▸ List.mem_cons_self)
    cases e with
    | fetch r => exact .fetching (h.take hinv hacc hr hq)
    | install =>
      obtain ⟨hnew, -⟩ := hinv.untouched_of_queue hr (n := n) (by simp [hq])
      obtain ⟨hsome, rfl⟩ := (hexp _ hentered).mp rfl
      exact absurd (List.mem_map_of_mem (h.installed hsome)) hnew

theorem workInstall (h : f.Course g d) (hinv : Inv w g d) (hacc : Accumulates acc)
    {t : Task σ (Except InstallError Unit)} (hi : d.installing = some (n, t))
    (hd : d' = { d with shared := (t.advance d.shared).2 }.afterInstall n (t.advance d.shared).1) :
    f.Course ((g.work n d.shared).reply (d.newReplies d')) d' := by
  cases h with
  | before h => cases hi.symm.trans h.installing
  | installing h => exact h.work hinv hacc hi hd
  | fetching h => cases hi.symm.trans h.installing

theorem workFetch (h : f.Course g d) (hinv : Inv w g d) (hacc : Accumulates acc)
    {t : Task σ (Except CacheError Response)} (ht : (n, t) ∈ d.fetching)
    (hd : d' = { d with shared := (t.advance d.shared).2 }.afterFetch n (t.advance d.shared).1) :
    f.Course ((g.work n d.shared).reply (d.newReplies d')) d' := by
  obtain ⟨r, htaken, -⟩ := hinv.fetching _ ht
  cases h with
  | before h =>
    rw [h.taken] at htaken
    cases htaken
  | installing h =>
    rw [h.taken] at htaken
    cases List.mem_singleton.mp htaken
  | fetching h => exact .fetching (h.work hinv hacc ht hd)

variable {l l' : Trace σ}

theorem move (h : f.Course l.ledger d) (hinv : Inv w l.ledger d) (hacc : Accumulates acc)
    (hexp : ∀ p ∈ Trace.entered l, f.Expects p) (hm : Move w d l' d') :
    f.Course (Trace.ledger (l ++ l')) d' := by
  cases hm with
  | send hr hroom e =>
    rw [Trace.ledger_entered]
    exact h.send e
  | take hr hi hq =>
    rw [Trace.ledger_taken]
    exact h.take hinv hacc hexp hr hi hq
  | install hi hd =>
    rw [← List.append_assoc, Trace.ledger_ofReplies, Trace.ledger_worked]
    exact h.workInstall hinv hacc hi hd
  | fetch ht hd =>
    rw [← List.append_assoc, Trace.ledger_ofReplies, Trace.ledger_worked]
    exact h.workFetch hinv hacc ht hd

theorem run {l₀ : Trace σ} {d₀ : Dispatcher σ} (h : f.Course l₀.ledger d₀)
    (hinv : Inv w l₀.ledger d₀) (hacc : Accumulates acc) (hr : Run w d₀ l d)
    (hexp : ∀ p ∈ Trace.entered (l₀ ++ l), f.Expects p) : f.Course (Trace.ledger (l₀ ++ l)) d := by
  induction hr with
  | refl => rwa [List.append_nil]
  | @step d₁ d₂ l hr a hs ih =>
    rw [← List.append_assoc] at hexp ⊢
    have hexp' : ∀ p ∈ Trace.entered (l₀ ++ l), f.Expects p := fun p hp =>
      hexp p (by rw [Trace.entered_append]; exact List.mem_append_left _ hp)
    exact (ih hexp').move (hinv.run hr) hacc hexp' (move_of_step hs)
  | settle _ ih =>
    cases ih hexp with
    | before h => exact .before { h with }
    | installing h => exact .installing { h with }
    | fetching h => exact .fetching { h with }

end Course

variable {l : Trace σ} {requests : List Request} {capacity : Nat}

theorem expects_of_events (f : Forecast w acc s)
    (h : (f.events requests)[n]? = some e) : f.Expects (n, e) := by
  rw [events] at h
  cases hr : f.result with
  | none =>
    rw [hr] at h
    obtain ⟨r, -, rfl⟩ := List.mem_map.mp (List.mem_of_getElem? h)
    exact ⟨fun h => (nomatch h), fun h => by rw [hr] at h; cases h.1⟩
  | some result =>
    rw [hr] at h
    cases n with
    | zero =>
      cases h
      exact ⟨fun _ => ⟨by rw [hr]; rfl, rfl⟩, fun _ => rfl⟩
    | succ n =>
      obtain ⟨r, -, rfl⟩ := List.mem_map.mp (List.mem_of_getElem? h)
      exact ⟨fun h => (nomatch h), fun h => (nomatch h.2)⟩

theorem sum_load (f : Forecast w acc s) (requests : List Request) :
    ((f.events requests).map f.load).sum = (requests.map f.share).sum := by
  have hfetches : ((requests.map Event.fetch).map f.load).sum = (requests.map f.share).sum := by
    rw [List.map_map]
    rfl
  rw [events, List.map_append, List.sum_append, hfetches]
  cases f.result <;> simp [load]

theorem Fetching.all_taken (h : f.Fetching g d) (hinv : Inv w g d)
    (hall : ∀ p ∈ g.entered, g.IsReplied p.1) : d.fetching = [] ∧ g.entered = g.taken := by
  obtain ⟨rest, hrest, hqueue, -⟩ := hinv.waiting
  constructor
  · refine List.eq_nil_iff_forall_not_mem.mpr fun p hp => ?_
    obtain ⟨r, htaken, -, hno⟩ := hinv.fetching p hp
    exact hno (hall _ (hinv.mem_entered htaken))
  · have hnil : d.queue = [] := by
      refine List.eq_nil_iff_forall_not_mem.mpr fun q hq => ?_
      obtain ⟨-, -, hno⟩ := hinv.untouched_of_queue h.running (List.mem_map_of_mem hq)
      exact hno (hall q (hinv.not_taken_of_queue h.running hq).1)
    rw [hrest, ← hqueue h.running, hnil, List.append_nil]

theorem Before.running (h : f.Before g d) (hinv : Inv w g d) : d.running = true := by
  by_contra hstop
  obtain ⟨n, htaken, -⟩ := hinv.stopped.mp (Bool.eq_false_iff.mpr hstop)
  rw [h.taken] at htaken
  cases htaken

theorem Course.running (h : f.Course g d) (hinv : Inv w g d) : d.running = true := by
  cases h with
  | before h => exact h.running hinv
  | installing h =>
    obtain ⟨t, result, hinstalling, -⟩ := h.install
    exact hinv.running_of_installing hinstalling
  | fetching h => exact h.running

theorem Course.fetching_of_replied (h : f.Course g d) (hinv : Inv w g d)
    (hentered : g.entered.map (·.2) = f.events requests)
    (hall : ∀ p ∈ g.entered, g.IsReplied p.1) : f.Fetching g d := by
  cases h with
  | fetching h => exact h
  | before h =>
    obtain ⟨result, hresult⟩ := Option.isSome_iff_exists.mp h.expected
    have hfirst : (g.entered.map (·.2))[0]? = some .install := by
      rw [hentered, events, hresult]
      rfl
    obtain ⟨p, hp, -⟩ := List.mem_map.mp (hall _ (hinv.mem_entered_iff.mpr hfirst))
    obtain ⟨e, htaken, -⟩ := hinv.taken_of_replied (h.running hinv) hp
    rw [h.taken] at htaken
    cases htaken
  | installing h =>
    have hreplied := hall _ (hinv.mem_entered (h.taken ▸ List.mem_cons_self))
    rw [Ledger.IsReplied, h.replied] at hreplied
    cases hreplied

theorem course_of_run (f : Forecast w acc s) (hacc : Accumulates acc)
    (hrun : Run w (.begin capacity s) l d)
    (hevents : (Trace.entered l).map (·.2) <+: f.events requests) : f.Course l.ledger d := by
  have hbegin : f.Course (Trace.ledger []) (.begin capacity s) := f.course_begin hacc capacity
  refine hbegin.run (.begin w capacity s) hacc hrun fun ⟨n, e⟩ hp => ?_
  obtain ⟨rest, hrest⟩ := hevents
  have hplace : ((Trace.entered l).map (·.2))[n]? = some e := hrun.inv.mem_entered_iff.mp hp
  have hevent : (f.events requests)[n]? = some e := by
    rw [← hrest, List.getElem?_append_left (List.getElem?_eq_some_iff.mp hplace).1, hplace]
  exact f.expects_of_events hevent

/-- Once all events of a batch have replies, these are what was forecast, and what has been added is the
shares of all fetches, whatever the order was in which steps were taken. -/
theorem comes_true (f : Forecast w acc s) (hacc : Accumulates acc)
    (hrun : Run w (.begin capacity s) l d)
    (hentered : (Trace.entered l).map (·.2) = f.events requests)
    (hall : ∀ p ∈ Trace.entered l, p.1 ∈ (Trace.replied l).map (·.1)) :
    acc (requests.map f.share).sum f.state d.shared ∧ ∀ n r,
      (n, r) ∈ Trace.replied l ↔ ∃ e, (f.events requests)[n]? = some e ∧ f.reply? e = some r := by
  have hinv := hrun.inv
  have hplace : ∀ {n e}, (n, e) ∈ Trace.entered l ↔ (f.events requests)[n]? = some e := by
    intro n e
    rw [← hentered]
    exact hinv.mem_entered_iff
  have hcourse := f.course_of_run hacc hrun ⟨[], by rw [List.append_nil, hentered]⟩
  have hdone := hcourse.fetching_of_replied hinv hentered hall
  obtain ⟨hnone, htaken⟩ := hdone.all_taken hinv hall
  have hforecast : ∀ p ∈ Trace.replied l,
      ∃ e, (f.events requests)[p.1]? = some e ∧ f.reply? e = some p.2 := by
    intro p hp
    obtain ⟨e, he, hreply⟩ := hdone.replied p hp
    exact ⟨e, hplace.mp (hinv.mem_entered he), hreply⟩
  constructor
  -- nothing is left to add, so that what has been added is all of the shares
  · obtain ⟨x, rem, hx, -, hzero, hsum⟩ := hdone.shares
    have hleft : (l.ledger.taken.map fun p => rem p.1).sum = 0 := by
      refine List.sum_eq_zero fun y hy => ?_
      obtain ⟨p, -, rfl⟩ := List.mem_map.mp hy
      exact hzero p.1 (by rw [hnone]; exact List.not_mem_nil)
    have hloads : (l.ledger.taken.map fun p => f.load p.2) = (f.events requests).map f.load := by
      rw [← htaken, ← hentered, List.map_map]
      rfl
    rw [hleft, hloads, f.sum_load, add_zero] at hsum
    exact hsum ▸ hx
  · refine fun n r => ⟨fun hr => hforecast _ hr, fun ⟨e, he, hr⟩ => ?_⟩
    obtain ⟨p, hp, hpn⟩ := List.mem_map.mp (hall _ (hplace.mpr he))
    obtain ⟨e', he', hr'⟩ := hforecast p hp
    rw [hpn, he, Option.some.injEq] at he'
    rw [← he', hr, Option.some.injEq] at hr'
    exact (Prod.ext hpn hr'.symm : p = (n, r)) ▸ hp

/-- A single thread can send all events of a batch, whatever room the queue has, and then finds the
replies that were forecast. -/
theorem batch_run (f : Forecast w acc s) (hacc : Accumulates acc) (capacity : Nat)
    (requests : List Request) : ∃ l d, Run w (.begin capacity s) l d ∧
      (Trace.entered l).map (·.2) = f.events requests ∧
      (∀ p ∈ Trace.entered l, p.1 ∈ (Trace.replied l).map (·.1)) ∧
      (begin capacity s).batch w (f.events requests) =
        (.ok ((f.events requests).map fun e => (f.reply? e).getD .dropped), d) := by
  have hshaped : (begin capacity s).Shaped := .begin capacity s
  obtain ⟨sent, ⟨l, hrun, rfl, hreplies⟩, hcase⟩ :=
    leads_sendAll (w := w) hshaped (f.events requests)
  rw [batch]
  generalize (begin capacity s).sendAll w (f.events requests) = all at hrun hreplies hcase ⊢
  obtain ⟨possible, d⟩ := all
  obtain ⟨rfl, hentered⟩ | ⟨-, hentered, hstopped⟩ := hcase
  · obtain ⟨⟨l', hdrain, hnone, hreplies'⟩, hidle⟩ := leads_drain (w := w) (hrun.shaped hshaped)
    have hrun' := hrun.trans hdrain
    have hentered' : Trace.entered (l ++ l') = Trace.entered l := by
      rw [Trace.entered_append, hnone, List.append_nil]
    have hall : ∀ p ∈ Trace.entered (l ++ l'), p.1 ∈ (Trace.replied (l ++ l')).map (·.1) :=
      fun p hp => hrun'.inv.replied_of_idle hidle hp
    rw [← hentered'] at hentered
    obtain ⟨-, hforecast⟩ := f.comes_true hacc hrun' hentered hall
    have hlist : (d.drain w).replies = (Trace.replied (l ++ l')).reverse := by
      rw [hreplies', hreplies, Trace.replied_append, List.reverse_append]
      exact congrArg _ (List.append_nil _)
    have hreply : ∀ i e, (f.events requests)[i]? = some e →
        (d.drain w).replyTo i = (f.reply? e).getD .dropped := by
      intro i e he
      have hmem : (i, e) ∈ Trace.entered (l ++ l') :=
        hrun'.inv.mem_entered_iff.mpr (hentered ▸ he)
      obtain ⟨⟨_, r⟩, hr, rfl⟩ := List.mem_map.mp (hall _ hmem)
      obtain ⟨e', he', hr'⟩ := (hforecast _ r).mp hr
      cases he.symm.trans he'
      rw [hrun'.replyTo_eq hlist hr, hr']
      rfl
    refine ⟨l ++ l', _, hrun'.settle, hentered, hall, Prod.ext (congrArg Except.ok ?_) rfl⟩
    refine List.ext_getElem (by simp) fun i hi hi' => ?_
    rw [List.length_map] at hi'
    rw [List.getElem_map, List.getElem_map, List.getElem_range,
      ← hreply i _ (List.getElem?_eq_getElem hi')]
    exact congrArg _ (Nat.zero_add i)
  -- only the crash of an install would keep events from being sent
  · have hcourse := f.course_of_run hacc hrun hentered
    cases (hcourse.running hrun.inv).symm.trans hstopped

end Forecast

end Dispatcher

end AssetCache
