import AssetCache.Proofs.Delivery.Run
import Mathlib.Data.List.Range

namespace AssetCache

variable {σ : Type}

/-- What has happened so far to the events: which of them came, which were taken, what replies there
were and the states from which the call for each took its steps. -/
structure Ledger (σ : Type) where
  entered : List (Nat × Event)
  taken : List (Nat × Event)
  replied : List (Nat × Reply)
  states : Nat → List σ

namespace Ledger

def enter (g : Ledger σ) (n : Nat) (e : Event) : Ledger σ :=
  { g with entered := g.entered ++ [(n, e)] }

def take (g : Ledger σ) (n : Nat) (e : Event) : Ledger σ := { g with taken := g.taken ++ [(n, e)] }

def work (g : Ledger σ) (n : Nat) (s : σ) : Ledger σ :=
  { g with states := fun k => if k = n then g.states k ++ [s] else g.states k }

def reply (g : Ledger σ) (replies : List (Nat × Reply)) : Ledger σ :=
  { g with replied := g.replied ++ replies }

theorem states_work_self (g : Ledger σ) (n : Nat) (s : σ) :
    (g.work n s).states n = g.states n ++ [s] := if_pos rfl

theorem states_work_of_ne (g : Ledger σ) {k n : Nat} (h : k ≠ n) (s : σ) :
    (g.work n s).states k = g.states k := if_neg h

def IsReplied (g : Ledger σ) (n : Nat) : Prop := n ∈ g.replied.map (·.1)

/-- The reply of an event is that of its own call, or tells that there was none because the call of
an install before it had crashed. -/
inductive Answers (w : Worker σ) (g : Ledger σ) (n : Nat) (e : Event) : Reply → Prop
  | own {r : Reply} (ht : (n, e) ∈ g.taken) (hr : w.reply? (g.states n) e = some r) :
    Answers w g n e r
  | left {m : Nat} (ht : (n, e) ∉ g.taken) (hm : m < n) (hinstall : (m, .install) ∈ g.taken)
    (hcrash : (m, .dropped) ∈ g.replied) : Answers w g n e .dropped

theorem Answers.reply {w : Worker σ} {g : Ledger σ} {n : Nat} {e : Event} {r : Reply}
    (h : g.Answers w n e r) (replies : List (Nat × Reply)) : (g.reply replies).Answers w n e r := by
  cases h with
  | own ht hr => exact .own ht hr
  | left ht hm hinstall hcrash => exact .left ht hm hinstall (List.mem_append_left _ hcrash)

theorem isReplied_reply {g : Ledger σ} {replies : List (Nat × Reply)} {n : Nat} :
    (g.reply replies).IsReplied n ↔ g.IsReplied n ∨ n ∈ replies.map (·.1) := by
  rw [IsReplied, Ledger.reply, List.map_append, List.mem_append, IsReplied]

end Ledger

namespace Trace

def ledger (l : Trace σ) : Ledger σ := ⟨entered l, taken l, replied l, states l⟩

variable {l : Trace σ} {n : Nat}

theorem ledger_append (l l' : Trace σ) : ledger (l ++ l') =
    ⟨entered l ++ entered l', taken l ++ taken l', replied l ++ replied l',
      fun n => states l n ++ states l' n⟩ := by
  rw [ledger, entered_append, taken_append, replied_append, Ledger.mk.injEq]
  exact ⟨rfl, rfl, rfl, funext fun n => states_append l l' n⟩

theorem ledger_entered (e : Event) : ledger (l ++ [.entered n e]) = (ledger l).enter n e := by
  rw [ledger_append, Ledger.enter, ledger, Ledger.mk.injEq]
  exact ⟨rfl, List.append_nil _, List.append_nil _, funext fun _ => List.append_nil _⟩

theorem ledger_taken (e : Event) : ledger (l ++ [.taken n e]) = (ledger l).take n e := by
  rw [ledger_append, Ledger.take, ledger, Ledger.mk.injEq]
  exact ⟨List.append_nil _, rfl, List.append_nil _, funext fun _ => List.append_nil _⟩

theorem ledger_worked (s : σ) : ledger (l ++ [.worked n s]) = (ledger l).work n s := by
  have hstates : (fun k => states l k ++ states [.worked n s] k) =
      fun k => if k = n then states l k ++ [s] else states l k := by
    funext k
    by_cases hk : k = n
    · simp [states, hk]
    · simp [states, hk, Ne.symm hk]
  rw [ledger_append, hstates]
  simp [Ledger.work, ledger, entered, taken, replied]

theorem ledger_ofReplies (replies : List (Nat × Reply)) :
    ledger (l ++ ofReplies replies) = (ledger l).reply replies := by
  rw [ledger_append]
  simp [Ledger.reply, ledger]

end Trace

namespace Dispatcher

variable {w : Worker σ} {d d' : Dispatcher σ} {g : Ledger σ} {n : Nat} {e : Event} {r : Reply}

theorem filter_replaced {α : Type 1} (fetching : List (Nat × α)) (n : Nat) (a : α) :
    (fetching.map fun f => if f.1 = n then (n, a) else f).filter (fun f => f.1 ≠ n) =
      fetching.filter fun f => f.1 ≠ n := by
  induction fetching with
  | nil => rfl
  | cons f fetching ih =>
    rw [List.map_cons, List.filter_cons, List.filter_cons, ih]
    by_cases hf : f.1 = n <;> simp [hf]

def working (d : Dispatcher σ) : List Nat := (d.installing.map (·.1)).toList ++ d.fetching.map (·.1)

/-- What the state of a dispatcher has to do with what has happened. -/
structure Inv (w : Worker σ) (g : Ledger σ) (d : Dispatcher σ) : Prop where
  tickets : g.entered.map (·.1) = List.range d.sent
  waiting : ∃ rest, g.entered = g.taken ++ rest ∧ (d.running = true → d.queue = rest) ∧
    (d.running = false →
      d.queue = [] ∧ d.installing = none ∧ ∀ p ∈ rest, (p.1, .dropped) ∈ g.replied)
  bounded : d.queue.length ≤ d.capacity
  fresh : ∀ n, n ∉ g.taken.map (·.1) → g.states n = []
  installing : ∀ p, d.installing = some p → (p.1, .install) ∈ g.taken ∧
    p.2 = w.install.along (g.states p.1) ∧ ¬ g.IsReplied p.1
  fetching : ∀ p ∈ d.fetching, ∃ r, (p.1, .fetch r) ∈ g.taken ∧
    p.2 = (w.fetch r).along (g.states p.1) ∧ ¬ g.IsReplied p.1
  nodup : (d.fetching.map (·.1)).Nodup
  placed : ∀ p ∈ g.taken, g.IsReplied p.1 ∨ p.1 ∈ d.working
  once : (g.replied.map (·.1)).Nodup
  answers : ∀ p ∈ g.replied, ∃ e, (p.1, e) ∈ g.entered ∧ g.Answers w p.1 e p.2
  stopped : d.running = false ↔ ∃ n, (n, .install) ∈ g.taken ∧ (n, .dropped) ∈ g.replied

namespace Inv

theorem begin (w : Worker σ) (capacity : Nat) (shared : σ) :
    Inv w (Trace.ledger []) (begin capacity shared) where
  tickets := rfl
  waiting := ⟨[], rfl, fun _ => rfl, fun h => (nomatch h)⟩
  bounded := Nat.zero_le _
  fresh _ _ := rfl
  installing _ h := nomatch h
  fetching _ h := nomatch h
  nodup := List.nodup_nil
  placed _ h := nomatch h
  once := List.nodup_nil
  answers _ h := nomatch h
  stopped := ⟨fun h => (nomatch h), fun ⟨_, h, _⟩ => (nomatch h)⟩

theorem mem_entered (h : Inv w g d) {p : Nat × Event} (hp : p ∈ g.taken) : p ∈ g.entered := by
  obtain ⟨rest, hrest, -⟩ := h.waiting
  rw [hrest]
  exact List.mem_append_left _ hp

theorem unique (h : Inv w g d) {e' : Event} (he : (n, e) ∈ g.entered) (he' : (n, e') ∈ g.entered) :
    e = e' := by
  have hnodup : (g.entered.map (·.1)).Nodup := h.tickets ▸ List.nodup_range
  exact (Prod.mk.inj (List.inj_on_of_nodup_map hnodup he he' rfl)).2

theorem lt_sent (h : Inv w g d) {p : Nat × Event} (hp : p ∈ g.entered) : p.1 < d.sent := by
  have hmem := List.mem_map_of_mem (f := (·.1)) hp
  rw [h.tickets] at hmem
  exact List.mem_range.mp hmem

theorem running_of_installing (h : Inv w g d) {p : Nat × Task σ (Except InstallError Unit)}
    (hp : d.installing = some p) : d.running = true := by
  obtain ⟨rest, -, -, hstopped⟩ := h.waiting
  cases hr : d.running with
  | true => rfl
  | false =>
    rw [(hstopped hr).2.1] at hp
    cases hp

theorem taken_of_replied (h : Inv w g d) (hr : d.running = true) {p : Nat × Reply}
    (hp : p ∈ g.replied) : ∃ e, (p.1, e) ∈ g.taken ∧ w.reply? (g.states p.1) e = some p.2 := by
  obtain ⟨e, -, hanswer⟩ := h.answers p hp
  generalize p.2 = r at hanswer
  cases hanswer with
  | own ht hr => exact ⟨e, ht, hr⟩
  | left ht hm hinstall hcrash =>
    rw [h.stopped.mpr ⟨_, hinstall, hcrash⟩] at hr
    cases hr

theorem send (h : Inv w g d) (hr : d.running = true) (hroom : d.queue.length < d.capacity)
    (e : Event) : Inv w (g.enter d.sent e) (d.enqueue e) := by
  obtain ⟨rest, hrest, hqueue, -⟩ := h.waiting
  refine { h with tickets := ?_, waiting := ?_, bounded := ?_, answers := fun p hp => ?_ }
  · rw [Ledger.enter, List.map_append, h.tickets]
    exact List.range_succ.symm
  · refine ⟨rest ++ [(d.sent, e)], ?_, fun _ => ?_, fun hstop => ?_⟩
    · rw [Ledger.enter, hrest, List.append_assoc]
    · exact congrArg (· ++ [(d.sent, e)]) (hqueue hr)
    · cases hr.symm.trans hstop
  · rw [enqueue, List.length_append]
    exact hroom
  · obtain ⟨e', htaken, hreply⟩ := h.taken_of_replied hr hp
    exact ⟨e', List.mem_append_left _ (h.mem_entered htaken), .own htaken hreply⟩

theorem not_taken_of_queue (h : Inv w g d) (hr : d.running = true) {q : Nat × Event}
    (hq : q ∈ d.queue) : q ∈ g.entered ∧ ∀ p ∈ g.taken, p.1 < q.1 := by
  obtain ⟨rest, hrest, hqueue, -⟩ := h.waiting
  rw [hqueue hr] at hq
  have htickets := h.tickets
  rw [hrest, List.map_append] at htickets
  have hlt : List.Pairwise (· < ·) (g.taken.map (·.1) ++ rest.map (·.1)) :=
    htickets ▸ List.pairwise_lt_range
  refine ⟨hrest ▸ List.mem_append_right _ hq, fun p hp => ?_⟩
  exact (List.pairwise_append.mp hlt).2.2 _ (List.mem_map_of_mem hp) _ (List.mem_map_of_mem hq)

theorem taken_of_lt (h : Inv w g d) (hr : d.running = true) {k : Nat} {queue : List (Nat × Event)}
    (hq : d.queue = (k, e) :: queue) (hn : n < k) : ∃ e', (n, e') ∈ g.taken := by
  obtain ⟨rest, hrest, hqueue, -⟩ := h.waiting
  have hk : k < d.sent :=
    h.lt_sent (h.not_taken_of_queue hr (q := (k, e)) (hq ▸ List.mem_cons_self)).1
  have htickets := h.tickets
  rw [hrest, ← hqueue hr, hq, List.map_append, List.map_cons] at htickets
  have hmem : n ∈ List.range d.sent := List.mem_range.mpr (by omega)
  rw [← htickets, List.mem_append] at hmem
  obtain hmem | hmem := hmem
  · obtain ⟨p, hp, rfl⟩ := List.mem_map.mp hmem
    exact ⟨p.2, hp⟩
  · have hlt : List.Pairwise (· < ·) (g.taken.map (·.1) ++ k :: queue.map (·.1)) :=
      htickets ▸ List.pairwise_lt_range
    have hqueue := (List.pairwise_cons.mp (List.pairwise_append.mp hlt).2.1).1
    obtain rfl | hmem := List.mem_cons.mp hmem
    · omega
    · have hgt := hqueue n hmem
      omega

theorem untouched_of_queue (h : Inv w g d) (hr : d.running = true) (hn : n ∈ d.queue.map (·.1)) :
    n ∉ g.taken.map (·.1) ∧ g.states n = [] ∧ ¬ g.IsReplied n := by
  obtain ⟨q, hq, rfl⟩ := List.mem_map.mp hn
  have hnew : q.1 ∉ g.taken.map (·.1) := by
    intro hmem
    obtain ⟨p, hp, hpq⟩ := List.mem_map.mp hmem
    have hlt := (h.not_taken_of_queue hr hq).2 p hp
    omega
  refine ⟨hnew, h.fresh _ hnew, fun hreplied => ?_⟩
  obtain ⟨p, hp, hpq⟩ := List.mem_map.mp hreplied
  obtain ⟨e, htaken, -⟩ := h.taken_of_replied hr hp
  exact hnew (hpq ▸ List.mem_map_of_mem htaken)

theorem nodup_queue (h : Inv w g d) (hr : d.running = true) : (d.queue.map (·.1)).Nodup := by
  obtain ⟨rest, hrest, hqueue, -⟩ := h.waiting
  have hnodup : (g.entered.map (·.1)).Nodup := h.tickets ▸ List.nodup_range
  rw [hrest, ← hqueue hr, List.map_append] at hnodup
  exact hnodup.of_append_right

theorem begun (h : Inv w g d) (hr : d.running = true) {queue : List (Nat × Event)}
    (hq : d.queue = (n, e) :: queue)
    {installing : Option (Nat × Task σ (Except InstallError Unit))}
    {fetching : List (Nat × Task σ (Except CacheError Response))}
    (hinstalling : ∀ p, installing = some p → e = .install ∧ p = (n, w.install))
    (hfetching : ∀ p ∈ fetching, p ∈ d.fetching ∨ ∃ r, e = .fetch r ∧ p = (n, w.fetch r))
    (hnodup : (fetching.map (·.1)).Nodup)
    (hworking : ∀ k, k ∈ d.working ∨ k = n → k ∈ installing.map (·.1) ∨ k ∈ fetching.map (·.1)) :
    Inv w (g.take n e) { d with queue, installing, fetching } := by
  obtain ⟨rest, hrest, hqueue, -⟩ := h.waiting
  obtain ⟨hnew, hstates, hunreplied⟩ := h.untouched_of_queue hr (n := n) (by simp [hq])
  have hmem : (n, e) ∈ (g.take n e).taken := List.mem_append_right _ List.mem_cons_self
  refine { h with
    waiting := ?_, bounded := ?_, fresh := fun k hk => ?_, installing := fun p hp => ?_
    fetching := fun p hp => ?_, nodup := hnodup, placed := fun p hp => ?_
    answers := fun p hp => ?_, stopped := h.stopped.trans ⟨?_, ?_⟩ }
  · refine ⟨queue, ?_, fun _ => rfl, fun hstop => nomatch hr.symm.trans hstop⟩
    change g.entered = g.taken ++ [(n, e)] ++ queue
    rw [hrest, ← hqueue hr, hq, List.append_assoc, List.singleton_append]
  · have hlength := h.bounded
    rw [hq, List.length_cons] at hlength
    exact Nat.le_of_succ_le hlength
  · rw [Ledger.take, List.map_append, List.mem_append, not_or] at hk
    exact h.fresh k hk.1
  · obtain ⟨rfl, rfl⟩ := hinstalling p hp
    exact ⟨hmem, by rw [Ledger.take, hstates]; rfl, hunreplied⟩
  · obtain hp | ⟨r, rfl, rfl⟩ := hfetching p hp
    · obtain ⟨r, htaken, hrest⟩ := h.fetching p hp
      exact ⟨r, List.mem_append_left _ htaken, hrest⟩
    · exact ⟨r, hmem, by rw [Ledger.take, hstates]; rfl, hunreplied⟩
  · have hplaced : g.IsReplied p.1 ∨ p.1 ∈ d.working ∨ p.1 = n := by
      obtain hp | hp := List.mem_append.mp hp
      · exact (h.placed p hp).imp id .inl
      · exact .inr (.inr (congrArg (·.1) (List.mem_singleton.mp hp)))
    refine hplaced.imp id fun hk => ?_
    obtain hinstall | hfetch := hworking p.1 hk
    · exact List.mem_append_left _ (Option.mem_toList.mpr hinstall)
    · exact List.mem_append_right _ hfetch
  · obtain ⟨e', htaken, hreply⟩ := h.taken_of_replied hr hp
    exact ⟨e', h.mem_entered htaken, .own (List.mem_append_left _ htaken) hreply⟩
  · exact fun ⟨k, hk, hdropped⟩ => ⟨k, List.mem_append_left _ hk, hdropped⟩
  · rintro ⟨k, hk, hdropped⟩
    obtain hk | hk := List.mem_append.mp hk
    · exact ⟨k, hk, hdropped⟩
    · cases List.mem_singleton.mp hk
      exact absurd (List.mem_map_of_mem hdropped) hunreplied

theorem take (h : Inv w g d) (hr : d.running = true) (hi : d.installing = none)
    {queue : List (Nat × Event)} (hq : d.queue = (n, e) :: queue) :
    Inv w (g.take n e) (d.take w) := by
  have hworking : ∀ k, k ∈ d.working → k ∈ d.fetching.map (·.1) := by
    intro k hk
    rwa [working, hi] at hk
  rw [Dispatcher.take.eq_def, hq]
  cases e with
  | install =>
    refine h.begun hr hq (fun p hp => ⟨rfl, (Option.some.inj hp).symm⟩) (fun p hp => .inl hp) h.nodup
      fun k hk => ?_
    obtain hk | rfl := hk
    · exact .inr (hworking k hk)
    · exact .inl rfl
  | fetch r =>
    refine h.begun hr hq (fun p hp => by cases hi.symm.trans hp) (fun p hp => ?_) ?_ fun k hk => ?_
    · obtain hp | hp := List.mem_append.mp hp
      · exact .inl hp
      · exact .inr ⟨r, rfl, List.mem_singleton.mp hp⟩
    · obtain ⟨hnew, -⟩ := h.untouched_of_queue hr (n := n) (by simp [hq])
      rw [List.map_append, List.nodup_append]
      refine ⟨h.nodup, List.nodup_singleton n, fun k hk k' hk' heq => hnew ?_⟩
      obtain ⟨p, hp, rfl⟩ := List.mem_map.mp hk
      obtain ⟨r', htaken, -⟩ := h.fetching p hp
      exact List.mem_map.mpr ⟨_, htaken, heq.trans (List.mem_singleton.mp hk')⟩
    · refine .inr ?_
      rw [List.map_append, List.mem_append]
      exact hk.imp (hworking k) fun hkn => List.mem_singleton.mpr hkn

/-- One more step of a call leaves all others where they are. -/
theorem work (h : Inv w g d) {s s' : σ} (hn : ¬ g.IsReplied n) (ht : n ∈ g.taken.map (·.1))
    {installing : Option (Nat × Task σ (Except InstallError Unit))}
    {fetching : List (Nat × Task σ (Except CacheError Response))}
    (htickets : installing.map (·.1) = d.installing.map (·.1) ∧
      fetching.map (·.1) = d.fetching.map (·.1))
    (hinstalling : ∀ p, installing = some p → (d.installing = some p ∧ p.1 ≠ n) ∨
      ((n, .install) ∈ g.taken ∧ p = (n, w.install.along (g.states n ++ [s]))))
    (hfetching : ∀ p ∈ fetching, (p ∈ d.fetching ∧ p.1 ≠ n) ∨ ∃ r,
      (n, .fetch r) ∈ g.taken ∧ p = (n, (w.fetch r).along (g.states n ++ [s]))) :
    Inv w (g.work n s) { d with installing, fetching, shared := s' } := by
  refine { h with
    waiting := ?_, fresh := fun k hk => ?_, installing := fun p hp => ?_
    fetching := fun p hp => ?_, nodup := htickets.2 ▸ h.nodup, placed := fun p hp => ?_
    answers := fun p hp => ?_ }
  · obtain ⟨rest, hrest, hrun, hstop⟩ := h.waiting
    refine ⟨rest, hrest, hrun, fun hr => ?_⟩
    obtain ⟨hqueue, hnone, hdropped⟩ := hstop hr
    refine ⟨hqueue, ?_, hdropped⟩
    have hmap := htickets.1
    rw [hnone] at hmap
    exact Option.map_eq_none_iff.mp hmap
  · have hne : k ≠ n := fun heq => hk (heq.symm ▸ ht)
    rw [g.states_work_of_ne hne]
    exact h.fresh k hk
  · obtain ⟨hp, hne⟩ | ⟨htaken, rfl⟩ := hinstalling p hp
    · rw [g.states_work_of_ne hne]
      exact h.installing p hp
    · exact ⟨htaken, by rw [g.states_work_self], hn⟩
  · obtain ⟨hp, hne⟩ | ⟨r, htaken, rfl⟩ := hfetching p hp
    · rw [g.states_work_of_ne hne]
      exact h.fetching p hp
    · exact ⟨r, htaken, by rw [g.states_work_self], hn⟩
  · rw [working, htickets.1, htickets.2]
    exact h.placed p hp
  · obtain ⟨e, he, hanswer⟩ := h.answers p hp
    have hne : p.1 ≠ n := fun heq => hn (heq ▸ List.mem_map_of_mem hp)
    refine ⟨e, he, ?_⟩
    generalize p.2 = r at hanswer
    cases hanswer with
    | own ht hr => exact .own ht (by rw [g.states_work_of_ne hne]; exact hr)
    | left ht hm hinstall hcrash => exact .left ht hm hinstall hcrash

theorem reply (h : Inv w g d) (ht : (n, e) ∈ g.taken) (hn : ¬ g.IsReplied n)
    (hr : w.reply? (g.states n) e = some r) (hcrash : e = .install → r ≠ .dropped)
    {installing : Option (Nat × Task σ (Except InstallError Unit))}
    {fetching : List (Nat × Task σ (Except CacheError Response))}
    {replies : List (Nat × Reply)}
    (hinstalling : ∀ p, installing = some p → d.installing = some p ∧ p.1 ≠ n)
    (hfetching : fetching.Sublist d.fetching) (hne : ∀ p ∈ fetching, p.1 ≠ n)
    (hworking : ∀ k ∈ d.working, k = n ∨ k ∈ installing.map (·.1) ∨ k ∈ fetching.map (·.1)) :
    Inv w (g.reply [(n, r)]) { d with installing, fetching, replies } := by
  have hunreplied : ∀ {k}, ¬ g.IsReplied k → k ≠ n → ¬ (g.reply [(n, r)]).IsReplied k := by
    intro k hk hkn hreplied
    obtain hold | hnew := Ledger.isReplied_reply.mp hreplied
    · exact hk hold
    · exact hkn (List.mem_singleton.mp hnew)
  refine { h with
    waiting := ?_, installing := fun p hp => ?_, fetching := fun p hp => ?_
    nodup := h.nodup.sublist (hfetching.map _), placed := fun p hp => ?_, once := ?_
    answers := fun p hp => ?_, stopped := h.stopped.trans ⟨?_, ?_⟩ }
  · obtain ⟨rest, hrest, hrun, hstop⟩ := h.waiting
    refine ⟨rest, hrest, hrun, fun hr => ?_⟩
    obtain ⟨hqueue, hnone, hdropped⟩ := hstop hr
    refine ⟨hqueue, ?_, fun p hp => List.mem_append_left _ (hdropped p hp)⟩
    refine Option.eq_none_iff_forall_ne_some.mpr fun p hp => ?_
    cases hnone.symm.trans (hinstalling p hp).1
  · obtain ⟨hp, hpn⟩ := hinstalling p hp
    obtain ⟨htaken, hrest, hno⟩ := h.installing p hp
    exact ⟨htaken, hrest, hunreplied hno hpn⟩
  · obtain ⟨r', htaken, hrest, hno⟩ := h.fetching p (hfetching.subset hp)
    exact ⟨r', htaken, hrest, hunreplied hno (hne p hp)⟩
  · obtain hreplied | hwork := h.placed p hp
    · exact .inl (Ledger.isReplied_reply.mpr (.inl hreplied))
    · obtain heq | hinstall | hfetch := hworking p.1 hwork
      · exact .inl (Ledger.isReplied_reply.mpr (.inr (List.mem_singleton.mpr heq)))
      · exact .inr (List.mem_append_left _ (Option.mem_toList.mpr hinstall))
      · exact .inr (List.mem_append_right _ hfetch)
  · rw [Ledger.reply, List.map_append, List.nodup_append]
    refine ⟨h.once, List.nodup_singleton n, fun k hk k' hk' heq => hn ?_⟩
    have hkn : k = n := heq.trans (List.mem_singleton.mp hk')
    exact hkn ▸ hk
  · obtain hp | hp := List.mem_append.mp hp
    · obtain ⟨e', he', hanswer⟩ := h.answers p hp
      exact ⟨e', he', hanswer.reply _⟩
    · cases List.mem_singleton.mp hp
      exact ⟨e, h.mem_entered ht, .own ht hr⟩
  · exact fun ⟨m, hm, hdropped⟩ => ⟨m, hm, List.mem_append_left _ hdropped⟩
  · rintro ⟨m, hm, hdropped⟩
    obtain hdropped | hdropped := List.mem_append.mp hdropped
    · exact ⟨m, hm, hdropped⟩
    · cases List.mem_singleton.mp hdropped
      exact absurd rfl (hcrash (h.unique (h.mem_entered ht) (h.mem_entered hm)))

/-- A crash of an install is a reply to it and to all that is queued. -/
theorem crash (h : Inv w g d) {t : Task σ (Except InstallError Unit)}
    (hi : d.installing = some (n, t)) (hr : w.reply? (g.states n) .install = some .dropped) :
    Inv w (g.reply ((n, .dropped) :: d.queue.map fun q => (q.1, .dropped)))
      (d.reply n .dropped).stop := by
  have hrun := h.running_of_installing hi
  obtain ⟨rest, hrest, hqueue, -⟩ := h.waiting
  obtain ⟨htaken, -, hn⟩ := h.installing _ hi
  have hmem : ∀ {k}, k ∈ ((n, Reply.dropped) :: d.queue.map fun q => (q.1, Reply.dropped)).map (·.1) ↔
      k = n ∨ k ∈ d.queue.map (·.1) := by
    intro k
    simp
  have hleft : ∀ {p : Nat × Event}, p ∈ g.taken → p.1 ∉ d.queue.map (·.1) := fun hp hmem =>
    (h.untouched_of_queue hrun hmem).1 (List.mem_map_of_mem hp)
  refine { h with
    waiting := ?_, bounded := Nat.zero_le _, installing := fun p hp => nomatch hp
    fetching := fun p hp => ?_, placed := fun p hp => ?_, once := ?_
    answers := fun p hp => ?_, stopped := ⟨fun _ => ?_, fun _ => rfl⟩ }
  · refine ⟨rest, hrest, fun hr => absurd hr Bool.false_ne_true, fun _ => ⟨rfl, rfl, fun p hp => ?_⟩⟩
    refine List.mem_append_right _ (List.mem_cons_of_mem _ (List.mem_map.mpr ⟨p, ?_, rfl⟩))
    rw [hqueue hrun]
    exact hp
  · obtain ⟨r', htaken', hrest', hno⟩ := h.fetching p hp
    refine ⟨r', htaken', hrest', fun hreplied => ?_⟩
    obtain hold | hnew := Ledger.isReplied_reply.mp hreplied
    · exact hno hold
    · obtain heq | hmem := hmem.mp hnew
      · rw [heq] at htaken'
        cases h.unique (h.mem_entered htaken) (h.mem_entered htaken')
      · exact hleft htaken' hmem
  · obtain hreplied | hwork := h.placed p hp
    · exact .inl (Ledger.isReplied_reply.mpr (.inl hreplied))
    · obtain hinstall | hfetch := List.mem_append.mp hwork
      · rw [hi] at hinstall
        exact .inl (Ledger.isReplied_reply.mpr (.inr (hmem.mpr (.inl (List.mem_singleton.mp hinstall)))))
      · exact .inr (List.mem_append_right _ hfetch)
  · rw [Ledger.reply, List.map_append, List.map_cons, List.map_map]
    refine List.nodup_append.mpr
      ⟨h.once, List.nodup_cons.mpr ⟨hleft htaken, h.nodup_queue hrun⟩, ?_⟩
    rintro k hk k' hk' rfl
    obtain heq | hqueued := List.mem_cons.mp hk'
    · exact hn (heq ▸ hk)
    · exact (h.untouched_of_queue hrun hqueued).2.2 hk
  · obtain hp | hp := List.mem_append.mp hp
    · obtain ⟨e', he', hanswer⟩ := h.answers p hp
      exact ⟨e', he', hanswer.reply _⟩
    · obtain rfl | hp := List.mem_cons.mp hp
      · exact ⟨.install, h.mem_entered htaken, .own htaken hr⟩
      · obtain ⟨q, hq, rfl⟩ := List.mem_map.mp hp
        obtain ⟨hentered, hlater⟩ := h.not_taken_of_queue hrun hq
        refine ⟨q.2, hentered, .left (fun htaken' => ?_) (hlater _ htaken) htaken ?_⟩
        · exact Nat.lt_irrefl _ (hlater _ htaken')
        · exact List.mem_append_right _ List.mem_cons_self
  · exact ⟨n, htaken, List.mem_append_right _ List.mem_cons_self⟩

theorem newReplies (new : List (Nat × Reply)) (h : Inv w (g.reply new.reverse) d')
    (hd : d'.replies = new ++ d.replies) : Inv w (g.reply (d.newReplies d')) d' := by
  rw [newReplies_eq new hd]
  exact h

theorem noReplies (h : Inv w g d') (hd : d'.replies = d.replies) :
    Inv w (g.reply (d.newReplies d')) d' := by
  rw [newReplies_eq [] hd, Ledger.reply, List.reverse_nil, List.append_nil]
  exact h

theorem stepInstall (h : Inv w g d) {t : Task σ (Except InstallError Unit)}
    (hi : d.installing = some (n, t))
    (hd : d' = { d with shared := (t.advance d.shared).2 }.afterInstall n (t.advance d.shared).1) :
    Inv w ((g.work n d.shared).reply (d.newReplies d')) d' := by
  obtain ⟨htaken, ht, hn⟩ : (n, .install) ∈ g.taken ∧ t = w.install.along (g.states n) ∧
      ¬ g.IsReplied n := h.installing _ hi
  have halong : w.install.along ((g.work n d.shared).states n) = (t.advance d.shared).1 := by
    rw [g.states_work_self, Task.along_concat, ← ht]
  have hother : ∀ p ∈ d.fetching, p.1 ≠ n := by
    rintro p hp rfl
    obtain ⟨r, hfetch, -⟩ := h.fetching p hp
    cases h.unique (h.mem_entered htaken) (h.mem_entered hfetch)
  have hwork : Inv w (g.work n d.shared) { d with
      installing := some (n, (t.advance d.shared).1), shared := (t.advance d.shared).2 } := by
    refine h.work hn (List.mem_map_of_mem htaken) ⟨by rw [hi]; rfl, rfl⟩ (fun p hp => ?_)
      fun p hp => .inl ⟨hp, hother p hp⟩
    cases hp
    rw [g.states_work_self] at halong
    exact .inr ⟨htaken, by rw [halong]⟩
  generalize t.advance d.shared = advanced at halong hwork hd
  obtain ⟨rest, s'⟩ := advanced
  subst hd
  cases rest with
  | done result =>
    refine newReplies [(n, .installed result)] ?_ rfl
    refine hwork.reply (r := .installed result) htaken hn (by rw [Worker.reply?, halong])
      (fun _ h => nomatch h) (fun _ hp => nomatch hp) (.refl _) hother fun k hk => ?_
    obtain hk | hk := List.mem_append.mp hk
    · exact .inl (List.mem_singleton.mp hk)
    · exact .inr (.inr hk)
  | crash =>
    refine newReplies ((n, .dropped) :: d.queue.map fun q => (q.1, .dropped)).reverse ?_
      (by simp [afterInstall, stop, Dispatcher.reply])
    rw [List.reverse_reverse]
    exact hwork.crash rfl (by rw [Worker.reply?, halong])
  | wait next => exact hwork.noReplies rfl
  | act step next => exact hwork.noReplies rfl

theorem endFetch {t : Task σ (Except CacheError Response)} {q : Request} {replies : List (Nat × Reply)}
    (h : Inv w g { d with fetching := d.fetching.map fun f => if f.1 = n then (n, t) else f })
    (htaken : (n, .fetch q) ∈ g.taken) (hn : ¬ g.IsReplied n)
    (hr : w.reply? (g.states n) (.fetch q) = some r) (hother : ∀ p, d.installing = some p → p.1 ≠ n) :
    Inv w (g.reply [(n, r)]) { d with fetching := d.fetching.filter fun f => f.1 ≠ n, replies } := by
  have hsublist : (d.fetching.filter fun f => f.1 ≠ n).Sublist
      (d.fetching.map fun f => if f.1 = n then (n, t) else f) := by
    rw [← filter_replaced d.fetching n t]
    exact List.filter_sublist
  refine h.reply htaken hn hr (fun h => nomatch h) (fun p hp => ⟨hp, hother p hp⟩) hsublist
    (fun p hp => by simpa using (List.mem_filter.mp hp).2) fun k hk => ?_
  obtain hk | hk := List.mem_append.mp hk
  · exact .inr (.inl (Option.mem_toList.mp hk))
  · obtain ⟨p, hp, rfl⟩ := List.mem_map.mp hk
    by_cases hpn : p.1 = n
    · exact .inl hpn
    · have hmem : p ∈ d.fetching.filter fun f => f.1 ≠ n := by
        rw [← filter_replaced d.fetching n t]
        exact List.mem_filter.mpr ⟨hp, by simpa using hpn⟩
      exact .inr (.inr (List.mem_map_of_mem hmem))

theorem stepFetch (h : Inv w g d) {t : Task σ (Except CacheError Response)}
    (ht : (n, t) ∈ d.fetching)
    (hd : d' = { d with shared := (t.advance d.shared).2 }.afterFetch n (t.advance d.shared).1) :
    Inv w ((g.work n d.shared).reply (d.newReplies d')) d' := by
  obtain ⟨r, htaken, halong, hn⟩ : ∃ r, (n, .fetch r) ∈ g.taken ∧
      t = (w.fetch r).along (g.states n) ∧ ¬ g.IsReplied n := h.fetching _ ht
  have halong : (w.fetch r).along ((g.work n d.shared).states n) = (t.advance d.shared).1 := by
    rw [g.states_work_self, Task.along_concat, ← halong]
  have hother : ∀ p, d.installing = some p → p.1 ≠ n := by
    rintro p hp rfl
    obtain ⟨hinstall, -⟩ := h.installing p hp
    cases h.unique (h.mem_entered htaken) (h.mem_entered hinstall)
  have hwork : Inv w (g.work n d.shared) { d with
      fetching := d.fetching.map fun f => if f.1 = n then (n, (t.advance d.shared).1) else f
      shared := (t.advance d.shared).2 } := by
    refine h.work hn (List.mem_map_of_mem htaken) ⟨rfl, ?_⟩ (fun p hp => .inl ⟨hp, hother p hp⟩)
      fun p hp => ?_
    · rw [List.map_map]
      refine List.map_congr_left fun f _ => ?_
      by_cases hf : f.1 = n <;> simp [hf]
    · obtain ⟨f, hf, rfl⟩ := List.mem_map.mp hp
      by_cases hfn : f.1 = n
      · rw [if_pos hfn]
        rw [g.states_work_self] at halong
        exact .inr ⟨r, htaken, by rw [halong]⟩
      · rw [if_neg hfn]
        exact .inl ⟨hf, hfn⟩
  generalize t.advance d.shared = advanced at halong hwork hd
  obtain ⟨rest, s'⟩ := advanced
  subst hd
  cases rest with
  | done result =>
    refine newReplies [(n, .fetched result)] ?_ rfl
    exact endFetch (d := { d with shared := s' }) hwork htaken hn (by rw [Worker.reply?, halong]) hother
  | crash =>
    refine newReplies [(n, .dropped)] ?_ rfl
    exact endFetch (d := { d with shared := s' }) hwork htaken hn (by rw [Worker.reply?, halong]) hother
  | wait next => exact hwork.noReplies rfl
  | act step next => exact hwork.noReplies rfl

theorem move {l l' : Trace σ} (h : Inv w l.ledger d) (hm : Move w d l' d') :
    Inv w (Trace.ledger (l ++ l')) d' := by
  cases hm with
  | send hr hroom e =>
    rw [Trace.ledger_entered]
    exact h.send hr hroom e
  | take hr hi hq =>
    rw [Trace.ledger_taken]
    exact h.take hr hi hq
  | install hi hd =>
    rw [← List.append_assoc, Trace.ledger_ofReplies, Trace.ledger_worked]
    exact h.stepInstall hi hd
  | fetch ht hd =>
    rw [← List.append_assoc, Trace.ledger_ofReplies, Trace.ledger_worked]
    exact h.stepFetch ht hd

theorem run {l₀ l : Trace σ} {d₀ : Dispatcher σ} (h : Inv w l₀.ledger d₀) (hr : Run w d₀ l d) :
    Inv w (Trace.ledger (l₀ ++ l)) d := by
  induction hr with
  | refl => rwa [List.append_nil]
  | step _ a hs ih =>
    rw [← List.append_assoc]
    exact ih.move (move_of_step hs)
  | settle _ ih => exact { ih with }

end Inv

end Dispatcher

end AssetCache
