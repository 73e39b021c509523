import AssetCache.Dispatcher

namespace AssetCache.Dispatcher

variable {σ : Type} {w : Worker σ} {d d' : Dispatcher σ}

/-- Nothing is queued and nothing is being done. -/
structure Idle (d : Dispatcher σ) : Prop where
  queue : d.queue = []
  installing : d.installing = none
  fetching : d.fetching = []

theorem send_idle (w : Worker σ) (hi : d.Idle) (e : Event) :
    d.send w e = if d.running then (true, d.enqueue e) else (false, d) := by
  obtain ⟨capacity, running, sent, queue, installing, fetching, replies, shared⟩ := d
  obtain ⟨hq, hn, hf⟩ := hi
  cases hq
  cases hn
  cases hf
  cases running with
  | false => rfl
  | true =>
    simp only [send, makeRoom, endInstall, takeUpTo, List.length_nil, Bool.not_true,
      Bool.false_eq_true, if_true, if_false, ite_self]

theorem fetch_idle (w : Worker σ) (hi : d.Idle) (r : Request) :
    d.fetch w r = if d.running then
      (((w.fetch r).run d.shared).1.getD (.error (.internal "Fetch event dropped")),
        { d with sent := d.sent + 1, replies := [], shared := ((w.fetch r).run d.shared).2 })
      else (.error closed, d) := by
  rw [fetch, send_idle w hi]
  cases hr : d.running with
  | false => rfl
  | true =>
    obtain ⟨capacity, running, sent, queue, installing, fetching, replies, shared⟩ := d
    obtain ⟨hq, hn, hf⟩ := hi
    cases hq
    cases hn
    cases hf
    cases hr
    simp only [if_true, drain, endInstall, enqueue, List.nil_append, List.length_singleton,
      drainUpTo, take, runFetches]
    generalize (w.fetch r).run shared = ran
    obtain ⟨_ | result, s⟩ := ran
    · simp [afterFetch, reply, replyTo, settled, Reply.toFetch]
    · simp [afterFetch, reply, replyTo, settled, Reply.toFetch]

theorem afterFetch_spec (d : Dispatcher σ) (ticket : Nat)
    (rest : Task σ (Except CacheError Response)) :
    (d.afterFetch ticket rest).shared = d.shared ∧
      (d.afterFetch ticket rest).installing = d.installing ∧
      (∀ p ∈ (d.afterFetch ticket rest).fetching, p ∈ d.fetching ∨ p = (ticket, rest)) ∧
      ∀ n result, (n, .installed result) ∈ (d.afterFetch ticket rest).replies →
        (n, .installed result) ∈ d.replies := by
  have hfilter : ∀ p ∈ d.fetching.filter fun f => f.1 ≠ ticket, p ∈ d.fetching ∨ p = (ticket, rest) :=
    fun p hp => .inl (List.mem_filter.mp hp).1
  have hmap : ∀ p ∈ d.fetching.map fun f => if f.1 = ticket then (ticket, rest) else f,
      p ∈ d.fetching ∨ p = (ticket, rest) := by
    intro p hp
    obtain ⟨f, hf, rfl⟩ := List.mem_map.mp hp
    by_cases h : f.1 = ticket
    · exact .inr (if_pos h)
    · rw [if_neg h]
      exact .inl hf
  cases rest with
  | done result => exact ⟨rfl, rfl, hfilter, fun n r h => by simpa [afterFetch, reply] using h⟩
  | crash => exact ⟨rfl, rfl, hfilter, fun n r h => by simpa [afterFetch, reply] using h⟩
  | wait next => exact ⟨rfl, rfl, hmap, fun _ _ h => h⟩
  | act step next => exact ⟨rfl, rfl, hmap, fun _ _ h => h⟩

theorem afterInstall_spec (d : Dispatcher σ) (ticket : Nat)
    (rest : Task σ (Except InstallError Unit)) :
    (d.afterInstall ticket rest).shared = d.shared ∧
      (d.afterInstall ticket rest).fetching = d.fetching ∧
      (∀ p, (d.afterInstall ticket rest).installing = some p → p = (ticket, rest)) ∧
      ∀ n result, (n, .installed result) ∈ (d.afterInstall ticket rest).replies →
        (n, .installed result) ∈ d.replies ∨ rest = .done result := by
  cases rest with
  | done r =>
    refine ⟨rfl, rfl, fun _ h => (nomatch h), fun n result h => ?_⟩
    rcases List.mem_cons.mp h with h | h
    · cases h
      exact .inr rfl
    · exact .inl h
  | crash =>
    refine ⟨rfl, rfl, fun _ h => (nomatch h), fun n result h => .inl ?_⟩
    rcases List.mem_append.mp h with h | h
    · obtain ⟨_, _, h⟩ := List.mem_map.mp (List.mem_reverse.mp h)
      cases h
    · simpa [reply] using h
  | wait next => exact ⟨rfl, rfl, fun _ h => (Option.some.inj h).symm, fun _ _ h => .inl h⟩
  | act step next => exact ⟨rfl, rfl, fun _ h => (Option.some.inj h).symm, fun _ _ h => .inl h⟩

theorem step_send {e : Event} (h : d.step w (.send e) = some d') : d' = d.enqueue e := by
  rw [step] at h
  split at h
  · exact (Option.some.inj h).symm
  · cases h

theorem step_take (h : d.step w .take = some d') :
    d'.shared = d.shared ∧ d'.replies = d.replies ∧
      ((∃ ticket, d'.installing = some (ticket, w.install) ∧ d'.fetching = d.fetching) ∨
        ∃ ticket r, d'.installing = none ∧ d'.fetching = d.fetching ++ [(ticket, w.fetch r)]) := by
  rw [step] at h
  split at h
  · next hc =>
    cases h
    obtain ⟨capacity, running, sent, queue, installing, fetching, replies, shared⟩ := d
    simp only [Bool.and_eq_true, Option.isNone_iff_eq_none] at hc
    obtain ⟨⟨_, rfl⟩, hq⟩ := hc
    rcases queue with _ | ⟨⟨ticket, _ | r⟩, queue⟩
    · cases hq
    · exact ⟨rfl, rfl, .inl ⟨ticket, rfl, rfl⟩⟩
    · exact ⟨rfl, rfl, .inr ⟨ticket, r, rfl, rfl⟩⟩
  · cases h

theorem step_take_queue (h : d.step w .take = some d') :
    d.running = true ∧ d.installing = none ∧ d' = d.take w ∧
      ∃ ticket e queue, d.queue = (ticket, e) :: queue := by
  rw [step] at h
  split at h
  · next hc =>
    rw [Bool.and_eq_true, Bool.and_eq_true, Option.isNone_iff_eq_none] at hc
    obtain ⟨⟨hr, hi⟩, hq⟩ := hc
    refine ⟨hr, hi, (Option.some.inj h).symm, ?_⟩
    cases hqueue : d.queue with
    | nil =>
      rw [hqueue] at hq
      cases hq
    | cons q queue => exact ⟨q.1, q.2, queue, rfl⟩
  · cases h

theorem step_fetch {ticket : Nat} (h : d.step w (.fetch ticket) = some d') :
    ∃ t, (ticket, t) ∈ d.fetching ∧
      d' = { d with shared := (t.advance d.shared).2 }.afterFetch ticket (t.advance d.shared).1 := by
  rw [step] at h
  split at h
  · cases h
  · next t ht =>
    obtain ⟨l, r, hl, _⟩ := List.lookup_eq_some_iff.mp ht
    exact ⟨t, hl ▸ List.mem_append_right _ List.mem_cons_self, (Option.some.inj h).symm⟩

theorem step_install (h : d.step w .install = some d') :
    ∃ ticket t, d.installing = some (ticket, t) ∧
      d' = { d with shared := (t.advance d.shared).2 }.afterInstall ticket
        (t.advance d.shared).1 := by
  rw [step] at h
  split at h
  · cases h
  · next ticket t ht => exact ⟨ticket, t, ht, (Option.some.inj h).symm⟩

end AssetCache.Dispatcher
