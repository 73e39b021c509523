import AssetCache.Proofs.Delivery.Ledger
import AssetCache.Proofs.Task

namespace AssetCache

namespace Dispatcher

open Trace

variable {σ : Type} {w : Worker σ} {d d' d'' : Dispatcher σ} {es es' : List (Nat × Event)} {n : Nat}
  {p : Nat × Task σ (Except InstallError Unit)}

/-- `d'` comes from `d` by actions while just the events `es` come in, and no reply is forgotten. -/
def Leads (w : Worker σ) (d : Dispatcher σ) (es : List (Nat × Event)) (d' : Dispatcher σ) : Prop :=
  ∃ l, Run w d l d' ∧ entered l = es ∧ d'.replies = (replied l).reverse ++ d.replies

theorem afterInstall_replies (d : Dispatcher σ) (n : Nat) (rest : Task σ (Except InstallError Unit)) :
    ∃ new, (d.afterInstall n rest).replies = new ++ d.replies := by
  cases rest with
  | done result => exact ⟨[(n, .installed result)], rfl⟩
  | crash =>
    refine ⟨(d.queue.map fun q => (q.1, .dropped)).reverse ++ [(n, .dropped)], ?_⟩
    rw [List.append_assoc]
    rfl
  | wait next => exact ⟨[], rfl⟩
  | act step next => exact ⟨[], rfl⟩

theorem afterFetch_replies (d : Dispatcher σ) (n : Nat) (rest : Task σ (Except CacheError Response)) :
    ∃ new, (d.afterFetch n rest).replies = new ++ d.replies := by
  cases rest with
  | done result => exact ⟨[(n, .fetched result)], rfl⟩
  | crash => exact ⟨[(n, .dropped)], rfl⟩
  | wait next => exact ⟨[], rfl⟩
  | act step next => exact ⟨[], rfl⟩

theorem Move.replies {l : Trace σ} (h : Move w d l d') :
    d'.replies = (replied l).reverse ++ d.replies := by
  have hnew : ∀ {new : List (Nat × Reply)} {n : Nat} {s : σ}, d'.replies = new ++ d.replies →
      d'.replies = (replied ([.worked n s] ++ ofReplies (newReplies d d'))).reverse ++ d.replies := by
    intro new n s hd
    rw [replied_append, replied_ofReplies, newReplies_eq new hd]
    exact hd.trans (congrArg (· ++ d.replies) (List.reverse_reverse new).symm)
  cases h with
  | send hr hroom e => rfl
  | take hr hi hq =>
    rw [Dispatcher.take.eq_def, hq]
    split <;> rfl
  | install hi hd =>
    obtain ⟨new, hreplies⟩ := afterInstall_replies _ _ _
    exact hnew (hd ▸ hreplies)
  | fetch ht hd =>
    obtain ⟨new, hreplies⟩ := afterFetch_replies _ _ _
    exact hnew (hd ▸ hreplies)

namespace Leads

theorem refl (d : Dispatcher σ) : Leads w d [] d := ⟨[], .refl d, rfl, rfl⟩

theorem trans (h : Leads w d es d') (h' : Leads w d' es' d'') : Leads w d (es ++ es') d'' := by
  obtain ⟨l, hrun, rfl, hreplies⟩ := h
  obtain ⟨l', hrun', rfl, hreplies'⟩ := h'
  refine ⟨l ++ l', hrun.trans hrun', entered_append l l', ?_⟩
  rw [hreplies', hreplies, replied_append, List.reverse_append, List.append_assoc]

theorem single {a : Action} (hs : d.step w a = some d') (hes : entered (d.occurrences d' a) = es) :
    Leads w d es d' :=
  ⟨_, .single hs, hes, (move_of_step hs).replies⟩

end Leads

theorem step_installing {t : Task σ (Except InstallError Unit)} (hi : d.installing = some (n, t)) :
    Leads w d [] ({ d with shared := (t.advance d.shared).2 }.afterInstall n
      (t.advance d.shared).1) := by
  refine .single (a := .install) (by rw [step, hi]) ?_
  rw [occurrences, hi]
  exact (entered_append _ _).trans (entered_ofReplies _)

theorem afterInstall_installing (d : Dispatcher σ) (n : Nat)
    (installing : Option (Nat × Task σ (Except InstallError Unit)))
    (rest : Task σ (Except InstallError Unit)) :
    { d with installing }.afterInstall n rest = d.afterInstall n rest := by
  cases rest <;> rfl

theorem leads_afterInstall {rest : Task σ (Except InstallError Unit)} {s : σ}
    (result : Task σ (Except InstallError Unit) × σ)
    (hdone : ∀ a, rest = .done a → result = (rest, s)) (hcrash : rest = .crash → result = (rest, s))
    (h : ∀ d : Dispatcher σ, d.installing = some (n, rest) → d.shared = s →
      Leads w d [] ({ d with shared := result.2 }.afterInstall n result.1)) (d : Dispatcher σ) :
    Leads w ({ d with shared := s }.afterInstall n rest) []
      ({ d with shared := result.2 }.afterInstall n result.1) := by
  have hgoesOn := h { d with shared := s, installing := some (n, rest) } rfl rfl
  rw [afterInstall_installing { d with shared := _ }] at hgoesOn
  cases rest with
  | done a =>
    rw [hdone a rfl]
    exact .refl _
  | crash =>
    rw [hcrash rfl]
    exact .refl _
  | wait next => exact hgoesOn
  | act step next => exact hgoesOn

theorem leads_install {t : Task σ (Except InstallError Unit)} (hi : d.installing = some (n, t)) :
    Leads w d [] ({ d with shared := (t.run d.shared).2 }.afterInstall n
      (.ended (t.run d.shared).1)) := by
  have hrest : ∀ {rest : Task σ (Except InstallError Unit)} (s : σ),
      (∀ {d : Dispatcher σ}, d.installing = some (n, rest) →
        Leads w d [] ({ d with shared := (rest.run d.shared).2 }.afterInstall n
          (.ended (rest.run d.shared).1))) →
      ∀ d : Dispatcher σ, Leads w ({ d with shared := s }.afterInstall n rest) []
        ({ d with shared := (rest.run s).2 }.afterInstall n (.ended (rest.run s).1)) := by
    intro rest s ih
    refine leads_afterInstall (.ended (rest.run s).1, (rest.run s).2) ?_ ?_ ?_
    · rintro a rfl
      rfl
    · rintro rfl
      rfl
    · rintro d hd rfl
      exact ih hd
  induction t generalizing d with
  | done result => exact step_installing hi
  | crash => exact step_installing hi
  | wait next ih => exact (step_installing hi).trans (hrest d.shared ih d)
  | act step next ih => exact (step_installing hi).trans (hrest (step d.shared).2 (ih _) d)

theorem leads_poll {t : Task σ (Except InstallError Unit)} (hi : d.installing = some (n, t)) :
    Leads w d [] ({ d with shared := (t.poll d.shared).2 }.afterInstall n (t.poll d.shared).1) := by
  induction t generalizing d with
  | done result => exact step_installing hi
  | crash => exact step_installing hi
  | wait next ih => exact step_installing hi
  | act step next ih =>
    refine (step_installing hi).trans (leads_afterInstall (s := (step d.shared).2)
      ((next (step d.shared).1).poll (step d.shared).2) ?_ ?_ ?_ d)
    · intro a h
      have hnext : next (step d.shared).1 = .done a := h
      rw [h, hnext]
      rfl
    · intro h
      have hnext : next (step d.shared).1 = .crash := h
      rw [h, hnext]
      rfl
    · rintro d' hd' hs
      have hnext := ih _ hd'
      rwa [hs] at hnext

theorem lookup_of_nodup {α : Type*} {l : List (Nat × α)} (hn : (l.map (·.1)).Nodup) {a : α}
    (ha : (n, a) ∈ l) : l.lookup n = some a := by
  obtain ⟨l₁, l₂, rfl⟩ := List.append_of_mem ha
  refine List.lookup_eq_some_iff.mpr ⟨l₁, l₂, rfl, fun p hp => ?_⟩
  rw [List.map_append, List.nodup_append] at hn
  exact bne_iff_ne.mpr (hn.2.2 _ (List.mem_map_of_mem hp) _ List.mem_cons_self).symm

theorem step_fetching (hn : (d.fetching.map (·.1)).Nodup) {t : Task σ (Except CacheError Response)}
    (ht : (n, t) ∈ d.fetching) :
    Leads w d [] ({ d with shared := (t.advance d.shared).2 }.afterFetch n (t.advance d.shared).1) := by
  refine .single (a := .fetch n) (by rw [step, lookup_of_nodup hn ht]) ?_
  rw [occurrences, ← List.singleton_append]
  exact (entered_append _ _).trans (entered_ofReplies _)

def replaceFetch (d : Dispatcher σ) (n : Nat) (rest : Task σ (Except CacheError Response)) :
    List (Nat × Task σ (Except CacheError Response)) :=
  d.fetching.map fun f => if f.1 = n then (n, rest) else f

theorem afterFetch_replaceFetch (d : Dispatcher σ) (n : Nat)
    (rest rest' : Task σ (Except CacheError Response)) :
    { d with fetching := d.replaceFetch n rest' }.afterFetch n rest = d.afterFetch n rest := by
  have hmap : ((d.replaceFetch n rest').map fun f => if f.1 = n then (n, rest) else f) =
      d.fetching.map fun f => if f.1 = n then (n, rest) else f := by
    rw [replaceFetch, List.map_map]
    refine List.map_congr_left fun f _ => ?_
    by_cases hf : f.1 = n <;> simp [hf]
  cases rest with
  | done result => simp only [afterFetch, replaceFetch, filter_replaced]
  | crash => simp only [afterFetch, replaceFetch, filter_replaced]
  | wait next => simp only [afterFetch, hmap]
  | act step next => simp only [afterFetch, hmap]

theorem leads_afterFetch {rest : Task σ (Except CacheError Response)} {s : σ}
    (hn : (d.fetching.map (·.1)).Nodup) (hmem : n ∈ d.fetching.map (·.1))
    (h : ∀ d : Dispatcher σ, (d.fetching.map (·.1)).Nodup → (n, rest) ∈ d.fetching → d.shared = s →
      Leads w d [] ({ d with shared := (rest.run s).2 }.afterFetch n (.ended (rest.run s).1))) :
    Leads w ({ d with shared := s }.afterFetch n rest) []
      ({ d with shared := (rest.run s).2 }.afterFetch n (.ended (rest.run s).1)) := by
  obtain ⟨f, hf, rfl⟩ := List.mem_map.mp hmem
  have hmap : (d.replaceFetch f.1 rest).map (·.1) = d.fetching.map (·.1) := by
    rw [replaceFetch, List.map_map]
    refine List.map_congr_left fun f' _ => ?_
    by_cases hf : f'.1 = f.1 <;> simp [hf]
  have hgoesOn := h { d with shared := s, fetching := d.replaceFetch f.1 rest } (hmap ▸ hn)
    (List.mem_map.mpr ⟨f, hf, if_pos rfl⟩) rfl
  have hend := afterFetch_replaceFetch { d with shared := (rest.run s).2 } f.1
    (.ended (rest.run s).1) rest
  rw [← hend]
  cases rest with
  | done result =>
    rw [hend]
    exact .refl _
  | crash =>
    rw [hend]
    exact .refl _
  | wait next => exact hgoesOn
  | act step next => exact hgoesOn

theorem leads_fetch (hn : (d.fetching.map (·.1)).Nodup) {t : Task σ (Except CacheError Response)}
    (ht : (n, t) ∈ d.fetching) :
    Leads w d [] ({ d with shared := (t.run d.shared).2 }.afterFetch n
      (.ended (t.run d.shared).1)) := by
  have hmem := List.mem_map_of_mem (f := (·.1)) ht
  induction t generalizing d with
  | done result => exact step_fetching hn ht
  | crash => exact step_fetching hn ht
  | wait next ih =>
    refine (step_fetching hn ht).trans (leads_afterFetch hn hmem ?_)
    rintro d' hn' ht' hs
    have hnext := ih hn' ht' (List.mem_map_of_mem ht')
    rwa [hs] at hnext
  | act step next ih =>
    refine (step_fetching hn ht).trans (leads_afterFetch hn hmem ?_)
    rintro d' hn' ht' hs
    have hnext := ih _ hn' ht' (List.mem_map_of_mem ht')
    rwa [hs] at hnext

theorem endInstall_eq (hi : d.installing = some p) :
    d.endInstall = { d with shared := (p.2.run d.shared).2 }.afterInstall p.1
      (.ended (p.2.run d.shared).1) := by
  rw [endInstall, hi]
  dsimp only
  generalize p.2.run d.shared = ran
  obtain ⟨_ | result, s⟩ := ran <;> rfl

theorem leads_endInstall (d : Dispatcher σ) : Leads w d [] d.endInstall := by
  cases hi : d.installing with
  | none =>
    rw [endInstall, hi]
    exact .refl d
  | some p =>
    rw [endInstall_eq hi]
    exact leads_install hi

structure Settled (d : Dispatcher σ) : Prop where
  installing : d.installing = none
  queue : d.running = false → d.queue = []

theorem settled_endInstall (h : d.running = false → d.queue = []) : d.endInstall.Settled ∧
    d.endInstall.queue.length ≤ d.queue.length := by
  cases hi : d.installing with
  | none =>
    rw [endInstall, hi]
    exact ⟨⟨hi, h⟩, Nat.le_refl _⟩
  | some p =>
    rw [endInstall_eq hi]
    cases (p.2.run d.shared).1 with
    | none => exact ⟨⟨rfl, fun _ => rfl⟩, Nat.zero_le _⟩
    | some result => exact ⟨⟨rfl, h⟩, Nat.le_refl _⟩

theorem leads_pollInstall (d : Dispatcher σ) : Leads w d [] d.pollInstall := by
  rw [pollInstall]
  cases hi : d.installing with
  | none => exact .refl d
  | some p => exact leads_poll hi

theorem leads_take (hr : d.running = true) (hi : d.installing = none) :
    Leads w d [] (d.take w) := by
  cases hq : d.queue with
  | nil =>
    rw [Dispatcher.take.eq_def, hq]
    exact .refl d
  | cons q queue =>
    refine .single (a := .take) ?_ ?_
    · rw [step, hr, hi, hq]
      rfl
    · rw [occurrences, hq]
      rfl

theorem take_queue (w : Worker σ) (d : Dispatcher σ) : (d.take w).queue = d.queue.tail ∧
    (d.take w).running = d.running := by
  rw [Dispatcher.take.eq_def]
  split
  · next hq =>
    rw [hq]
    exact ⟨rfl, rfl⟩
  · next hq =>
    rw [hq]
    exact ⟨rfl, rfl⟩
  · next hq =>
    rw [hq]
    exact ⟨rfl, rfl⟩

theorem leads_takeUpTo (m : Nat) (d : Dispatcher σ) : Leads w d [] (d.takeUpTo w m) := by
  induction m generalizing d with
  | zero => exact .refl d
  | succ m ih =>
    rw [takeUpTo]
    split
    · next hc =>
      rw [Bool.and_eq_true, Option.isNone_iff_eq_none] at hc
      exact ((leads_take hc.1 hc.2).trans (leads_pollInstall _)).trans (ih _)
    · exact .refl d

theorem leads_drainUpTo (m : Nat) (hs : d.Settled) (hm : d.queue.length ≤ m) :
    Leads w d [] (d.drainUpTo w m) ∧ (d.drainUpTo w m).Settled ∧ (d.drainUpTo w m).queue = [] := by
  induction m generalizing d with
  | zero => exact ⟨.refl d, hs, List.length_eq_zero_iff.mp (Nat.le_zero.mp hm)⟩
  | succ m ih =>
    rw [drainUpTo]
    split
    · next hr =>
      obtain ⟨hqueue, hrunning⟩ := take_queue w d
      obtain ⟨hsettled, hlength⟩ := settled_endInstall (d := d.take w) fun h => by
        rw [hrunning, hr] at h
        cases h
      have hm' : (d.take w).endInstall.queue.length ≤ m := by
        rw [hqueue, List.length_tail] at hlength
        omega
      obtain ⟨hleads, hrest⟩ := ih hsettled hm'
      exact ⟨((leads_take hr hs.installing).trans (leads_endInstall _)).trans hleads, hrest⟩
    · next hr => exact ⟨.refl d, hs, hs.queue (Bool.eq_false_iff.mpr hr)⟩

theorem leads_runFetches (hn : (d.fetching.map (·.1)).Nodup) :
    Leads w d [] (d.runFetches d.fetching) ∧ (d.runFetches d.fetching).fetching = [] ∧
      (d.runFetches d.fetching).queue = d.queue ∧
      (d.runFetches d.fetching).installing = d.installing := by
  generalize hf : d.fetching = fetching at hn
  induction fetching generalizing d with
  | nil => exact ⟨.refl d, hf, rfl, rfl⟩
  | cons p rest ih =>
    have hdone : ({ d with shared := (p.2.run d.shared).2 }.afterFetch p.1
        (.ended (p.2.run d.shared).1)).fetching = rest ∧ ({ d with
          shared := (p.2.run d.shared).2 }.afterFetch p.1 (.ended (p.2.run d.shared).1)).queue =
        d.queue ∧ ({ d with shared := (p.2.run d.shared).2 }.afterFetch p.1
          (.ended (p.2.run d.shared).1)).installing = d.installing := by
      have hothers : (d.fetching.filter fun f => f.1 ≠ p.1) = rest := by
        rw [hf, List.filter_cons_of_neg (by simp)]
        refine List.filter_eq_self.mpr fun f hf => decide_eq_true fun heq => ?_
        exact (List.nodup_cons.mp hn).1 (List.mem_map.mpr ⟨f, hf, heq⟩)
      cases (p.2.run d.shared).1 with
      | none => exact ⟨hothers, rfl, rfl⟩
      | some result => exact ⟨hothers, rfl, rfl⟩
    have hrun : d.runFetches (p :: rest) = ({ d with shared := (p.2.run d.shared).2 }.afterFetch p.1
        (.ended (p.2.run d.shared).1)).runFetches rest := by
      rw [runFetches]
      generalize p.2.run d.shared = ran
      obtain ⟨_ | result, s⟩ := ran <;> rfl
    obtain ⟨hfetching, hqueue, hinstalling⟩ := hdone
    have hmem : (p.1, p.2) ∈ d.fetching := hf ▸ List.mem_cons_self
    have hleads := leads_fetch (w := w) (hf ▸ hn) hmem
    obtain ⟨hrest, hnone, hqueue', hinstalling'⟩ := ih hfetching (List.nodup_cons.mp hn).2
    rw [hrun]
    exact ⟨hleads.trans hrest, hnone, hqueue'.trans hqueue, hinstalling'.trans hinstalling⟩

theorem leads_drain (h : d.Shaped) : Leads w d [] (d.drain w) ∧ (d.drain w).Idle := by
  obtain ⟨hsettled, -⟩ := settled_endInstall h.stopped
  obtain ⟨hdrained, hsettled', hqueue⟩ := leads_drainUpTo (w := w) _ hsettled (Nat.le_refl _)
  have hleads := (leads_endInstall (w := w) d).trans hdrained
  have hnodup : ((d.endInstall.drainUpTo w d.endInstall.queue.length).fetching.map (·.1)).Nodup := by
    obtain ⟨l', hrun, -⟩ := hleads
    exact (hrun.shaped h).once.of_append_left
  obtain ⟨hfetches, hnone, hqueue', hinstalling⟩ := leads_runFetches (w := w) hnodup
  exact ⟨hleads.trans hfetches, hqueue'.trans hqueue, hinstalling.trans hsettled'.installing, hnone⟩

theorem afterInstall_queue_le (d : Dispatcher σ) (n : Nat)
    (rest : Task σ (Except InstallError Unit)) :
    (d.afterInstall n rest).queue.length ≤ d.queue.length := by
  obtain ⟨⟨hqueue, -⟩ | ⟨hqueue, -⟩, -⟩ := afterInstall_queue d n rest
  · exact hqueue ▸ Nat.zero_le _
  · exact hqueue ▸ Nat.le_refl _

theorem takeUpTo_succ (m : Nat) (hr : d.running = true) (hi : d.installing = none) :
    d.takeUpTo w (m + 1) = (d.take w).pollInstall.takeUpTo w m := by
  rw [takeUpTo, hr, hi]
  rfl

theorem pollInstall_take_queue (w : Worker σ) (d : Dispatcher σ) :
    (d.take w).pollInstall.queue.length ≤ d.queue.length - 1 := by
  rw [← List.length_tail, ← (take_queue w d).1, pollInstall]
  cases (d.take w).installing with
  | none => exact Nat.le_refl _
  | some p => exact afterInstall_queue_le _ _ _

theorem takeUpTo_queue (m : Nat) (d : Dispatcher σ) :
    (d.takeUpTo w m).queue.length ≤ d.queue.length := by
  induction m generalizing d with
  | zero => exact Nat.le_refl _
  | succ m ih =>
    rw [takeUpTo]
    split
    · have hle := ih (d.take w).pollInstall
      have hpoll := pollInstall_take_queue w d
      omega
    · exact Nat.le_refl _

theorem takeUpTo_stopped (m : Nat) (hr : d.running = false) : d.takeUpTo w m = d := by
  cases m with
  | zero => rfl
  | succ m =>
    rw [takeUpTo, hr]
    rfl

/-- As long as events are taken, room can be made for one more. -/
theorem makeRoom_queue (hq : d.queue ≠ []) (hr : (d.makeRoom w).running = true) :
    (d.makeRoom w).queue.length < d.queue.length := by
  have hnone : d.endInstall.installing = none := by
    cases hi : d.installing with
    | none => rwa [endInstall, hi]
    | some p =>
      rw [endInstall_eq hi]
      cases (p.2.run d.shared).1 <;> rfl
  rw [makeRoom] at hr ⊢
  cases hrun : d.endInstall.running with
  | false =>
    rw [takeUpTo_stopped _ hrun, hrun] at hr
    cases hr
  | true =>
    have hqueue : d.endInstall.queue = d.queue := by
      cases hi : d.installing with
      | none => rw [endInstall, hi]
      | some p =>
        rw [endInstall_eq hi] at hrun ⊢
        obtain ⟨⟨-, hstop⟩ | ⟨hqueue, -⟩, -⟩ := afterInstall_queue
          { d with shared := (p.2.run d.shared).2 } p.1 (.ended (p.2.run d.shared).1)
        · cases hstop.symm.trans hrun
        · exact hqueue
    obtain ⟨q, queue, hcons⟩ := List.exists_cons_of_ne_nil hq
    rw [hqueue, hcons, List.length_cons, takeUpTo_succ _ hrun hnone]
    have hle := takeUpTo_queue (w := w) queue.length (d.endInstall.take w).pollInstall
    have hpoll := pollInstall_take_queue w d.endInstall
    rw [hqueue, hcons, List.length_cons] at hpoll
    omega

theorem Leads.counts (h : Leads w d [] d') : d'.capacity = d.capacity ∧ d'.sent = d.sent := by
  obtain ⟨l, hrun, hentered, -⟩ := h
  obtain ⟨hcapacity, hsent⟩ := hrun.counts
  rw [hentered] at hsent
  exact ⟨hcapacity, hsent⟩

/-- To send takes nothing but time, unless events are not taken any more. -/
theorem leads_send (h : d.Shaped) (e : Event) :
    ((d.send w e).1 = true ∧ Leads w d [(d.sent, e)] (d.send w e).2) ∨
      ((d.send w e).1 = false ∧ Leads w d [] (d.send w e).2 ∧ (d.send w e).2.running = false) := by
  have hsend : ∀ {d : Dispatcher σ}, d.running = true → d.hasRoom = true →
      Leads w d [(d.sent, e)] (d.enqueue e) := by
    intro d hr hroom
    exact .single (a := .send e) (by rw [step, hr, hroom]; rfl) rfl
  rw [send]
  by_cases hr : d.running = true
  · rw [if_neg (by simp [hr])]
    by_cases hfree : d.hasRoom = true
    · rw [if_pos hfree]
      exact .inl ⟨rfl, hsend hr hfree⟩
    · rw [if_neg hfree]
      have hleads : Leads w d [] (d.makeRoom w) :=
        (leads_endInstall d).trans (leads_takeUpTo _ _)
      dsimp only
      by_cases hr' : (d.makeRoom w).running = true
      · rw [if_pos hr']
        refine .inl ⟨rfl, ?_⟩
        obtain ⟨hcapacity, hsent⟩ := hleads.counts
        have hle := h.bounded
        have hroom := h.room
        have hfull : ¬ d.queue.length < d.capacity := by simpa [hasRoom] using hfree
        have hne : d.queue ≠ [] := fun hnil => by
          rw [hnil, List.length_nil] at hfull
          omega
        have hlt := makeRoom_queue hne hr'
        have hfree' : (d.makeRoom w).hasRoom = true := by
          rw [hasRoom, hcapacity]
          exact decide_eq_true (by omega)
        rw [← hsent]
        exact hleads.trans (hsend hr' hfree')
      · rw [if_neg hr']
        exact .inr ⟨rfl, hleads, Bool.eq_false_iff.mpr hr'⟩
  · rw [if_pos (by simp [hr])]
    exact .inr ⟨rfl, .refl d, Bool.eq_false_iff.mpr hr⟩

/-- Events that are sent one after another come in one after another, up to the first that cannot be
sent, if there is one. -/
theorem leads_sendAll (h : d.Shaped) (events : List Event) :
    ∃ sent, Leads w d sent (d.sendAll w events).2 ∧
      (((d.sendAll w events).1 = true ∧ sent.map (·.2) = events) ∨
        ((d.sendAll w events).1 = false ∧ sent.map (·.2) <+: events ∧
          (d.sendAll w events).2.running = false)) := by
  induction events generalizing d with
  | nil => exact ⟨[], .refl d, .inl ⟨rfl, rfl⟩⟩
  | cons e events ih =>
    have hsend := leads_send (w := w) h e
    rw [sendAll]
    generalize d.send w e = sent at hsend ⊢
    obtain ⟨possible, d'⟩ := sent
    obtain ⟨rfl, hleads⟩ | ⟨rfl, hleads, hstopped⟩ := hsend
    · have hshaped : d'.Shaped := by
        obtain ⟨l, hrun, -⟩ := hleads
        exact hrun.shaped h
      obtain ⟨rest, hrest, hcase⟩ := ih hshaped
      refine ⟨(d.sent, e) :: rest, hleads.trans hrest, hcase.imp ?_ ?_⟩
      · exact fun ⟨hall, hevents⟩ => ⟨hall, congrArg (e :: ·) hevents⟩
      · exact fun ⟨hall, hevents, hr⟩ => ⟨hall, List.cons_prefix_cons.mpr ⟨rfl, hevents⟩, hr⟩
    · exact ⟨[], hleads, .inr ⟨rfl, List.nil_prefix, hstopped⟩⟩

def call (w : Worker σ) (d : Dispatcher σ) (e : Event) : Option Reply × Dispatcher σ :=
  match d.send w e with
  | (false, d) => (none, d)
  | (true, d') => (some ((d'.drain w).replyTo d.sent), (d'.drain w).settled)

theorem install_eq_call (w : Worker σ) (d : Dispatcher σ) : d.install w =
    (((d.call w .install).1.map Reply.toInstall).getD (.error closed),
      (d.call w .install).2) := by
  rw [install, call]
  generalize d.send w .install = sent
  obtain ⟨_ | _, d'⟩ := sent <;> rfl

theorem fetch_eq_call (w : Worker σ) (d : Dispatcher σ) (q : Request) : d.fetch w q =
    (((d.call w (.fetch q)).1.map Reply.toFetch).getD (.error closed),
      (d.call w (.fetch q)).2) := by
  rw [fetch, call]
  generalize d.send w (.fetch q) = sent
  obtain ⟨_ | _, d'⟩ := sent <;> rfl

/-- Whatever else there is to do, to send an event and wait is one of the runs. -/
theorem run_call (h : d.Shaped) (e : Event) : ∃ l, Run w d l (d.call w e).2 := by
  have hsend := leads_send (w := w) h e
  rw [call]
  generalize d.send w e = sent at hsend
  obtain ⟨possible, d'⟩ := sent
  obtain ⟨rfl, l, hrun, -⟩ | ⟨rfl, ⟨l, hrun, -⟩, -⟩ := hsend
  · obtain ⟨⟨l', hdrain, -⟩, -⟩ := leads_drain (w := w) (hrun.shaped h)
    exact ⟨l ++ l', (hrun.trans hdrain).settle⟩
  · exact ⟨l, hrun⟩

theorem Inv.replied_of_idle {g : Ledger σ} (h : Inv w g d) (hi : d.Idle) {p : Nat × Event}
    (hp : p ∈ g.entered) : g.IsReplied p.1 := by
  obtain ⟨rest, hrest, hrun, hstop⟩ := h.waiting
  rw [hrest] at hp
  obtain hp | hp := List.mem_append.mp hp
  · obtain hreplied | hworking := h.placed p hp
    · exact hreplied
    · rw [working, hi.installing, hi.fetching] at hworking
      cases hworking
  · cases hr : d.running with
    | true =>
      rw [← hrun hr, hi.queue] at hp
      cases hp
    | false => exact List.mem_map_of_mem ((hstop hr).2.2 p hp)

theorem lookup_append_of_mem {α : Type} {l : List (Nat × α)} (l' : List (Nat × α)) (h : n ∈ l.map (·.1)) :
    ∃ a, (n, a) ∈ l ∧ (l ++ l').lookup n = some a := by
  induction l with
  | nil => cases h
  | cons p l ih =>
    by_cases hp : n = p.1
    · subst hp
      exact ⟨p.2, List.mem_cons_self, List.lookup_cons_self⟩
    · obtain ⟨a, ha, hlookup⟩ := ih ((List.mem_cons.mp h).resolve_left hp)
      refine ⟨a, List.mem_cons_of_mem _ ha, ?_⟩
      rw [List.cons_append, List.lookup_cons, beq_false_of_ne hp]
      exact hlookup

/-- How a call for an event may end, by itself or among others: with the reply to that very event,
or because nothing is taken any more. -/
inductive CallEnds (w : Worker σ) (d : Dispatcher σ) (e : Event) :
    Option Reply → Dispatcher σ → Prop
  | replied {l : Trace σ} {r : Reply} {d' : Dispatcher σ} (h : Run w d l d')
    (he : entered l = [(d.sent, e)]) (hr : (d.sent, r) ∈ replied l) : CallEnds w d e (some r) d'
  | closed {l : Trace σ} {d' : Dispatcher σ} (h : Run w d l d') (he : entered l = [])
    (hr : d'.running = false) : CallEnds w d e none d'

theorem callEnds_of_leads {l : Trace σ} {e : Event} (h : Inv w l.ledger d) (hd : d.Shaped)
    (hl : Leads w d [(d.sent, e)] d') :
    CallEnds w d e (some ((d'.drain w).replyTo d.sent)) (d'.drain w).settled := by
  have hshaped : d'.Shaped := by
    obtain ⟨l', hrun, -⟩ := hl
    exact hrun.shaped hd
  obtain ⟨hdrain, hi⟩ := leads_drain hshaped
  obtain ⟨l', hrun, hentered, hreplies⟩ := hl.trans hdrain
  rw [List.append_nil] at hentered
  have hreplied : Ledger.IsReplied (Trace.ledger (l ++ l')) d.sent := by
    refine (h.run hrun).replied_of_idle hi (p := (d.sent, e)) ?_
    change _ ∈ entered (l ++ l')
    rw [entered_append, hentered]
    exact List.mem_append_right _ List.mem_cons_self
  have hnew : d.sent ∈ (replied l').reverse.map (·.1) := by
    change _ ∈ (replied (l ++ l')).map _ at hreplied
    rw [replied_append, List.map_append] at hreplied
    rw [List.map_reverse, List.mem_reverse]
    refine (List.mem_append.mp hreplied).resolve_left fun hold => ?_
    obtain ⟨p, hp, heq⟩ := List.mem_map.mp hold
    obtain ⟨e', he', -⟩ := h.answers p hp
    exact Nat.lt_irrefl _ (heq ▸ h.lt_sent he')
  obtain ⟨r, hr, hlookup⟩ := lookup_append_of_mem d.replies hnew
  rw [replyTo, hreplies, hlookup]
  exact .replied hrun.settle hentered (List.mem_reverse.mp hr)

theorem callEnds {l : Trace σ} (h : Inv w l.ledger d) (hd : d.Shaped) (e : Event) :
    CallEnds w d e (d.call w e).1 (d.call w e).2 := by
  have hsend := leads_send (w := w) hd e
  rw [call]
  generalize d.send w e = sent at hsend
  obtain ⟨possible, d'⟩ := sent
  obtain ⟨rfl, hl⟩ | ⟨rfl, ⟨l', hrun, hentered, -⟩, hr⟩ := hsend
  · exact callEnds_of_leads h hd hl
  · exact .closed hrun hentered hr

end Dispatcher

end AssetCache
