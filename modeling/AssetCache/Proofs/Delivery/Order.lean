import AssetCache.Proofs.Delivery.Schedule

namespace AssetCache

def Event.Fails : Event → Reply → Prop
  | .install, r => ∃ m, r.toInstall = .error (.internal m)
  | .fetch _, r => ∃ m, r.toFetch = .error (.internal m)

theorem Event.fails_dropped (e : Event) : e.Fails .dropped := by
  cases e with
  | install => exact ⟨_, rfl⟩
  | fetch r => exact ⟨_, rfl⟩

def Reply.ofFetch : Option (Except CacheError Response) → Reply
  | some result => .fetched result
  | none => .dropped

def Occurrence.Calls {σ : Type} (k : Nat) : Occurrence σ → Prop
  | .taken n _ => n = k
  | .worked n _ => n = k
  | _ => False

theorem Trace.exists_of_mem_taken {σ : Type} {l : Trace σ} {n : Nat} {e : Event}
    (h : (n, e) ∈ taken l) : ∃ before after, l = before ++ .taken n e :: after := by
  obtain ⟨o, ho, htaken⟩ := List.mem_filterMap.mp h
  cases o with
  | taken m e' =>
    cases htaken
    exact List.append_of_mem ho
  | entered | worked | replied => cases htaken

namespace Dispatcher

variable {σ : Type} {w : Worker σ} {d d' : Dispatcher σ} {n : Nat} {e : Event} {r : Reply}

namespace Move

open Trace

variable {l b₁ b₂ : Trace σ} {s : σ}

theorem exists_of_mem_ofReplies (replies : List (Nat × Reply)) {o : Occurrence σ}
    (ho : o ∈ ofReplies replies) : ∃ n r, o = .replied n r := by
  obtain ⟨q, -, rfl⟩ := List.mem_map.mp ho
  exact ⟨_, _, rfl⟩

theorem taken (h : Move w d (b₁ ++ .taken n e :: b₂) d') : b₁ = [] ∧ d.running = true ∧
    d.installing = none ∧ ∃ queue, d.queue = (n, e) :: queue := by
  generalize hl : b₁ ++ .taken n e :: b₂ = l at h
  have hmem : .taken n e ∈ l := hl ▸ List.mem_append_right _ List.mem_cons_self
  cases h with
  | send hr hroom e' => cases List.mem_singleton.mp hmem
  | take hr hi hq =>
    cases List.mem_singleton.mp hmem
    refine ⟨?_, hr, hi, _, hq⟩
    cases b₁ with
    | nil => rfl
    | cons o b₁ => cases b₁ <;> cases (List.cons.inj hl).2
  | install hi hd =>
    obtain hmem | hmem := List.mem_append.mp hmem
    · cases List.mem_singleton.mp hmem
    · obtain ⟨_, _, heq⟩ := exists_of_mem_ofReplies _ hmem
      cases heq
  | fetch ht hd =>
    obtain hmem | hmem := List.mem_append.mp hmem
    · cases List.mem_singleton.mp hmem
    · obtain ⟨_, _, heq⟩ := exists_of_mem_ofReplies _ hmem
      cases heq

theorem eq_nil_of_worked {k : Nat} {s' : σ} {replies : List (Nat × Reply)}
    (h : b₁ ++ .worked n s :: b₂ = [.worked k s'] ++ ofReplies replies) : b₁ = [] ∧ n = k := by
  cases b₁ with
  | nil =>
    cases h
    exact ⟨rfl, rfl⟩
  | cons o b₁ =>
    have htail : b₁ ++ .worked n s :: b₂ = ofReplies replies := (List.cons.inj h).2
    have hmem : .worked n s ∈ ofReplies replies :=
      htail ▸ List.mem_append_right _ List.mem_cons_self
    obtain ⟨_, _, heq⟩ := exists_of_mem_ofReplies _ hmem
    cases heq

theorem worked (h : Move w d (b₁ ++ .worked n s :: b₂) d') : b₁ = [] ∧ n ∈ d.working := by
  generalize hl : b₁ ++ .worked n s :: b₂ = l at h
  have hmem : .worked n s ∈ l := hl ▸ List.mem_append_right _ List.mem_cons_self
  cases h with
  | send hr hroom e => cases List.mem_singleton.mp hmem
  | take hr hi hq => cases List.mem_singleton.mp hmem
  | install hi hd =>
    obtain ⟨hb, rfl⟩ := eq_nil_of_worked hl
    refine ⟨hb, List.mem_append_left _ ?_⟩
    rw [hi]
    exact List.mem_cons_self
  | fetch ht hd =>
    obtain ⟨hb, rfl⟩ := eq_nil_of_worked hl
    exact ⟨hb, List.mem_append_right _ (List.mem_map_of_mem ht)⟩

theorem entered_worked (n : Nat) (s : σ) (replies : List (Nat × Reply)) :
    entered ([.worked n s] ++ ofReplies replies) = [] ∧
      Trace.taken ([.worked n s] ++ ofReplies replies) = [] := by
  rw [entered_append, taken_append, entered_ofReplies, taken_ofReplies]
  exact ⟨rfl, rfl⟩

theorem replied (h : Move w d l d') (hr : .replied n r ∈ l) : entered l = [] ∧ Trace.taken l = [] := by
  cases h with
  | send hr hroom e => cases List.mem_singleton.mp hr
  | take hr hi hq => cases List.mem_singleton.mp hr
  | install hi hd => exact entered_worked _ _ _
  | fetch ht hd => exact entered_worked _ _ _

theorem of_stopped (h : Move w d l d') (hr : d.running = false) :
    entered l = [] ∧ Trace.taken l = [] ∧ d'.running = false := by
  cases h with
  | send hr' hroom e => cases hr.symm.trans hr'
  | take hr' hi hq => cases hr.symm.trans hr'
  | @install _ n t hi hd =>
    obtain ⟨hentered, htaken⟩ := entered_worked n d.shared (d.newReplies d')
    refine ⟨hentered, htaken, ?_⟩
    rw [hd]
    cases (t.advance d.shared).1 with
    | crash => rfl
    | done | wait | act => exact hr
  | @fetch _ n t ht hd =>
    obtain ⟨hentered, htaken⟩ := entered_worked n d.shared (d.newReplies d')
    refine ⟨hentered, htaken, ?_⟩
    rw [hd]
    cases (t.advance d.shared).1 with
    | done | crash | wait | act => exact hr

end Move

namespace Run

open Trace

variable {capacity : Nat} {shared s : σ} {l before after : Trace σ} {k : Nat}

theorem inv (h : Run w (.begin capacity shared) l d) : Inv w l.ledger d :=
  (Inv.begin w capacity shared).run h

/-- Behind an install nothing is taken until its reply has been sent, and that was not of a crash. -/
theorem answered_before_taken (h : Run w (.begin capacity shared) (before ++ .taken k e :: after) d)
    (hn : n < k) (hi : (n, .install) ∈ entered (before ++ .taken k e :: after)) :
    ∃ result, (n, .installed result) ∈ replied before := by
  have hinv := h.inv
  obtain ⟨l₁, d₁, d₂, l₂, b₁, b₂, h₁, hm, h₂, rfl, rfl⟩ := h.split
  obtain ⟨rfl, hr, hnone, queue, hq⟩ := hm.taken
  have hinv₁ := h₁.inv
  rw [List.append_nil]
  obtain ⟨hk, hlater⟩ := hinv₁.not_taken_of_queue hr (q := (k, e)) (hq ▸ List.mem_cons_self)
  have hi₁ : (n, .install) ∈ taken l₁ := by
    obtain ⟨e', he'⟩ := hinv₁.taken_of_lt hr hq hn
    have hentered : (n, e') ∈ entered (l₁ ++ [] ++ .taken k e :: (b₂ ++ l₂)) := by
      rw [List.append_nil, entered_append]
      exact List.mem_append_left _ (hinv₁.mem_entered he')
    cases hinv.unique hi hentered
    exact he'
  obtain hreplied | hworking := hinv₁.placed _ hi₁
  · obtain ⟨⟨m, r⟩, hp, rfl⟩ := List.mem_map.mp hreplied
    obtain ⟨e', htaken, hreply⟩ := hinv₁.taken_of_replied hr hp
    cases hinv₁.unique (hinv₁.mem_entered hi₁) (hinv₁.mem_entered htaken)
    cases r with
    | installed result => exact ⟨result, hp⟩
    | dropped =>
      rw [hinv₁.stopped.mpr ⟨m, hi₁, hp⟩] at hr
      cases hr
    | fetched result =>
      rw [Worker.reply?] at hreply
      split at hreply <;> cases hreply
  · rw [working, hnone] at hworking
    obtain ⟨p, hp, rfl⟩ := List.mem_map.mp hworking
    obtain ⟨r, htaken, -⟩ := hinv₁.fetching p hp
    cases hinv₁.unique (hinv₁.mem_entered hi₁) (hinv₁.mem_entered htaken)

theorem taken_before_worked (h : Run w (.begin capacity shared) (before ++ .worked k s :: after) d) :
    ∃ e, (k, e) ∈ taken before := by
  obtain ⟨l₁, d₁, d₂, l₂, b₁, b₂, h₁, hm, h₂, rfl, rfl⟩ := h.split
  obtain ⟨rfl, hk⟩ := hm.worked
  rw [List.append_nil]
  obtain hk | hk := List.mem_append.mp hk
  · obtain ⟨p, hp, rfl⟩ := Option.map_eq_some_iff.mp (Option.mem_toList.mp hk)
    exact ⟨_, (h₁.inv.installing p hp).1⟩
  · obtain ⟨p, hp, rfl⟩ := List.mem_map.mp hk
    obtain ⟨r, htaken, -⟩ := h₁.inv.fetching p hp
    exact ⟨_, htaken⟩

theorem of_stopped (h : Run w d l d') (hr : d.running = false) :
    entered l = [] ∧ taken l = [] ∧ d'.running = false := by
  induction h with
  | refl => exact ⟨rfl, rfl, hr⟩
  | step _ a hs ih =>
    obtain ⟨hentered, htaken, hr'⟩ := ih
    obtain ⟨hentered', htaken', hr''⟩ := (move_of_step hs).of_stopped hr'
    rw [entered_append, taken_append, hentered, htaken, hentered', htaken']
    exact ⟨rfl, rfl, hr''⟩
  | settle _ ih => exact ih

/-- After the crash of an install nothing more is taken and nothing comes into the queue. -/
theorem nothing_after_crash
    (h : Run w (.begin capacity shared) (before ++ .replied n .dropped :: after) d)
    (hi : (n, .install) ∈ entered (before ++ .replied n .dropped :: after)) :
    entered after = [] ∧ taken after = [] := by
  have hinv := h.inv
  obtain ⟨l₁, d₁, d₂, l₂, b₁, b₂, h₁, hm, h₂, rfl, rfl⟩ := h.split
  have hmem : .replied n .dropped ∈ b₁ ++ .replied n .dropped :: b₂ :=
    List.mem_append_right _ List.mem_cons_self
  obtain ⟨hentered, htaken⟩ := hm.replied hmem
  have hinv₂ := h₁.inv.move hm
  have hstopped : d₂.running = false := by
    have hreplied : (n, .dropped) ∈ replied (l₁ ++ (b₁ ++ .replied n .dropped :: b₂)) :=
      List.mem_filterMap.mpr ⟨_, List.mem_append_right _ hmem, rfl⟩
    obtain ⟨e, he, hanswer⟩ := hinv₂.answers _ hreplied
    have hentered : (n, e) ∈ entered (l₁ ++ b₁ ++ .replied n .dropped :: (b₂ ++ l₂)) := by
      have hparts : l₁ ++ b₁ ++ .replied n .dropped :: (b₂ ++ l₂) =
          (l₁ ++ (b₁ ++ .replied n .dropped :: b₂)) ++ l₂ := by
        simp only [List.append_assoc, List.cons_append]
      rw [hparts, entered_append]
      exact List.mem_append_left _ he
    cases hinv.unique hi hentered
    cases hanswer with
    | own ht hr => exact hinv₂.stopped.mpr ⟨n, ht, hreplied⟩
    | left ht hm hinstall hcrash => exact hinv₂.stopped.mpr ⟨_, hinstall, hcrash⟩
  obtain ⟨hentered₂, htaken₂, -⟩ := h₂.of_stopped hstopped
  rw [← List.singleton_append, entered_append, entered_append, List.append_eq_nil_iff,
    List.append_eq_nil_iff] at hentered
  rw [← List.singleton_append, taken_append, taken_append, List.append_eq_nil_iff,
    List.append_eq_nil_iff] at htaken
  rw [entered_append, taken_append, hentered.2.2, htaken.2.2, hentered₂, htaken₂]
  exact ⟨rfl, rfl⟩

theorem answered_before_worked
    (h : Run w (.begin capacity shared) (before ++ .worked k s :: after) d) (hn : n < k)
    (hi : (n, .install) ∈ entered (before ++ .worked k s :: after)) :
    ∃ result, (n, .installed result) ∈ replied before := by
  obtain ⟨e, he⟩ := h.taken_before_worked
  obtain ⟨b₁, b₂, rfl⟩ := exists_of_mem_taken he
  rw [List.append_assoc, List.cons_append] at h hi
  obtain ⟨result, hresult⟩ := h.answered_before_taken hn hi
  rw [replied_append]
  exact ⟨result, List.mem_append_left _ hresult⟩

theorem taken_before_crash {m : Nat}
    (h : Run w (.begin capacity shared) (before ++ .replied n .dropped :: after) d)
    (hi : (n, .install) ∈ entered (before ++ .replied n .dropped :: after))
    (hw : .worked m s ∈ after) : ∃ e, (m, e) ∈ taken before := by
  obtain ⟨-, htaken⟩ := h.nothing_after_crash hi
  obtain ⟨b₁, b₂, rfl⟩ := List.append_of_mem hw
  rw [← List.cons_append, ← List.append_assoc] at h
  obtain ⟨e, he⟩ := h.taken_before_worked
  rw [taken_append] at htaken
  rw [taken_append, ← List.singleton_append, taken_append,
    (List.append_eq_nil_iff.mp htaken).1] at he
  exact ⟨e, by simpa [taken] using he⟩

/-- A fetch that has been taken ends as it would with nobody else there, and does nothing but that. -/
theorem fetch_goes_on {q : Request} (h : Run w (.begin capacity shared) l d)
    (ht : (n, .fetch q) ∈ taken l) (hn : n ∉ (replied l).map (·.1)) :
    ∃ l', Run w d l' ({ d with shared := (((w.fetch q).along (states l n)).run d.shared).2 }.afterFetch
        n (.ended (((w.fetch q).along (states l n)).run d.shared).1)) ∧ entered l' = [] ∧
      replied l' = [(n, .ofFetch (((w.fetch q).along (states l n)).run d.shared).1)] := by
  have hinv := h.inv
  have hmem : (n, (w.fetch q).along (states l n)) ∈ d.fetching := by
    have hworking := (hinv.placed _ ht).resolve_left hn
    obtain hinstall | hfetch := List.mem_append.mp hworking
    · obtain ⟨p, hp, rfl⟩ := Option.map_eq_some_iff.mp (Option.mem_toList.mp hinstall)
      cases hinv.unique (hinv.mem_entered ht) (hinv.mem_entered (hinv.installing p hp).1)
    · obtain ⟨⟨m, t⟩, hp, rfl⟩ := List.mem_map.mp hfetch
      obtain ⟨q', htaken, rfl, -⟩ : ∃ r, (m, .fetch r) ∈ taken l ∧
          t = (w.fetch r).along (states l m) ∧ _ := hinv.fetching _ hp
      cases hinv.unique (hinv.mem_entered ht) (hinv.mem_entered htaken)
      exact hp
  obtain ⟨l', hrun, hentered, hreplies⟩ := leads_fetch (w := w) hinv.nodup hmem
  refine ⟨l', hrun, hentered, ?_⟩
  have hnew : (replied l').reverse =
      [(n, .ofFetch (((w.fetch q).along (states l n)).run d.shared).1)] := by
    refine List.append_cancel_right (hreplies.symm.trans ?_)
    cases (((w.fetch q).along (states l n)).run d.shared).1 <;> rfl
  rw [← List.reverse_reverse (replied l'), hnew]
  rfl

theorem all_answered (h : Run w (.begin capacity shared) l d) :
    ∃ l' d', Run w d l' d' ∧ entered l' = [] ∧
      ∀ p ∈ entered l, p.1 ∈ (replied (l ++ l')).map (·.1) := by
  obtain ⟨⟨l', hrun, hentered, -⟩, hidle⟩ := leads_drain (h.shaped (.begin capacity shared))
  refine ⟨l', _, hrun, hentered, fun p hp => (h.inv.run hrun).replied_of_idle hidle ?_⟩
  have hmem : p ∈ entered (l ++ l') := by
    rw [entered_append]
    exact List.mem_append_left _ hp
  exact hmem

end Run

/-- All that can be relied on, whoever takes the next step. -/
structure Orderly (w : Worker σ) (capacity : Nat) (l : Trace σ) (d : Dispatcher σ) : Prop where
  numbered : (Trace.entered l).map (·.1) = List.range d.sent
  bounded : d.queue.length ≤ max capacity 1
  /-- Events are taken in the order in which they came. Those not taken wait in the queue, or were
  dropped with it. -/
  inOrder : ∃ rest, Trace.entered l = Trace.taken l ++ rest ∧ (d.running = true → d.queue = rest) ∧
    (d.running = false → d.queue = [] ∧
      ∀ p ∈ rest, (p.1, .dropped) ∈ Trace.replied l ∧ p.2.Fails .dropped)
  /-- While a call is begun or goes on, each install before it has its reply. -/
  behind : ∀ before o after n k, l = before ++ o :: after → o.Calls k → n < k →
    (n, .install) ∈ Trace.entered l → ∃ result, (n, .installed result) ∈ Trace.replied before
  once : ((Trace.replied l).map (·.1)).Nodup
  answers : ∀ p ∈ Trace.replied l,
    ∃ e, (p.1, e) ∈ Trace.entered l ∧ l.ledger.Answers w p.1 e p.2
  stops : d.running = false ↔
    ∃ n, (n, .install) ∈ Trace.taken l ∧ (n, .dropped) ∈ Trace.replied l
  crash : ∀ before after n, l = before ++ .replied n .dropped :: after →
    (n, .install) ∈ Trace.entered l → Event.install.Fails .dropped ∧ Trace.entered after = [] ∧
      Trace.taken after = [] ∧ ∀ m s, .worked m s ∈ after → ∃ e, (m, e) ∈ Trace.taken before
  closed : d.running = false → (∀ e, d.step w (.send e) = none) ∧ d.step w .take = none ∧
    d.install w = (.error closed, d) ∧ ∀ q, d.fetch w q = (.error closed, d)
  goesOn : ∀ n q, (n, .fetch q) ∈ Trace.taken l → n ∉ (Trace.replied l).map (·.1) →
    ∃ t l', t = (w.fetch q).along (Trace.states l n) ∧ Trace.entered l' = [] ∧
      Trace.replied l' = [(n, .ofFetch (t.run d.shared).1)] ∧
      Run w d l' ({ d with shared := (t.run d.shared).2 }.afterFetch n (.ended (t.run d.shared).1))
  /-- Who installs or fetches through a handle is told what the reply to his own event makes of it. -/
  installs : ∃ r, CallEnds w d .install r (d.install w).2 ∧
    (d.install w).1 = (r.map Reply.toInstall).getD (.error Dispatcher.closed)
  fetches : ∀ q, ∃ r, CallEnds w d (.fetch q) r (d.fetch w q).2 ∧
    (d.fetch w q).1 = (r.map Reply.toFetch).getD (.error Dispatcher.closed)
  ends : ∃ l' d', Run w d l' d' ∧ Trace.entered l' = [] ∧
    ∀ p ∈ Trace.entered l, p.1 ∈ (Trace.replied (l ++ l')).map (·.1)

/-- Events are taken in the order in which they came and replied to once, with what their own call
has come to; behind an install nothing begins before its reply was sent, and if it crashes nothing
begins any more, while the fetches that had begun go on. -/
theorem every_run_is_orderly {capacity : Nat} {shared : σ} {l : Trace σ}
    (h : Run w (.begin capacity shared) l d) : Orderly w capacity l d where
  numbered := h.inv.tickets
  bounded := h.inv.bounded.trans h.counts.1.le
  inOrder := by
    obtain ⟨rest, hrest, hrun, hstop⟩ := h.inv.waiting
    refine ⟨rest, hrest, hrun, fun hr => ?_⟩
    obtain ⟨hqueue, -, hdropped⟩ := hstop hr
    exact ⟨hqueue, fun p hp => ⟨hdropped p hp, p.2.fails_dropped⟩⟩
  behind := by
    rintro before o after n k rfl hk hn hi
    cases o with
    | taken m e =>
      cases hk
      exact h.answered_before_taken hn hi
    | worked m s =>
      cases hk
      exact h.answered_before_worked hn hi
    | entered | replied => cases hk
  once := h.inv.once
  answers := h.inv.answers
  stops := h.inv.stopped
  crash := by
    rintro before after n rfl hi
    obtain ⟨hentered, htaken⟩ := h.nothing_after_crash hi
    exact ⟨Event.fails_dropped _, hentered, htaken, fun m s hw => h.taken_before_crash hi hw⟩
  closed hr := by
    refine ⟨fun e => ?_, ?_, ?_, fun q => ?_⟩
    · rw [step, hr]
      rfl
    · rw [step, hr]
      rfl
    · rw [Dispatcher.install, send, hr]
      rfl
    · rw [Dispatcher.fetch, send, hr]
      rfl
  goesOn n q ht hn := by
    obtain ⟨l', hrun, hentered, hreplied⟩ := h.fetch_goes_on ht hn
    exact ⟨_, l', rfl, hentered, hreplied, hrun⟩
  installs := by
    rw [install_eq_call]
    exact ⟨_, callEnds h.inv (h.shaped (.begin capacity shared)) .install, rfl⟩
  fetches q := by
    rw [fetch_eq_call]
    exact ⟨_, callEnds h.inv (h.shaped (.begin capacity shared)) (.fetch q), rfl⟩
  ends := h.all_answered

/-- An install that crashes while a fetch before it goes on and one behind it is queued. -/
theorem orderly_despite_crash :
    let page : Request :=
      .get ⟨"http".toList, some ⟨[], "a".toList, none⟩, .segments [[]], none, none⟩
    let w : Worker Nat := ⟨.wait (.wait .crash), fun _ =>
      .act (fun s => (s, s + 1)) fun _ => .wait (.done (.ok ⟨200, [], .empty⟩))⟩
    let l : Trace Nat := [.entered 0 (.fetch page), .taken 0 (.fetch page), .entered 1 .install,
      .entered 2 (.fetch page), .taken 1 .install, .worked 1 0, .worked 0 0, .worked 1 1,
      .replied 1 .dropped, .replied 2 .dropped, .worked 0 1,
      .replied 0 (.fetched (.ok ⟨200, [], .empty⟩))]
    ∃ d, Run w (.begin 2 0) l d ∧ d.running = false ∧ Orderly w 2 l d := by
  intro page w l
  have hrun : Run w (.begin 2 0) l _ :=
    .of_follow [.send (.fetch page), .take, .send .install, .send (.fetch page), .take, .install,
      .fetch 0, .install, .fetch 0] rfl
  exact ⟨_, hrun, rfl, every_run_is_orderly hrun⟩

end Dispatcher

end AssetCache
