import AssetCache.Proofs.Dispatcher
import Mathlib.Data.List.Nodup

namespace AssetCache

namespace Task

variable {σ α : Type}

def along (t : Task σ α) (states : List σ) : Task σ α :=
  states.foldl (fun t s => (t.advance s).1) t

theorem along_concat (t : Task σ α) (states : List σ) (s : σ) :
    t.along (states ++ [s]) = ((t.along states).advance s).1 := by
  rw [along, along, List.foldl_append, List.foldl_cons, List.foldl_nil]

end Task

/-- The reply that the call for an event has come to after one step from each of these states. -/
def Worker.reply? {σ : Type} (w : Worker σ) (states : List σ) : Event → Option Reply
  | .install =>
    match w.install.along states with
    | .done result => some (.installed result)
    | .crash => some .dropped
    | _ => none
  | .fetch r =>
    match (w.fetch r).along states with
    | .done result => some (.fetched result)
    | .crash => some .dropped
    | _ => none

/-- An event comes into the queue or is taken from it, the call for it takes a step from a state, or
its sender gets a reply. -/
inductive Occurrence (σ : Type) where
  | entered (ticket : Nat) (e : Event)
  | taken (ticket : Nat) (e : Event)
  | worked (ticket : Nat) (s : σ)
  | replied (ticket : Nat) (r : Reply)

abbrev Trace (σ : Type) := List (Occurrence σ)

namespace Trace

variable {σ : Type}

def entered (l : Trace σ) : List (Nat × Event) :=
  l.filterMap fun
    | .entered n e => some (n, e)
    | _ => none

def taken (l : Trace σ) : List (Nat × Event) :=
  l.filterMap fun
    | .taken n e => some (n, e)
    | _ => none

def replied (l : Trace σ) : List (Nat × Reply) :=
  l.filterMap fun
    | .replied n r => some (n, r)
    | _ => none

def states (l : Trace σ) (n : Nat) : List σ :=
  l.filterMap fun
    | .worked k s => if k = n then some s else none
    | _ => none

@[simp] theorem entered_append (l l' : Trace σ) : entered (l ++ l') = entered l ++ entered l' :=
  List.filterMap_append

@[simp] theorem taken_append (l l' : Trace σ) : taken (l ++ l') = taken l ++ taken l' :=
  List.filterMap_append

@[simp] theorem replied_append (l l' : Trace σ) : replied (l ++ l') = replied l ++ replied l' :=
  List.filterMap_append

@[simp] theorem states_append (l l' : Trace σ) (n : Nat) :
    states (l ++ l') n = states l n ++ states l' n :=
  List.filterMap_append

def ofReplies (replies : List (Nat × Reply)) : Trace σ := replies.map fun q => .replied q.1 q.2

@[simp] theorem entered_ofReplies (replies : List (Nat × Reply)) :
    entered (ofReplies (σ := σ) replies) = [] := by
  simp [ofReplies, entered, List.filterMap_map]

@[simp] theorem taken_ofReplies (replies : List (Nat × Reply)) :
    taken (ofReplies (σ := σ) replies) = [] := by
  simp [ofReplies, taken, List.filterMap_map]

@[simp] theorem replied_ofReplies (replies : List (Nat × Reply)) :
    replied (ofReplies (σ := σ) replies) = replies := by
  simp [ofReplies, replied, List.filterMap_map]

@[simp] theorem states_ofReplies (replies : List (Nat × Reply)) (n : Nat) :
    states (ofReplies (σ := σ) replies) n = [] := by
  simp [ofReplies, states, List.filterMap_map]

end Trace

namespace Dispatcher

variable {σ : Type} {w : Worker σ} {d d' d'' : Dispatcher σ} {l l' : Trace σ}

def newReplies (d d' : Dispatcher σ) : List (Nat × Reply) :=
  (d'.replies.take (d'.replies.length - d.replies.length)).reverse

theorem newReplies_eq (new : List (Nat × Reply)) (h : d'.replies = new ++ d.replies) :
    newReplies d d' = new.reverse := by
  rw [newReplies, h, List.length_append, Nat.add_sub_cancel, List.take_left]

def occurrences (d d' : Dispatcher σ) : Action → Trace σ
  | .send e => [.entered d.sent e]
  | .take => (d.queue.take 1).map fun q => .taken q.1 q.2
  | .install =>
    (d.installing.map fun p => .worked p.1 d.shared).toList ++ Trace.ofReplies (newReplies d d')
  | .fetch ticket => .worked ticket d.shared :: Trace.ofReplies (newReplies d d')

/-- All that an action can do, with what happens thereby. -/
inductive Move (w : Worker σ) (d : Dispatcher σ) : Trace σ → Dispatcher σ → Prop
  | send (hr : d.running = true) (hroom : d.queue.length < d.capacity) (e : Event) :
    Move w d [.entered d.sent e] (d.enqueue e)
  | take {n : Nat} {e : Event} {queue : List (Nat × Event)} (hr : d.running = true)
    (hi : d.installing = none) (hq : d.queue = (n, e) :: queue) :
    Move w d [.taken n e] (d.take w)
  | install {d' : Dispatcher σ} {n : Nat} {t : Task σ (Except InstallError Unit)}
    (hi : d.installing = some (n, t))
    (hd : d' = { d with shared := (t.advance d.shared).2 }.afterInstall n (t.advance d.shared).1) :
    Move w d ([.worked n d.shared] ++ Trace.ofReplies (newReplies d d')) d'
  | fetch {d' : Dispatcher σ} {n : Nat} {t : Task σ (Except CacheError Response)}
    (ht : (n, t) ∈ d.fetching)
    (hd : d' = { d with shared := (t.advance d.shared).2 }.afterFetch n (t.advance d.shared).1) :
    Move w d ([.worked n d.shared] ++ Trace.ofReplies (newReplies d d')) d'

theorem move_of_step {a : Action} (hs : d.step w a = some d') :
    Move w d (d.occurrences d' a) d' := by
  cases a with
  | send e =>
    rw [step] at hs
    split at hs
    · next hc =>
      cases hs
      rw [hasRoom, Bool.and_eq_true, decide_eq_true_eq] at hc
      exact .send hc.1 hc.2 e
    · cases hs
  | take =>
    obtain ⟨hr, hi, rfl, n, e, queue, hq⟩ := step_take_queue hs
    rw [occurrences, hq]
    exact .take hr hi hq
  | install =>
    obtain ⟨n, t, hi, hd⟩ := step_install hs
    rw [occurrences, hi]
    exact .install hi hd
  | fetch n =>
    obtain ⟨t, ht, hd⟩ := step_fetch hs
    exact .fetch ht hd

theorem afterInstall_queue (d : Dispatcher σ) (n : Nat) (rest : Task σ (Except InstallError Unit)) :
    (((d.afterInstall n rest).queue = [] ∧ (d.afterInstall n rest).running = false) ∨
        ((d.afterInstall n rest).queue = d.queue ∧
          (d.afterInstall n rest).running = d.running)) ∧
      (d.afterInstall n rest).capacity = d.capacity ∧ (d.afterInstall n rest).sent = d.sent ∧
      (d.afterInstall n rest).fetching = d.fetching := by
  cases rest with
  | crash => exact ⟨.inl ⟨rfl, rfl⟩, rfl, rfl, rfl⟩
  | done | wait | act => exact ⟨.inr ⟨rfl, rfl⟩, rfl, rfl, rfl⟩

theorem afterFetch_queue (d : Dispatcher σ) (n : Nat) (rest : Task σ (Except CacheError Response)) :
    (d.afterFetch n rest).queue = d.queue ∧ (d.afterFetch n rest).running = d.running ∧
      (d.afterFetch n rest).capacity = d.capacity ∧ (d.afterFetch n rest).sent = d.sent ∧
      ((d.afterFetch n rest).fetching.map (·.1)).Sublist (d.fetching.map (·.1)) := by
  have hmap : ((d.fetching.map fun f => if f.1 = n then (n, rest) else f).map (·.1)) =
      d.fetching.map (·.1) := by
    rw [List.map_map]
    refine List.map_congr_left fun f _ => ?_
    by_cases hf : f.1 = n <;> simp [hf]
  cases rest with
  | done | crash => exact ⟨rfl, rfl, rfl, rfl, List.filter_sublist.map _⟩
  | wait | act => exact ⟨rfl, rfl, rfl, rfl, hmap ▸ .refl _⟩

theorem Move.counts (h : Move w d l d') :
    d'.capacity = d.capacity ∧ d'.sent = d.sent + (Trace.entered l).length := by
  cases h with
  | send hr hroom e => exact ⟨rfl, rfl⟩
  | take hr hi hq =>
    rw [Dispatcher.take.eq_def, hq]
    split <;> exact ⟨rfl, rfl⟩
  | @install _ n t hi hd =>
    obtain ⟨-, hcapacity, hsent, -⟩ :=
      afterInstall_queue { d with shared := (t.advance d.shared).2 } n (t.advance d.shared).1
    rw [← hd] at hcapacity hsent
    rw [Trace.entered_append, Trace.entered_ofReplies]
    exact ⟨hcapacity, hsent⟩
  | @fetch _ n t ht hd =>
    obtain ⟨-, -, hcapacity, hsent, -⟩ :=
      afterFetch_queue { d with shared := (t.advance d.shared).2 } n (t.advance d.shared).1
    rw [← hd] at hcapacity hsent
    rw [Trace.entered_append, Trace.entered_ofReplies]
    exact ⟨hcapacity, hsent⟩

def tickets (d : Dispatcher σ) : List Nat := d.fetching.map (·.1) ++ d.queue.map (·.1)

structure Shaped (d : Dispatcher σ) : Prop where
  room : 0 < d.capacity
  bounded : d.queue.length ≤ d.capacity
  stopped : d.running = false → d.queue = []
  once : d.tickets.Nodup
  given : ∀ n ∈ d.tickets, n < d.sent

namespace Shaped

theorem begin (capacity : Nat) (shared : σ) : (begin capacity shared).Shaped where
  room := Nat.lt_of_lt_of_le Nat.zero_lt_one (Nat.le_max_right _ _)
  bounded := Nat.zero_le _
  stopped h := nomatch h
  once := List.nodup_nil
  given _ h := nomatch h

theorem of_sublist (h : d.Shaped) (hcapacity : d'.capacity = d.capacity) (hsent : d'.sent = d.sent)
    (hbounded : d'.queue.length ≤ d.queue.length) (hstopped : d'.running = false → d'.queue = [])
    (htickets : d'.tickets.Sublist d.tickets) : d'.Shaped where
  room := hcapacity ▸ h.room
  bounded := hcapacity ▸ Nat.le_trans hbounded h.bounded
  stopped := hstopped
  once := h.once.sublist htickets
  given n hn := hsent ▸ h.given n (htickets.subset hn)

theorem send (h : d.Shaped) (hr : d.running = true) (hroom : d.queue.length < d.capacity)
    (e : Event) : (d.enqueue e).Shaped := by
  have htickets : (d.enqueue e).tickets = d.tickets ++ [d.sent] := by
    rw [tickets, tickets, enqueue, List.map_append, ← List.append_assoc]
    rfl
  refine ⟨h.room, ?_, fun hstop => (by cases hr.symm.trans hstop), ?_, fun n hn => ?_⟩
  · rw [enqueue, List.length_append]
    exact hroom
  · rw [htickets, List.nodup_append]
    refine ⟨h.once, List.nodup_singleton _, fun n hn n' hn' => ?_⟩
    have hlt := h.given n hn
    rw [List.mem_singleton.mp hn']
    omega
  · rw [htickets, List.mem_append, List.mem_singleton] at hn
    change n < d.sent + 1
    obtain hn | hn := hn
    · have hlt := h.given n hn
      omega
    · omega

theorem take (h : d.Shaped) (w : Worker σ) (hr : d.running = true) {n : Nat} {e : Event}
    {queue : List (Nat × Event)} (hq : d.queue = (n, e) :: queue) : (d.take w).Shaped := by
  have hstopped : ∀ {queue : List (Nat × Event)}, d.running = false → queue = [] :=
    fun hstop => nomatch hr.symm.trans hstop
  have hlength : queue.length ≤ d.queue.length := by
    rw [hq]
    exact Nat.le_succ _
  rw [Dispatcher.take.eq_def, hq]
  cases e with
  | install =>
    refine h.of_sublist rfl rfl hlength hstopped ?_
    rw [tickets, tickets, hq]
    exact (List.sublist_cons_self _ _).append_left _
  | fetch r =>
    refine h.of_sublist rfl rfl hlength hstopped ?_
    rw [tickets, tickets, hq, List.map_append, List.append_assoc]
    exact .refl _

theorem move (h : d.Shaped) (hm : Move w d l d') : d'.Shaped := by
  cases hm with
  | send hr hroom e => exact h.send hr hroom e
  | take hr hi hq => exact h.take w hr hq
  | @install _ n t hi hd =>
    obtain ⟨hqueue, hcapacity, hsent, hfetching⟩ :=
      afterInstall_queue { d with shared := (t.advance d.shared).2 } n (t.advance d.shared).1
    rw [← hd] at hqueue hcapacity hsent hfetching
    obtain ⟨hqueue, -⟩ | ⟨hqueue, hrunning⟩ := hqueue
    · refine h.of_sublist hcapacity hsent (hqueue ▸ Nat.zero_le _) (fun _ => hqueue) ?_
      rw [tickets, tickets, hfetching, hqueue]
      exact (List.nil_sublist _).append_left _
    · refine h.of_sublist hcapacity hsent (Nat.le_of_eq (congrArg List.length hqueue))
        (fun hstop => hqueue.trans (h.stopped (hrunning.symm.trans hstop))) ?_
      rw [tickets, tickets, hfetching, hqueue]
  | @fetch _ n t ht hd =>
    obtain ⟨hqueue, hrunning, hcapacity, hsent, hfetching⟩ :=
      afterFetch_queue { d with shared := (t.advance d.shared).2 } n (t.advance d.shared).1
    rw [← hd] at hqueue hrunning hcapacity hsent hfetching
    refine h.of_sublist hcapacity hsent (Nat.le_of_eq (congrArg List.length hqueue))
      (fun hstop => hqueue.trans (h.stopped (hrunning.symm.trans hstop))) ?_
    rw [tickets, tickets, hqueue]
    exact hfetching.append_right _

end Shaped

/-- What happens as any number of actions are taken, one after the other, by whomever it may be. It
does not matter when replies are forgotten. -/
inductive Run (w : Worker σ) : Dispatcher σ → Trace σ → Dispatcher σ → Prop
  | refl (d : Dispatcher σ) : Run w d [] d
  | step {d d₁ d₂ : Dispatcher σ} {l : Trace σ} (h : Run w d l d₁) (a : Action)
    (hs : d₁.step w a = some d₂) : Run w d (l ++ d₁.occurrences d₂ a) d₂
  | settle {d d₁ : Dispatcher σ} {l : Trace σ} (h : Run w d l d₁) : Run w d l d₁.settled

namespace Run

theorem trans (h : Run w d l d') (h' : Run w d' l' d'') : Run w d (l ++ l') d'' := by
  induction h' with
  | refl => rwa [List.append_nil]
  | step _ a hs ih =>
    rw [← List.append_assoc]
    exact ih.step a hs
  | settle _ ih => exact ih.settle

theorem single {a : Action} (hs : d.step w a = some d') : Run w d (d.occurrences d' a) d' :=
  (Run.refl d).step a hs

theorem counts (h : Run w d l d') :
    d'.capacity = d.capacity ∧ d'.sent = d.sent + (Trace.entered l).length := by
  induction h with
  | refl => exact ⟨rfl, rfl⟩
  | step _ a hs ih =>
    obtain ⟨hcapacity, hsent⟩ := (move_of_step hs).counts
    rw [Trace.entered_append, List.length_append, ← Nat.add_assoc, ← ih.2]
    exact ⟨hcapacity.trans ih.1, hsent⟩
  | settle _ ih => exact ih

theorem shaped (h : Run w d l d') (hd : d.Shaped) : d'.Shaped := by
  induction h with
  | refl => exact hd
  | step _ a hs ih => exact ih.move (move_of_step hs)
  | settle _ ih => exact { ih with }

def follow (w : Worker σ) : List Action → Dispatcher σ → Option (Trace σ × Dispatcher σ)
  | [], d => some ([], d)
  | a :: actions, d =>
    match d.step w a with
    | none => none
    | some d' => (follow w actions d').map fun followed =>
        (d.occurrences d' a ++ followed.1, followed.2)

theorem of_follow (actions : List Action) (h : follow w actions d = some (l, d')) :
    Run w d l d' := by
  induction actions generalizing d l with
  | nil =>
    cases h
    exact .refl _
  | cons a actions ih =>
    rw [follow] at h
    cases hs : d.step w a with
    | none =>
      rw [hs] at h
      cases h
    | some d₁ =>
      rw [hs] at h
      obtain ⟨⟨l', _⟩, hfollow, heq⟩ := Option.map_eq_some_iff.mp h
      cases heq
      exact (single hs).trans (ih hfollow)

/-- Whatever happens in a run happens with one of its actions. -/
theorem split {before after : Trace σ} {o : Occurrence σ} (h : Run w d (before ++ o :: after) d') :
    ∃ l₁ d₁ d₂ l₂ b₁ b₂, Run w d l₁ d₁ ∧ Move w d₁ (b₁ ++ o :: b₂) d₂ ∧ Run w d₂ l₂ d' ∧
      before = l₁ ++ b₁ ∧ after = b₂ ++ l₂ := by
  generalize hl : before ++ o :: after = l at h
  induction h generalizing after with
  | refl =>
    cases before <;> cases hl
  | @step d₁ d₂ l₁ h a hs ih =>
    have hm := move_of_step hs
    obtain ⟨rest, hl₁, hrest⟩ | ⟨rest, rfl, hrest⟩ := List.append_eq_append_iff.mp hl
    · cases rest with
      | nil =>
        rw [List.append_nil] at hl₁
        rw [hl₁] at h
        rw [List.nil_append] at hrest
        rw [← hrest] at hm
        exact ⟨before, d₁, d₂, [], [], after, h, hm, .refl d₂, (List.append_nil _).symm,
          (List.append_nil _).symm⟩
      | cons o' rest =>
        rw [List.cons_append, List.cons.injEq] at hrest
        obtain ⟨rfl, rfl⟩ := hrest
        obtain ⟨l₂, d₃, d₄, l₃, b₁, b₂, h₂, hm', h₃, hbefore, hafter⟩ := ih hl₁.symm
        refine ⟨l₂, d₃, d₄, _, b₁, b₂, h₂, hm', h₃.step a hs, hbefore, ?_⟩
        rw [hafter, List.append_assoc]
    · rw [hrest] at hm
      exact ⟨l₁, d₁, d₂, [], rest, after, h, hm, .refl d₂, rfl, (List.append_nil _).symm⟩
  | settle h ih =>
    obtain ⟨l₁, d₁, d₂, l₂, b₁, b₂, h₁, hm, h₂, hparts⟩ := ih hl
    exact ⟨l₁, d₁, d₂, l₂, b₁, b₂, h₁, hm, h₂.settle, hparts⟩

end Run

end Dispatcher

end AssetCache
