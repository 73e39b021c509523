import AssetCache.Proofs.Store.Writing
import Mathlib.Data.List.Infix
import Mathlib.Logic.Relation

namespace AssetCache.Store

variable {s s' s₀ : Store} {name : String} {h : Handle} {op : Op}

def Op.reads? : Op → Option Handle
  | .get h _ | .contains h _ | .keys h | .len h => some h
  | _ => none

def Op.seen (m : Entries) : Op → Returned
  | .get _ k => .response (m.get? k)
  | .contains _ k => .flag (m.contains k)
  | .keys _ => .keys m.keys
  | .len _ => .size m.size
  | op => op.answer m

def Op.Uses (h : Handle) (op : Op) : Prop := op.reads? = some h ∨ op.writes? = some h

theorem perform_of_reads (hop : op.reads? = some h) :
    s.perform op = (.ok (op.seen (s.entries h)), s) ∧ ∀ m, op.applied m = m := by
  cases op with
  | get h' k | contains h' k | keys h' | len h' =>
    cases hop
    exact ⟨rfl, fun _ => rfl⟩
  | openBucket n | has n | delete n => cases hop
  | put h' k r => cases hop
  | putAll h' batch => cases hop
  | remove h' k => cases hop
  | restart => cases hop

theorem Op.seen_of_writes (hop : op.writes? = some h) (m : Entries) : op.seen m = op.answer m := by
  cases op with
  | put h' k r | putAll h' batch | remove h' k => rfl
  | openBucket n | has n | delete n => rfl
  | get h' k | contains h' k | keys h' | len h' => cases hop
  | restart => rfl

theorem write_cases (hs : s.Sound) (hh : h < s.buckets.length) (hop : op.writes? = some h) :
    (∃ e, (s.perform op).1 = .error e ∧ s.Same (s.perform op).2) ∨
    (op.target? s = none ∧ op.applied (s.entries h) = s.entries h ∧
      s.perform op = (.ok (op.answer (s.entries h)), s)) ∨
    ((s.perform op).1 = .ok (op.answer (s.entries h)) ∧
      (s.perform op).2.entries h = op.applied (s.entries h) ∧
      (s.home ≠ none → (s.perform op).2.stored (s.bucketName h) =
        .ok ((s.perform op).2.entries h))) := by
  obtain ⟨_, hperform⟩ | hnothing := perform_of_writes (s := s) hop
  · cases hc : (s.commit h (op.applied (s.entries h))).1 with
    | error e =>
      rw [hperform, hc]
      exact .inl ⟨e, rfl, (commit_error hs hc).1⟩
    | ok _ =>
      obtain ⟨_, _, _, hentries⟩ := commit_ok hs hc
      rw [hperform, hc]
      refine .inr (.inr ⟨rfl, by rw [hentries h hh, if_pos rfl], fun hhome => ?_⟩)
      obtain ⟨home, hhome⟩ := Option.ne_none_iff_exists'.mp hhome
      exact commit_stored hs hhome hh hc
  · exact .inr (.inl hnothing)

/-- The write has put something into its bucket, or found what it was to remove. -/
def Op.Wrote : Op → Except CacheError Returned → Prop
  | .put _ _ _, .ok _ | .putAll _ _, .ok _ | .remove _ _, .ok (.flag true) => True
  | _, _ => False

theorem Op.not_wrote_of_nothing (hop : op.writes? = some h) (ht : op.target? s = none) :
    ¬ op.Wrote (.ok (op.answer (s.entries h))) := by
  cases op with
  | put h' k r => cases ht
  | putAll h' batch => cases ht
  | remove h' k =>
    cases hop
    by_cases hk : (s.entries h).contains k = true
    · rw [Op.target?, if_pos hk] at ht
      cases ht
    · rw [Bool.not_eq_true] at hk
      rw [Op.answer, hk]
      exact id
  | openBucket n | has n | delete n => cases hop
  | get h' k | contains h' k | keys h' | len h' => cases hop
  | restart => cases hop

theorem Op.not_wrote_of_error (e : CacheError) : ¬ op.Wrote (.error e) := by
  cases op <;> exact id

theorem Same.entries (hsame : s.Same s') (hh : h < s.buckets.length) : s'.entries h = s.entries h := by
  have hbucket := List.getElem?_eq_getElem hh
  rw [entries_eq (hsame.buckets h _ hbucket), entries_eq hbucket]

theorem names_of_writes (hs : s.Sound) (hop : op.writes? = some h) (k : Handle) :
    ((s.perform op).2.buckets[k]?).map (·.name) = (s.buckets[k]?).map (·.name) := by
  obtain ⟨_, hperform⟩ | ⟨_, _, hperform⟩ := perform_of_writes (s := s) hop
  · rw [hperform]
    obtain ⟨_, _, d, _, hc, _⟩ | ⟨d, hc, _⟩ := commit_cases hs h (op.applied (s.entries h))
    · rw [hc]
    · rw [hc]
      dsimp only
      rw [getElem?_withEntries]
      split
      · rw [Option.map_map]
        rfl
      · rfl
  · rw [hperform]

/-- Someone's operation on the bucket. Tickets are given out in the order of arrival. -/
structure Call where
  ticket : Nat
  op : Op

structure Ended where
  call : Call
  result : Except CacheError Returned

/-- What the calls have made of the entries `m`: those that failed count for nothing. -/
def made (m : Entries) (ended : List Ended) : Entries :=
  ended.foldl (fun m e => e.call.op.settled m e.result) m

theorem made_append (m : Entries) (ended : List Ended) (e : Ended) :
    made m (ended ++ [e]) = e.call.op.settled (made m ended) e.result := by
  simp only [made, List.foldl_append, List.foldl_cons, List.foldl_nil]

/-- This is what the call should answer to a bucket with the entries `m`; only a write may fail. -/
def Ended.Fits (h : Handle) (m : Entries) (e : Ended) : Prop :=
  e.result = .ok (e.call.op.seen m) ∨ (e.call.op.writes? = some h ∧ ∃ error, e.result = .error error)

/-- The calls come one after the other, each at one stroke, and lead from `s₀` to another store. -/
inductive Serial (s₀ : Store) (h : Handle) : List Ended → Store → Prop
  | nil : Serial s₀ h [] s₀
  | snoc {ended : List Ended} {s : Store} (hs : Serial s₀ h ended s) (c : Call)
    (hop : c.op.Uses h) :
    Serial s₀ h (ended ++ [⟨c, (s.perform c.op).1⟩]) (s.perform c.op).2

structure Served (s₀ : Store) (h : Handle) (ended : List Ended) (s : Store) : Prop where
  sound : s.Sound
  home : s.home = s₀.home
  bucket : (s.buckets[h]?).map (·.name) = (s₀.buckets[h]?).map (·.name)
  entries : s.entries h = made (s₀.entries h) ended
  stored : s.home ≠ none → (∃ e ∈ ended, e.call.op.Wrote e.result) →
    s.stored (s₀.bucketName h) = .ok (s.entries h)
  fits : ∀ before e after, ended = before ++ e :: after → e.Fits h (made (s₀.entries h) before)

namespace Served

variable {ended : List Ended}

theorem refl (hs : s.Sound) (h : Handle) : Served s h [] s where
  sound := hs
  home := rfl
  bucket := rfl
  entries := rfl
  stored := fun _ ⟨_, he, _⟩ => nomatch he
  fits before e after he := by simp at he

theorem lt (hs : Served s₀ h ended s) (hh : h < s₀.buckets.length) : h < s.buckets.length := by
  have hname := hs.bucket
  rw [List.getElem?_eq_getElem hh] at hname
  obtain ⟨bucket, hbucket, _⟩ := Option.map_eq_some_iff.mp hname
  exact (List.getElem?_eq_some_iff.mp hbucket).1

theorem bucketName (hs : Served s₀ h ended s) : s.bucketName h = s₀.bucketName h := by
  have hname := hs.bucket
  rw [Store.bucketName, Store.bucketName]
  cases hb : s.buckets[h]? <;> cases hb₀ : s₀.buckets[h]? <;> simp_all

theorem fits_append (hs : Served s₀ h ended s) {e : Ended}
    (he : e.Fits h (made (s₀.entries h) ended)) (before : List Ended) (e' : Ended)
    (after : List Ended) (hsplit : ended ++ [e] = before ++ e' :: after) :
    e'.Fits h (made (s₀.entries h) before) := by
  obtain rfl | ⟨after, last, rfl⟩ := List.eq_nil_or_concat after
  · obtain ⟨rfl, hlast⟩ := List.append_inj' hsplit rfl
    cases hlast
    exact he
  · rw [List.concat_eq_append, ← List.cons_append, ← List.append_assoc] at hsplit
    obtain ⟨hsplit, _⟩ := List.append_inj' hsplit rfl
    exact hs.fits before e' after hsplit

theorem reads (hs : Served s₀ h ended s) {c : Call} (hop : c.op.reads? = some h) :
    Served s₀ h (ended ++ [⟨c, (s.perform c.op).1⟩]) (s.perform c.op).2 := by
  obtain ⟨hperform, happlied⟩ := perform_of_reads (s := s) hop
  have hwrote : ¬ c.op.Wrote (s.perform c.op).1 := by
    cases hc : c.op with
    | put h' k r | putAll h' batch | remove h' k => rw [hc] at hop; cases hop
    | _ => simp [Op.Wrote]
  refine ⟨?_, ?_, ?_, ?_, fun hhome hsome => ?_, hs.fits_append ?_⟩
  · rw [hperform]
    exact hs.sound
  · rw [hperform]
    exact hs.home
  · rw [hperform]
    exact hs.bucket
  · rw [made_append, hperform, Op.settled, happlied]
    exact hs.entries
  · rw [hperform] at hhome ⊢
    obtain ⟨e, he, hwrote'⟩ := hsome
    obtain he | he := List.mem_append.mp he
    · exact hs.stored hhome ⟨e, he, hwrote'⟩
    · cases List.mem_singleton.mp he
      exact absurd hwrote' hwrote
  · rw [← hs.entries, hperform]
    exact .inl rfl

theorem writes (hs : Served s₀ h ended s) (hh : h < s₀.buckets.length) {c : Call}
    (hop : c.op.writes? = some h) :
    Served s₀ h (ended ++ [⟨c, (s.perform c.op).1⟩]) (s.perform c.op).2 := by
  obtain ⟨hsound, hhome⟩ := perform_keeps hs.sound c.op
  have hname := hs.bucket
  refine ⟨hsound, hhome.trans hs.home, ?_, ?_, fun hsome hwrote => ?_, hs.fits_append ?_⟩
  · rw [← hname, names_of_writes hs.sound hop]
  · rw [made_append, ← hs.entries, Ended.result]
    obtain ⟨e, he, hsame⟩ | ⟨_, happlied, hperform⟩ | ⟨hok, hentries, _⟩ :=
      write_cases hs.sound (hs.lt hh) hop
    · rw [he, Op.settled]
      exact hsame.entries (hs.lt hh)
    · rw [hperform, Op.settled, happlied]
    · rw [hok, Op.settled, hentries]
  · obtain ⟨e, he, hwrote⟩ := hwrote
    rw [hhome] at hsome
    obtain ⟨e', he', hsame⟩ | ⟨hnothing, _, hperform⟩ | ⟨_, _, hstored⟩ :=
      write_cases hs.sound (hs.lt hh) hop
    · rw [hsame.stored, hsame.entries (hs.lt hh)]
      refine hs.stored hsome ⟨e, ?_, hwrote⟩
      obtain he | he := List.mem_append.mp he
      · exact he
      · cases List.mem_singleton.mp he
        rw [he'] at hwrote
        exact absurd hwrote (Op.not_wrote_of_error _)
    · rw [hperform] at he ⊢
      refine hs.stored hsome ⟨e, ?_, hwrote⟩
      obtain he | he := List.mem_append.mp he
      · exact he
      · cases List.mem_singleton.mp he
        exact absurd hwrote (Op.not_wrote_of_nothing hop hnothing)
    · rw [← hs.bucketName]
      exact hstored hsome
  · rw [← hs.entries]
    obtain ⟨e, he, _⟩ | ⟨_, _, hperform⟩ | ⟨hok, _, _⟩ :=
      write_cases hs.sound (hs.lt hh) hop
    · exact .inr ⟨hop, e, he⟩
    · left
      rw [hperform, Op.seen_of_writes hop]
    · left
      rw [Ended.result, hok, Op.seen_of_writes hop]

end Served

theorem Serial.served {ended : List Ended} (hs : s₀.Sound) (hh : h < s₀.buckets.length)
    (hserial : Serial s₀ h ended s) : Served s₀ h ended s := by
  induction hserial with
  | nil => exact .refl hs h
  | snoc _ c hop ih =>
    obtain hreads | hwrites := hop
    · exact ih.reads hreads
    · exact ih.writes hh hwrites

/-- Calls on one bucket: all that have arrived, those of them that wait for the lock, the write that
has it, and those that have ended, in the order in which they had it. -/
structure Traffic where
  store : Store
  arrived : List Call
  waiting : List Call
  writer : Option (Call × Progress)
  ended : List Ended

namespace Traffic

variable {t t' : Traffic}

def begin (s : Store) : Traffic := ⟨s, [], [], none, []⟩

def calls (t : Traffic) : List Call :=
  t.waiting ++ (t.writer.map (·.1)).toList ++ t.ended.map (·.call)

/-- A step of anyone. Whoever waits may be the next to have the lock. -/
inductive Step (h : Handle) : Traffic → Traffic → Prop
  | arrives (t : Traffic) {op : Op} (hop : op.Uses h) :
    Step h t { t with
      arrived := t.arrived ++ [⟨t.arrived.length, op⟩]
      waiting := t.waiting ++ [⟨t.arrived.length, op⟩] }
  | reads {t : Traffic} {c : Call} {before after : List Call} (hfree : t.writer = none)
    (hwaiting : t.waiting = before ++ c :: after) (hop : c.op.reads? = some h) :
    Step h t { t with
      waiting := before ++ after
      ended := t.ended ++ [⟨c, (t.store.perform c.op).1⟩] }
  | locks {t : Traffic} {c : Call} {before after : List Call} (hfree : t.writer = none)
    (hwaiting : t.waiting = before ++ c :: after) (hop : c.op.writes? = some h) :
    Step h t { t with waiting := before ++ after, writer := some (c, .locked) }
  | proceeds {t : Traffic} {c : Call} {p : Progress} (hwriter : t.writer = some (c, p)) :
    Step h t { t with
      store := (t.store.proceed h c.op p).2
      writer := some (c, (t.store.proceed h c.op p).1) }
  | leaves {t : Traffic} {c : Call} {result : Except CacheError Returned}
    (hwriter : t.writer = some (c, .leaving result)) :
    Step h t { t with writer := none, ended := t.ended ++ [⟨c, result⟩] }

def Reaches (h : Handle) : Traffic → Traffic → Prop := Relation.ReflTransGen (Step h)

/-- When nobody writes, the store is what the calls that have ended have made of it one after the
other; when somebody does, it will be if nothing else happens. -/
def Tracked (s₀ : Store) (h : Handle) (t : Traffic) : Prop :=
  match t.writer with
  | none => Serial s₀ h t.ended t.store
  | some (c, p) => c.op.writes? = some h ∧
    ∃ s, Serial s₀ h t.ended s ∧ t.store.finish h c.op p = s.perform c.op

structure Placed (h : Handle) (t : Traffic) : Prop where
  places : t.arrived.Perm t.calls
  tickets : t.arrived.map (·.ticket) = List.range t.arrived.length
  uses : ∀ c ∈ t.arrived, c.op.Uses h

theorem Tracked.step (ht : Tracked s₀ h t) (hstep : Step h t t') : Tracked s₀ h t' := by
  cases hstep with
  | arrives hop => exact ht
  | reads hfree _ hop =>
    rw [Tracked, hfree] at ht
    simp only [Tracked, hfree]
    have hserial := ht.snoc _ (.inl hop)
    rwa [(perform_of_reads hop).1] at hserial ⊢
  | locks hfree _ hop =>
    rw [Tracked, hfree] at ht
    exact ⟨hop, _, ht, rfl⟩
  | proceeds hwriter =>
    rw [Tracked, hwriter] at ht
    obtain ⟨hop, s, hserial, hfinish⟩ := ht
    exact ⟨hop, s, hserial, (finish_proceed _ hop _).trans hfinish⟩
  | leaves hwriter =>
    rw [Tracked, hwriter] at ht
    obtain ⟨hop, s, hserial, hfinish⟩ := ht
    have hserial := hserial.snoc _ (.inr hop)
    rw [← hfinish] at hserial
    exact hserial

theorem Placed.of_calls (ht : Placed h t) (harrived : t'.arrived = t.arrived)
    (hcalls : t.calls.Perm t'.calls) : Placed h t' := by
  obtain ⟨hplaces, htickets, huses⟩ := ht
  rw [← harrived] at hplaces htickets huses
  exact ⟨hplaces.trans hcalls, htickets, huses⟩

theorem Placed.step (ht : Placed h t) (hstep : Step h t t') : Placed h t' := by
  cases hstep with
  | @arrives op hop =>
    refine ⟨?_, by simp [ht.tickets, List.range_succ], fun c hc => ?_⟩
    · refine (ht.places.append_right _).trans ?_
      simp only [calls, List.append_assoc]
      refine List.Perm.append_left _ ?_
      rw [← List.append_assoc]
      exact List.perm_append_comm
    · obtain hc | hc := List.mem_append.mp hc
      · exact ht.uses c hc
      · cases List.mem_singleton.mp hc
        exact hop
  | @reads c before after hfree hwaiting hop =>
    refine ht.of_calls rfl ?_
    simp only [calls, hfree, hwaiting, Option.map_none, Option.toList_none, List.append_nil,
      List.map_append, List.map_cons, List.map_nil]
    rw [← List.append_assoc]
    exact (List.perm_middle.append_right _).trans (List.perm_append_singleton c _).symm
  | @locks c before after hfree hwaiting hop =>
    refine ht.of_calls rfl ?_
    simp only [calls, hfree, hwaiting, Option.map_none, Option.toList_none, List.append_nil,
      Option.map_some, Option.toList_some]
    exact (List.perm_middle.trans (List.perm_append_singleton c _).symm).append_right _
  | proceeds hwriter =>
    refine ht.of_calls rfl ?_
    simp only [calls, hwriter, Option.map_some, List.Perm.refl]
  | leaves hwriter =>
    refine ht.of_calls rfl ?_
    simp only [calls, hwriter, Option.map_none, Option.toList_none, Option.map_some,
      Option.toList_some, List.append_nil, List.map_append, List.map_cons, List.map_nil,
      List.append_assoc]
    exact List.perm_append_comm.append_left _

theorem Step.ended (hstep : Step h t t') : t.ended <+: t'.ended := by
  cases hstep with
  | arrives => exact List.prefix_refl _
  | reads => exact List.prefix_append _ _
  | locks => exact List.prefix_refl _
  | proceeds => exact List.prefix_refl _
  | leaves => exact List.prefix_append _ _

theorem Reaches.ended (ht : t.Reaches h t') : t.ended <+: t'.ended := by
  induction ht with
  | refl => exact List.prefix_refl _
  | tail _ hstep ih => exact ih.trans hstep.ended

theorem Reaches.keeps (ht : (begin s).Reaches h t) : Tracked s h t ∧ Placed h t := by
  induction ht with
  | refl => exact ⟨.nil, .nil, rfl, fun c hc => nomatch hc⟩
  | tail _ hstep ih => exact ⟨ih.1.step hstep, ih.2.step hstep⟩

/-- A write that is left alone with the lock ends as it would from here on, and lets it go. -/
theorem reaches_finish {c : Call} {p : Progress} (hop : c.op.writes? = some h)
    (hwriter : t.writer = some (c, p)) :
    t.Reaches h { t with
      store := (t.store.finish h c.op p).2
      writer := none
      ended := t.ended ++ [⟨c, (t.store.finish h c.op p).1⟩] } := by
  have hleaving : ∀ (t : Traffic) result, t.writer = some (c, .leaving result) →
      t.Reaches h { t with writer := none, ended := t.ended ++ [⟨c, result⟩] } :=
    fun t result hwriter => .single (.leaves hwriter)
  have hwriting : ∀ (rest : List Disk.Step) (t : Traffic) staged,
      t.writer = some (c, .writing staged rest) → t.Reaches h { t with
        store := (t.store.finish h c.op (.writing staged rest)).2
        writer := none
        ended := t.ended ++ [⟨c, (t.store.finish h c.op (.writing staged rest)).1⟩] } := by
    intro rest
    induction rest with
    | nil =>
      intro t staged hwriter
      exact .head (.proceeds hwriter) (hleaving _ _ rfl)
    | cons change rest ih =>
      intro t staged hwriter
      refine .head (.proceeds hwriter) ?_
      rw [← finish_proceed t.store hop, proceed]
      generalize t.store.disk.step change = stepped
      obtain ⟨e | ⟨⟩, d⟩ := stepped
      · exact hleaving _ _ rfl
      · exact ih _ staged rfl
  cases p with
  | locked =>
    refine .head (.proceeds hwriter) ?_
    rw [← finish_proceed t.store hop, proceed]
    cases c.op.target? t.store with
    | none => exact hleaving _ _ rfl
    | some _ => exact hwriting _ _ _ rfl
  | writing staged rest => exact hwriting rest t staged hwriter
  | leaving result => exact hleaving t result hwriter

theorem reaches_free (ht : Tracked s₀ h t) :
    ∃ t', t.Reaches h t' ∧ t'.arrived = t.arrived ∧ t'.waiting = t.waiting ∧ t'.writer = none := by
  cases hwriter : t.writer with
  | none => exact ⟨t, .refl, rfl, rfl, hwriter⟩
  | some writer =>
    rw [Tracked, hwriter] at ht
    exact ⟨_, reaches_finish ht.1 hwriter, rfl, rfl, rfl⟩

theorem reaches_idle (hfree : t.writer = none) (huses : ∀ c ∈ t.waiting, c.op.Uses h) :
    ∃ t', t.Reaches h t' ∧ t'.arrived = t.arrived ∧ t'.waiting = [] ∧ t'.writer = none := by
  generalize hwaiting : t.waiting = waiting at huses
  induction waiting generalizing t with
  | nil => exact ⟨t, .refl, rfl, hwaiting, hfree⟩
  | cons c rest ih =>
    have hrest : ∀ c ∈ rest, c.op.Uses h := fun c hc => huses c (List.mem_cons_of_mem _ hc)
    obtain hop | hop := huses c List.mem_cons_self
    · let next : Traffic := { t with
        waiting := rest
        ended := t.ended ++ [⟨c, (t.store.perform c.op).1⟩] }
      have hread : Step h t next := @Step.reads h t c [] rest hfree hwaiting hop
      obtain ⟨t', ht', hends⟩ := @ih next hfree rfl hrest
      exact ⟨t', .head hread ht', hends⟩
    · let locked : Traffic := { t with waiting := rest, writer := some (c, .locked) }
      let next : Traffic := { locked with
        store := (t.store.perform c.op).2
        writer := none
        ended := t.ended ++ [⟨c, (t.store.perform c.op).1⟩] }
      have hlocks : Step h t locked := @Step.locks h t c [] rest hfree hwaiting hop
      have hdone : locked.Reaches h next := @reaches_finish h locked c .locked hop rfl
      obtain ⟨t', ht', hends⟩ := @ih next rfl rfl hrest
      exact ⟨t', .head hlocks (hdone.trans ht'), hends⟩

/-- A second write and a look arrive while a write is at work; the second write has the lock
next. -/
theorem reaches_behind (s : Store) {op₀ op₁ op₂ : Op} (h₀ : op₀.writes? = some h)
    (h₁ : op₁.reads? = some h) (h₂ : op₂.writes? = some h) :
    ∃ t, (begin s).Reaches h t ∧ t.writer = none ∧
      t.ended = [⟨⟨0, op₀⟩, (s.perform op₀).1⟩, ⟨⟨2, op₂⟩, ((s.perform op₀).2.perform op₂).1⟩,
        ⟨⟨1, op₁⟩, (((s.perform op₀).2.perform op₂).2.perform op₁).1⟩] := by
  let arrived : Traffic := ⟨s, [⟨0, op₀⟩], [⟨0, op₀⟩], none, []⟩
  have harrived : Step h (begin s) arrived := .arrives _ (.inr h₀)
  let locked : Traffic := { arrived with waiting := [], writer := some (⟨0, op₀⟩, .locked) }
  have hlocked : Step h arrived locked := @Step.locks h arrived ⟨0, op₀⟩ [] [] rfl rfl h₀
  let staged : Traffic := { locked with
    store := (s.proceed h op₀ .locked).2
    writer := some (⟨0, op₀⟩, (s.proceed h op₀ .locked).1) }
  have hstaged : Step h locked staged := @Step.proceeds h locked ⟨0, op₀⟩ .locked rfl
  let joined : Traffic := { staged with
    arrived := [⟨0, op₀⟩, ⟨1, op₁⟩, ⟨2, op₂⟩]
    waiting := [⟨1, op₁⟩, ⟨2, op₂⟩] }
  have hjoined : staged.Reaches h joined :=
    .tail (.single (.arrives _ (.inl h₁))) (.arrives _ (.inr h₂))
  let written : Traffic := { joined with
    store := (s.perform op₀).2
    writer := none
    ended := [⟨⟨0, op₀⟩, (s.perform op₀).1⟩] }
  have hwritten : joined.Reaches h written := by
    have hfinish := @reaches_finish h joined ⟨0, op₀⟩ _ h₀ rfl
    rwa [finish_proceed s h₀] at hfinish
  let locked' : Traffic := { written with
    waiting := [⟨1, op₁⟩]
    writer := some (⟨2, op₂⟩, .locked) }
  have hlocked' : Step h written locked' :=
    @Step.locks h written ⟨2, op₂⟩ [⟨1, op₁⟩] [] rfl rfl h₂
  have hfinish := @reaches_finish h locked' ⟨2, op₂⟩ .locked h₂ rfl
  exact ⟨_, .head harrived (.head hlocked (.head hstaged (hjoined.trans (hwritten.trans
    (.head hlocked' (hfinish.tail (@Step.reads h _ ⟨1, op₁⟩ [] [] rfl rfl h₁))))))), rfl, rfl⟩

end Traffic

/-- The calls might as well have come one after the other. -/
structure Linear (s₀ : Store) (h : Handle) (t : Traffic) : Prop where
  /-- Every call waits, writes or has ended, once each. -/
  places : t.arrived.Perm t.calls
  tickets : t.arrived.map (·.ticket) = List.range t.arrived.length
  serial : ∃ s, Serial s₀ h t.ended s ∧ (t.writer = none → t.store = s)
  /-- What a call answers it answers to the entries that the writes before it have made; of these
  the ones that failed count for nothing. -/
  fits : ∀ before e after, t.ended = before ++ e :: after → e.Fits h (made (s₀.entries h) before)
  entries : t.writer = none → t.store.entries h = made (s₀.entries h) t.ended
  /-- What is in memory is on the disk when nobody writes, once something was written. -/
  stored : t.writer = none → s₀.home ≠ none → (∃ e ∈ t.ended, e.call.op.Wrote e.result) →
    t.store.stored (s₀.bucketName h) = .ok (t.store.entries h)
  /-- Whoever comes later ends later than those who have ended. -/
  order : ∀ t', t.Reaches h t' → t.ended <+: t'.ended
  ends : ∃ t', t.Reaches h t' ∧ t'.arrived = t.arrived ∧ t'.waiting = [] ∧ t'.writer = none

/-- However many use a bucket at a time, however their steps come to lie, and whichever accesses to
the disk go wrong, it is as if the calls came one after the other. -/
theorem bucket_is_linear {t : Traffic} (hs : s.Sound) (hh : h < s.buckets.length)
    (ht : (Traffic.begin s).Reaches h t) : Linear s h t := by
  obtain ⟨htracked, hplaced⟩ := ht.keeps
  have hserial : ∃ s', Serial s h t.ended s' ∧ (t.writer = none → t.store = s') := by
    cases hwriter : t.writer with
    | none =>
      rw [Traffic.Tracked, hwriter] at htracked
      exact ⟨t.store, htracked, fun _ => rfl⟩
    | some writer =>
      rw [Traffic.Tracked, hwriter] at htracked
      obtain ⟨_, s', hserial, _⟩ := htracked
      exact ⟨s', hserial, fun hfree => nomatch hfree⟩
  obtain ⟨s', hserial, hstore⟩ := hserial
  have hserved := hserial.served hs hh
  refine ⟨hplaced.places, hplaced.tickets, ⟨s', hserial, hstore⟩, hserved.fits, fun hfree => ?_,
    fun hfree hhome hwrote => ?_, fun t' ht' => ht'.ended, ?_⟩
  · rw [hstore hfree]
    exact hserved.entries
  · rw [hstore hfree]
    rw [← hserved.home] at hhome
    exact hserved.stored hhome hwrote
  · obtain ⟨t₁, ht₁, harrived, hwaiting, hfree⟩ := Traffic.reaches_free htracked
    have huses : ∀ c ∈ t₁.waiting, c.op.Uses h := fun c hc => by
      rw [hwaiting] at hc
      refine hplaced.uses c (hplaced.places.mem_iff.mpr ?_)
      exact List.mem_append_left _ (List.mem_append_left _ hc)
    obtain ⟨t₂, ht₂, harrived₂, hends⟩ := Traffic.reaches_idle hfree huses
    exact ⟨t₂, ht₁.trans ht₂, harrived₂.trans harrived, hends⟩

/-- A page is put into a bucket. While that goes on someone asks for the keys and someone removes the
page, which fails amid its changes on the disk. Who asked waits for both and finds the page. -/
theorem look_behind_failed_removal :
    let page : Key := ⟨"GET", "u"⟩
    let mishaps := List.replicate 5 none ++ [some ⟨.code 28, some 2⟩]
    let s := ((begin (some "cache") ⟨[], mishaps⟩).perform (.openBucket "a")).2
    let put := Op.put 0 page ⟨200, [], .empty⟩
    ∃ t, (Traffic.begin s).Reaches 0 t ∧ t.ended.map (·.call.ticket) = [0, 2, 1] ∧
      t.ended.map (·.result) = [.ok .done, .error (.io (.code 28)), .ok (.keys [page])] ∧
      t.store.stored "a" = .ok (put.applied (s.entries 0)) := by
  intro page mishaps s put
  have hbegin : (begin (some "cache") ⟨[], mishaps⟩).Sound := sound_begin _ Disk.isTree_empty
  have hs : s.Sound := (perform_keeps hbegin (.openBucket "a")).1
  obtain ⟨t, ht, hfree, hended⟩ :=
    @Traffic.reaches_behind 0 s put (.keys 0) (.remove 0 page) rfl rfl rfl
  have hput : (s.perform put).1 = .ok .done := by decide +kernel
  have hremove : ((s.perform put).2.perform (.remove 0 page)).1 = .error (.io (.code 28)) := by
    decide +kernel
  have hlook : (((s.perform put).2.perform (.remove 0 page)).2.perform (.keys 0)).1 =
      .ok (.keys [page]) := by
    decide +kernel
  rw [hput, hremove, hlook] at hended
  have hlinear := bucket_is_linear hs (by decide +kernel) ht
  have hname : s.bucketName 0 = "a" := by decide +kernel
  have hstored := hlinear.stored hfree (by decide +kernel)
    ⟨⟨⟨0, put⟩, .ok .done⟩, by rw [hended]; exact List.mem_cons_self, trivial⟩
  rw [hname, hlinear.entries hfree, hended] at hstored
  exact ⟨t, ht, by rw [hended]; rfl, by rw [hended]; rfl, hstored⟩

end AssetCache.Store
