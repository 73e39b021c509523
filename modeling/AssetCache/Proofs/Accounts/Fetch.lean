import AssetCache.Proofs.Progress
import Mathlib.Algebra.GroupWithZero.Nat

namespace AssetCache

namespace Metrics

theorem fetchCount_addFetch (m : Metrics) (purpose purpose' : String) (ok ok' : Bool) :
    (m.addFetch purpose ok).fetchCount purpose' ok' =
      if (purpose', ok') = (purpose, ok) then m.fetchCount purpose ok + 1
      else m.fetchCount purpose' ok' := by
  by_cases h : (purpose', ok') = (purpose, ok)
  · rw [if_pos h, fetchCount, addFetch, h, List.lookup_cons_self]
    rfl
  · rw [if_neg h, fetchCount, addFetch, List.lookup_cons, beq_false_of_ne h]
    dsimp only
    rw [lookup_filter_pos _ fun _ => decide_eq_true h]
    rfl

end Metrics

/-- What is kept of fetch events: first the statistics, then the metrics. -/
structure Accounts where
  hits : Nat
  misses : Nat
  networkErrors : Nat
  hitLookups : Nat
  missLookups : Nat
  cacheTimes : Nat
  networkTimes : Nat
  answered : Nat
  failed : Nat

namespace Accounts

def zero : Accounts := ⟨0, 0, 0, 0, 0, 0, 0, 0, 0⟩

def add (a b : Accounts) : Accounts :=
  ⟨a.hits + b.hits, a.misses + b.misses, a.networkErrors + b.networkErrors,
    a.hitLookups + b.hitLookups, a.missLookups + b.missLookups, a.cacheTimes + b.cacheTimes,
    a.networkTimes + b.networkTimes, a.answered + b.answered, a.failed + b.failed⟩

instance : Add Accounts := ⟨add⟩

theorem add_eq (a b : Accounts) : a + b =
    ⟨a.hits + b.hits, a.misses + b.misses, a.networkErrors + b.networkErrors,
      a.hitLookups + b.hitLookups, a.missLookups + b.missLookups, a.cacheTimes + b.cacheTimes,
      a.networkTimes + b.networkTimes, a.answered + b.answered, a.failed + b.failed⟩ := rfl

end Accounts

def Manager.accounts (m : Manager) : Accounts where
  hits := m.stats.hits
  misses := m.stats.misses
  networkErrors := m.stats.networkErrors
  hitLookups := m.metrics.hits
  missLookups := m.metrics.misses
  cacheTimes := m.metrics.cacheTimes.count
  networkTimes := m.metrics.networkTimes.count
  answered := m.metrics.fetchCount "fallback" true
  failed := m.metrics.fetchCount "fallback" false

/-- A fetch event and how far it has come: whether its bucket could be opened, once that was tried,
and how many calls to the network it has made. The ticket is that of one which was sent. -/
structure FetchRecord where
  ticket : Option Nat
  task : Task Manager (Except CacheError Response)
  opened : Option Bool
  calls : Nat

namespace FetchRecord

def begin (ticket : Option Nat) (net : Network) (r : Request) : FetchRecord :=
  ⟨ticket, Manager.fetchTask net r, none, 0⟩

def advance (f : FetchRecord) (m : Manager) : FetchRecord × Manager :=
  let (task, m') := f.task.advance m
  ({ f with
      task
      opened := some (f.opened.getD m.bucket.1.isOk)
      calls := f.calls + (m'.calls.length - m.calls.length) }, m')

def ended (f : FetchRecord) : Bool := f.task.result?.isSome

def crashed (f : FetchRecord) : Bool :=
  match f.task.result? with
  | some none => true
  | _ => false

def hit (f : FetchRecord) : Bool := f.ended && f.opened == some true && f.calls == 0

def answered (f : FetchRecord) (ok : Bool) : Bool :=
  match f.task.result? with
  | some (some (.ok _)) => ok && f.calls != 0
  | some (some (.error _)) => !ok && f.calls != 0
  | _ => false

/-- What there has to be on the accounts for one fetch event. -/
def share (f : FetchRecord) : Accounts where
  hits := f.hit.toNat
  misses := f.calls
  networkErrors := (f.answered false).toNat
  hitLookups := f.hit.toNat
  missLookups := (f.answered true).toNat + (f.answered false).toNat
  cacheTimes := f.hit.toNat
  networkTimes := (f.answered true).toNat + (f.answered false).toNat
  answered := (f.answered true).toNat
  failed := (f.answered false).toNat

end FetchRecord

namespace Manager

variable {net : Network} {r : Request} {m : Manager}

def serve (net : Network) (r : Request) :
    Option Response → Task Manager (Except CacheError Response)
  | some response => .act (fun m => ((), m.countHit)) fun () => .done (.ok response)
  | none => forward net r

def lookUp (net : Network) (r : Request) :
    Except CacheError Handle → Task Manager (Except CacheError Response)
  | .error e => .done (.error e)
  | .ok h => .act (fun m => ((m.entries h).get? r.key, m)) (serve net r)

def conclude : Outcome → Task Manager (Except CacheError Response)
  | .crash => .crash
  | .response response => .act (fun m => ((), m.recordMiss true)) fun () => .done (.ok response)
  | .failure e => .act (fun m => ((), m.recordMiss false)) fun () => .done (.error (.fetch e))

theorem fetchTask_eq (net : Network) (r : Request) :
    fetchTask net r = .act bucket (lookUp net r) := by
  rw [fetchTask]
  refine congrArg (Task.act bucket) (funext fun opened => ?_)
  cases opened with
  | error e => rfl
  | ok h =>
    refine congrArg (Task.act _) (funext fun found => ?_)
    cases found <;> rfl

theorem forward_eq (net : Network) (r : Request) : forward net r =
    .act (fun m => ((), m.countMiss.call r)) fun () =>
      .waits (net r).delay (conclude (net r).outcome) := by
  rw [forward]
  refine congrArg (Task.act _) (funext fun _ => ?_)
  cases (net r).outcome <;> rfl

/-- How far a fetch event has come, with what has been noted of it by then. -/
inductive FetchStage (net : Network) (r : Request) :
    Task Manager (Except CacheError Response) → Option Bool → Nat → Prop
  | begun : FetchStage net r (.act bucket (lookUp net r)) none 0
  | closed (e : CacheError) : FetchStage net r (.done (.error e)) (some false) 0
  | opened (h : Handle) : FetchStage net r
    (.act (fun m => ((m.entries h).get? r.key, m)) (serve net r)) (some true) 0
  | found (response : Response) : FetchStage net r
    (.act (fun m => ((), m.countHit)) fun () => .done (.ok response)) (some true) 0
  | hit (response : Response) : FetchStage net r (.done (.ok response)) (some true) 0
  | missed : FetchStage net r (.act (fun m => ((), m.countMiss.call r)) fun () =>
    .waits (net r).delay (conclude (net r).outcome)) (some true) 0
  | waiting {t : Task Manager (Except CacheError Response)} (n : Nat) (o : Outcome)
    (ht : t = .waits n (conclude o)) : FetchStage net r t (some true) 1
  | answered (result : Except CacheError Response) : FetchStage net r (.done result) (some true) 1

structure Still (m m' : Manager) : Prop extends m.Quiet m' where
  sizes : m'.metrics.sizes = m.metrics.sizes

theorem Still.refl (m : Manager) : m.Still m := ⟨.refl m, rfl⟩

theorem accounts_recordMiss (m : Manager) (ok : Bool) : (m.recordMiss ok).accounts =
    m.accounts + ⟨0, 0, (!ok).toNat, 0, 1, 0, 1, ok.toNat, (!ok).toNat⟩ := by
  have hcount := Metrics.fetchCount_addFetch
    { m.metrics with
      misses := m.metrics.misses + 1, networkTimes := m.metrics.networkTimes.observe elapsed }
    "fallback" "fallback" ok
  have htrue := hcount true
  have hfalse := hcount false
  cases ok with
  | true =>
    rw [if_pos rfl] at htrue
    rw [if_neg (by simp)] at hfalse
    simp only [accounts, recordMiss, withMetrics, Metrics.addMiss, if_true, htrue, hfalse,
      Accounts.add_eq]
    rfl
  | false =>
    rw [if_neg (by simp)] at htrue
    rw [if_pos rfl] at hfalse
    simp only [accounts, recordMiss, withMetrics, Metrics.addMiss, Bool.false_eq_true, if_false,
      htrue, hfalse, Accounts.add_eq]
    rfl

theorem share_waiting (ticket : Option Nat) (n : Nat) (o : Outcome) :
    FetchRecord.share ⟨ticket, .waits n (conclude o), some true, 1⟩ =
      ⟨0, 1, 0, 0, 0, 0, 0, 0, 0⟩ := by
  cases n with
  | succ n => rfl
  | zero => cases o <;> rfl

theorem advance_of_calls {f : FetchRecord} (h : (f.task.advance m).2.calls = m.calls) :
    f.advance m = ({ f with
      task := (f.task.advance m).1, opened := some (f.opened.getD m.bucket.1.isOk) },
      (f.task.advance m).2) := by
  rw [FetchRecord.advance]
  simp [h]

/-- A call that has been answered is put on the accounts by what follows; one that has crashed stays
what it is. -/
theorem advance_waiting (net : Network) (r : Request) (ticket : Option Nat) (n : Nat) (o : Outcome)
    (m : Manager) : ∃ t m', FetchStage net r t (some true) 1 ∧
      FetchRecord.advance ⟨ticket, .waits n (conclude o), some true, 1⟩ m =
        (⟨ticket, t, some true, 1⟩, m') ∧
      m'.accounts + ⟨0, 1, 0, 0, 0, 0, 0, 0, 0⟩ =
        m.accounts + FetchRecord.share ⟨ticket, t, some true, 1⟩ ∧
      m.Still m' := by
  cases n with
  | succ n =>
    refine ⟨_, _, .waiting n o rfl, advance_of_calls rfl, ?_, .refl m⟩
    exact congrArg (m.accounts + ·) (share_waiting ticket n o).symm
  | zero =>
    cases o with
    | crash => exact ⟨_, _, .waiting 0 .crash rfl, advance_of_calls rfl, rfl, .refl m⟩
    | response response =>
      refine ⟨_, m.recordMiss true, .answered (.ok response), advance_of_calls rfl, ?_,
        .recordMiss m true, rfl⟩
      rw [accounts_recordMiss]
      rfl
    | failure e =>
      refine ⟨_, m.recordMiss false, .answered (.error (.fetch e)), advance_of_calls rfl, ?_,
        .recordMiss m false, rfl⟩
      rw [accounts_recordMiss]
      rfl

/-- One step of a fetch event puts on the accounts what it has come to by that. -/
theorem FetchStage.advance {f : FetchRecord} (h : FetchStage net r f.task f.opened f.calls)
    (m : Manager) :
    FetchStage net r (f.advance m).1.task (f.advance m).1.opened (f.advance m).1.calls ∧
      (f.advance m).2.accounts + f.share = m.accounts + (f.advance m).1.share ∧
      m.Still (f.advance m).2 := by
  obtain ⟨ticket, task, opened, calls⟩ := f
  cases h with
  | begun =>
    have hadvance : FetchRecord.advance ⟨ticket, .act bucket (lookUp net r), none, 0⟩ m =
        (⟨ticket, lookUp net r m.bucket.1, some m.bucket.1.isOk, 0⟩, m.bucket.2) :=
      advance_of_calls rfl
    rw [hadvance]
    have hstill : m.Still m.bucket.2 := ⟨.bucket m, rfl⟩
    cases m.bucket.1 with
    | error e => exact ⟨.closed e, rfl, hstill⟩
    | ok h => exact ⟨.opened h, rfl, hstill⟩
  | closed e =>
    rw [advance_of_calls (by rfl)]
    exact ⟨.closed e, rfl, .refl m⟩
  | opened h =>
    have hadvance : FetchRecord.advance ⟨ticket,
        .act (fun m => ((m.entries h).get? r.key, m)) (serve net r), some true, 0⟩ m =
        (⟨ticket, serve net r ((m.entries h).get? r.key), some true, 0⟩, m) :=
      advance_of_calls rfl
    rw [hadvance]
    cases (m.entries h).get? r.key with
    | some response => exact ⟨.found response, rfl, .refl m⟩
    | none =>
      rw [serve, forward_eq]
      exact ⟨.missed, rfl, .refl m⟩
  | found response =>
    rw [advance_of_calls (by rfl)]
    exact ⟨.hit response, rfl, .of_store rfl rfl rfl rfl, rfl⟩
  | hit response =>
    rw [advance_of_calls (by rfl)]
    exact ⟨.hit response, rfl, .refl m⟩
  | missed =>
    have hadvance : FetchRecord.advance ⟨ticket, .act (fun m => ((), m.countMiss.call r)) fun () =>
          .waits (net r).delay (conclude (net r).outcome), some true, 0⟩ m =
        (⟨ticket, .waits (net r).delay (conclude (net r).outcome), some true, 1⟩,
          m.countMiss.call r) := by
      simp [FetchRecord.advance, Task.advance, call, countMiss]
    rw [hadvance]
    refine ⟨.waiting _ _ rfl, ?_, .of_store rfl rfl rfl rfl, rfl⟩
    rw [share_waiting]
    rfl
  | waiting n o ht =>
    subst ht
    obtain ⟨t, m', hstage, hadvance, haccounts, hstill⟩ := advance_waiting net r ticket n o m
    rw [hadvance, share_waiting]
    exact ⟨hstage, haccounts, hstill⟩
  | answered result =>
    rw [advance_of_calls (by rfl)]
    exact ⟨.answered result, rfl, .refl m⟩

end Manager

namespace Accounts

def total (events : List FetchRecord) : Accounts := events.foldr (fun f a => f.share + a) zero

theorem total_middle (before after : List FetchRecord) (f : FetchRecord) :
    total (before ++ f :: after) = f.share + total (before ++ after) := by
  induction before with
  | nil => rfl
  | cons g before ih =>
    change g.share + total (before ++ f :: after) = f.share + (g.share + total (before ++ after))
    rw [ih]
    simp only [add_eq, mk.injEq]
    omega

theorem total_begin (ticket : Option Nat) (net : Network) (r : Request)
    (events : List FetchRecord) : total (.begin ticket net r :: events) = total events := by
  have hbegin : (FetchRecord.begin ticket net r).share = zero := by
    rw [FetchRecord.begin, Manager.fetchTask_eq]
    rfl
  change (FetchRecord.begin ticket net r).share + total events = total events
  rw [hbegin]
  simp only [add_eq, zero, Nat.zero_add]

theorem total_replace {a a' : Accounts} {before after : List FetchRecord} {f f' : FetchRecord}
    (hstep : a' + f.share = a + f'.share) (ha : a = total (before ++ f :: after)) :
    a' = total (before ++ f' :: after) := by
  rw [total_middle] at ha ⊢
  generalize total (before ++ after) = rest at ha ⊢
  subst ha
  cases a'
  simp only [add_eq, mk.injEq] at hstep ⊢
  omega

end Accounts

def FetchRecord.Proper (f : FetchRecord) : Prop :=
  ∃ net r, Manager.FetchStage net r f.task f.opened f.calls

namespace FetchRecord

variable {f : FetchRecord}

theorem proper_begin (ticket : Option Nat) (net : Network) (r : Request) :
    (begin ticket net r).Proper := by
  refine ⟨net, r, ?_⟩
  rw [begin, Manager.fetchTask_eq]
  exact .begun

theorem Proper.ended (h : f.Proper) (he : f.ended = true) :
    (f.opened == some true).toNat = f.hit.toNat + f.calls ∧
      f.calls = (f.answered true).toNat + (f.answered false).toNat + f.crashed.toNat := by
  obtain ⟨ticket, task, opened, calls⟩ := f
  obtain ⟨net, r, hstage⟩ := h
  cases hstage with
  | begun | opened | found | missed => cases he
  | closed | hit => exact ⟨rfl, rfl⟩
  | answered result => cases result <;> exact ⟨rfl, rfl⟩
  | waiting n o ht =>
    subst ht
    cases n with
    | succ n => cases he
    | zero =>
      cases o with
      | crash => exact ⟨rfl, rfl⟩
      | response | failure => cases he

theorem answered_le_calls (f : FetchRecord) (ok : Bool) : (f.answered ok).toNat ≤ f.calls := by
  have hcall : ∀ b : Bool, (b && f.calls != 0).toNat ≤ f.calls := by
    intro b
    by_cases hc : f.calls = 0
    · simp [hc]
    · have hone := Bool.toNat_le (b && f.calls != 0)
      omega
  rw [answered]
  split
  · exact hcall ok
  · exact hcall !ok
  · exact Nat.zero_le _

end FetchRecord

namespace Accounts

/-- What is kept twice is the same, however far the fetch events have come. -/
theorem total_agrees (events : List FetchRecord) :
    (total events).hitLookups = (total events).hits ∧
      (total events).cacheTimes = (total events).hits ∧
      (total events).missLookups = (total events).answered + (total events).failed ∧
      (total events).networkTimes = (total events).answered + (total events).failed ∧
      (total events).failed = (total events).networkErrors ∧
      (total events).networkErrors ≤ (total events).misses ∧
      (total events).misses = (events.map (·.calls)).sum := by
  induction events with
  | nil => exact ⟨rfl, rfl, rfl, rfl, rfl, Nat.le_refl _, rfl⟩
  | cons f events ih =>
    have hle := f.answered_le_calls false
    rw [List.map_cons, List.sum_cons]
    change (f.share + total events).hitLookups = (f.share + total events).hits ∧ _
    simp only [total, List.foldr_cons, add_eq, FetchRecord.share] at ih ⊢
    omega

/-- Once all fetch events have ended, each that could open its bucket is a hit or a miss, and each
miss was answered or has crashed. -/
theorem total_ended {events : List FetchRecord} (hp : ∀ f ∈ events, f.Proper)
    (he : ∀ f ∈ events, f.ended = true) :
    (total events).hits + (total events).misses =
        events.countP (fun f => f.opened == some true) ∧
      (total events).answered + (total events).failed + events.countP (·.crashed) =
        (total events).misses := by
  induction events with
  | nil => exact ⟨rfl, rfl⟩
  | cons f events ih =>
    obtain ⟨hopened, hcalls⟩ := (hp f List.mem_cons_self).ended (he f List.mem_cons_self)
    obtain ⟨hsum, hmisses⟩ := ih (fun g hg => hp g (List.mem_cons_of_mem f hg)) fun g hg =>
      he g (List.mem_cons_of_mem f hg)
    have hone : ∀ b : Bool, (if b = true then 1 else 0) = b.toNat := fun b => by cases b <;> rfl
    rw [List.countP_cons, List.countP_cons, hone, hone]
    simp only [total, List.foldr_cons, add_eq, FetchRecord.share] at hsum hmisses ⊢
    omega

end Accounts

end AssetCache
