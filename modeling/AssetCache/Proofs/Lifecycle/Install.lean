import AssetCache.Proofs.Delivery.Run
import AssetCache.Proofs.Progress

namespace AssetCache

open Manager

/-- An install and how far it has come: whether its batch is committed, and whether since then it has
reached the update of the phase. The ticket is that of one which was sent to the worker. -/
structure InstallRun where
  ticket : Option Nat
  task : Task Manager (Except InstallError Unit)
  committed : Prop
  updated : Prop

namespace InstallRun

def direct [Idna] (net : Network) : InstallRun := ⟨none, installTask net, False, False⟩

def sent [Idna] (n : Nat) (net : Network) :
    InstallRun := ⟨some n, (worker net).install, False, False⟩

def Commits (r : InstallRun) (m : Manager) : Prop :=
  ∃ h batch next, r.task = .act (storeAll h batch) next ∧ (m.store.putAll h batch).1 = .ok ()

def Updates (r : InstallRun) : Prop :=
  ∃ next, r.task =
    .act (fun m => ((.ok () : Except InstallError Unit), m.recordInstall (.ok ()))) next

def advance (r : InstallRun) (m : Manager) : InstallRun where
  ticket := r.ticket
  task := (r.task.advance m).1
  committed := r.committed ∨ r.Commits m
  updated := r.updated ∨ (r.committed ∧ r.Updates)

def Ended (r : InstallRun) : Prop := r.task.result?.isSome

def Succeeded (r : InstallRun) : Prop := r.task.result? = some (some (.ok ()))

end InstallRun

namespace Manager

variable {net : Network} {m m' : Manager} {t : Task Manager (Except InstallError Unit)}

def SamePhase (m m' : Manager) : Prop := m'.phase = m.phase

theorem fetchTask_keeps_phase (net : Network) (r : Request) :
    (fetchTask net r).Keeps SamePhase fun _ => True := by
  intro m
  refine ⟨rfl, ?_⟩
  cases m.bucket.1 with
  | error e => trivial
  | ok h =>
    intro m
    refine ⟨rfl, ?_⟩
    dsimp only
    cases (m.entries h).get? r.key with
    | some response => exact fun m => ⟨rfl, trivial⟩
    | none =>
      intro m
      refine ⟨rfl, Task.Keeps.waits ?_ _⟩
      cases (net r).outcome with
      | crash => trivial
      | response response => exact fun m => ⟨rfl, trivial⟩
      | failure e => exact fun m => ⟨rfl, trivial⟩

/-- A task that leaves the phase alone and does well by nothing but a commit at its end. -/
def Populates : Task Manager (Except InstallError Unit) → Prop
  | .done result => result ≠ .ok ()
  | .crash => True
  | .wait next => Populates next
  | .act step next =>
    (∃ h batch, Task.act step next = .perform (storeAll h batch)) ∨
      ∀ m, SamePhase m (step m).2 ∧ Populates (next (step m).1)

theorem populates_bind {α : Type} {t : Task Manager α} {P : Option α → Prop}
    {f : α → Task Manager (Except InstallError Unit)} (ht : t.Keeps SamePhase P)
    (hf : ∀ a, Populates (f a)) : Populates (t.bind f) := by
  induction t with
  | done a => exact hf a
  | crash => trivial
  | wait next ih => exact ih ht
  | act step next ih => exact .inr fun m => ⟨(ht m).1, ih _ (ht m).2⟩

theorem populates_populate [Idna] (net : Network) : Populates (populate net) := by
  refine .inr fun m => ⟨rfl, ?_⟩
  dsimp only
  cases Manifest.resolve m.origin m.manifest with
  | error e => exact nofun
  | ok requests =>
    refine .inr fun m => ⟨rfl, ?_⟩
    cases m.bucket.1 with
    | error e => exact nofun
    | ok h =>
      have hgather : (gather net requests).Keeps SamePhase fun _ => True :=
        (gather_keeps net requests).mono (fun _ _ => phase_of_bare) fun _ _ => trivial
      refine populates_bind hgather fun result => ?_
      cases result with
      | error e => exact nofun
      | ok _ => exact .inl ⟨h, _, rfl⟩

/-- What follows once an install is recorded: through the worker one that did well is activated. -/
def onward (sent : Bool) : Except InstallError Unit → Task Manager (Except InstallError Unit)
  | .error e => .done (.error e)
  | .ok () => if sent then .act activate fun _ => .done (.ok ()) else .done (.ok ())

def recording (sent : Bool) (result : Except InstallError Unit) :
    Task Manager (Except InstallError Unit) :=
  .act (fun m => (result, m.recordInstall result)) (onward sent)

theorem installTask_eq [Idna] (net : Network) :
    installTask net = (populate net).bind (recording false) := by
  have hdone : onward false = Task.done := funext fun result => by cases result <;> rfl
  have hcase : recording false = fun result =>
      .act (fun m => (result, m.recordInstall result)) .done :=
    funext fun result => by rw [recording, hdone]
  rw [hcase]
  rfl

theorem worker_install_eq [Idna] (net : Network) :
    (worker net).install = (populate net).bind (recording true) := by
  have hcase : ∀ result, recording true result = (Task.act (fun m : Manager =>
      (result, m.recordInstall result)) Task.done).bind fun
        | .error e => .done (.error e)
        | .ok () => .act activate fun _ => .done (.ok ()) :=
    fun result => congrArg (Task.act _) (funext fun result => by cases result <;> rfl)
  rw [worker, funext hcase, ← Task.bind_assoc]
  rfl

theorem recordInstall_phase (m : Manager) (result : Except InstallError Unit) :
    (m.recordInstall result).phase =
      if result = .ok () ∧ m.phase = .uninitialized then .populated else m.phase := by
  cases result with
  | error e => rfl
  | ok _ =>
    by_cases hp : m.phase = .uninitialized <;> simp [recordInstall, withMetrics, hp]

theorem activate_phase (m : Manager) :
    m.activate.2.phase = if m.phase = .populated then .serving else m.phase := by
  by_cases hp : m.phase = .populated <;> simp [activate, hp]

theorem storeAll_phase (h : Handle) (batch : List (Key × Response)) (m : Manager) :
    SamePhase m (storeAll h batch m).2 := by
  rw [SamePhase, storeAll]
  generalize m.store.putAll h batch = put
  obtain ⟨e | ⟨⟩, store⟩ := put <;> rfl

theorem storeAll_result (h : Handle) (batch : List (Key × Response)) (m : Manager) :
    (storeAll h batch m).1 = .ok () → (m.store.putAll h batch).1 = .ok () := by
  rw [storeAll]
  generalize m.store.putAll h batch = put
  obtain ⟨e | ⟨⟩, store⟩ := put
  · exact fun h => by cases h
  · exact fun _ => rfl

end Manager

namespace InstallRun

variable {r : InstallRun} {m : Manager}

/-- How far an install has come. The phase is updated between the commit and the end, and through the
worker there is an activation between the update and the end. -/
inductive Stage (r : InstallRun) : Prop
  | populating {t : Task Manager (Except InstallError Unit)} (ht : Populates t)
    (htask : r.task = t.bind (recording r.ticket.isSome)) : Stage r
  | recording {result : Except InstallError Unit}
    (htask : r.task = recording r.ticket.isSome result)
    (hcommitted : result = .ok () → r.committed) : Stage r
  | activating (htask : r.task = .act activate fun _ => .done (.ok ())) (hsent : r.ticket ≠ none)
    (hupdated : r.updated) : Stage r
  | ended (hended : r.Ended) : Stage r

theorem stage_direct [Idna] (net : Network) : (direct net).Stage :=
  .populating (populates_populate net) (installTask_eq net)

theorem stage_sent [Idna] (n : Nat) (net : Network) : (InstallRun.sent n net).Stage :=
  .populating (populates_populate net) (worker_install_eq net)

theorem advance_of_ended (h : r.Ended) (m : Manager) :
    (r.advance m).task = r.task ∧ (r.task.advance m).2 = m ∧ ((r.advance m).updated ↔ r.updated) := by
  obtain ⟨ticket, task, committed, updated⟩ := r
  cases task with
  | done | crash =>
    refine ⟨rfl, rfl, ⟨fun h => h.elim id ?_, .inl⟩⟩
    rintro ⟨-, next, hnext⟩
    cases hnext
  | wait | act => cases h

theorem Ended.advance (h : r.Ended) (m : Manager) : (r.advance m).Ended := by
  rw [Ended, (advance_of_ended h m).1]
  exact h

/-- What one step of an install does about the phase: nothing, or the first half of what is done when
it has done well, or, through the worker, the second half. -/
inductive Turn (r : InstallRun) (m : Manager) : Prop
  | aside (hphase : (r.task.advance m).2.phase = m.phase)
    (hupdated : (r.advance m).updated ↔ r.updated)
    (hsucceeded : (r.advance m).Succeeded → r.Succeeded ∨ r.ticket = none) : Turn r m
  | update (hphase : (r.task.advance m).2.phase = (m.recordInstall (.ok ())).phase)
    (hupdated : (r.advance m).updated) (hsucceeded : (r.advance m).Succeeded → r.ticket = none) :
    Turn r m
  | activate (htask : r.task = .act Manager.activate fun _ => .done (.ok ()))
    (hsent : r.ticket ≠ none) (hupdated : r.updated) : Turn r m

theorem not_updates_of_samePhase {β : Type} {step : Manager → β × Manager}
    {next : β → Task Manager (Except InstallError Unit)} (htask : r.task = .act step next)
    (hsame : ∀ m, SamePhase m (step m).2) : ¬ r.Updates := by
  rintro ⟨next', hnext⟩
  cases htask.symm.trans hnext
  have hphase := hsame unlucky
  rw [SamePhase, recordInstall_phase] at hphase
  cases hphase

theorem updated_advance (hnot : ¬ r.Updates) (m : Manager) :
    (r.advance m).updated ↔ r.updated :=
  ⟨fun h => h.elim id fun h => absurd h.2 hnot, .inl⟩

theorem not_succeeded_of_bind {t : Task Manager (Except InstallError Unit)} {sent : Bool}
    (htask : r.task = t.bind (recording sent)) : ¬ r.Succeeded := by
  rw [Succeeded, htask]
  cases t <;> exact nofun

theorem record_advance {result : Except InstallError Unit}
    (htask : r.task = Manager.recording r.ticket.isSome result)
    (hcommitted : result = .ok () → r.committed) (m : Manager) :
    (r.advance m).Stage ∧ r.Turn m := by
  have htask' : (r.advance m).task = onward r.ticket.isSome result := by rw [advance, htask]; rfl
  have hmanager : (r.task.advance m).2 = m.recordInstall result := by rw [htask]; rfl
  cases result with
  | error e =>
    have hsame : ¬ r.Updates := not_updates_of_samePhase htask fun _ => rfl
    refine ⟨.ended (by rw [Ended, htask']; rfl), .aside (by rw [hmanager]; rfl)
      (updated_advance hsame m) fun h => ?_⟩
    rw [Succeeded, htask'] at h
    cases h
  | ok done =>
    have hupdated : (r.advance m).updated := .inr ⟨hcommitted rfl, _, htask⟩
    have hphase : (r.task.advance m).2.phase = (m.recordInstall (.ok ())).phase := by rw [hmanager]
    cases hticket : r.ticket with
    | none =>
      rw [hticket] at htask'
      exact ⟨.ended (by rw [Ended, htask']; rfl), .update hphase hupdated fun _ => hticket⟩
    | some n =>
      rw [hticket] at htask'
      refine ⟨.activating htask' (by rw [advance, hticket]; exact nofun) hupdated,
        .update hphase hupdated fun h => ?_⟩
      rw [Succeeded, htask'] at h
      cases h

theorem Stage.advance (h : r.Stage) (m : Manager) : (r.advance m).Stage ∧ r.Turn m := by
  cases h with
  | ended hended =>
    obtain ⟨htask, hmanager, hupdated⟩ := advance_of_ended hended m
    refine ⟨.ended (hended.advance m), .aside (by rw [hmanager]) hupdated ?_⟩
    rw [Succeeded, htask]
    exact .inl
  | activating htask hsent hupdated =>
    exact ⟨.ended (by rw [Ended, InstallRun.advance, htask]; rfl), .activate htask hsent hupdated⟩
  | recording htask hcommitted => exact record_advance htask hcommitted m
  | @populating t ht htask =>
    cases t with
    | done result => exact record_advance htask (fun hok => absurd hok ht) m
    | crash =>
      have hended : r.Ended := by rw [Ended, htask]; rfl
      obtain ⟨htask', hmanager, hupdated⟩ := advance_of_ended hended m
      refine ⟨.ended (hended.advance m), .aside (by rw [hmanager]) hupdated ?_⟩
      rw [Succeeded, htask']
      exact .inl
    | wait next =>
      have htask' : (r.advance m).task = next.bind (Manager.recording r.ticket.isSome) := by
        rw [InstallRun.advance, htask]
        rfl
      have hsame : ¬ r.Updates := by
        rintro ⟨_, hnext⟩
        cases htask.symm.trans hnext
      exact ⟨.populating (show Populates next from ht) htask',
        .aside (by rw [htask]; rfl) (updated_advance hsame m)
          fun h => absurd h (not_succeeded_of_bind htask')⟩
    | act step next =>
      have hmanager : (r.task.advance m).2 = (step m).2 := by rw [htask]; rfl
      have htask' : (r.advance m).task =
          (next (step m).1).bind (Manager.recording r.ticket.isSome) := by
        rw [InstallRun.advance, htask]
        rfl
      obtain ⟨h, batch, hstore⟩ | hsame := ht
      · cases hstore
        have hupdated := updated_advance
          (not_updates_of_samePhase htask (storeAll_phase h batch)) m
        refine ⟨.recording htask' fun hok => ?_,
          .aside (by rw [hmanager, storeAll_phase]) hupdated
            fun h => absurd h (not_succeeded_of_bind htask')⟩
        exact .inr ⟨h, batch, _, htask, storeAll_result h batch m hok⟩
      · have hupdated := updated_advance (not_updates_of_samePhase htask fun m => (hsame m).1) m
        exact ⟨.populating (hsame m).2 htask',
          .aside (by rw [hmanager, (hsame m).1]) hupdated
            fun h => absurd h (not_succeeded_of_bind htask')⟩

end InstallRun

end AssetCache
