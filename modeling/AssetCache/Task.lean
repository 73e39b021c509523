namespace AssetCache

/-- `act` is one indivisible step, `wait` asks to be taken up again later, `crash` ends the work
without a result. -/
inductive Task (σ α : Type) : Type 1 where
  | done (a : α)
  | crash
  | wait (next : Task σ α)
  | act {β : Type} (step : σ → β × σ) (next : β → Task σ α)

namespace Task

variable {σ α β : Type}

def bind : Task σ α → (α → Task σ β) → Task σ β
  | done a, f => f a
  | crash, _ => crash
  | wait next, f => wait (next.bind f)
  | act step next, f => act step fun b => (next b).bind f

def perform (step : σ → α × σ) : Task σ α := act step done

def waits : Nat → Task σ α → Task σ α
  | 0, t => t
  | n + 1, t => wait (waits n t)

/-- All steps at once; a crash has no result. -/
def run : Task σ α → σ → Option α × σ
  | done a, s => (some a, s)
  | crash, s => (none, s)
  | wait next, s => next.run s
  | act step next, s =>
    let (b, s) := step s
    (next b).run s

def poll : Task σ α → σ → Task σ α × σ
  | done a, s => (done a, s)
  | crash, s => (crash, s)
  | wait next, s => (next, s)
  | act step next, s =>
    let (b, s) := step s
    (next b).poll s

def advance : Task σ α → σ → Task σ α × σ
  | done a, s => (done a, s)
  | crash, s => (crash, s)
  | wait next, s => (next, s)
  | act step next, s =>
    let (b, s) := step s
    (next b, s)

theorem run_bind (t : Task σ α) (f : α → Task σ β) (s : σ) :
    (t.bind f).run s =
      match t.run s with
      | (some a, s) => (f a).run s
      | (none, s) => (none, s) := by
  induction t generalizing s with
  | done a => rfl
  | crash => rfl
  | wait next ih => exact ih s
  | act step next ih => exact ih _ _

theorem run_waits (n : Nat) (t : Task σ α) (s : σ) : (waits n t).run s = t.run s := by
  induction n with
  | zero => rfl
  | succ n ih => exact ih

theorem run_advance (t : Task σ α) (s : σ) :
    (t.advance s).1.run (t.advance s).2 = t.run s := by
  cases t <;> rfl

end Task

end AssetCache
