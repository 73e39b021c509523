import AssetCache.Task

namespace AssetCache.Task

variable {σ α β γ : Type} {P P' : σ → σ → Prop} {Q R : Option α → Prop} {t : Task σ α}

def result? : Task σ α → Option (Option α)
  | done a => some (some a)
  | crash => some none
  | _ => none

def ended : Option α → Task σ α
  | some a => .done a
  | none => .crash

theorem result?_ended (result : Option α) : (ended (σ := σ) result).result? = some result := by
  cases result <;> rfl

theorem eq_ended_of_result? {result : Option α} (h : t.result? = some result) : t = ended result := by
  cases t with
  | done | crash =>
    cases h
    rfl
  | wait | act => cases h

/-- Each step keeps `P`, from whatever state it is taken; the result, or its absence after a crash,
has `Q`. -/
def Keeps (P : σ → σ → Prop) (Q : Option α → Prop) : Task σ α → Prop
  | done a => Q (some a)
  | crash => Q none
  | wait next => next.Keeps P Q
  | act step next => ∀ s, P s (step s).2 ∧ (next (step s).1).Keeps P Q

theorem bind_assoc (t : Task σ α) (f : α → Task σ β) (g : β → Task σ γ) :
    (t.bind f).bind g = t.bind fun a => (f a).bind g := by
  induction t with
  | done a => rfl
  | crash => rfl
  | wait next ih => exact congrArg wait ih
  | act step next ih => exact congrArg (act step) (funext ih)

namespace Keeps

theorem mono (hP : ∀ s s', P s s' → P' s s') (hQ : ∀ a, Q a → R a) (h : t.Keeps P Q) :
    t.Keeps P' R := by
  induction t with
  | done a => exact hQ _ h
  | crash => exact hQ _ h
  | wait next ih => exact ih h
  | act step next ih => exact fun s => ⟨hP _ _ (h s).1, ih _ (h s).2⟩

theorem waits (h : t.Keeps P Q) (n : Nat) : (Task.waits n t).Keeps P Q := by
  induction n with
  | zero => exact h
  | succ n ih => exact ih

theorem advance (h : t.Keeps P Q) (hrefl : ∀ s, P s s) (s : σ) :
    P s (t.advance s).2 ∧ (t.advance s).1.Keeps P Q := by
  cases t with
  | done a => exact ⟨hrefl s, h⟩
  | crash => exact ⟨hrefl s, h⟩
  | wait next => exact ⟨hrefl s, h⟩
  | act step next => exact h s

theorem and (h : t.Keeps P Q) (h' : t.Keeps P' R) :
    t.Keeps (fun s s' => P s s' ∧ P' s s') fun a => Q a ∧ R a := by
  induction t with
  | done a => exact ⟨h, h'⟩
  | crash => exact ⟨h, h'⟩
  | wait next ih => exact ih h h'
  | act step next ih => exact fun s => ⟨⟨(h s).1, (h' s).1⟩, ih _ (h s).2 (h' s).2⟩

theorem run (h : t.Keeps P Q) (hrefl : ∀ s, P s s)
    (htrans : ∀ s s' s'', P s s' → P s' s'' → P s s'') (s : σ) : P s (t.run s).2 ∧ Q (t.run s).1 := by
  induction t generalizing s with
  | done a => exact ⟨hrefl s, h⟩
  | crash => exact ⟨hrefl s, h⟩
  | wait next ih => exact ih h s
  | act step next ih =>
    obtain ⟨hstep, hnext⟩ := h s
    obtain ⟨hrest, hresult⟩ := ih _ hnext (step s).2
    exact ⟨htrans _ _ _ hstep hrest, hresult⟩

end Keeps

def Certain (a : α) (t : Task σ α) : Prop := t.Keeps (fun _ _ => True) (· = some a)

theorem Certain.run {a : α} (h : t.Certain a) (s : σ) : (t.run s).1 = some a :=
  (Keeps.run h (fun _ => trivial) (fun _ _ _ _ _ => trivial) s).2

/-- From this state on others may take steps that `R` allows; then each step of the task itself is one
that `G` allows, and the result, or its absence after a crash, has `Q` in whatever state there is. -/
def Follows (R G : σ → σ → Prop) (Q : Option α → σ → Prop) : Task σ α → σ → Prop
  | done a, s => ∀ s', R s s' → Q (some a) s'
  | crash, s => ∀ s', R s s' → Q none s'
  | wait next, s => next.Follows R G Q s
  | act step next, s => ∀ s', R s s' → G s' (step s').2 ∧ (next (step s').1).Follows R G Q (step s').2

namespace Follows

variable {R G : σ → σ → Prop} {Q : Option α → σ → Prop} {s s' : σ}

theorem others (h : t.Follows R G Q s) (htrans : ∀ s s' s'', R s s' → R s' s'' → R s s'')
    (hs : R s s') : t.Follows R G Q s' := by
  induction t with
  | done a => exact fun s'' hs' => h s'' (htrans _ _ _ hs hs')
  | crash => exact fun s'' hs' => h s'' (htrans _ _ _ hs hs')
  | wait next ih => exact ih h
  | act step next => exact fun s'' hs' => h s'' (htrans _ _ _ hs hs')

theorem advance (h : t.Follows R G Q s) (hR : R s s) (hG : G s s) :
    G s (t.advance s).2 ∧ (t.advance s).1.Follows R G Q (t.advance s).2 := by
  cases t with
  | done a => exact ⟨hG, h⟩
  | crash => exact ⟨hG, h⟩
  | wait next => exact ⟨hG, h⟩
  | act step next => exact h s hR

theorem bind {f : α → Task σ β} {Q' : Option β → σ → Prop} (h : t.Follows R G Q s)
    (hR : ∀ s, R s s) (hf : ∀ a s, Q (some a) s → (f a).Follows R G Q' s)
    (hcrash : ∀ s, Q none s → Q' none s) : (t.bind f).Follows R G Q' s := by
  induction t generalizing s with
  | done a => exact hf a s (h s (hR s))
  | crash => exact fun s' hs => hcrash s' (h s' hs)
  | wait next ih => exact ih h
  | act step next ih => exact fun s' hs => ⟨(h s' hs).1, ih _ (h s' hs).2⟩

theorem run (h : t.Follows R G Q s) (hR : ∀ s, R s s) : Q (t.run s).1 (t.run s).2 := by
  induction t generalizing s with
  | done a => exact h s (hR s)
  | crash => exact h s (hR s)
  | wait next ih => exact ih h
  | act step next ih => exact ih _ (h s (hR s)).2

/-- What each step keeps it keeps whatever others do, and `I` holds throughout. -/
theorem of_keeps {I : σ → Prop} {T : Option α → Prop} (h : t.Keeps P T)
    (hR : ∀ s s', I s → R s s' → I s') (hP : ∀ s s', I s → P s s' → G s s' ∧ I s') (hs : I s) :
    t.Follows R G (fun a s => T a ∧ I s) s := by
  induction t generalizing s with
  | done a => exact fun s' hs' => ⟨h, hR s s' hs hs'⟩
  | crash => exact fun s' hs' => ⟨h, hR s s' hs hs'⟩
  | wait next ih => exact ih h hs
  | act step next ih =>
    intro s' hs'
    obtain ⟨hstep, hnext⟩ := h s'
    obtain ⟨hG, hI⟩ := hP s' _ (hR s s' hs hs') hstep
    exact ⟨hG, ih _ hnext hI⟩

end Follows

/-- Each step gives the same from two states that `P` relates, and `P` relates those it leads to. -/
def Respects (P : σ → σ → Prop) : Task σ α → Prop
  | done _ => True
  | crash => True
  | wait next => next.Respects P
  | act step next =>
    (∀ s s', P s s' → (step s).1 = (step s').1 ∧ P (step s).2 (step s').2) ∧
      ∀ b, (next b).Respects P

namespace Respects

theorem waits (h : t.Respects P) (n : Nat) : (Task.waits n t).Respects P := by
  induction n with
  | zero => exact h
  | succ n ih => exact ih

end Respects

end AssetCache.Task
