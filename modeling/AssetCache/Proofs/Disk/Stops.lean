import AssetCache.Proofs.Disk

namespace AssetCache.Disk

variable {d d₁ d' : Disk} {s change : Step} {steps rest : List Step} {f : Path} {a b : String}
  {bytes : ByteArray}

/-- `d'` may be left behind by a process that stops while it makes these changes of `d`: between two
of them, within one of which a part is done then, or when one has failed. -/
inductive Stops : Disk → List Step → Disk → Prop
  | between (d : Disk) (steps : List Step) : Stops d steps d
  | within (d : Disk) (s : Step) (rest : List Step) (m : Mishap) :
    Stops d (s :: rest) (d.spoil m s)
  | failed {d d' : Disk} {s : Step} {e : SystemError} (h : d.step s = (.error e, d'))
    (rest : List Step) : Stops d (s :: rest) d'
  | done {d d₁ d' : Disk} {s : Step} {rest : List Step} (h : d.step s = (.ok (), d₁))
    (hrest : Stops d₁ rest d') : Stops d (s :: rest) d'

theorem stops_run (d : Disk) (steps : List Step) : Stops d steps (d.run steps).2 := by
  induction steps generalizing d with
  | nil => exact .between d []
  | cons s rest ih =>
    cases h : d.step s with
    | mk result d₁ =>
      simp only [run, h]
      cases result with
      | error e => exact .failed h rest
      | ok _ => exact .done h (ih d₁)

def withMishaps (d : Disk) (mishaps : List (Option Mishap)) : Disk := { d with mishaps }

section WithMishaps

variable (d) (ms : List (Option Mishap))

theorem find_withMishaps (p : Path) : (d.withMishaps ms).find p = d.find p :=
  find_entries (by rfl) p

theorem unwritable_withMishaps (p : Path) :
    (d.withMishaps ms).unwritable p = d.unwritable p := by
  have hblocked : (d.withMishaps ms).blocked p = d.blocked p := blockedFrom_congr (by rfl) [] p
  have hat : (d.withMishaps ms).at? p = d.at? p := at?_congr (by rfl) p
  rw [unwritable, unwritable, hblocked, hat]

theorem makeFoldersFrom_withMishaps (done rest : Path) :
    (d.withMishaps ms).makeFoldersFrom done rest =
      ((d.makeFoldersFrom done rest).1, (d.makeFoldersFrom done rest).2.withMishaps ms) := by
  induction rest generalizing d done with
  | nil => rfl
  | cons name rest ih =>
    have hat : (d.withMishaps ms).at? (done ++ [name]) = d.at? (done ++ [name]) :=
      at?_congr (by rfl) _
    rw [makeFoldersFrom, makeFoldersFrom, hat]
    cases d.at? (done ++ [name]) with
    | none => exact ih (d.set (done ++ [name]) .folder) (done ++ [name])
    | some e =>
      cases e with
      | folder => exact ih d (done ++ [name])
      | file bytes => rfl

theorem writeFile_withMishaps (p : Path) (bytes : ByteArray) :
    (d.withMishaps ms).writeFile p bytes =
      ((d.writeFile p bytes).1, (d.writeFile p bytes).2.withMishaps ms) := by
  rw [writeFile, writeFile, unwritable_withMishaps]
  cases d.unwritable p <;> rfl

theorem perform_withMishaps (s : Step) :
    (d.withMishaps ms).perform s = ((d.perform s).1, (d.perform s).2.withMishaps ms) := by
  cases s with
  | makeFolders p => exact makeFoldersFrom_withMishaps d ms [] p
  | write p bytes => exact writeFile_withMishaps d ms p bytes
  | rename source target =>
    rw [perform, perform, renameFile, renameFile, find_withMishaps, unwritable_withMishaps]
    cases d.find source with
    | error e => rfl
    | ok e => cases d.unwritable target <;> rfl
  | remove p =>
    rw [perform, perform, removeFile, removeFile, find_withMishaps]
    cases d.find p with
    | error e => rfl
    | ok e => cases e <;> rfl

theorem spoil_withMishaps (m : Mishap) (s : Step) :
    (d.withMishaps ms).spoil m s = (d.spoil m s).withMishaps ms := by
  cases s with
  | makeFolders p =>
    rw [spoil, spoil]
    cases m.written with
    | none => rfl
    | some n => exact congrArg Prod.snd (makeFoldersFrom_withMishaps d ms [] (p.take n))
  | write p bytes =>
    rw [spoil, spoil]
    cases m.written with
    | none => rfl
    | some n => exact congrArg Prod.snd (writeFile_withMishaps d ms p (bytes.extract 0 n))
  | rename source target => rfl
  | remove p => rfl

end WithMishaps

theorem spoil_nothing (d : Disk) (e : SystemError) (s : Step) : d.spoil ⟨e, none⟩ s = d := by
  cases s <;> rfl

theorem step_eq (d : Disk) (s : Step) :
    (∃ m rest, d.mishaps = some m :: rest ∧
      d.step s = (.error m.error, (d.withMishaps rest).spoil m s)) ∨
    ∃ rest, d.step s = (d.withMishaps rest).perform s := by
  obtain ⟨entries, mishaps⟩ := d
  cases mishaps with
  | nil => exact .inr ⟨[], rfl⟩
  | cons m rest =>
    cases m with
    | none => exact .inr ⟨rest, rfl⟩
    | some m => exact .inl ⟨m, rest, rfl, rfl⟩

/-- What a process leaves behind that stops, one leaves that goes on after a mishap there. -/
theorem Stops.exists_run (h : Stops d steps d') :
    ∃ ms, ((d.withMishaps ms).run steps).2.entries = d'.entries := by
  -- the mishaps: none for each change that was done, one for that at which the process stopped
  induction h with
  | between d steps =>
    cases steps with
    | nil => exact ⟨[], rfl⟩
    | cons s rest =>
      refine ⟨[some ⟨.notFound, none⟩], ?_⟩
      change ((d.withMishaps []).spoil ⟨.notFound, none⟩ s).entries = d.entries
      rw [spoil_nothing]
      rfl
  | within d s rest m =>
    refine ⟨[some m], ?_⟩
    change ((d.withMishaps []).spoil m s).entries = (d.spoil m s).entries
    rw [spoil_withMishaps]
    rfl
  | @failed d d' s e h rest =>
    obtain ⟨m, ms, _, hstep⟩ | ⟨ms, hstep⟩ := d.step_eq s
    · rw [hstep] at h
      cases h
      refine ⟨[some m], ?_⟩
      change ((d.withMishaps []).spoil m s).entries = ((d.withMishaps ms).spoil m s).entries
      rw [spoil_withMishaps, spoil_withMishaps]
      rfl
    · rw [hstep, perform_withMishaps] at h
      obtain ⟨hresult, rfl⟩ := Prod.mk.inj h
      refine ⟨[none], ?_⟩
      have hnone : (d.withMishaps [none]).step s = (d.withMishaps []).perform s := rfl
      rw [run, hnone, perform_withMishaps, hresult]
      rfl
  | @done d d₁ d' s rest h _ ih =>
    obtain ⟨m, ms, _, hstep⟩ | ⟨ms, hstep⟩ := d.step_eq s
    · rw [hstep] at h
      cases h
    · rw [hstep, perform_withMishaps] at h
      obtain ⟨hresult, rfl⟩ := Prod.mk.inj h
      obtain ⟨ms', hrun⟩ := ih
      refine ⟨none :: ms', ?_⟩
      have hnone : (d.withMishaps (none :: ms')).step s = (d.withMishaps ms').perform s := rfl
      rw [run, hnone, perform_withMishaps, hresult]
      exact hrun

/-- The file is there as it was before or as it is after, with all others as they were. -/
theorem Stops.replaced (hd : d.IsTree) (hab : a ≠ b) (h : Stops d (replace f a b bytes) d') :
    KeepsBut f a d d' ∨ Replaced f a b bytes d d' := by
  obtain ⟨ms, hrun⟩ := h.exists_run
  have hstart : KeepsBut f a d (d.withMishaps ms) := .of_entries hd rfl
  obtain ⟨_, _, hkeeps⟩ | ⟨_, hreplaced⟩ := run_replace hstart.tree hab bytes
  · exact .inl ((hstart.trans hkeeps).trans (.of_entries hkeeps.tree hrun.symm))
  · have hsame := at?_congr hrun.symm
    refine .inr ⟨hreplaced.tree.congr hsame, ?_, ?_, ?_, fun name ha hb => ?_⟩
    · rw [hsame, hreplaced.folder]
    · rw [hsame, hreplaced.file]
    · rw [hsame, hreplaced.draft]
    · rw [hsame, hreplaced.beside name ha hb, hstart.beside name ha]

theorem clear_of_folder (hd : d.IsTree) (hf : d.at? f = some .folder) : d.Clear f := by
  intro q post bytes hq hfile
  subst hq
  have hfolder : d.at? q = some .folder := by
    cases post with
    | nil => rwa [List.append_nil] at hf
    | cons name post => exact hd.folder_above (name :: post) (by simp) (by simp [hf])
  rw [hfolder] at hfile
  cases hfile

theorem KeepsBut.clear (h : KeepsBut f a d d') (hf : d.Clear f) : d'.Clear f := by
  intro q post bytes hq hfile
  have hne : q ≠ f ++ [a] := by
    intro he
    have hlength := congrArg List.length hq
    simp only [he, List.length_append, List.length_singleton] at hlength
    omega
  exact hf q post bytes hq ((h.files q bytes hne).mp hfile)

structure Free (f : Path) (a : String) (d : Disk) : Prop where
  tree : d.IsTree
  free : d.at? (f ++ [a]) ≠ some .folder

namespace Free

theorem congr (hd : Free f a d) (h : d'.entries = d.entries) : Free f a d' := by
  refine ⟨hd.tree.congr (at?_congr h), ?_⟩
  rw [at?_congr h]
  exact hd.free

theorem makeFolders (hd : Free f a d) (hab : a ≠ b) {p : Path} (hp : p <+: f) :
    Free f a (d.makeFolders p).2 := by
  obtain ⟨hkeeps, _⟩ := makeFolders_keeps hd.tree hp b
  refine ⟨hkeeps.tree, ?_⟩
  rw [hkeeps.beside a hab]
  exact hd.free

theorem writeFile (hd : Free f a d) (bytes : ByteArray) :
    Free f a (d.writeFile (f ++ [a]) bytes).2 := by
  refine ⟨(writeFile_keeps hd.tree f a bytes).tree, ?_⟩
  obtain ⟨e, hw⟩ | ⟨_, _, hw⟩ := writeFile_eq hd.tree (p := f) a bytes
  · rw [hw]
    exact hd.free
  · simp [hw, at?_set]

theorem renameFile (hd : Free f a d) (hab : a ≠ b) :
    Free f a (d.renameFile (f ++ [a]) (f ++ [b])).2 := by
  cases hat : d.at? (f ++ [a]) with
  | none =>
    have hfind : ∃ e, d.find (f ++ [a]) = .error e := by
      rw [find, hat]
      cases d.blocked (f ++ [a]) with
      | none => exact ⟨_, rfl⟩
      | some e => exact ⟨e, rfl⟩
    obtain ⟨e, hfind⟩ := hfind
    rw [Disk.renameFile, hfind]
    exact hd
  | some entry =>
    cases entry with
    | folder => exact absurd hat hd.free
    | file bytes =>
      obtain ⟨e, hr⟩ | ⟨hb, hr⟩ := renameFile_eq hd.tree (b := b) hat
      · rw [hr]
        exact hd
      · have hreplaced := replaced_rename hd.tree hab hat hb
        rw [hr]
        exact ⟨hreplaced.tree, by simp [hreplaced.draft]⟩

theorem step (hd : Free f a d) (hab : a ≠ b) (hs : s ∈ replace f a b bytes) :
    Free f a (d.step s).2 := by
  obtain ⟨d₁, he, hstep⟩ := d.step_cases s
  have hd₁ := hd.congr he
  simp only [replace, List.mem_cons, List.not_mem_nil, or_false] at hs
  obtain ⟨m, hstep⟩ | hstep := hstep
  · rw [hstep]
    obtain rfl | rfl | rfl := hs
    · rw [spoil]
      cases m.written with
      | none => exact hd₁
      | some n => exact hd₁.makeFolders hab (List.take_prefix n f)
    · rw [spoil]
      cases m.written with
      | none => exact hd₁
      | some n => exact hd₁.writeFile _
    · exact hd₁
  · rw [hstep]
    obtain rfl | rfl | rfl := hs
    · exact hd₁.makeFolders hab (List.prefix_refl f)
    · exact hd₁.writeFile bytes
    · exact hd₁.renameFile hab

theorem run (hab : a ≠ b) (hd : Free f a d) (hsteps : ∀ s ∈ steps, s ∈ replace f a b bytes) :
    Free f a (d.run steps).2 := by
  induction steps generalizing d with
  | nil => exact hd
  | cons s rest ih =>
    have hstep := hd.step hab (hsteps s List.mem_cons_self)
    rw [Disk.run]
    generalize d.step s = stepped at hstep
    obtain ⟨e | ⟨⟩, d₁⟩ := stepped
    · exact hstep
    · exact ih hstep fun s hs => hsteps s (List.mem_cons_of_mem _ hs)

end Free

/-- One of the changes by which a file is replaced. The last needs that no folder stands under the
name that is written first, and the one before it sees to that. -/
theorem step_of_replace (hd : d.IsTree) (hab : a ≠ b)
    (hrest : change :: rest <:+ replace f a b bytes) (hfree : rest = [] → Free f a d) :
    (d.step change).2.IsTree ∧
      ((d.step change).1 = .ok () → rest.length ≤ 1 → Free f a (d.step change).2) := by
  obtain ⟨d₁, he, hstep⟩ := d.step_cases change
  have hd₁ : d₁.IsTree := hd.congr (at?_congr he)
  have hmem : change ∈ replace f a b bytes := hrest.subset List.mem_cons_self
  simp only [replace, List.suffix_cons_iff, List.suffix_nil, List.cons.injEq, reduceCtorEq,
    or_false] at hrest
  obtain ⟨rfl, rfl⟩ | ⟨rfl, rfl⟩ | ⟨rfl, rfl⟩ := hrest
  · refine ⟨?_, fun _ hlength => absurd hlength (by simp)⟩
    obtain ⟨m, hstep⟩ | hstep := hstep
    · rw [hstep, spoil]
      cases m.written with
      | none => exact hd₁
      | some n => exact (makeFolders_keeps hd₁ (List.take_prefix n f) b).1.tree
    · rw [hstep]
      exact (makeFolders_keeps hd₁ (List.prefix_refl f) b).1.tree
  · obtain ⟨m, hstep⟩ | hstep := hstep
    · rw [hstep, spoil]
      refine ⟨?_, fun hok => by cases hok⟩
      cases m.written with
      | none => exact hd₁
      | some n => exact (writeFile_keeps hd₁ f a _).tree
    · rw [hstep]
      refine ⟨(writeFile_keeps hd₁ f a bytes).tree, fun hok _ =>
        ⟨(writeFile_keeps hd₁ f a bytes).tree, ?_⟩⟩
      rw [perform] at hok ⊢
      obtain ⟨e, hw⟩ | ⟨_, _, hw⟩ := writeFile_eq hd₁ (p := f) a bytes
      · rw [hw] at hok
        cases hok
      · simp [hw, at?_set]
  · have hfree := (hfree rfl).step hab hmem
    exact ⟨hfree.tree, fun _ _ => hfree⟩

structure Writable (f : Path) (a : String) (d : Disk) : Prop where
  clear : d.Clear f
  draft : d.at? (f ++ [a]) ≠ some .folder

theorem Writable.congr (hw : Writable f a d) (h : d'.entries = d.entries) : Writable f a d' where
  clear q post bytes hq := by
    rw [at?_congr h]
    exact hw.clear q post bytes hq
  draft := by
    rw [at?_congr h]
    exact hw.draft

/-- What is left behind is in nobody's way. -/
theorem Stops.writable (hd : d.IsTree) (hab : a ≠ b) (h : Stops d (replace f a b bytes) d')
    (hw : Writable f a d) : Writable f a d' := by
  constructor
  · obtain hkeeps | hreplaced := h.replaced hd hab
    · exact hkeeps.clear hw.clear
    · exact clear_of_folder hreplaced.tree hreplaced.folder
  · obtain ⟨ms, hrun⟩ := h.exists_run
    have hfree : Free f a (d.withMishaps ms) := Free.congr ⟨hd, hw.draft⟩ rfl
    exact ((hfree.run hab fun _ hs => hs).congr hrun.symm).free

end AssetCache.Disk
