import AssetCache.Disk

namespace AssetCache

section Lookup

variable {α β : Type} [BEq α] [LawfulBEq α] {a : α} {f : α × β → Bool}

theorem lookup_filter_pos (l : List (α × β)) (h : ∀ b, f (a, b) = true) :
    (l.filter f).lookup a = l.lookup a := by
  induction l with
  | nil => rfl
  | cons p l ih =>
    obtain ⟨c, b⟩ := p
    by_cases hc : a = c
    · subst hc
      simp [h b]
    · have hb : (a == c) = false := by simpa using hc
      by_cases hf : f (c, b) = true <;> simp [hf, List.lookup_cons, hb, ih]

theorem lookup_filter_neg (l : List (α × β)) (h : ∀ b, f (a, b) = false) :
    (l.filter f).lookup a = none := by
  rw [List.lookup_eq_none_iff]
  intro p hp
  have hf := (List.mem_filter.mp hp).2
  refine bne_iff_ne.mpr fun ha => ?_
  rw [← Prod.eta p, ← ha, h] at hf
  exact Bool.false_ne_true hf

end Lookup

namespace Disk

variable {d d' : Disk} {p q : Path} {e : Entry} {bytes : ByteArray}

/-- What stands somewhere stands in a folder. -/
def IsTree (d : Disk) : Prop := ∀ p name, d.at? (p ++ [name]) ≠ none → d.at? p = some .folder

theorem isTree_empty : empty.IsTree := fun _ _ h => absurd (by simp [at?, empty]) h

/-- The same disk, with every access to come doing well. -/
def calm (d : Disk) : Disk := { d with mishaps := [] }

theorem at?_set (hp : p ≠ []) (q : Path) :
    (d.set p e).at? q = if q = p then some e else d.at? q := by
  by_cases hq : q = p
  · subst hq
    simp [at?, set, hp]
  · have hb : (q == p) = false := by simpa using hq
    simp only [at?, set, hq, if_false, List.lookup_cons, hb]
    rw [lookup_filter_pos _ (by simp [hq])]

theorem at?_erase (hp : p ≠ []) (q : Path) :
    (d.erase p).at? q = if q = p then none else d.at? q := by
  by_cases hq : q = p
  · subst hq
    simp only [at?, erase, hp, if_false, if_true]
    exact lookup_filter_neg _ (by simp)
  · simp only [at?, erase, hq, if_false]
    rw [lookup_filter_pos _ (by simp [hq])]

theorem at?_congr (h : d'.entries = d.entries) (p : Path) : d'.at? p = d.at? p := by
  simp only [at?, h]

theorem blockedFrom_congr (h : d'.entries = d.entries) (done p : Path) :
    d'.blockedFrom done p = d.blockedFrom done p := by
  induction p generalizing done with
  | nil => rfl
  | cons name p ih => rw [blockedFrom, blockedFrom, at?_congr h, ih]

theorem find_entries (h : d'.entries = d.entries) (p : Path) : d'.find p = d.find p := by
  rw [find, find, blocked, blocked, blockedFrom_congr h, at?_congr h]

theorem IsTree.congr (hd : d.IsTree) (h : ∀ p, d'.at? p = d.at? p) : d'.IsTree := by
  intro p name hp
  rw [h] at hp ⊢
  exact hd p name hp

theorem IsTree.folder_above (hd : d.IsTree) (post : Path) (hpost : post ≠ [])
    (h : d.at? (p ++ post) ≠ none) : d.at? p = some .folder := by
  induction post generalizing p with
  | nil => exact absurd rfl hpost
  | cons name post ih =>
    rw [List.append_cons] at h
    cases post with
    | nil => exact hd p name (by simpa using h)
    | cons name' post =>
      have hn : d.at? (p ++ [name]) = some .folder := ih (by simp) h
      exact hd p name (by simp [hn])

theorem isTree_set (hd : d.IsTree) {name : String} (hp : d.at? p = some .folder)
    (he : d.at? (p ++ [name]) = some .folder → e = .folder) : (d.set (p ++ [name]) e).IsTree := by
  have hne : p ++ [name] ≠ [] := by simp
  intro q name' hq
  rw [at?_set hne] at hq ⊢
  by_cases hself : q ++ [name'] = p ++ [name]
  · have hqp : q = p := by simpa using (List.append_inj hself (by simpa using congrArg List.length hself)).1
    have hpn : p ≠ p ++ [name] := by simp
    simp only [hqp, hpn, if_false, hp]
  · simp only [hself, if_false] at hq
    have hfolder := hd q name' hq
    by_cases hqp : q = p ++ [name]
    · rw [hqp] at hfolder
      simp only [hqp, if_true, he hfolder]
    · simp only [hqp, if_false, hfolder]

theorem isTree_erase (hd : d.IsTree) (hp : p ≠ []) (hfile : d.at? p ≠ some .folder) :
    (d.erase p).IsTree := by
  intro q name hq
  rw [at?_erase hp] at hq ⊢
  by_cases hself : q ++ [name] = p
  · simp [hself] at hq
  · simp only [hself, if_false] at hq
    have hfolder := hd q name hq
    have hqp : q ≠ p := fun h => hfile (h ▸ hfolder)
    simp only [hqp, if_false, hfolder]

def Barred (d : Disk) (p : Path) : Prop :=
  ∃ q post bytes, p = q ++ post ∧ post ≠ [] ∧ d.at? q = some (.file bytes)

theorem blockedFrom_append (hd : d.IsTree) (done rest : Path) (name : String) :
    d.blockedFrom done (rest ++ [name]) = none ↔ d.at? (done ++ rest) = some .folder := by
  induction rest generalizing done with
  | nil =>
    rw [List.nil_append, List.append_nil, blockedFrom]
    split <;> simp_all [blockedFrom]
  | cons n rest ih =>
    rw [List.cons_append, blockedFrom]
    constructor
    · intro h
      split at h
      · cases h
      · cases h
      · rwa [ih, List.append_assoc] at h
    · intro h
      have hdone := hd.folder_above (n :: rest) (by simp) (by rw [h]; simp)
      rw [hdone]
      exact (ih (done ++ [n])).mpr (by rwa [List.append_assoc])

theorem blocked_append (hd : d.IsTree) (name : String) :
    d.blocked (p ++ [name]) = none ↔ d.at? p = some .folder :=
  blockedFrom_append hd [] p name

theorem blockedFrom_of_barred (hd : d.IsTree) (done pre post : Path) (hpost : post ≠ [])
    (h : d.at? (done ++ pre) = some (.file bytes)) :
    d.blockedFrom done (pre ++ post) = some .notFolder := by
  induction pre generalizing done with
  | nil =>
    obtain ⟨name, rest, rfl⟩ := List.exists_cons_of_ne_nil hpost
    rw [List.append_nil] at h
    simp [blockedFrom, h]
  | cons n pre ih =>
    have hdone := hd.folder_above (n :: pre) (by simp) (by rw [h]; simp)
    rw [List.cons_append, blockedFrom, hdone]
    exact ih (done ++ [n]) (by rwa [List.append_assoc])

theorem blockedFrom_of_not_barred (done rest : Path)
    (h : ∀ pre post bytes, rest = pre ++ post → post ≠ [] →
      d.at? (done ++ pre) ≠ some (.file bytes)) :
    d.blockedFrom done rest = none ∨ d.blockedFrom done rest = some .notFound := by
  induction rest generalizing done with
  | nil => exact .inl rfl
  | cons n rest ih =>
    rw [blockedFrom]
    split
    · exact .inr rfl
    · next bytes hdone =>
      exact absurd (by simpa using hdone) (h [] (n :: rest) bytes rfl (by simp))
    · refine ih (done ++ [n]) fun pre post bytes hr hpost => ?_
      rw [List.append_assoc]
      exact h (n :: pre) post bytes (by rw [hr, List.cons_append]) hpost

theorem find_of_at? (hd : d.IsTree) (h : d.at? p = some e) : d.find p = .ok e := by
  have hb : d.blocked p = none := by
    rcases List.eq_nil_or_concat p with rfl | ⟨q, name, rfl⟩
    · rfl
    · rw [List.concat_eq_append] at h ⊢
      exact (blocked_append hd name).mpr (hd q name (by simp [h]))
  simp only [find, hb, h]

theorem find_of_barred (hd : d.IsTree) (h : d.Barred p) : d.find p = .error .notFolder := by
  obtain ⟨q, post, bytes, rfl, hpost, hq⟩ := h
  have hb : d.blocked (q ++ post) = some .notFolder := blockedFrom_of_barred hd [] q post hpost hq
  simp only [find, hb]

theorem find_of_not_barred (hp : d.at? p = none) (h : ¬ d.Barred p) :
    d.find p = .error .notFound := by
  have hb : d.blocked p = none ∨ d.blocked p = some .notFound :=
    blockedFrom_of_not_barred [] p fun pre post bytes hr hpost hf =>
      h ⟨pre, post, bytes, hr, hpost, hf⟩
  rcases hb with hb | hb <;> simp only [find, hb, hp]

theorem find_congr (hd : d.IsTree) (hd' : d'.IsTree) (hp : d'.at? p = d.at? p)
    (hb : d'.Barred p ↔ d.Barred p) : d'.find p = d.find p := by
  cases h : d.at? p with
  | some e => rw [find_of_at? hd h, find_of_at? hd' (hp.trans h)]
  | none =>
    by_cases hbar : d.Barred p
    · rw [find_of_barred hd hbar, find_of_barred hd' (hb.mpr hbar)]
    · rw [find_of_not_barred h hbar, find_of_not_barred (hp.trans h) (mt hb.mp hbar)]

/-- `d'` is `d` but for the folders on the way to `f` and for what `f` has under the name `a`. -/
structure KeepsBut (f : Path) (a : String) (d d' : Disk) : Prop where
  tree : d'.IsTree
  files : ∀ q bytes, q ≠ f ++ [a] → (d'.at? q = some (.file bytes) ↔ d.at? q = some (.file bytes))
  beside : ∀ name, name ≠ a → d'.at? (f ++ [name]) = d.at? (f ++ [name])

namespace KeepsBut

variable {f : Path} {a : String} {d'' : Disk}

theorem refl (hd : d.IsTree) : KeepsBut f a d d := ⟨hd, fun _ _ _ => Iff.rfl, fun _ _ => rfl⟩

theorem trans (h : KeepsBut f a d d') (h' : KeepsBut f a d' d'') : KeepsBut f a d d'' where
  tree := h'.tree
  files q bytes hq := (h'.files q bytes hq).trans (h.files q bytes hq)
  beside name hn := (h'.beside name hn).trans (h.beside name hn)

theorem of_entries (hd : d.IsTree) (h : d'.entries = d.entries) : KeepsBut f a d d' where
  tree := hd.congr (at?_congr h)
  files q bytes _ := by rw [at?_congr h]
  beside name _ := at?_congr h _

theorem barred_iff (h : KeepsBut f a d d') (name : String) :
    d'.Barred (f ++ [name]) ↔ d.Barred (f ++ [name]) := by
  have hne : ∀ q post : Path, f ++ [name] = q ++ post → post ≠ [] → q ≠ f ++ [a] := by
    rintro q post hq hpost rfl
    have hl := congrArg List.length hq
    have := List.length_pos_iff.mpr hpost
    simp only [List.length_append, List.length_cons, List.length_nil] at hl
    omega
  constructor
  all_goals
    rintro ⟨q, post, bytes, hq, hpost, hf⟩
    have hfile := h.files q bytes (hne q post hq hpost)
  · exact ⟨q, post, bytes, hq, hpost, hfile.mp hf⟩
  · exact ⟨q, post, bytes, hq, hpost, hfile.mpr hf⟩

theorem find (hd : d.IsTree) (h : KeepsBut f a d d') {name : String} (hn : name ≠ a) :
    d'.find (f ++ [name]) = d.find (f ++ [name]) :=
  find_congr hd h.tree (h.beside name hn) (h.barred_iff name)

end KeepsBut

theorem makeFoldersFrom_keeps (hd : d.IsTree) (done rest more : Path) (a : String)
    (hdone : d.at? done = some .folder) :
    KeepsBut (done ++ rest ++ more) a d (d.makeFoldersFrom done rest).2 ∧
      ((d.makeFoldersFrom done rest).1 = .ok () →
        (d.makeFoldersFrom done rest).2.at? (done ++ rest) = some .folder) := by
  induction rest generalizing d done with
  | nil => exact ⟨.refl hd, fun _ => by simpa [makeFoldersFrom] using hdone⟩
  | cons n rest ih =>
    have hpath : done ++ n :: rest = (done ++ [n]) ++ rest := by simp
    rw [hpath, makeFoldersFrom]
    cases hn : d.at? (done ++ [n]) with
    | none =>
      have hne : done ++ [n] ≠ [] := by simp
      have htree : (d.set (done ++ [n]) .folder).IsTree := isTree_set hd hdone fun _ => rfl
      have hself : (d.set (done ++ [n]) .folder).at? (done ++ [n]) = some .folder := by
        rw [at?_set hne, if_pos rfl]
      obtain ⟨hk, hok⟩ := ih htree (done ++ [n]) hself
      refine ⟨KeepsBut.trans ⟨htree, fun q bytes _ => ?_, fun name _ => ?_⟩ hk, hok⟩
      · rw [at?_set hne]
        by_cases hq : q = done ++ [n] <;> simp [hq, hn]
      · rw [at?_set hne, if_neg]
        intro h
        have hl := congrArg List.length h
        simp only [List.length_append, List.length_cons, List.length_nil] at hl
        omega
    | some e =>
      cases e with
      | folder => exact ih hd (done ++ [n]) hn
      | file bytes => exact ⟨.refl hd, fun h => by cases h⟩

theorem makeFolders_keeps (hd : d.IsTree) {f : Path} (hp : p <+: f) (a : String) :
    KeepsBut f a d (d.makeFolders p).2 ∧
      ((d.makeFolders p).1 = .ok () → (d.makeFolders p).2.at? p = some .folder) := by
  obtain ⟨more, rfl⟩ := hp
  exact makeFoldersFrom_keeps hd [] p more a rfl

theorem makeFoldersFrom_ok (done rest : Path)
    (h : ∀ pre post bytes, rest = pre ++ post → pre ≠ [] →
      d.at? (done ++ pre) ≠ some (.file bytes)) :
    (d.makeFoldersFrom done rest).1 = .ok () := by
  induction rest generalizing d done with
  | nil => rfl
  | cons n rest ih =>
    have hstep : ∀ pre post bytes, rest = pre ++ post → pre ≠ [] →
        d.at? (done ++ [n] ++ pre) ≠ some (.file bytes) := fun pre post bytes hr _ => by
      rw [List.append_assoc]
      exact h (n :: pre) post bytes (by rw [hr, List.cons_append]) (by simp)
    rw [makeFoldersFrom]
    split
    · refine ih (done ++ [n]) fun pre post bytes hr hpre => ?_
      rw [at?_set (by simp)]
      split
      · simp
      · exact hstep pre post bytes hr hpre
    · exact ih (done ++ [n]) hstep
    · next bytes hn => exact absurd hn (h [n] rest bytes rfl (by simp))

theorem unwritable_append (hd : d.IsTree) (name : String) :
    d.unwritable (p ++ [name]) = none ↔
      d.at? p = some .folder ∧ d.at? (p ++ [name]) ≠ some .folder := by
  have hb := blocked_append hd (p := p) name
  rw [unwritable]
  split
  · next e he =>
    rw [he] at hb
    simp only [reduceCtorEq, false_iff] at hb ⊢
    exact fun h => hb h.1
  · next hn =>
    rw [hn] at hb
    simp [hb.mp rfl]

theorem writeFile_eq (hd : d.IsTree) (name : String) (bytes : ByteArray) :
    (∃ e, d.writeFile (p ++ [name]) bytes = (.error e, d)) ∨
      (d.at? p = some .folder ∧ d.at? (p ++ [name]) ≠ some .folder ∧
        d.writeFile (p ++ [name]) bytes = (.ok (), d.set (p ++ [name]) (.file bytes))) := by
  have hu := unwritable_append hd (p := p) name
  rw [writeFile]
  split
  · next e _ => exact .inl ⟨e, rfl⟩
  · next hn => exact .inr ⟨(hu.mp hn).1, (hu.mp hn).2, rfl⟩

theorem set_file_keeps (hd : d.IsTree) {f : Path} {a : String} (hf : d.at? f = some .folder)
    (ha : d.at? (f ++ [a]) ≠ some .folder) (bytes : ByteArray) :
    KeepsBut f a d (d.set (f ++ [a]) (.file bytes)) where
  tree := isTree_set hd hf fun h => absurd h ha
  files q bytes hq := by rw [at?_set (by simp), if_neg hq]
  beside name hn := by rw [at?_set (by simp), if_neg (by simpa using hn)]

theorem writeFile_keeps (hd : d.IsTree) (f : Path) (a : String) (bytes : ByteArray) :
    KeepsBut f a d (d.writeFile (f ++ [a]) bytes).2 := by
  rcases writeFile_eq hd (p := f) a bytes with ⟨e, h⟩ | ⟨hf, ha, h⟩
  · rw [h]
    exact .refl hd
  · rw [h]
    exact set_file_keeps hd hf ha bytes

theorem access_entries (d : Disk) : d.access.2.entries = d.entries := by
  rw [access]
  split <;> rfl

theorem exists?_cases (d : Disk) (p : Path) :
    ∃ d' : Disk, d'.entries = d.entries ∧
      ((∃ m : Mishap, d.exists? p = (.error m.error, d')) ∨ d.exists? p = (d.existsAt p, d')) := by
  have he := access_entries d
  rw [exists?]
  split
  · next m d' h => exact ⟨d', by rw [← he, h], .inl ⟨m, rfl⟩⟩
  · next d' h =>
    have he' : d'.entries = d.entries := by rw [← he, h]
    exact ⟨d', he', .inr (by rw [existsAt, existsAt, find_entries he'])⟩

theorem read_cases (d : Disk) (p : Path) :
    ∃ d' : Disk, d'.entries = d.entries ∧
      ((∃ m : Mishap, d.read p = (.error m.error, d')) ∨ d.read p = (d.bytesAt p, d')) := by
  have he := access_entries d
  rw [read]
  split
  · next m d' h => exact ⟨d', by rw [← he, h], .inl ⟨m, rfl⟩⟩
  · next d' h =>
    have he' : d'.entries = d.entries := by rw [← he, h]
    exact ⟨d', he', .inr (by rw [bytesAt, bytesAt, find_entries he'])⟩

/-- A change goes wrong as a mishap has it, or is performed; the mishap is used up before. -/
theorem step_cases (d : Disk) (s : Step) :
    ∃ d' : Disk, d'.entries = d.entries ∧
      ((∃ m : Mishap, d.step s = (.error m.error, d'.spoil m s)) ∨ d.step s = d'.perform s) := by
  have he := access_entries d
  rw [step]
  split
  · next m d' h => exact ⟨d', by rw [← he, h], .inl ⟨m, rfl⟩⟩
  · next d' h => exact ⟨d', by rw [← he, h], .inr rfl⟩

theorem renameFile_eq (hd : d.IsTree) {f : Path} {a b : String}
    (ha : d.at? (f ++ [a]) = some (.file bytes)) :
    (∃ e, d.renameFile (f ++ [a]) (f ++ [b]) = (.error e, d)) ∨
      (d.at? (f ++ [b]) ≠ some .folder ∧ d.renameFile (f ++ [a]) (f ++ [b]) =
        (.ok (), (d.erase (f ++ [a])).set (f ++ [b]) (.file bytes))) := by
  have hu := unwritable_append hd (p := f) b
  rw [renameFile, find_of_at? hd ha]
  dsimp only
  split
  · next e _ => exact .inl ⟨e, rfl⟩
  · next hn => exact .inr ⟨(hu.mp hn).2, rfl⟩

/-- `bytes` stand under the name `b` of `f` and nothing under `a`; all else is as in `d`, but for
folders on the way to `f`. -/
structure Replaced (f : Path) (a b : String) (bytes : ByteArray) (d d' : Disk) : Prop where
  tree : d'.IsTree
  folder : d'.at? f = some .folder
  file : d'.at? (f ++ [b]) = some (.file bytes)
  draft : d'.at? (f ++ [a]) = none
  beside : ∀ name, name ≠ a → name ≠ b → d'.at? (f ++ [name]) = d.at? (f ++ [name])

theorem replaced_rename (hd : d.IsTree) {f : Path} {a b : String} (hab : a ≠ b)
    (ha : d.at? (f ++ [a]) = some (.file bytes)) (hb : d.at? (f ++ [b]) ≠ some .folder) :
    Replaced f a b bytes d ((d.erase (f ++ [a])).set (f ++ [b]) (.file bytes)) := by
  have hf : d.at? f = some .folder := hd f a (by simp [ha])
  have hfa : f ≠ f ++ [a] := by simp
  have hfb : f ≠ f ++ [b] := by simp
  have herase : (d.erase (f ++ [a])).IsTree := isTree_erase hd (by simp) (by simp [ha])
  have hf' : (d.erase (f ++ [a])).at? f = some .folder := by
    rw [at?_erase (by simp), if_neg hfa, hf]
  constructor
  · refine isTree_set herase hf' fun h => absurd h ?_
    rw [at?_erase (by simp)]
    split
    · simp
    · exact hb
  · rw [at?_set (by simp), if_neg hfb, hf']
  · rw [at?_set (by simp), if_pos rfl]
  · rw [at?_set (by simp), if_neg (by simpa using hab), at?_erase (by simp), if_pos rfl]
  · intro name hna hnb
    rw [at?_set (by simp), if_neg (by simpa using hnb), at?_erase (by simp),
      if_neg (by simpa using hna)]

theorem Replaced.after {f : Path} {a b : String} {d'' : Disk} (hk : KeepsBut f a d d')
    (h : Replaced f a b bytes d' d'') : Replaced f a b bytes d d'' where
  tree := h.tree
  folder := h.folder
  file := h.file
  draft := h.draft
  beside name hna hnb := (h.beside name hna hnb).trans (hk.beside name hna)

def replace (f : Path) (a b : String) (bytes : ByteArray) : List Step :=
  [.makeFolders f, .write (f ++ [a]) bytes, .rename (f ++ [a]) (f ++ [b])]

/-- A file is replaced as a whole, or what stands under its name and under all others stays. -/
theorem run_replace (hd : d.IsTree) {f : Path} {a b : String} (hab : a ≠ b) (bytes : ByteArray) :
    (∃ e, (d.run (replace f a b bytes)).1 = .error e ∧
      KeepsBut f a d (d.run (replace f a b bytes)).2) ∨
    ((d.run (replace f a b bytes)).1 = .ok () ∧
      Replaced f a b bytes d (d.run (replace f a b bytes)).2) := by
  obtain ⟨d₁, he₁, h₁⟩ := step_cases d (.makeFolders f)
  have hk₁ : KeepsBut f a d d₁ := .of_entries hd he₁
  rw [replace, run]
  rcases h₁ with ⟨m, h₁⟩ | h₁
  · rw [h₁]
    refine .inl ⟨m.error, rfl, ?_⟩
    dsimp only [spoil]
    cases m.written with
    | none => exact hk₁
    | some n => exact hk₁.trans (makeFolders_keeps hk₁.tree (List.take_prefix n f) a).1
  obtain ⟨hm, hfolder⟩ := makeFolders_keeps hk₁.tree (List.prefix_refl f) a
  have hk₂ := hk₁.trans hm
  rw [h₁, perform]
  generalize d₁.makeFolders f = made at hm hfolder hk₂ ⊢
  obtain ⟨⟨e⟩ | ⟨⟩, d₂⟩ := made
  · exact .inl ⟨e, rfl, hk₂⟩
  obtain ⟨d₃, he₃, h₃⟩ := step_cases d₂ (.write (f ++ [a]) bytes)
  have hk₃ : KeepsBut f a d d₃ := hk₂.trans (.of_entries hk₂.tree he₃)
  dsimp only
  rw [run]
  rcases h₃ with ⟨m, h₃⟩ | h₃
  · rw [h₃]
    refine .inl ⟨m.error, rfl, ?_⟩
    dsimp only [spoil]
    cases m.written with
    | none => exact hk₃
    | some n => exact hk₃.trans (writeFile_keeps hk₃.tree f a _)
  rw [h₃, perform]
  rcases writeFile_eq hk₃.tree (p := f) a bytes with ⟨e, hw⟩ | ⟨hf, ha, hw⟩
  · rw [hw]
    exact .inl ⟨e, rfl, hk₃⟩
  have hk₄ := hk₃.trans (set_file_keeps hk₃.tree hf ha bytes)
  rw [hw]
  dsimp only
  obtain ⟨d₅, he₅, h₅⟩ := step_cases (d₃.set (f ++ [a]) (.file bytes)) (.rename (f ++ [a]) (f ++ [b]))
  have hk₅ : KeepsBut f a d d₅ := hk₄.trans (.of_entries hk₄.tree he₅)
  have ha₅ : d₅.at? (f ++ [a]) = some (.file bytes) := by
    rw [at?_congr he₅, at?_set (by simp), if_pos rfl]
  rw [run]
  rcases h₅ with ⟨m, h₅⟩ | h₅
  · rw [h₅]
    exact .inl ⟨m.error, rfl, hk₅⟩
  rw [h₅, perform]
  rcases renameFile_eq hk₅.tree (b := b) ha₅ with ⟨e, hr⟩ | ⟨hb, hr⟩
  · rw [hr]
    exact .inl ⟨e, rfl, hk₅⟩
  · rw [hr]
    exact .inr ⟨rfl, (replaced_rename hk₅.tree hab ha₅ hb).after hk₅⟩

theorem find_calm (d : Disk) (p : Path) : d.calm.find p = d.find p := find_entries (by rfl) p

theorem exists?_calm (h : d.mishaps = []) (p : Path) : d.exists? p = (d.existsAt p, d) := by
  rw [exists?, access, h]

theorem read_calm (h : d.mishaps = []) (p : Path) : d.read p = (d.bytesAt p, d) := by
  rw [read, access, h]

theorem step_calm (h : d.mishaps = []) (s : Step) : d.step s = d.perform s := by
  rw [step, access, h]

theorem makeFoldersFrom_mishaps (d : Disk) (done rest : Path) :
    (d.makeFoldersFrom done rest).2.mishaps = d.mishaps := by
  induction rest generalizing d done with
  | nil => rfl
  | cons n rest ih =>
    rw [makeFoldersFrom]
    split
    · exact ih _ _
    · exact ih _ _
    · rfl

theorem perform_mishaps (d : Disk) (s : Step) : (d.perform s).2.mishaps = d.mishaps := by
  cases s with
  | makeFolders p => exact makeFoldersFrom_mishaps d [] p
  | write p bytes =>
    rw [perform, writeFile]
    split <;> rfl
  | rename source target =>
    rw [perform, renameFile]
    split
    · rfl
    · split <;> rfl
  | remove p =>
    rw [perform, removeFile]
    split <;> rfl

theorem run_mishaps (hcalm : d.mishaps = []) (steps : List Step) :
    (d.run steps).2.mishaps = [] := by
  induction steps generalizing d with
  | nil => exact hcalm
  | cons s steps ih =>
    rw [run, step_calm hcalm]
    have hperform := (perform_mishaps d s).trans hcalm
    generalize d.perform s = performed at hperform ⊢
    obtain ⟨_ | _, d'⟩ := performed
    · exact hperform
    · exact ih hperform

/-- No file stands where a folder on the way to `f`, or `f`, has to be. -/
def Clear (d : Disk) (f : Path) : Prop := ∀ q post bytes, f = q ++ post → d.at? q ≠ some (.file bytes)

/-- Nothing but a mishap or an entry of the wrong kind keeps a file from being replaced. -/
theorem run_replace_calm (hd : d.IsTree) (hcalm : d.mishaps = []) {f : Path} {a b : String}
    (hab : a ≠ b) (hf : d.Clear f) (ha : d.at? (f ++ [a]) ≠ some .folder)
    (hb : d.at? (f ++ [b]) ≠ some .folder) (bytes : ByteArray) :
    (d.run (replace f a b bytes)).1 = .ok () ∧ (d.run (replace f a b bytes)).2.mishaps = [] := by
  rw [replace, run, step_calm hcalm]
  have hm := perform_mishaps d (.makeFolders f)
  have hok : (d.makeFolders f).1 = .ok () :=
    makeFoldersFrom_ok [] f fun pre post bytes hr _ => hf pre post bytes hr
  obtain ⟨ha', hfolder⟩ := makeFolders_keeps hd (List.prefix_refl f) a
  have hb' := (makeFolders_keeps hd (List.prefix_refl f) b).1.beside a hab
  have hfolder := hfolder hok
  rw [perform] at hm ⊢
  have hbeside := ha'.beside b hab.symm
  have htree := ha'.tree
  generalize d.makeFolders f = made at hm hok hfolder hb' hbeside htree ⊢
  obtain ⟨r, d₁⟩ := made
  subst hok
  dsimp only at hm hfolder hb' hbeside htree ⊢
  have hcalm₁ : d₁.mishaps = [] := hm.trans hcalm
  have hw : d₁.writeFile (f ++ [a]) bytes = (.ok (), d₁.set (f ++ [a]) (.file bytes)) := by
    rw [writeFile, (unwritable_append htree a).mpr ⟨hfolder, by rwa [hb']⟩]
  rw [run, step_calm hcalm₁, perform, hw]
  dsimp only
  have hk := set_file_keeps htree hfolder (by rwa [hb']) bytes
  have hcalm₂ : (d₁.set (f ++ [a]) (.file bytes)).mishaps = [] := hcalm₁
  have ha₂ : (d₁.set (f ++ [a]) (.file bytes)).at? (f ++ [a]) = some (.file bytes) := by
    rw [at?_set (by simp), if_pos rfl]
  rw [run, step_calm hcalm₂, perform]
  have hfolder₂ : (d₁.set (f ++ [a]) (.file bytes)).at? f = some .folder := hk.tree f a (by simp [ha₂])
  have hr : (d₁.set (f ++ [a]) (.file bytes)).unwritable (f ++ [b]) = none :=
    (unwritable_append hk.tree b).mpr ⟨hfolder₂, by rwa [hk.beside b hab.symm, hbeside]⟩
  rw [renameFile, find_of_at? hk.tree ha₂]
  dsimp only
  rw [hr]
  exact ⟨rfl, hcalm₂⟩

end Disk

end AssetCache
