import AssetCache.Proofs.Store.Beside
import AssetCache.Proofs.Store.Effect

namespace AssetCache.Store

variable {s s' : Store} {home name : String} {h : Handle} {m : Entries} {op : Op}

/-- What comes after the bucket of a name that was deleted: the handles that were given out under the
name since, as far as no other deletion and no restart has taken them back; whether any was; and what
was written through them. -/
structure Heir where
  held : List Handle
  opened : Bool
  entries : Entries

namespace Heir

def absent : Heir := ⟨[], false, .empty⟩

/-- The heir under `name` after an operation. Without a home nothing survives a restart. -/
def after (name : String) (home : Option String) (a : Heir) :
    Op → Except CacheError Returned → Heir
  | .openBucket n, .ok (.handle h) =>
    if n = name then { a with held := h :: a.held, opened := true } else a
  | .delete n, .ok _ => if n = name then absent else a
  | .delete n, .error _ => if n = name then { a with held := [] } else a
  | .restart, _ => if home.isSome then { a with held := [] } else absent
  | op, answer =>
    match op.writes? with
    | some h => if h ∈ a.held then { a with entries := op.settled a.entries answer } else a
    | none => a

theorem after_of_writes (home : Option String) (a : Heir) (hop : op.writes? = some h)
    (answer : Except CacheError Returned) : a.after name home op answer =
      if h ∈ a.held then { a with entries := op.settled a.entries answer } else a := by
  cases op with
  | put h' k r =>
    cases hop
    rfl
  | putAll h' batch =>
    cases hop
    rfl
  | remove h' k =>
    cases hop
    rfl
  | openBucket n => cases hop
  | has n => cases hop
  | delete n => cases hop
  | get h' k => cases hop
  | contains h' k => cases hop
  | keys h' => cases hop
  | len h' => cases hop
  | restart => cases hop

end Heir

/-- The operation leaves the file of the heir to those who hold the heir: no older handle writes it,
and no other name, should there be one with the same digest. Without a home there is no file. -/
def Spares (name : String) (a : Heir) (s : Store) (op : Op) : Prop :=
  s.home = none ∨
    ((∀ h, op.target? s = some h → Snapshot.fileName (s.bucketName h) = Snapshot.fileName name →
      h ∈ a.held) ∧
    ∀ n, op = .delete n → Snapshot.fileName n = Snapshot.fileName name → n = name)

inductive Inherits (name : String) : Store → Heir → Prop
  | deleted {s : Store} (hs : s.Sound) {b : Bool} (hb : (s.delete name).1 = .ok b) :
    Inherits name (s.delete name).2 .absent
  | performs {s : Store} {a : Heir} (hs : Inherits name s a) {op : Op} (hop : Spares name a s op) :
    Inherits name (s.perform op).2 (a.after name s.home op (s.perform op).1)

/-- The heir has the name to itself: in memory, where its handles lead to it and no others are
registered, and on the disk. -/
structure Owns (name : String) (s : Store) (a : Heir) : Prop where
  sound : s.Sound
  registered : ∀ h, s.registry.lookup name = some h ↔ h ∈ a.held
  contents : s.contents name = .ok a.entries
  stored : s.home ≠ none → s.stored name = .ok a.entries
  unopened : a.opened = false → a.held = [] ∧ ∀ home, s.home = some home →
    s.disk.find (Snapshot.path home name) = .error .notFound

theorem stored_in_memory (hhome : s.home = none) (name : String) : s.stored name = .ok .empty := by
  rw [stored_eq, hhome]

theorem stored_of_notFound (hhome : s.home = some home)
    (hfind : s.disk.find (Snapshot.path home name) = .error .notFound) :
    s.stored name = .ok .empty := by
  rw [stored_eq, hhome]
  dsimp only
  rw [hfind]
  rfl

namespace Owns

variable {a : Heir}

theorem entries (ha : Owns name s a) (hh : h ∈ a.held) : s.entries h = a.entries := by
  have hcontents := ha.contents
  rw [contents_of_registered ((ha.registered h).mpr hh)] at hcontents
  exact Except.ok.inj hcontents

theorem bucketName (ha : Owns name s a) (hh : h ∈ a.held) : s.bucketName h = name := by
  obtain ⟨b, hb, hn⟩ := ha.sound.registered name h ((ha.registered h).mpr hh)
  rw [bucketName_eq hb, hn]

theorem lt (ha : Owns name s a) (hh : h ∈ a.held) : h < s.buckets.length := by
  obtain ⟨b, hb, _⟩ := ha.sound.registered name h ((ha.registered h).mpr hh)
  exact (List.getElem?_eq_some_iff.mp hb).1

theorem of_sameAt (ha : Owns name s a) (hs : s'.Sound) (hsame : SameAt name s s') :
    Owns name s' a where
  sound := hs
  registered h := by rw [hsame.registry, ha.registered]
  contents := by rw [hsame.contents, ha.contents]
  stored hhome := by
    rw [hsame.stored]
    exact ha.stored (by rwa [← hsame.home])
  unopened ho := by
    obtain ⟨hheld, hfind⟩ := ha.unopened ho
    refine ⟨hheld, fun home hhome => ?_⟩
    rw [hsame.home] at hhome
    rw [hsame.file home hhome]
    exact hfind home hhome

theorem of_unregistered (hs : s.Sound) (hr : s.registry.lookup name = none)
    (hstored : s.stored name = .ok m) {opened : Bool} (ho : opened = false →
      ∀ home, s.home = some home → s.disk.find (Snapshot.path home name) = .error .notFound) :
    Owns name s ⟨[], opened, m⟩ where
  sound := hs
  registered h := by simp [hr]
  contents := by rw [Store.contents, hr, hstored]
  stored _ := hstored
  unopened hopened := ⟨rfl, ho hopened⟩

theorem deleted (hs : s.Sound) {b : Bool} (hb : (s.delete name).1 = .ok b) :
    Owns name (s.delete name).2 .absent := by
  have hr : (s.unregister name).registry.lookup name = none := by
    rw [Represents.lookup_unregister, if_pos rfl]
  cases hhome : s.home with
  | none =>
    rw [delete_in_memory hhome]
    refine of_unregistered (hs.unregister name hs.tree) hr (stored_in_memory hhome name) ?_
    intro _ home hhome'
    cases hhome.symm.trans hhome'
  | some home =>
    obtain ⟨d, hd, hkeeps, ⟨e, he, _⟩ | ⟨_, hgone⟩⟩ := delete_cases hs.tree hhome name
    · rw [he] at hb
      cases hb
    · rw [hd]
      refine of_unregistered (hs.unregister name hkeeps.tree) hr (stored_of_notFound hhome hgone) ?_
      intro _ home' hhome'
      cases hhome.symm.trans hhome'
      exact hgone

/-- If the deletion of the heir fails it is as after a restart. -/
theorem delete_error (ha : Owns name s a) {e : CacheError} (he : (s.delete name).1 = .error e) :
    Owns name (s.delete name).2 { a with held := [] } := by
  have hr : (s.unregister name).registry.lookup name = none := by
    rw [Represents.lookup_unregister, if_pos rfl]
  cases hhome : s.home with
  | none =>
    rw [delete_in_memory hhome] at he
    cases he
  | some home =>
    obtain ⟨d, hd, hkeeps, ⟨_, _, hentries⟩ | ⟨⟨b, hb⟩, _⟩⟩ := delete_cases ha.sound.tree hhome name
    · have hfind : ∀ p, d.find p = s.disk.find p := Disk.find_entries hentries
      rw [hd]
      refine of_unregistered (ha.sound.unregister name hkeeps.tree) hr ?_ fun ho home' hhome' => ?_
      · rw [← ha.stored (by simp [hhome]), stored_eq, stored_eq]
        simp only [unregister, hfind]
      · dsimp only
        rw [hfind]
        exact (ha.unopened ho).2 home' hhome'
    · rw [hb] at he
      cases he

theorem restart (ha : Owns name s a) :
    Owns name s.reopened (if s.home.isSome then { a with held := [] } else .absent) := by
  have hsound : s.reopened.Sound := sound_begin s.home ha.sound.tree
  cases hhome : s.home with
  | none =>
    refine of_unregistered hsound rfl (stored_in_memory hhome name) ?_
    intro _ home hhome'
    cases hhome.symm.trans hhome'
  | some home =>
    refine of_unregistered hsound rfl ?_ fun ho => (ha.unopened ho).2
    rw [← ha.stored (by simp [hhome]), stored_eq, stored_eq]
    rfl

theorem openBucket (ha : Owns name s a) (hok : (s.openBucket name).1 = .ok h) :
    Owns name (s.openBucket name).2 { a with held := h :: a.held, opened := true } := by
  obtain ⟨hsame, hsound⟩ := openBucket_same ha.sound name
  have hregistered := openBucket_registered hok
  refine ⟨hsound, fun k => ?_, by rw [hsame.contents, ha.contents], fun hhome => ?_,
    fun ho => nomatch ho⟩
  · rw [hregistered, Option.some.injEq, List.mem_cons, eq_comm]
    refine ⟨.inl, fun hk => hk.elim id fun hk => ?_⟩
    -- a name that is registered keeps its handle
    have hkept := hsame.registry name k ((ha.registered k).mpr hk)
    exact Option.some.inj (hkept.symm.trans hregistered)
  · rw [hsame.stored]
    exact ha.stored (by rwa [← hsame.home])

theorem commit (ha : Owns name s a) (hh : h ∈ a.held) (staged : Entries) :
    Owns name (s.commit h staged).2
      (match (s.commit h staged).1 with
        | .ok _ => { a with entries := staged }
        | .error _ => a) := by
  have hopened : a.opened = true := by
    by_contra ho
    obtain ⟨hheld, _⟩ := ha.unopened (by simpa using ho)
    rw [hheld] at hh
    cases hh
  have hregistered := (ha.registered h).mpr hh
  cases hc : (s.commit h staged).1 with
  | error e =>
    obtain ⟨hsame, hsound⟩ := commit_error ha.sound hc
    have hunchanged := commit_unchanged ha.sound hc
    refine ⟨hsound, fun k => by rw [hunchanged.registry, ha.registered],
      by rw [hsame.contents, ha.contents], fun hhome => ?_, fun ho => ?_⟩
    · rw [hsame.stored]
      exact ha.stored (by rwa [← hsame.home])
    · rw [hopened] at ho
      cases ho
  | ok _ =>
    obtain ⟨hsound, hregistry, hhome, hentries⟩ := commit_ok ha.sound hc
    have hself : (s.commit h staged).2.entries h = staged := by
      rw [hentries h (ha.lt hh), if_pos rfl]
    refine ⟨hsound, fun k => by rw [hregistry, ha.registered], ?_, fun hhome' => ?_, fun ho => ?_⟩
    · rw [contents_of_registered (by rw [hregistry, hregistered]), hself]
    · obtain ⟨home, hsome⟩ := Option.ne_none_iff_exists'.mp (hhome ▸ hhome')
      have hstored := commit_stored ha.sound hsome (ha.lt hh) hc
      rw [ha.bucketName hh, hself] at hstored
      exact hstored
    · rw [hopened] at ho
      cases ho

theorem write (ha : Owns name s a) (hop : op.writes? = some h) (hspares : Spares name a s op) :
    Owns name (s.perform op).2
      (if h ∈ a.held then { a with entries := op.settled a.entries (s.perform op).1 } else a) := by
  obtain ⟨htarget, hperform⟩ | ⟨_, happlied, hperform⟩ := perform_of_writes (s := s) hop
  · rw [hperform]
    by_cases hh : h ∈ a.held
    · have hcommit := ha.commit hh (op.applied (s.entries h))
      rw [if_pos hh]
      rw [ha.entries hh] at hcommit ⊢
      cases hc : (s.commit h (op.applied a.entries)).1 with
      | error e =>
        rw [hc] at hcommit
        exact hcommit
      | ok _ =>
        rw [hc] at hcommit
        exact hcommit
    · rw [if_neg hh]
      refine ha.of_sameAt (commit_keeps ha.sound h _).1
        (commit_beside ha.sound ha.stored (fun hr => hh ((ha.registered h).mp hr)) ?_)
      obtain hnone | ⟨hfile, _⟩ := hspares
      · exact .inl hnone
      · exact .inr fun he => hh (hfile h htarget he.symm)
  · rw [hperform]
    by_cases hh : h ∈ a.held
    · rw [ha.entries hh] at happlied
      rw [if_pos hh, Op.settled, happlied]
      exact ha
    · rw [if_neg hh]
      exact ha

theorem perform (ha : Owns name s a) (hspares : Spares name a s op) :
    Owns name (s.perform op).2 (a.after name s.home op (s.perform op).1) := by
  cases op with
  | put h k r =>
    rw [Heir.after_of_writes s.home a rfl]
    exact ha.write rfl hspares
  | putAll h batch =>
    rw [Heir.after_of_writes s.home a rfl]
    exact ha.write rfl hspares
  | remove h k =>
    rw [Heir.after_of_writes s.home a rfl]
    exact ha.write rfl hspares
  | openBucket n =>
    have hsound := (openBucket_same ha.sound n).2
    rw [Store.perform]
    cases ho : (s.openBucket n).1 with
    | error e => exact ha.of_sameAt hsound (openBucket_beside ha.sound fun _ => ⟨e, ho⟩)
    | ok h =>
      by_cases hn : n = name
      · subst hn
        simp only [Except.map, Heir.after, if_true]
        exact ha.openBucket ho
      · simp only [Except.map, Heir.after, hn, if_false]
        exact ha.of_sameAt hsound (openBucket_beside ha.sound fun he => absurd he hn)
  | has n =>
    obtain ⟨hsound, _⟩ := perform_keeps ha.sound (.has n)
    exact ha.of_sameAt hsound (has_beside s n name)
  | delete n =>
    have hsound : (s.delete n).2.Sound := (perform_keeps ha.sound (.delete n)).1
    rw [Store.perform]
    by_cases hn : n = name
    · subst hn
      cases hd : (s.delete n).1 with
      | error e =>
        simp only [Except.map, Heir.after, if_true]
        exact ha.delete_error hd
      | ok b =>
        simp only [Except.map, Heir.after, if_true]
        exact deleted ha.sound hd
    · have hfile : s.home = none ∨ Snapshot.fileName name ≠ Snapshot.fileName n := by
        obtain hnone | ⟨_, hfile⟩ := hspares
        · exact .inl hnone
        · exact .inr fun he => hn (hfile n rfl he.symm)
      have hsame := ha.of_sameAt hsound (delete_beside ha.sound (fun he => hn he.symm) hfile)
      cases hd : (s.delete n).1 with
      | error e =>
        simp only [Except.map, Heir.after, hn, if_false]
        exact hsame
      | ok b =>
        simp only [Except.map, Heir.after, hn, if_false]
        exact hsame
  | get h k => exact ha
  | contains h k => exact ha
  | keys h => exact ha
  | len h => exact ha
  | restart => exact ha.restart

end Owns

theorem Inherits.owns {a : Heir} (hs : Inherits name s a) : Owns name s a := by
  induction hs with
  | deleted hs hb => exact .deleted hs hb
  | performs _ hop ih => exact ih.perform hop

theorem has_of_absent (hr : s.registry.lookup name = none)
    (hfind : ∀ home, s.home = some home →
      s.disk.find (Snapshot.path home name) = .error .notFound) :
    (∀ b, (s.has name).1 = .ok b → b = false) ∧
      (s.disk.mishaps = [] → (s.has name).1 = .ok false) := by
  rw [has, hr]
  dsimp only
  cases hhome : s.home with
  | none =>
    refine ⟨fun b hb => ?_, fun _ => rfl⟩
    cases hb
    rfl
  | some home =>
    have habsent : s.disk.existsAt (Snapshot.path home name) = .ok false := by
      rw [Disk.existsAt, hfind home hhome]
      rfl
    dsimp only
    constructor
    · intro b hb
      obtain ⟨d, _, ⟨m, hx⟩ | hx⟩ := s.disk.exists?_cases (Snapshot.path home name)
      · rw [hx] at hb
        cases hb
      · rw [hx, habsent] at hb
        cases hb
        rfl
    · intro hcalm
      rw [Disk.exists?_calm hcalm, habsent]

/-- A bucket that was deleted is gone, and what is opened under its name afterwards is what was
written through the handles given out since: to those who hold it, to those who open it, and to the
next process. This is so whatever is done with older handles in a store without a home. In a store
with one it is so until an older handle writes, since that writes the file of the heir. -/
theorem heir_is_its_own {a : Heir} (hs : Inherits name s a) :
    (a.opened = false → (∀ b, (s.has name).1 = .ok b → b = false) ∧
      (s.disk.mishaps = [] → (s.has name).1 = .ok false)) ∧
    (∀ h ∈ a.held, s.entries h = a.entries) ∧
    (∀ h s', s.openBucket name = (.ok h, s') → s'.entries h = a.entries) ∧
    (s.home ≠ none → s.stored name = .ok a.entries) := by
  have ha := hs.owns
  refine ⟨fun ho => ?_, fun h hh => ha.entries hh, fun h s' hopen => ?_, ha.stored⟩
  · obtain ⟨hheld, hfind⟩ := ha.unopened ho
    refine has_of_absent ?_ hfind
    rw [Option.eq_none_iff_forall_ne_some]
    intro h hr
    rw [ha.registered, hheld] at hr
    cases hr
  · have hafter := ha.openBucket (h := h) (by rw [hopen])
    rw [hopen] at hafter
    exact hafter.entries List.mem_cons_self

theorem heir_of_written_bucket :
    let page : Key := ⟨"GET", "u"⟩
    let put := Op.put 0 page ⟨200, [], .empty⟩
    let written := (((begin (some "cache") .empty).perform (.openBucket "a")).2.perform put).2
    let gone := (written.delete "a").2
    let heir := (gone.perform (.openBucket "a")).2
    let m := Entries.empty.insert page ⟨404, [], .empty⟩
    (gone.has "a").1 = .ok false ∧ heir.entries 1 = .empty ∧
      (heir.perform (.put 1 page ⟨404, [], .empty⟩)).2.stored "a" = .ok m := by
  intro page put written gone heir m
  have hbegin : (begin (some "cache") .empty).Sound := sound_begin _ Disk.isTree_empty
  have hopened := (perform_keeps hbegin (.openBucket "a")).1
  have hs : written.Sound := (perform_keeps hopened put).1
  have hgone : Inherits "a" gone .absent := .deleted hs (b := true) (by decide +kernel)
  have hheir : Inherits "a" heir ⟨[1], true, .empty⟩ := by
    have hspares : Spares "a" .absent gone (.openBucket "a") :=
      .inr ⟨fun _ ht => (nomatch ht), fun _ hn => (nomatch hn)⟩
    have hanswer : (gone.perform (.openBucket "a")).1 = .ok (.handle 1) := by decide +kernel
    have hafter := hgone.performs hspares
    rw [hanswer] at hafter
    exact hafter
  have hput : Inherits "a" (heir.perform (.put 1 page ⟨404, [], .empty⟩)).2 ⟨[1], true, m⟩ := by
    have hspares : Spares "a" ⟨[1], true, .empty⟩ heir (.put 1 page ⟨404, [], .empty⟩) := by
      refine .inr ⟨fun h ht _ => ?_, fun _ hn => (nomatch hn)⟩
      cases ht
      exact List.mem_cons_self
    have hanswer : (heir.perform (.put 1 page ⟨404, [], .empty⟩)).1 = .ok .done := by
      decide +kernel
    have hafter := hheir.performs hspares
    rw [hanswer] at hafter
    exact hafter
  obtain ⟨habsent, _, _, _⟩ := heir_is_its_own hgone
  obtain ⟨_, hheld, _, _⟩ := heir_is_its_own hheir
  obtain ⟨_, _, _, hstored⟩ := heir_is_its_own hput
  exact ⟨(habsent rfl).2 (by decide +kernel), hheld 1 List.mem_cons_self,
    hstored (by decide +kernel)⟩

/-- A bucket that was deleted is written to through its handle. It is there again, or, if its heir is
there, has taken the heir's place to the next process. -/
theorem older_handle_displaces_heir :
    let gone := (((begin (some "cache") .empty).perform (.openBucket "a")).2.delete "a").2
    let old := Op.put 0 ⟨"GET", "old"⟩ ⟨200, [], .empty⟩
    let new := Op.put 1 ⟨"GET", "new"⟩ ⟨200, [], .empty⟩
    let heir := ((gone.perform (.openBucket "a")).2.perform new).2
    ((gone.perform old).2.has "a").1 = .ok true ∧ (heir.entries 1).keys = [⟨"GET", "new"⟩] ∧
      ∃ m, (heir.perform old).2.stored "a" = .ok m ∧ m.keys = [⟨"GET", "old"⟩] := by
  intro gone old new heir
  have hbegin : (begin (some "cache") .empty).Sound := sound_begin _ Disk.isTree_empty
  have hopened := (perform_keeps hbegin (.openBucket "a")).1
  have hgone : gone.Sound := (perform_keeps hopened (.delete "a")).1
  have hreopened := (perform_keeps hgone (.openBucket "a")).1
  have hheir : heir.Sound := (perform_keeps hreopened new).1
  have hhome : heir.home = some "cache" := by decide +kernel
  have hok : (heir.perform old).1 = .ok .done := by decide +kernel
  have htarget : old.target? heir = some 0 := rfl
  have hstored := perform_stored hheir hhome (by decide +kernel) htarget hok
  have hname : heir.bucketName 0 = "a" := by decide +kernel
  rw [hname] at hstored
  exact ⟨by decide +kernel, by decide +kernel, _, hstored, by decide +kernel⟩

end AssetCache.Store
