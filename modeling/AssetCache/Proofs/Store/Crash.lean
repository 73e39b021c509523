import AssetCache.Proofs.Disk.Stops
import AssetCache.Proofs.Store.Effect

namespace AssetCache.Store

variable {s s' : Store} {home name : String} {h h' : Handle} {m m' : Entries} {op : Op} {d : Disk}
  {ms : List (Option Disk.Mishap)}

def reopen (home name : String) (d : Disk) (mishaps : List (Option Disk.Mishap)) :
    Except CacheError Handle × Store :=
  (begin (some home) (d.withMishaps mishaps)).openBucket name

/-- One process after another opens the bucket `name` and works on it through the handle it is
given, and each but the last has stopped, maybe amid an operation. The bucket holds what the process
found and what its operations have made of it, except for those that failed. -/
inductive Lives (home name : String) : Store → Handle → Entries → Prop
  | opens {d : Disk} (hd : d.IsTree) {ms : List (Option Disk.Mishap)} {h : Handle} {s : Store}
    (ho : reopen home name d ms = (.ok h, s)) : Lives home name s h (s.entries h)
  | performs {s : Store} {h : Handle} {m : Entries} (hs : Lives home name s h m) {op : Op}
    (hop : op.writes? = some h) :
    Lives home name (s.perform op).2 h (op.settled m (s.perform op).1)
  | restarts {s : Store} {h : Handle} {m : Entries} (hs : Lives home name s h m) {op : Op}
    (hop : op.writes? = some h) {d : Disk} (hd : s.disk.Stops (s.changes op) d)
    {ms : List (Option Disk.Mishap)} {h' : Handle} {s' : Store}
    (ho : reopen home name d ms = (.ok h', s')) : Lives home name s' h' (s'.entries h')

/-- The bucket is open as `h` and holds `m`, in memory and on the disk. -/
structure Holds (home name : String) (s : Store) (h : Handle) (m : Entries) : Prop where
  sound : s.Sound
  place : s.home = some home
  registered : s.registry.lookup name = some h
  entries : s.entries h = m
  stored : s.stored name = .ok m

theorem stored_begin (home name : String) (d : Disk) : (begin (some home) d).stored name =
    Snapshot.found home name (d.find (Snapshot.path home name)) := stored_eq _ name

theorem holds_reopen (hd : d.IsTree) (ho : reopen home name d ms = (.ok h, s)) :
    Holds home name s h (s.entries h) := by
  have hbegin : (begin (some home) (d.withMishaps ms)).Sound :=
    sound_begin _ (hd.congr (Disk.at?_congr (by rfl)))
  obtain ⟨hsame, hsound⟩ := openBucket_same hbegin name
  have hregistered := openBucket_registered (k := h) (congrArg Prod.fst ho)
  rw [show (begin (some home) (d.withMishaps ms)).openBucket name = (.ok h, s) from ho] at *
  refine ⟨hsound, hsame.home, hregistered, rfl, ?_⟩
  rw [hsame.stored, ← contents_of_registered hregistered, hsame.contents]
  rfl

theorem entries_reopen (hd : d.IsTree) (ho : reopen home name d ms = (.ok h, s))
    (hstored : (begin (some home) d).stored name = .ok m) : s.entries h = m := by
  have hholds := holds_reopen hd ho
  have hbegin : (begin (some home) (d.withMishaps ms)).Sound :=
    sound_begin _ (hd.congr (Disk.at?_congr (by rfl)))
  have hsame := (openBucket_same hbegin name).1.stored name
  rw [show (begin (some home) (d.withMishaps ms)).openBucket name = (.ok h, s) from ho,
    hholds.stored, stored_begin, Disk.find_withMishaps, ← stored_begin, hstored] at hsame
  exact Except.ok.inj hsame

theorem openBucket_disk (s : Store) (name : String) :
    (s.openBucket name).2.disk.entries = s.disk.entries := by
  rw [openBucket]
  cases s.registry.lookup name with
  | some h => rfl
  | none =>
    obtain ⟨d, hd, hload, _⟩ := s.load_cases name
    generalize s.load name = loaded at hload ⊢
    obtain ⟨e | entries, s'⟩ := loaded
    · cases hload
      exact hd
    · cases hload
      exact hd

theorem exists_reopen (hstored : (begin (some home) d).stored name = .ok m) :
    ∃ h s, reopen home name d [] = (.ok h, s) := by
  rw [stored] at hstored
  rw [reopen, openBucket]
  change ((begin (some home) (d.withMishaps [])).load name).1 = .ok m at hstored
  generalize (begin (some home) (d.withMishaps [])).load name = loaded at hstored ⊢
  obtain ⟨result, s⟩ := loaded
  cases hstored
  exact ⟨_, _, rfl⟩

namespace Holds

theorem bucketName (hs : Holds home name s h m) : s.bucketName h = name := by
  obtain ⟨b, hb, hn⟩ := hs.sound.registered name h hs.registered
  rw [bucketName_eq hb, hn]

theorem lt (hs : Holds home name s h m) : h < s.buckets.length := by
  obtain ⟨b, hb, _⟩ := hs.sound.registered name h hs.registered
  exact (List.getElem?_eq_some_iff.mp hb).1

theorem commit_error (hs : Holds home name s h m) {staged : Entries} {e : CacheError}
    (he : (s.commit h staged).1 = .error e) : Holds home name (s.commit h staged).2 h m := by
  obtain ⟨hsame, hsound⟩ := Store.commit_error hs.sound he
  obtain ⟨b, hb, _⟩ := hs.sound.registered name h hs.registered
  refine ⟨hsound, hsame.home.trans hs.place, hsame.registry name h hs.registered, ?_, ?_⟩
  · rw [entries_eq (hsame.buckets h b hb), ← entries_eq hb, hs.entries]
  · rw [hsame.stored, hs.stored]

theorem commit_ok (hs : Holds home name s h m) {staged : Entries}
    (hok : (s.commit h staged).1 = .ok ()) : Holds home name (s.commit h staged).2 h staged := by
  obtain ⟨hsound, hregistry, hhome, hentries⟩ := Store.commit_ok hs.sound hok
  have hstored := commit_stored hs.sound hs.place hs.lt hok
  have hself : (s.commit h staged).2.entries h = staged := by rw [hentries h hs.lt, if_pos rfl]
  rw [hs.bucketName, hself] at hstored
  exact ⟨hsound, hhome.trans hs.place, by rw [hregistry, hs.registered], hself, hstored⟩

theorem perform (hs : Holds home name s h m) (hop : op.writes? = some h) :
    Holds home name (s.perform op).2 h (op.settled m (s.perform op).1) := by
  obtain ⟨_, hperform⟩ | ⟨_, happlied, hperform⟩ := perform_of_writes (s := s) hop
  · rw [hperform, hs.entries]
    cases hc : (s.commit h (op.applied m)).1 with
    | error e => exact hs.commit_error hc
    | ok _ => exact hs.commit_ok hc
  · rw [hs.entries] at happlied
    rw [hperform, Op.settled, happlied]
    exact hs

theorem answer (hs : Holds home name s h m) (hop : op.writes? = some h) {answer : Returned}
    (hok : (s.perform op).1 = .ok answer) : answer = op.answer m := by
  obtain ⟨_, hperform⟩ | ⟨_, _, hperform⟩ := perform_of_writes (s := s) hop
  · rw [hperform, hs.entries] at hok
    dsimp only at hok
    generalize (s.commit h (op.applied m)).1 = result at hok
    cases result <;> cases hok
    rfl
  · rw [hperform, hs.entries] at hok
    cases hok
    rfl

theorem changes_of_target (hs : Holds home name s h m) (ht : op.target? s = some h) :
    s.changes op = Snapshot.commit home name (op.applied m) := by
  rw [changes, ht, hs.place]
  dsimp only
  rw [hs.bucketName, hs.entries]

theorem changes_cases (hs : Holds home name s h m) (hop : op.writes? = some h) :
    s.changes op = [] ∨
      s.changes op = Disk.replace (Disk.Path.ofText home) (Snapshot.draftName name)
        (Snapshot.fileName name) (Snapshot.encode name (op.applied m)) := by
  obtain ⟨htarget, _⟩ | ⟨htarget, _⟩ := perform_of_writes (s := s) hop
  · exact .inr (hs.changes_of_target htarget)
  · left
    rw [changes, htarget, hs.place]

/-- The next process finds all that the operation was to write, or nothing of it. -/
theorem stops (hs : Holds home name s h m) (hop : op.writes? = some h)
    (hd : s.disk.Stops (s.changes op) d) :
    d.IsTree ∧ ((begin (some home) d).stored name = .ok m ∨
      (begin (some home) d).stored name = .ok (op.applied m)) := by
  have hne := Snapshot.fileName_ne_draftName name name
  have hfound : (begin (some home) s.disk).stored name = .ok m := by
    rw [← hs.stored, stored_begin, stored_eq, hs.place]
  obtain hchanges | hchanges := hs.changes_cases hop
  · rw [hchanges] at hd
    cases hd
    exact ⟨hs.sound.tree, .inl hfound⟩
  · rw [hchanges] at hd
    -- what is loaded depends on the file of the snapshot alone, and not on the draft
    obtain hkeeps | hreplaced := hd.replaced hs.sound.tree hne.symm
    · refine ⟨hkeeps.tree, .inl ?_⟩
      rw [← hfound, stored_begin, stored_begin, Snapshot.path, hkeeps.find hs.sound.tree hne]
    · refine ⟨hreplaced.tree, .inr ?_⟩
      have hfile : d.find (Snapshot.path home name) =
          .ok (.file (Snapshot.encode name (op.applied m))) :=
        Disk.find_of_at? hreplaced.tree hreplaced.file
      rw [stored_begin, hfile, Snapshot.found, Snapshot.load_encode]

theorem writable_of_stops (hs : Holds home name s h m) (hop : op.writes? = some h)
    (hw : s.disk.Writable (Disk.Path.ofText home) (Snapshot.draftName name))
    (hd : s.disk.Stops (s.changes op) d) :
    d.Writable (Disk.Path.ofText home) (Snapshot.draftName name) := by
  obtain hchanges | hchanges := hs.changes_cases hop
  · rw [hchanges] at hd
    cases hd
    exact hw
  · rw [hchanges] at hd
    exact hd.writable hs.sound.tree (Snapshot.fileName_ne_draftName name name).symm hw

theorem not_folder (hs : Holds home name s h m) :
    s.disk.at? (Snapshot.path home name) ≠ some .folder := by
  intro hfolder
  have hstored := hs.stored
  rw [stored_eq, hs.place] at hstored
  dsimp only at hstored
  rw [Disk.find_of_at? hs.sound.tree hfolder] at hstored
  cases hstored

theorem done (hs : Holds home name s h m) (hop : op.writes? = some h)
    (hw : s.disk.Writable (Disk.Path.ofText home) (Snapshot.draftName name))
    (hcalm : s.disk.mishaps = []) : ∃ answer, (s.perform op).1 = .ok answer := by
  obtain ⟨_, hperform⟩ | ⟨_, _, hperform⟩ := perform_of_writes (s := s) hop
  · have hrun := (Disk.run_replace_calm hs.sound.tree hcalm
      (Snapshot.fileName_ne_draftName name name).symm hw.clear hw.draft hs.not_folder
      (Snapshot.encode name (op.applied (s.entries h)))).1
    have hcommit : (s.commit h (op.applied (s.entries h))).1 = .ok () := by
      apply commit_of_run hs.place
      rw [hs.bucketName]
      exact hrun
    rw [hperform, hcommit]
    exact ⟨_, rfl⟩
  · rw [hperform]
    exact ⟨_, rfl⟩

end Holds

theorem Lives.holds (hs : Lives home name s h m) : Holds home name s h m := by
  induction hs with
  | opens hd ho => exact holds_reopen hd ho
  | performs _ hop ih => exact ih.perform hop
  | restarts _ hop hd ho ih => exact holds_reopen (ih.stops hop hd).1 ho

/-- However many processes have worked on a bucket and stopped, the last one has in memory what the
bucket is to hold, and answers so. If it stops too, at any point of an operation, the next process
can open the bucket and finds what it was to hold before or after that operation, nothing in between.
What was left of a file that was being written is in nobody's way: where a file can be written
operations are done, as long as every access does well, and it can be written after each of them and
by the next process, wherever this one stops. -/
theorem crash_consistent (hs : Lives home name s h m) (hop : op.writes? = some h) :
    (s.entries h = m ∧ ∀ answer, (s.perform op).1 = .ok answer → answer = op.answer m) ∧
    (s.perform op).2.disk = (s.disk.run (s.changes op)).2 ∧
    (∀ d, s.disk.Stops (s.changes op) d → ∃ m', (m' = m ∨ m' = op.applied m) ∧
      (∃ h' s', reopen home name d [] = (.ok h', s')) ∧
      ∀ ms h' s', reopen home name d ms = (.ok h', s') → s'.entries h' = m') ∧
    (s.disk.Writable (Disk.Path.ofText home) (Snapshot.draftName name) →
      (s.disk.mishaps = [] → ∃ answer, (s.perform op).1 = .ok answer) ∧
      (s.perform op).2.disk.Writable (Disk.Path.ofText home) (Snapshot.draftName name) ∧
      ∀ d, s.disk.Stops (s.changes op) d → ∀ ms h' s', reopen home name d ms = (.ok h', s') →
        s'.disk.Writable (Disk.Path.ofText home) (Snapshot.draftName name)) := by
  have hholds := hs.holds
  have hdisk := perform_disk hholds.place hop
  refine ⟨⟨hholds.entries, fun answer hok => hholds.answer hop hok⟩, hdisk, ?_, ?_⟩
  · intro d hd
    obtain ⟨htree, hstored⟩ := hholds.stops hop hd
    obtain hstored | hstored := hstored
    · exact ⟨m, .inl rfl, exists_reopen hstored,
        fun _ _ _ ho => entries_reopen htree ho hstored⟩
    · exact ⟨op.applied m, .inr rfl, exists_reopen hstored,
        fun _ _ _ ho => entries_reopen htree ho hstored⟩
  · intro hw
    have hleft := fun d => hholds.writable_of_stops (d := d) hop hw
    refine ⟨hholds.done hop hw, ?_, fun d hd ms h' s' ho => ?_⟩
    · rw [hdisk]
      exact hleft _ (Disk.stops_run s.disk (s.changes op))
    · have hsame := openBucket_disk (begin (some home) (d.withMishaps ms)) name
      rw [show (begin (some home) (d.withMishaps ms)).openBucket name = (.ok h', s') from ho] at hsame
      exact (hleft d hd).congr hsame

/-- The second change of a put is cut off after two bytes. The next process finds what there was
before or all that was put, and can put it again. -/
theorem crash_within_put :
    let put := Op.put 0 ⟨"GET", "u"⟩ ⟨200, [], .empty⟩
    let s := (reopen "cache" "a" .empty []).2
    let torn : Disk :=
      ⟨[(Snapshot.draftPath "cache" "a", .file "\x7b\n".toUTF8), (["cache"], .folder)], []⟩
    let next := (reopen "cache" "a" torn []).2
    s.disk.Stops (s.changes put) torn ∧
      (next.entries 0 = s.entries 0 ∨ next.entries 0 = put.applied (s.entries 0)) ∧
      ∃ answer, (next.perform put).1 = .ok answer := by
  intro put s torn next
  have hs : Lives "cache" "a" s 0 (s.entries 0) :=
    .opens Disk.isTree_empty (Prod.ext (by decide +kernel) rfl)
  have hop : put.writes? = some 0 := rfl
  have htarget : put.target? s = some 0 := rfl
  have hchanges := hs.holds.changes_of_target htarget
  have hfolders : s.disk.step (.makeFolders ["cache"]) = (.ok (), ⟨[(["cache"], .folder)], []⟩) := by
    decide +kernel
  have htorn : torn = (⟨[(["cache"], .folder)], []⟩ : Disk).spoil ⟨.code 28, some 2⟩
      (.write (Snapshot.draftPath "cache" "a")
        (Snapshot.encode "a" (put.applied (s.entries 0)))) := by
    decide +kernel
  have hstops : s.disk.Stops (s.changes put) torn := by
    rw [hchanges, htorn]
    exact .done hfolders (.within _ _ _ _)
  have hopens : (reopen "cache" "a" torn []).1 = .ok 0 := by decide +kernel
  have hnext : reopen "cache" "a" torn [] = (.ok 0, next) := by rw [← hopens]
  have hempty : s.disk = .empty := by decide +kernel
  have hwritable : s.disk.Writable ["cache"] (Snapshot.draftName "a") := by
    rw [hempty]
    refine ⟨fun q post bytes _ hfile => ?_, by decide +kernel⟩
    cases q <;> cases hfile
  obtain ⟨_, _, hfinds, hwrites⟩ := crash_consistent hs hop
  obtain ⟨m', hm', _, hentries⟩ := hfinds torn hstops
  obtain ⟨_, _, hnextWrites⟩ := hwrites hwritable
  have hlives := hs.restarts hop hstops hnext
  obtain ⟨_, _, _, hcan⟩ := crash_consistent hlives hop
  obtain ⟨hdone, _⟩ := hcan (hnextWrites torn hstops [] 0 next hnext)
  refine ⟨hstops, ?_, hdone (by decide +kernel)⟩
  rwa [hentries [] 0 next hnext]

end AssetCache.Store
