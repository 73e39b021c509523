import AssetCache.Proofs.Settings.Environment
import AssetCache.Proofs.Settings.Likeness

namespace AssetCache.Settings

open Toml (Value)

/-- The members of the TOML file that is read. Without a path the user's own file may be missing. -/
inductive Reads (path : Option String) (s : Surroundings) : List (String × Value) → Prop
  | file {source : String} {cs : List Char} {members : List (String × Value)}
    (hcontents : s.contents (path.getD (userFile s.home)) = .ok (source, .toml, cs))
    (hread : Toml.read (String.ofList cs) = some members) : Reads path s members
  | missing {e : String} (hpath : path = none)
    (hcontents : s.contents (userFile s.home) = .error e) : Reads path s []

/-- A TOML file with plain keys that gives no section as a list of items, and an environment that
names single settings, each one at most once. -/
structure Layered (path : Option String) (s : Surroundings) (members : List (String × Value)) :
    Prop where
  reads : Reads path s members
  plain : PlainKeys members
  sections : ∀ (l : Leaf) (items : List Value), members.lookup l.part = some (.list items) →
    items = []
  environment : Variables s.environment

/-- Settings of which each is what its variable says, or else what the file makes of it. What stands
in the place of a section has nothing in it, unless a variable makes a section of it. -/
structure Composed (environment : List (String × String)) (members : List (String × Value))
    (settings : Settings) : Prop where
  leaf : ∀ l : Leaf, (variableIn environment l).elim (l.Accepts (given members l) (l.get settings))
    fun text => l.read (fromEnvironment text) = .ok (l.get settings)
  place : ∀ (l : Leaf) (v : Value), inPlace members l.part = some v →
    (∀ l' : Leaf, l'.part = l.part → variableIn environment l' = none) → v = .list []

section

variable {path : Option String} {s : Surroundings} {members : List (String × Value)}
  {settings : Settings} {source : String}

theorem Reads.fileLayer (h : Reads path s members) :
    (Value.table members).Distinct ∧
      ∃ source, fileLayer path s = .ok (Tree.ofTomlMembers source members) := by
  cases h with
  | @file source cs _ hcontents hread =>
    have hlayer : FileFormat.toml.read source cs = .ok (Tree.ofTomlMembers source members) := by
      rw [FileFormat.read, hread]
    refine ⟨Toml.distinct_of_read hread, source, ?_⟩
    cases path with
    | none =>
      change s.optionalFile (userFile s.home) = _
      unfold Surroundings.optionalFile
      simp only [Option.getD_none] at hcontents
      simp only [hcontents, hlayer]
    | some path =>
      change s.requiredFile path = _
      unfold Surroundings.requiredFile
      simp only [Option.getD_some] at hcontents
      simp only [hcontents, hlayer]
  | missing hpath hcontents =>
    refine ⟨.table .nil nofun, "", ?_⟩
    rw [hpath]
    change s.optionalFile (userFile s.home) = _
    unfold Surroundings.optionalFile
    simp only [hcontents, Tree.ofTomlMembers]

theorem load_of_fileLayer [Idna] (h : fileLayer path s = .ok (Tree.ofTomlMembers source members)) :
    load path s = .ok settings ↔
      decode ((fileTree source members).overlay (environmentLayer s.environment)) = .ok settings ∧
        settings.validate = .ok () := by
  have hgather : gather path s =
      .ok ((fileTree source members).overlay (environmentLayer s.environment)) := by
    rw [gather, h, fileTree]
  rw [load, hgather]
  dsimp only
  cases decode ((fileTree source members).overlay (environmentLayer s.environment)) with
  | error e => simp
  | ok read =>
    dsimp only
    cases hvalid : read.validate with
    | error e =>
      refine iff_of_false (fun h => by cases h) ?_
      rintro ⟨h, hsettings⟩
      cases h
      rw [hvalid] at hsettings
      cases hsettings
    | ok _ =>
      dsimp only
      rw [Except.ok.injEq, Except.ok.injEq]
      exact ⟨fun h => ⟨h, h ▸ hvalid⟩, And.left⟩

theorem result_layers_iff (h : Layered path s members) (hdistinct : (Value.table members).Distinct)
    {l : Leaf} {x : l.Value} :
    ((fileTree source members).overlay (environmentLayer s.environment)).result l = .ok x ↔
      (variableIn s.environment l).elim (l.Accepts (given members l) x)
        fun text => l.read (fromEnvironment text) = .ok x := by
  rw [Tree.result, leaf_overlay h.environment]
  cases variableIn s.environment l with
  | none => exact result_fileTree_iff h.plain hdistinct
  | some text => rfl

theorem inPlace_of_sections (h : Layered path s members) {l : Leaf} {v : Value}
    (hv : inPlace members l.part = some v) : (Tree.ofToml source v).items = [] := by
  obtain ⟨hlookup, htable⟩ := Option.filter_eq_some_iff.mp hv
  cases v with
  | list items =>
    rw [h.sections l items hlookup]
    rfl
  | _ => rfl

theorem ofToml_eq_list_nil {v : Value} :
    (∃ from', Tree.ofToml source v = .list from' []) ↔ v = .list [] := by
  constructor
  · rintro ⟨_, h⟩
    cases v with
    | list items =>
      cases items with
      | nil => rfl
      | cons => cases h
    | _ => cases h
  · rintro rfl
    exact ⟨some source, rfl⟩

theorem load_eq_ok_iff [Idna] (h : Layered path s members) :
    load path s = .ok settings ↔
      Composed s.environment members settings ∧ settings.validate = .ok () := by
  obtain ⟨hdistinct, source, hlayer⟩ := h.reads.fileLayer
  have hstand : ∀ (l : Leaf) (v : Tree),
      ((fileTree source members).overlay (environmentLayer s.environment)).standIn l.part = some v ↔
        (∃ w, inPlace members l.part = some w ∧ Tree.ofToml source w = v) ∧
          ∀ l' : Leaf, l'.part = l.part → variableIn s.environment l' = none := fun l v => by
    rw [standIn_overlay h.environment, standIn_fileTree h.plain hdistinct, Option.map_eq_some_iff]
  rw [load_of_fileLayer hlayer, decode_eq_ok_iff]
  · refine and_congr_left fun _ => ?_
    simp only [result_layers_iff h hdistinct, hstand]
    constructor
    · rintro ⟨hleaf, hplace⟩
      exact ⟨hleaf, fun l v hv hnone => ofToml_eq_list_nil.mp (hplace l _ ⟨⟨v, hv, rfl⟩, hnone⟩)⟩
    · rintro ⟨hleaf, hplace⟩
      refine ⟨hleaf, ?_⟩
      rintro l _ ⟨⟨v, hv, rfl⟩, hnone⟩
      exact ofToml_eq_list_nil.mpr (hplace l v hv hnone)
  · intro l v hv
    obtain ⟨⟨w, hw, rfl⟩, -⟩ := (hstand l v).mp hv
    exact inPlace_of_sections h hw

theorem Layered.known {path' : Option String} {s' : Surroundings} (h : Layered path s members)
    (hreads : Reads path' s' (known members)) (henvironment : s'.environment = s.environment) :
    Layered path' s' (Settings.known members) where
  reads := hreads
  plain := h.plain.known
  sections l items hlookup := by
    rw [lookup_known, Option.map_eq_some_iff] at hlookup
    obtain ⟨v, hv, hknown⟩ := hlookup
    cases v with
    | list =>
      cases hknown
      exact h.sections l items hv
    | _ => cases hknown
  environment := henvironment ▸ h.environment

theorem Layered.reordered {path' : Option String} {s' : Surroundings}
    {members' : List (String × Value)} (h : Layered path s members)
    (hreads : Reads path' s' members') (hmembers : Reordered (.table members) (.table members'))
    (hperm : s.environment.Perm s'.environment) : Layered path' s' members' where
  reads := hreads
  plain := hmembers.plainKeys h.plain
  sections l items' hlookup' := by
    obtain ⟨v, hlookup, hv⟩ := hmembers.lookup_eq_some hlookup'
    cases hv with
    | refl => exact h.sections l items' hlookup
    | list hitems =>
      cases h.sections l _ hlookup
      cases hitems
      rfl
  environment := h.environment.perm hperm

theorem Composed.known {environment : List (String × String)}
    (h : Composed environment members settings) :
    Composed environment (known members) settings where
  leaf l := by
    have hleaf := h.leaf l
    rw [given_known]
    cases hvariable : variableIn environment l with
    | none => rw [hvariable] at hleaf; exact accepts_face hleaf
    | some text => rwa [hvariable] at hleaf
  place l v hv := h.place l v ((inPlace_known members l).symm.trans hv)

theorem Composed.reordered {environment environment' : List (String × String)}
    {members' : List (String × Value)} (h : Composed environment members settings)
    (hvariables : ∀ l, variableIn environment' l = variableIn environment l)
    (hmembers : Reordered (.table members) (.table members')) :
    Composed environment' members' settings where
  leaf l := by
    have hleaf := h.leaf l
    rw [hvariables]
    cases hvariable : variableIn environment l with
    | none => rw [hvariable] at hleaf; exact Reordered.accepts (hmembers.given l) hleaf
    | some text => rwa [hvariable] at hleaf
  place l v' hv' hnone := by
    simp only [hvariables] at hnone
    obtain ⟨hlookup', htable⟩ := Option.filter_eq_some_iff.mp hv'
    obtain ⟨v, hlookup, hv⟩ := hmembers.lookup_eq_some hlookup'
    have hplace : ¬isTable v → v = .list [] := fun hv =>
      h.place l v (Option.filter_eq_some_iff.mpr ⟨hlookup, by simpa using hv⟩) hnone
    cases hv with
    | refl => exact hplace (by simpa using htable)
    | table => cases htable
    | list hitems =>
      cases hplace nofun
      cases hitems
      rfl

/-- Every setting is what its variable says, or else what the file says, or else its default. -/
structure Decided (environment : List (String × String)) (members : List (String × Value))
    (settings : Settings) : Prop where
  byVariable : ∀ (l : Leaf) (text : String), variableIn environment l = some text →
    l.read (fromEnvironment text) = .ok (l.get settings)
  byFile : ∀ (l : Leaf) (v : Value) (source : String), variableIn environment l = none →
    valueOf members l = some v → l.read (.ofToml source v) = .ok (l.get settings)
  byDefault : ∀ l : Leaf, variableIn environment l = none → valueOf members l = none →
    l.get settings = l.get default

variable {environment environment' : List (String × String)} {members' : List (String × Value)}
  {settings' : Settings}

theorem Composed.decided (h : Composed environment members settings) :
    Decided environment members settings where
  byVariable l text htext := by
    have hleaf := h.leaf l
    rwa [htext] at hleaf
  byFile l v source hnone hv := by
    have hleaf := h.leaf l
    rw [hnone] at hleaf
    exact value_of_accepts hleaf hv source
  byDefault l hnone hv := by
    have hleaf := h.leaf l
    rw [hnone] at hleaf
    exact default_of_accepts hleaf hv

theorem Decided.get_eq (h : Decided environment members settings)
    (h' : Decided environment' members' settings') {l : Leaf}
    (hvariable : variableIn environment' l = variableIn environment l)
    (hvalue : variableIn environment l = none → valueOf members' l = valueOf members l) :
    l.get settings' = l.get settings := by
  cases htext : variableIn environment l with
  | some text =>
    have hread := h'.byVariable l text (hvariable.trans htext)
    rw [h.byVariable l text htext] at hread
    exact (Except.ok.inj hread).symm
  | none =>
    have hnone := hvariable.trans htext
    have hvalue := hvalue htext
    cases hv : valueOf members l with
    | some v =>
      have hread := h'.byFile l v "" hnone (hvalue.trans hv)
      rw [h.byFile l v "" htext hv] at hread
      exact (Except.ok.inj hread).symm
    | none => rw [h.byDefault l htext hv, h'.byDefault l hnone (hvalue.trans hv)]

theorem asTexts_of_texts (key : String) (texts : List String) :
    asTexts key (.ofToml source (.list (texts.map .text))) = .ok texts := by
  have hfrom : ∀ i, asTextsFrom key i (Tree.ofTomlItems source (texts.map .text)) = .ok texts := by
    induction texts with
    | nil => exact fun _ => rfl
    | cons text rest ih =>
      intro i
      rw [List.map_cons, Tree.ofTomlItems, asTextsFrom, ih]
      rfl
  exact hfrom 0

/-- A setting is what its variable says, else what the file says, else its default. What is said
about others does not matter, nor does the order in the file or in the environment, nor do names in
the file that the settings do not have; a manifest in the file is the whole manifest. -/
theorem load_decides_each_setting [Idna] (h : Layered path s members)
    (hload : load path s = .ok settings) :
    Decided s.environment members settings ∧
    (∀ {path' s' members' settings'}, Layered path' s' members' → load path' s' = .ok settings' →
      ∀ l : Leaf, variableIn s'.environment l = variableIn s.environment l →
        (variableIn s.environment l = none → valueOf members' l = valueOf members l) →
        l.get settings' = l.get settings) ∧
    (∀ texts : List String, variableIn s.environment .manifest = none →
      valueOf members .manifest = some (.list (texts.map .text)) →
      settings.cache.manifest = texts) ∧
    (∀ {path' s'}, Reads path' s' (known members) → s'.environment = s.environment →
      load path' s' = .ok settings) ∧
    (∀ {path' s' members'}, Reads path' s' members' →
      Reordered (.table members) (.table members') → s.environment.Perm s'.environment →
      load path' s' = .ok settings) := by
  obtain ⟨hcomposed, hvalid⟩ := (load_eq_ok_iff h).mp hload
  refine ⟨hcomposed.decided, fun h' hload' l hvariable hvalue => ?_, fun texts hnone htexts => ?_,
    fun hreads henvironment => ?_, fun hreads hmembers hperm => ?_⟩
  · exact hcomposed.decided.get_eq ((load_eq_ok_iff h').mp hload').1.decided hvariable hvalue
  · have hread := hcomposed.decided.byFile .manifest _ "" hnone htexts
    exact (Except.ok.inj ((asTexts_of_texts _ texts).symm.trans hread)).symm
  · refine (load_eq_ok_iff (h.known hreads henvironment)).mpr ⟨?_, hvalid⟩
    rw [henvironment]
    exact hcomposed.known
  · exact (load_eq_ok_iff (h.reordered hreads hmembers hperm)).mpr
      ⟨hcomposed.reordered (variableIn_perm h.environment hperm) hmembers, hvalid⟩

end

def folderWith (file : List Char) (host : Option String) : Surroundings :=
  ⟨"/home/user", "/home/user", host.toList.map fun text => (Leaf.host.variableName, text),
    ⟨[(["c.toml"], .file (String.ofList file).toUTF8)], []⟩⟩

def briefFile : List Char := "[server]\nport = 9000\n[cache]\nmanifest = []\n".toList

def briefMembers : List (String × Value) :=
  [("server", .table [("port", .int 9000)]), ("cache", .table [("manifest", .list [])])]

def otherSection : List Char := "[other]\nkey = 1\n".toList

def otherMembers : List (String × Value) := [("other", .table [("key", .int 1)])]

theorem layered_of_brief_and_other {s : Surroundings} {path : Option String}
    (hreads : Reads path s (briefMembers ++ otherMembers)) (hvariables : Variables s.environment) :
    Layered path s (briefMembers ++ otherMembers) where
  reads := hreads
  plain :=
    { names := by decide +kernel
      inner := fun {part inner} h => by
        simp only [briefMembers, otherMembers, List.cons_append, List.nil_append, lookup_cons] at h
        split_ifs at h <;> cases h <;> decide +kernel }
  sections l items h := by
    cases l <;> simp [briefMembers, otherMembers, lookup_cons, Leaf.part] at h
  environment := hvariables

open scoped Idna

/-- The port and the manifest are the file's, and the host is the environment's. The other section
can go, or stand in front. -/
theorem load_of_brief_and_other :
    ∃ settings, load (some "c.toml") (folderWith (briefFile ++ otherSection) (some "0.0.0.0")) =
        .ok settings ∧
      settings.server = ⟨"0.0.0.0", 9000⟩ ∧ settings.cache.manifest = [] ∧
      load (some "c.toml") (folderWith briefFile (some "0.0.0.0")) = .ok settings ∧
      load (some "c.toml") (folderWith (otherSection ++ briefFile) (some "0.0.0.0")) =
        .ok settings := by
  obtain ⟨hboth, hbrief, hfront⟩ :
      Toml.read (String.ofList (briefFile ++ otherSection)) =
          some (briefMembers ++ otherMembers) ∧
        Toml.read (String.ofList briefFile) = some (known (briefMembers ++ otherMembers)) ∧
        Toml.read (String.ofList (otherSection ++ briefFile)) =
          some (otherMembers ++ briefMembers) := by
    refine ⟨?_, ?_, ?_⟩
    all_goals
      unfold Toml.read
      rw [String.toList_ofList]
      unfold briefFile
      try unfold otherSection
      simp only [String.reduceToList]
      with_unfolding_all rfl
  have hcontents :
      (folderWith (briefFile ++ otherSection) (some "0.0.0.0")).contents "c.toml" =
          .ok ("c.toml", .toml, briefFile ++ otherSection) ∧
        (folderWith briefFile (some "0.0.0.0")).contents "c.toml" =
          .ok ("c.toml", .toml, briefFile) ∧
        (folderWith (otherSection ++ briefFile) (some "0.0.0.0")).contents "c.toml" =
          .ok ("c.toml", .toml, otherSection ++ briefFile) := by
    decide +kernel
  have hload : load (some "c.toml") (folderWith (briefFile ++ otherSection) (some "0.0.0.0")) =
      .ok { default with
        server := ⟨"0.0.0.0", 9000⟩
        cache := { default.cache with manifest := [] } } := by decide +kernel
  have hlayered : Layered (some "c.toml") (folderWith (briefFile ++ otherSection) (some "0.0.0.0"))
      (briefMembers ++ otherMembers) :=
    layered_of_brief_and_other (.file hcontents.1 hboth) (variables_singleton .host "0.0.0.0")
  obtain ⟨-, -, hmanifest, hknown, horder⟩ := load_decides_each_setting hlayered hload
  refine ⟨_, hload, rfl, hmanifest [] (by decide +kernel) rfl, ?_, ?_⟩
  · exact hknown (.file hcontents.2.1 hbrief) rfl
  · exact horder (.file hcontents.2.2 hfront)
      (.of_perm (by decide) List.perm_append_comm) (.refl _)

/-- A list in the place of a section gives settings by their places: here the host, and then the
port. A variable for the host makes a section of it, and the port is lost. -/
theorem load_of_listed_section :
    load (some "c.toml") (folderWith "server = [1, 9000]\n".toList none) =
        .ok { default with server := ⟨"1", 9000⟩ } ∧
      load (some "c.toml") (folderWith "server = [1, 9000]\n".toList (some "0.0.0.0")) =
        .ok { default with server := ⟨"0.0.0.0", 8080⟩ } := by
  decide +kernel

end AssetCache.Settings
