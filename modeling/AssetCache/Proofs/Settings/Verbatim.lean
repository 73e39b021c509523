import AssetCache.Proofs.Decimal
import AssetCache.Proofs.Origin
import AssetCache.Proofs.Settings.Layers

namespace AssetCache.Settings

open Decimal (Binary64)
open Toml (Value)

variable {l : Leaf} {v : String} {t t' : Tree} {settings : Settings}

namespace Leaf

def isText : Leaf → Bool
  | host | name | origin | persistDir | userAgent | level | format => true
  | _ => false

/-- The text that a setting is; no other setting has one, nor has a folder that is not given. -/
def textOf : (l : Leaf) → l.Value → Option String
  | persistDir, x => x
  | host, x | name, x | origin, x | userAgent, x | level, x | format, x => some x
  | port, _ | manifest, _ | timeoutSeconds, _ | connectTimeoutSeconds, _ => none

def textIn (l : Leaf) (s : Settings) : Option String := l.textOf (l.get s)

end Leaf

/-- What is written for a text that has been taken for what it can be. -/
def retold (v : String) : String :=
  match scalarOfText v with
  | .nothing => ""
  | .bool b => boolText b
  | .int n => Int.repr n
  | .float x => x.text
  | .text s => s

theorem scalarOfText_cases (v : String) :
    (∃ b, scalarOfText v = .bool b) ∨ (∃ n, scalarOfText v = .int n) ∨
      (∃ x, scalarOfText v = .float x) ∨ scalarOfText v = .text v := by
  rw [scalarOfText]
  split
  · exact .inl ⟨true, rfl⟩
  split
  · exact .inl ⟨false, rfl⟩
  split
  · exact .inr (.inl ⟨_, rfl⟩)
  split
  · exact .inr (.inr (.inl ⟨_, rfl⟩))
  · exact .inr (.inr (.inr rfl))

theorem asText_fromEnvironment (key v : String) :
    asText key (fromEnvironment v) = .ok (retold v) ∧
      asOptionalText key (fromEnvironment v) = .ok (some (retold v)) := by
  rw [fromEnvironment, retold]
  obtain ⟨b, hv⟩ | ⟨n, hv⟩ | ⟨x, hv⟩ | hv := scalarOfText_cases v <;> rw [hv] <;>
    exact ⟨rfl, rfl⟩

theorem read_fromEnvironment (hl : l.isText = true) (v : String) :
    ∃ x, l.read (fromEnvironment v) = .ok x ∧ l.textOf x = some (retold v) := by
  cases l with
  | port | manifest | timeoutSeconds | connectTimeoutSeconds => cases hl
  | persistDir => exact ⟨_, (asText_fromEnvironment _ v).2, rfl⟩
  | host | name | origin | userAgent | level | format =>
    exact ⟨_, (asText_fromEnvironment _ v).1, rfl⟩

theorem read_text (hl : l.isText = true) (source : Option String) (v : String) :
    ∃ x, l.read (.scalar source (.text v)) = .ok x ∧ l.textOf x = some v := by
  cases l with
  | port | manifest | timeoutSeconds | connectTimeoutSeconds => cases hl
  | persistDir | host | name | origin | userAgent | level | format => exact ⟨_, rfl, rfl⟩

theorem result_of_decode (h : decode t = .ok settings) (hplace : t.standIn l.part = none) :
    t.result l = .ok (l.get settings) := by
  simp only [decode_eq, bind_eq_ok, readPart_eq] at h
  obtain ⟨server, hserver, cache, hcache, network, hnetwork, logging, hlogging, heq⟩ := h
  cases heq
  cases l with
  | host | port =>
    rw [show t.standIn "server" = none from hplace, Option.elim_none, readServer] at hserver
    simp only [bind_eq_ok] at hserver
    obtain ⟨host, hhost, port, hport, heq⟩ := hserver
    cases heq
    assumption
  | name | manifest | origin | persistDir =>
    rw [show t.standIn "cache" = none from hplace, Option.elim_none, readCache] at hcache
    simp only [bind_eq_ok] at hcache
    obtain ⟨name, hname, manifest, hmanifest, origin, horigin, dir, hdir, heq⟩ := hcache
    cases heq
    assumption
  | timeoutSeconds | connectTimeoutSeconds | userAgent =>
    rw [show t.standIn "network" = none from hplace, Option.elim_none, readNetwork] at hnetwork
    simp only [bind_eq_ok] at hnetwork
    obtain ⟨timeout, htimeout, connect, hconnect, agent, hagent, heq⟩ := hnetwork
    cases heq
    assumption
  | level | format =>
    rw [show t.standIn "logging" = none from hplace, Option.elim_none, readLogging] at hlogging
    simp only [bind_eq_ok] at hlogging
    obtain ⟨level, hlevel, format, hformat, heq⟩ := hlogging
    cases heq
    assumption

theorem exists_readPart {σ : Type} {part structName : String} {fields : List (Field σ)}
    {start read : σ} (h : t.readPart part structName fields start = .ok read)
    (hpart : t'.members.lookup part = t.members.lookup part ∨ (t'.standIn part = none ∧
      ∃ read', readMembers part (t'.inside part) fields start = .ok read')) :
    ∃ read', t'.readPart part structName fields start = .ok read' := by
  obtain hsame | ⟨hplace, read', hread⟩ := hpart
  · exact ⟨read, by rwa [Tree.readPart, hsame]⟩
  · exact ⟨read', by rw [readPart_eq, hplace, Option.elim_none, hread]⟩

/-- A tree is read if in each section it is like another one that is read, or else is made of
settings that are. -/
theorem exists_decode (h : decode t = .ok settings)
    (hparts : ∀ l : Leaf, t'.members.lookup l.part = t.members.lookup l.part ∨
      (t'.standIn l.part = none ∧ ∀ l' : Leaf, l'.part = l.part → ∃ x, t'.result l' = .ok x)) :
    ∃ settings', decode t' = .ok settings' := by
  simp only [decode_eq, bind_eq_ok] at h
  obtain ⟨server, hserver, cache, hcache, network, hnetwork, logging, hlogging, -⟩ := h
  obtain ⟨server', hserver'⟩ := exists_readPart hserver <| (hparts .host).imp_right fun h => by
    obtain ⟨host, hhost⟩ := h.2 .host rfl
    obtain ⟨port, hport⟩ := h.2 .port rfl
    exact ⟨h.1, _, by rw [readServer, hhost, hport]; rfl⟩
  obtain ⟨cache', hcache'⟩ := exists_readPart hcache <| (hparts .name).imp_right fun h => by
    obtain ⟨name, hname⟩ := h.2 .name rfl
    obtain ⟨manifest, hmanifest⟩ := h.2 .manifest rfl
    obtain ⟨origin, horigin⟩ := h.2 .origin rfl
    obtain ⟨dir, hdir⟩ := h.2 .persistDir rfl
    exact ⟨h.1, _, by rw [readCache, hname, hmanifest, horigin, hdir]; rfl⟩
  obtain ⟨network', hnetwork'⟩ := exists_readPart hnetwork <|
    (hparts .userAgent).imp_right fun h => by
      obtain ⟨timeout, htimeout⟩ := h.2 .timeoutSeconds rfl
      obtain ⟨connect, hconnect⟩ := h.2 .connectTimeoutSeconds rfl
      obtain ⟨agent, hagent⟩ := h.2 .userAgent rfl
      exact ⟨h.1, _, by rw [readNetwork, htimeout, hconnect, hagent]; rfl⟩
  obtain ⟨logging', hlogging'⟩ := exists_readPart hlogging <| (hparts .level).imp_right fun h => by
    obtain ⟨level, hlevel⟩ := h.2 .level rfl
    obtain ⟨format, hformat⟩ := h.2 .format rfl
    exact ⟨h.1, _, by rw [readLogging, hlevel, hformat]; rfl⟩
  exact ⟨_, by rw [decode_eq, hserver', hcache', hnetwork', hlogging']; rfl⟩

variable {environment : List (String × String)} {path : Option String} {s : Surroundings}

/-- What the environment makes of a section depends on nothing outside of it. -/
theorem lookup_overlay_congr (hvars : Variables environment) {part : String}
    (h : t.members.lookup part = t'.members.lookup part) :
    (t.overlay (environmentLayer environment)).members.lookup part =
      (t'.overlay (environmentLayer environment)).members.lookup part := by
  induction environment generalizing t t' with
  | nil => exact h
  | cons p rest ih =>
    obtain ⟨name, text⟩ := p
    cases hname : variableKey? name with
    | none =>
      rw [overlay_cons_of_none hname, overlay_cons_of_none hname]
      exact ih hvars.tail h
    | some key =>
      obtain ⟨l, rfl⟩ := hvars.named _ List.mem_cons_self key hname
      rw [overlay_cons hname, overlay_cons hname]
      refine ih hvars.tail ?_
      rw [Tree.lookup_setLeaf, Tree.lookup_setLeaf]
      split
      · next hpart => rw [← hpart, h]
      · exact h

theorem standIn_of_variable (hvars : Variables environment) (hv : variableIn environment l = some v)
    (t : Tree) : (t.overlay (environmentLayer environment)).standIn l.part = none := by
  cases hplace : (t.overlay (environmentLayer environment)).standIn l.part with
  | none => rfl
  | some w =>
    have hnone := ((standIn_overlay hvars t l w).mp hplace).2 l rfl
    cases hv.symm.trans hnone

theorem read_of_decode (hvars : Variables environment) (hv : variableIn environment l = some v)
    (h : decode (t.overlay (environmentLayer environment)) = .ok settings) :
    l.read (fromEnvironment v) = .ok (l.get settings) := by
  have hresult := result_of_decode h (standIn_of_variable hvars hv t)
  rwa [Tree.result, leaf_overlay hvars, hv, Option.map_some, Option.some_or,
    Option.elim_some] at hresult

theorem textIn_of_decode (hl : l.isText = true) (hvars : Variables environment)
    (hv : variableIn environment l = some v)
    (h : decode (t.overlay (environmentLayer environment)) = .ok settings) :
    l.textIn settings = some (retold v) := by
  obtain ⟨x, hread, htext⟩ := read_fromEnvironment hl v
  cases hread.symm.trans (read_of_decode hvars hv h)
  exact htext

/-- A section that is none has no settings in it, which therefore are the defaults. -/
theorem result_of_standIn {w : Tree} (h : t.standIn l.part = some w) :
    t.result l = .ok (l.get default) := by
  obtain ⟨hlookup, htable⟩ := Option.filter_eq_some_iff.mp h
  have hinside : t.inside l.part = [] := by
    rw [Tree.inside, hlookup, Option.elim_some]
    cases w with
    | table => cases htable
    | scalar | list => rfl
  rw [Tree.result, Tree.leaf, hinside, List.lookup_nil, Option.elim_none]

/-- A variable that its setting accepts fits whatever is there besides it. -/
theorem exists_decode_of_variable {x : l.Value} (hread : l.read (fromEnvironment v) = .ok x)
    {name : String} (hname : variableKey? name = some l.path) (hvars : Variables ((name, v) :: environment))
    (h : decode (t.overlay (environmentLayer environment)) = .ok settings) :
    ∃ settings', decode (t.overlay (environmentLayer ((name, v) :: environment))) =
      .ok settings' := by
  have hv : variableIn ((name, v) :: environment) l = some v := by
    rw [variableIn_cons hname, if_pos rfl]
  refine exists_decode h fun l' => ?_
  by_cases hpart : l'.part = l.part
  · refine .inr ⟨hpart ▸ standIn_of_variable hvars hv t, fun l'' hl'' => ?_⟩
    by_cases hself : l'' = l
    · rw [hself, Tree.result, leaf_overlay hvars, hv]
      exact ⟨x, hread⟩
    · have hresult : (t.overlay (environmentLayer ((name, v) :: environment))).result l'' =
          (t.overlay (environmentLayer environment)).result l'' := by
        rw [Tree.result, Tree.result, leaf_overlay hvars, leaf_overlay hvars.tail,
          variableIn_cons hname, if_neg hself]
      rw [hresult]
      cases hplace : (t.overlay (environmentLayer environment)).standIn l''.part with
      | none => exact ⟨_, result_of_decode h hplace⟩
      | some w => exact ⟨_, result_of_standIn hplace⟩
  · refine .inl ?_
    rw [overlay_cons hname]
    refine lookup_overlay_congr hvars.tail ?_
    rw [Tree.lookup_setLeaf, if_neg hpart]

def Gives (path : Option String) (s : Surroundings) (settings : Settings) : Prop :=
  ∃ layer, fileLayer path s = .ok layer ∧
    decode ((default.toTree.overlay layer).overlay (environmentLayer s.environment)) = .ok settings

theorem load_of_gives [Idna] (h : Gives path s settings) :
    load path s = settings.validate.map fun _ => settings := by
  obtain ⟨layer, hlayer, hdecode⟩ := h
  rw [load, gather, hlayer]
  dsimp only
  rw [hdecode]
  dsimp only
  cases settings.validate <;> rfl

theorem gives_of_load [Idna] (h : load path s = .ok settings) :
    Gives path s settings ∧ settings.validate = .ok () := by
  rw [load, gather] at h
  cases hlayer : fileLayer path s with
  | error e => rw [hlayer] at h; cases h
  | ok layer =>
    rw [hlayer] at h
    dsimp only at h
    cases hdecode : decode ((default.toTree.overlay layer).overlay
        (environmentLayer s.environment)) with
    | error e => rw [hdecode] at h; cases h
    | ok read =>
      rw [hdecode] at h
      dsimp only at h
      cases hvalid : read.validate with
      | error e => rw [hvalid] at h; cases h
      | ok _ =>
        rw [hvalid] at h
        cases h
        exact ⟨⟨layer, hlayer, hdecode⟩, hvalid⟩

theorem Variables.cons (hvars : Variables environment) (hnone : variableIn environment l = none)
    (v : String) : Variables ((l.variableName, v) :: environment) where
  named p hp key hkey := by
    obtain rfl | hp := List.mem_cons.mp hp
    · exact ⟨l, Option.some.inj (hkey.symm.trans l.variableKey?_variableName)⟩
    · exact hvars.named p hp key hkey
  distinct := by
    rw [List.filterMap_cons, l.variableKey?_variableName]
    refine List.nodup_cons.mpr ⟨fun hmem => ?_, hvars.distinct⟩
    obtain ⟨p, hp, hkey⟩ := List.mem_filterMap.mp hmem
    rw [variableIn, Option.map_eq_none_iff, List.find?_eq_none] at hnone
    exact hnone p hp (decide_eq_true hkey)

def Surroundings.withVariable (s : Surroundings) (l : Leaf) (v : String) : Surroundings :=
  { s with environment := (l.variableName, v) :: s.environment }

theorem contents_environment (s : Surroundings) (environment : List (String × String))
    (path : String) : { s with environment }.contents path = s.contents path := by
  have hrelative : ∀ path, { s with environment }.relative path = s.relative path := fun _ => rfl
  have hwhole : ∀ path, { s with environment }.whole path = s.whole path := fun _ => rfl
  have hplace : ∀ path, { s with environment }.place path = s.place path := fun _ => rfl
  have hfile : ∀ path, { s with environment }.isFile path = s.isFile path := fun _ => rfl
  unfold Surroundings.contents Surroundings.find
  simp only [hfile, hplace, hwhole, hrelative]

theorem fileLayer_environment (path : Option String) (s : Surroundings)
    (environment : List (String × String)) :
    fileLayer path { s with environment } = fileLayer path s := by
  unfold fileLayer Surroundings.optionalFile Surroundings.requiredFile
  simp only [contents_environment]

theorem load_of_read [Idna] {x : l.Value} (hread : l.read (fromEnvironment v) = .ok x)
    (hvars : Variables s.environment) (hnone : variableIn s.environment l = none)
    (h : Gives path s settings) :
    ∃ settings', l.get settings' = x ∧
      load path (s.withVariable l v) = settings'.validate.map fun _ => settings' := by
  obtain ⟨layer, hlayer, hdecode⟩ := h
  have hvars' : Variables (s.withVariable l v).environment := hvars.cons hnone v
  obtain ⟨settings', hdecode'⟩ :=
    exists_decode_of_variable hread l.variableKey?_variableName hvars' hdecode
  have hv : variableIn (s.withVariable l v).environment l = some v := by
    rw [Surroundings.withVariable, variableIn_cons l.variableKey?_variableName, if_pos rfl]
  refine ⟨settings', Except.ok.inj ((read_of_decode hvars' hv hdecode').symm.trans hread), ?_⟩
  exact load_of_gives ⟨layer, (fileLayer_environment path s _).trans hlayer, hdecode'⟩

theorem load_withVariable [Idna] (hl : l.isText = true) (hvars : Variables s.environment)
    (hnone : variableIn s.environment l = none) (v : String) (h : Gives path s settings) :
    ∃ settings', l.textIn settings' = some (retold v) ∧
      load path (s.withVariable l v) = settings'.validate.map fun _ => settings' := by
  obtain ⟨x, hread, htext⟩ := read_fromEnvironment hl v
  obtain ⟨settings', hget, hload⟩ := load_of_read hread hvars hnone h
  exact ⟨settings', by rw [Leaf.textIn, hget, htext], hload⟩

theorem read_of_file [Idna] {members : List (String × Value)} {w : Value}
    (hreads : Reads path s members)
    (hplain : PlainKeys members) (hvars : Variables s.environment)
    (hnone : variableIn s.environment l = none) (hvalue : valueOf members l = some w)
    (h : load path s = .ok settings) :
    ∃ source, l.read (.ofToml source w) = .ok (l.get settings) := by
  obtain ⟨hdistinct, source, hlayer⟩ := hreads.fileLayer
  obtain ⟨hgiven, htable⟩ := Option.filter_eq_some_iff.mp hvalue
  have hplace : inPlace members l.part = none := by
    rw [given] at hgiven
    split at hgiven
    · next hlookup => rw [inPlace, hlookup]; rfl
    · cases hgiven
  have hstand : ((fileTree source members).overlay
      (environmentLayer s.environment)).standIn l.part = none := by
    refine Option.eq_none_iff_forall_ne_some.mpr fun w hw => ?_
    have hfile := ((standIn_overlay hvars _ l w).mp hw).1
    rw [standIn_fileTree hplain hdistinct, hplace] at hfile
    cases hfile
  have hresult := result_of_decode ((load_of_fileLayer hlayer).mp h).1 hstand
  rw [Tree.result, leaf_overlay hvars, hnone, Option.map_none, Option.none_or,
    leaf_fileTree hplain hdistinct, hgiven, Option.elim_some, Option.elim_some] at hresult
  refine ⟨source, ?_⟩
  cases w with
  | table => cases htable
  | _ => exact hresult

theorem textIn_of_file [Idna] {members : List (String × Value)} (hl : l.isText = true)
    (hreads : Reads path s members) (hplain : PlainKeys members) (hvars : Variables s.environment)
    (hnone : variableIn s.environment l = none) (hgiven : given members l = some (.text v))
    (h : load path s = .ok settings) : l.textIn settings = some v := by
  have hvalue : valueOf members l = some (.text v) := by rw [valueOf, hgiven]; rfl
  obtain ⟨source, hresult⟩ := read_of_file hreads hplain hvars hnone hvalue h
  obtain ⟨x, hread, htext⟩ := read_text hl (some source) v
  cases hread.symm.trans hresult
  exact htext

/-- A text is written anew as it is: it is no truth value in large letters, no whole number with a
plus sign or with zeros in front, and no other number but as this number is written. -/
structure Unaltered (v : String) : Prop where
  truth : ∀ b, Text.lower v.toList = (boolText b).toList → v = boolText b
  whole : (Decimal.int64? v).isSome → Decimal.IsShort v
  double : Decimal.int64? v = none → ∀ x, Binary64.ofText? v = some x → v = x.text

def IsNoTruth (v : String) : Prop := ∀ b, Text.lower v.toList ≠ (boolText b).toList

theorem scalarOfText_truth {b : Bool} (hb : Text.lower v.toList = (boolText b).toList) :
    scalarOfText v = .bool b := by
  rw [scalarOfText, hb]
  cases b <;> rfl

theorem scalarOfText_int (hv : IsNoTruth v) {n : Int} (hn : Decimal.int64? v = some n) :
    scalarOfText v = .int n := by
  have htrue : Text.lower v.toList ≠ "true".toList := hv true
  have hfalse : Text.lower v.toList ≠ "false".toList := hv false
  rw [scalarOfText, if_neg htrue, if_neg hfalse, hn]

theorem scalarOfText_float (hv : IsNoTruth v) (hn : Decimal.int64? v = none) {x : Binary64}
    (hx : Binary64.ofText? v = some x) : scalarOfText v = .float x := by
  have htrue : Text.lower v.toList ≠ "true".toList := hv true
  have hfalse : Text.lower v.toList ≠ "false".toList := hv false
  rw [scalarOfText, if_neg htrue, if_neg hfalse, hn, hx]

theorem scalarOfText_text (hv : IsNoTruth v) (hn : Decimal.int64? v = none)
    (hx : Binary64.ofText? v = none) : scalarOfText v = .text v := by
  have htrue : Text.lower v.toList ≠ "true".toList := hv true
  have hfalse : Text.lower v.toList ≠ "false".toList := hv false
  rw [scalarOfText, if_neg htrue, if_neg hfalse, hn, hx]

theorem retold_eq_self_iff (v : String) : retold v = v ↔ Unaltered v := by
  by_cases hv : IsNoTruth v
  · have hword : ∀ b, Text.lower v.toList = (boolText b).toList → v = boolText b := fun b hb =>
      absurd hb (hv b)
    cases hn : Decimal.int64? v with
    | some n =>
      rw [retold, scalarOfText_int hv hn]
      refine eq_comm.trans ((Decimal.eq_repr_iff hn).trans ?_)
      refine ⟨fun h => ⟨hword, fun _ => h, fun hnone => ?_⟩, fun h => h.whole (by rw [hn]; rfl)⟩
      cases hn.symm.trans hnone
    | none =>
      have hwhole : (Decimal.int64? v).isSome → Decimal.IsShort v := fun h => by
        rw [hn] at h
        cases h
      cases hx : Binary64.ofText? v with
      | some x =>
        rw [retold, scalarOfText_float hv hn hx]
        refine ⟨fun h => ⟨hword, hwhole, fun _ y hy => ?_⟩, fun h => (h.double hn x hx).symm⟩
        cases hx.symm.trans hy
        exact h.symm
      | none =>
        rw [retold, scalarOfText_text hv hn hx]
        refine iff_of_true rfl ⟨hword, hwhole, fun _ y hy => ?_⟩
        cases hx.symm.trans hy
  · obtain ⟨b, hb⟩ : ∃ b, Text.lower v.toList = (boolText b).toList := by
      simpa only [IsNoTruth, not_forall, ne_eq, not_not] using hv
    rw [retold, scalarOfText_truth hb]
    refine ⟨fun h => ?_, fun h => (h.truth b hb).symm⟩
    dsimp only at h
    -- Neither word is a number, nor written in another way than it is told.
    have hwords : ∀ b b' : Bool, Text.lower (boolText b).toList = (boolText b').toList →
        boolText b = boolText b' := by decide
    have hint : Decimal.int64? v = none := by rw [← h]; cases b <;> rfl
    have hfloat : Binary64.ofText? v = none := by rw [← h]; cases b <;> rfl
    refine ⟨fun b' hb' => ?_, fun hn => ?_, fun _ x hx => ?_⟩
    · rw [← h] at hb' ⊢
      exact hwords b b' hb'
    · rw [hint] at hn
      cases hn
    · cases hfloat.symm.trans hx

theorem retold_eq_self_of_colon (h : ':' ∈ (retold v).toList) : retold v = v := by
  rw [retold] at h ⊢
  obtain ⟨b, hv⟩ | ⟨n, hv⟩ | ⟨x, hv⟩ | hv := scalarOfText_cases v <;> rw [hv] at h ⊢
  · have hno : ∀ b, ':' ∉ (boolText b).toList := by decide
    exact absurd h (hno b)
  · exact absurd (Decimal.inNumber_repr h) (by decide)
  · exact absurd (Decimal.inNumber_text h) (by decide)

theorem colon_of_validate [Idna] (h : settings.validate = .ok ()) :
    ':' ∈ settings.cache.origin.toList := by
  obtain ⟨origin, ho⟩ := originUrl_of_validate h
  rw [originUrl] at ho
  split at ho
  · cases ho
  · next url hparse =>
    have hcolon := Url.colon_of_parse hparse
    split at hcolon
    · exact hcolon
    · rw [String.toList_append] at hcolon
      exact (List.mem_append.mp hcolon).elim id fun h => absurd h (by decide)

/-- A setting that is a text is what its variable says if and only if that is neither a truth value
nor a number that is written in another way than the program writes it; otherwise it is what the
program writes. An origin is always what its variable says. The variable fits whatever is said
besides it, so that loading then fails only if the settings are not valid. In a file every text is
taken as it stands. -/
theorem variable_is_verbatim_iff [Idna] {l : Leaf} (hl : l.isText = true) (v : String) :
    (retold v = v ↔ Unaltered v) ∧
    (∀ path s settings, Variables s.environment → variableIn s.environment l = some v →
      load path s = .ok settings →
      l.textIn settings = some (retold v) ∧ (l = .origin → Unaltered v)) ∧
    (∀ path s settings, Variables s.environment → variableIn s.environment l = none →
      Gives path s settings → ∃ settings', l.textIn settings' = some (retold v) ∧
        load path (s.withVariable l v) = settings'.validate.map fun _ => settings') ∧
    ∀ path s members settings, Reads path s members → PlainKeys members →
      Variables s.environment → variableIn s.environment l = none →
      given members l = some (.text v) → load path s = .ok settings →
      l.textIn settings = some v := by
  refine ⟨retold_eq_self_iff v, fun path s settings hvars hv hload => ?_,
    fun path s settings hvars hnone hgives => load_withVariable hl hvars hnone v hgives,
    fun path s members settings hreads hplain hvars hnone hgiven hload =>
      textIn_of_file hl hreads hplain hvars hnone hgiven hload⟩
  obtain ⟨⟨layer, -, hdecode⟩, hvalid⟩ := gives_of_load hload
  have htext := textIn_of_decode hl hvars hv hdecode
  refine ⟨htext, fun horigin => (retold_eq_self_iff v).mp (retold_eq_self_of_colon ?_)⟩
  subst horigin
  rw [← Option.some.inj htext]
  exact colon_of_validate hvalid

def named (name : String) : Settings :=
  { default with cache := { default.cache with name } }

def nameFile : List Char := "[cache]\nname = \"007\"\n".toList

def nameMembers : List (String × Value) := [("cache", .table [("name", .text "007")])]

theorem reads_nameFile : Reads (some "c.toml") (folderWith nameFile none) nameMembers := by
  have hcontents : (folderWith nameFile none).contents "c.toml" =
      .ok ("c.toml", .toml, nameFile) := by decide +kernel
  refine .file hcontents ?_
  unfold Toml.read
  rw [String.toList_ofList]
  unfold nameFile
  simp only [String.reduceToList]
  with_unfolding_all rfl

theorem plainKeys_nameMembers : PlainKeys nameMembers where
  names := by decide +kernel
  inner {part inner} h := by
    simp only [nameMembers, lookup_cons] at h
    split_ifs at h <;> cases h
    decide +kernel

open scoped Idna

/-- A version stays as it is in the environment, and digits do in a file. -/
theorem variable_keeps_version :
    (∃ settings, load none ((folderWith nameFile none).withVariable .name "1.5") = .ok settings ∧
      Leaf.name.textIn settings = some "1.5") ∧
    ∃ settings, load (some "c.toml") (folderWith nameFile none) = .ok settings ∧
      Leaf.name.textIn settings = some "007" := by
  have hvars : Variables (folderWith nameFile none).environment :=
    ⟨fun _ h => (nomatch h), List.nodup_nil⟩
  obtain ⟨hverbatim, -, hload, -⟩ := variable_is_verbatim_iff (l := .name) rfl "1.5"
  obtain ⟨-, -, -, hfile⟩ := variable_is_verbatim_iff (l := .name) rfl "007"
  have hkept : retold "1.5" = "1.5" := hverbatim.mpr
    ⟨by decide, by decide +kernel, by decide +kernel⟩
  obtain ⟨settings, htext, hresult⟩ :=
    hload none _ default hvars rfl (gives_of_load (by decide +kernel)).1
  have hloaded : load none ((folderWith nameFile none).withVariable .name "1.5") =
      .ok (named "1.5") := by decide +kernel
  have hnamed : load (some "c.toml") (folderWith nameFile none) = .ok (named "007") := by
    decide +kernel
  refine ⟨⟨settings, ?_, by rw [htext, hkept]⟩, named "007", hnamed,
    hfile _ _ nameMembers _ reads_nameFile plainKeys_nameMembers hvars rfl rfl hnamed⟩
  cases hvalid : settings.validate with
  | error e =>
    rw [hresult, hvalid] at hloaded
    cases hloaded
  | ok => rw [hresult, hvalid, Except.map]

/-- A name of digits, and one that is a word for a truth value. The file keeps the same name. -/
theorem variable_alters_name :
    load none ((folderWith nameFile none).withVariable .name "007") = .ok (named "7") ∧
      load none ((folderWith nameFile none).withVariable .name "TRUE") = .ok (named "true") ∧
      load (some "c.toml") (folderWith nameFile none) = .ok (named "007") := by
  decide +kernel

end AssetCache.Settings
