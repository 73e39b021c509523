import AssetCache.Proofs.Settings.Printed
import AssetCache.Proofs.Store.Codec

namespace AssetCache.Settings

open Toml (Value)

variable {s : Settings} {parts : List (String × List (String × Written))}

def layout (hasDir : Bool) : List (String × List String) :=
  [("server", ["host", "port"]),
   ("cache", ["name", "manifest", "origin"] ++ if hasDir then ["persist_dir"] else []),
   ("network", ["timeout_seconds", "connect_timeout_seconds", "user_agent"]),
   ("logging", ["level", "format"])]

theorem layout_sections (s : Settings) :
    s.sections.map (fun part => (part.1, part.2.map (·.1))) =
      layout s.cache.persistDir.isSome := by
  rw [sections]
  cases s.cache.persistDir <;> rfl

theorem plain_layout (hasDir : Bool) : ((layout hasDir).map (·.1)).Nodup ∧
    ∀ part ∈ layout hasDir, IsPlain part.1 ∧ part.2.Nodup ∧ ∀ key ∈ part.2, IsPlain key := by
  revert hasDir
  decide +kernel

theorem isPrintable_iff : s.isPrintable = true ↔
    s.network.timeoutSeconds.toNat < Nat.pow 2 63 ∧
      s.network.connectTimeoutSeconds.toNat < Nat.pow 2 63 := by
  have hport : s.server.port.toNat < Nat.pow 2 63 :=
    Nat.lt_trans s.server.port.toNat_lt (by decide)
  rw [isPrintable, sections]
  cases s.cache.persistDir <;> simp [Written.fits, hport]

theorem sections_sections (h : s.isPrintable = true) : Sections s.sections := by
  have hlayout := layout_sections s
  obtain ⟨hnames, hplain⟩ := plain_layout s.cache.persistDir.isSome
  rw [← hlayout] at hnames hplain
  have hpart : ∀ part ∈ s.sections, IsPlain part.1 ∧ (part.2.map (·.1)).Nodup ∧
      ∀ key ∈ part.2.map (·.1), IsPlain key := fun part hmem =>
    hplain _ (List.mem_map_of_mem hmem)
  refine ⟨fun part hmem => (hpart part hmem).1, fun part hmem => ⟨?_, ?_, ?_⟩, ?_⟩
  · exact fun line hline => (hpart part hmem).2.2 _ (List.mem_map_of_mem hline)
  · exact List.all_eq_true.mp (List.all_eq_true.mp h part hmem)
  · exact (hpart part hmem).2.1
  · rwa [List.map_map] at hnames

theorem print_of_isPrintable (h : s.isPrintable = true) :
    s.print = .ok (String.ofList s.chars) := if_pos h

theorem lookup_sectionMembers {part : String} {v : Value}
    (h : (sectionMembers parts).lookup part = some v) :
    ∃ lines, (part, lines) ∈ parts ∧ v = .table (lines.map fun line => (line.1, line.2.value)) := by
  obtain ⟨_, _, hsplit, -⟩ := List.lookup_eq_some_iff.mp h
  have hmem : (part, v) ∈ sectionMembers parts := by
    rw [hsplit]
    exact List.mem_append_right _ List.mem_cons_self
  obtain ⟨⟨name, lines⟩, hpart, heq⟩ := List.mem_map.mp hmem
  cases heq
  exact ⟨lines, hpart, rfl⟩

theorem plainKeys_sectionMembers (h : Sections parts) : PlainKeys (sectionMembers parts) where
  names name hname := by
    rw [sectionMembers, List.map_map] at hname
    obtain ⟨part, hpart, rfl⟩ := List.mem_map.mp hname
    exact h.plain part hpart
  inner {part inner} hlookup name hname := by
    obtain ⟨lines, hpart, hinner⟩ := lookup_sectionMembers hlookup
    cases hinner
    rw [List.map_map] at hname
    obtain ⟨line, hline, rfl⟩ := List.mem_map.mp hname
    exact (h.lines _ hpart).plain line hline

theorem inPlace_sectionMembers (parts : List (String × List (String × Written))) (part : String) :
    inPlace (sectionMembers parts) part = none := by
  refine Option.eq_none_iff_forall_ne_some.mpr fun v hv => ?_
  obtain ⟨hlookup, htable⟩ := Option.filter_eq_some_iff.mp hv
  obtain ⟨lines, -, rfl⟩ := lookup_sectionMembers hlookup
  cases htable

theorem asUInt64_toNat (source key : String) (n : UInt64) :
    asUInt64 key (.ofToml source (.int n.toNat)) = .ok n :=
  congrArg Except.ok (UInt64.ofNat_toNat)

theorem asUInt16_toNat (source key : String) (n : UInt16) :
    asUInt16 key (.ofToml source (.int n.toNat)) = .ok n := by
  have hnat : asNat key (.ofToml source (.int n.toNat)) = .ok n.toNat := rfl
  rw [asUInt16, hnat]
  dsimp only
  rw [if_pos n.toNat_lt, UInt16.ofNat_toNat]

/-- Each setting is what has been printed for it, and a folder that has not been printed is none. -/
theorem accepts_sectionMembers (s : Settings) (l : Leaf) :
    l.Accepts (given (sectionMembers s.sections) l) (l.get s) := by
  cases l with
  | host | name | origin | userAgent | level | format => exact fun _ => rfl
  | port => exact fun source => asUInt16_toNat source _ _
  | timeoutSeconds | connectTimeoutSeconds => exact fun source => asUInt64_toNat source _ _
  | manifest => exact fun _ => asTexts_of_texts _ _
  | persistDir =>
    have hgiven : given (sectionMembers s.sections) .persistDir =
        s.cache.persistDir.map Value.text := by
      rw [sections]
      cases s.cache.persistDir <;> rfl
    rw [hgiven, Leaf.get]
    cases s.cache.persistDir with
    | none => rfl
    | some dir => exact fun _ => rfl

theorem withoutMark_chars (s : Settings) : FileFormat.withoutMark s.chars = s.chars := by
  rw [FileFormat.withoutMark]
  intro rest hchars
  have hhead := head?_intercalate_sectionChars s.sections
  rw [← chars, hchars] at hhead
  exact absurd rfl hhead

theorem contents_of_bytesAt {surroundings : Surroundings} {path found : String} (text : String)
    (hfind : surroundings.find path = .ok (found, .toml))
    (hbytes : surroundings.disk.bytesAt (surroundings.place found) = .ok text.toUTF8) :
    surroundings.contents path =
      .ok (surroundings.relative found, .toml, FileFormat.withoutMark text.toList) := by
  unfold Surroundings.contents
  simp only [hfind, hbytes, Snapshot.fromUTF8?_toUTF8]

theorem variables_of_none {environment : List (String × String)}
    (h : ∀ p ∈ environment, variableKey? p.1 = none) :
    Variables environment ∧ ∀ l, variableIn environment l = none := by
  refine ⟨⟨fun p hp key hkey => ?_, ?_⟩, fun l => ?_⟩
  · rw [h p hp] at hkey
    cases hkey
  · rw [List.filterMap_eq_nil_iff.mpr h]
    exact List.nodup_nil
  · rw [variableIn, Option.map_eq_none_iff, List.find?_eq_none]
    intro p hp
    rw [h p hp]
    exact of_decide_eq_false rfl

/-- Valid settings whose numbers TOML has can be printed; and from a file with what is printed, and
no variables in the environment, the same settings are loaded. -/
theorem load_print [Idna] (hvalid : s.validate = .ok ())
    (htimeout : s.network.timeoutSeconds.toNat < Nat.pow 2 63)
    (hconnect : s.network.connectTimeoutSeconds.toNat < Nat.pow 2 63) :
    ∃ text, s.print = .ok text ∧
      ∀ (path : Option String) (surroundings : Surroundings) (found : String),
        surroundings.find (path.getD (userFile surroundings.home)) = .ok (found, .toml) →
        surroundings.disk.bytesAt (surroundings.place found) = .ok text.toUTF8 →
        (∀ p ∈ surroundings.environment, variableKey? p.1 = none) →
        load path surroundings = .ok s := by
  have hprintable := isPrintable_iff.mpr ⟨htimeout, hconnect⟩
  have hsections := sections_sections hprintable
  refine ⟨_, print_of_isPrintable hprintable, ?_⟩
  intro path surroundings found hfind hbytes hnone
  obtain ⟨hvariables, hnone⟩ := variables_of_none hnone
  have hcontents := contents_of_bytesAt _ hfind hbytes
  rw [String.toList_ofList, withoutMark_chars] at hcontents
  have hreads : Reads path surroundings (sectionMembers s.sections) :=
    .file hcontents (read_sections hsections)
  have hlayered : Layered path surroundings (sectionMembers s.sections) := by
    refine ⟨hreads, plainKeys_sectionMembers hsections, fun l items hlookup => ?_, hvariables⟩
    obtain ⟨lines, -, htable⟩ := lookup_sectionMembers hlookup
    cases htable
  refine (load_eq_ok_iff hlayered).mpr ⟨⟨fun l => ?_, fun l v hv => ?_⟩, hvalid⟩
  · rw [hnone l]
    exact accepts_sectionMembers s l
  · rw [inPlace_sectionMembers] at hv
    cases hv

theorem find_folderWith (file : List Char) :
    (folderWith file none).find "c.toml" = .ok ("c.toml", .toml) ∧
      (folderWith file none).disk.bytesAt ((folderWith file none).place "c.toml") =
        .ok (String.ofList file).toUTF8 := by
  have hplace : (folderWith file none).place "c.toml" = ["c.toml"] := by
    have hempty : (folderWith [] none).place "c.toml" = ["c.toml"] := by decide +kernel
    exact hempty
  have hbytes : (folderWith file none).disk.bytesAt ["c.toml"] =
      .ok (String.ofList file).toUTF8 := rfl
  have hformat : FileFormat.ofName? "c.toml" = some .toml := by decide +kernel
  have hfile : (folderWith file none).isFile "c.toml" = true := by
    rw [Surroundings.isFile, hplace, hbytes]
    rfl
  refine ⟨?_, hplace ▸ hbytes⟩
  unfold Surroundings.find
  rw [if_pos hfile, hplace]
  simp [hformat]

/-- Settings whose texts hold quotes of both kinds, controls and line ends, or look like something
else than a text. -/
def motley : Settings where
  server := ⟨"1.5", 65535⟩
  cache := ⟨"\"it's\"\x01\\", ["007", "a\r\nb''' \"\"\"c", "\\n"], "http://h/\u00e9", some ""⟩
  network := ⟨0, 9223372036854775807, "[cache]\nname = 1"⟩
  logging := ⟨"true", "# none"⟩

open scoped Idna

theorem load_print_motley : motley.validate = .ok () ∧ ∃ text, motley.print = .ok text ∧
    load (some "c.toml") (folderWith text.toList none) = .ok motley := by
  have hvalid : motley.validate = .ok () := by decide +kernel
  obtain ⟨text, hprint, hload⟩ := load_print hvalid (by decide) (by decide)
  obtain ⟨hfind, hbytes⟩ := find_folderWith text.toList
  rw [String.ofList_toList] at hbytes
  exact ⟨hvalid, text, hprint, hload (some "c.toml") _ _ hfind hbytes fun _ hp => (nomatch hp)⟩

end AssetCache.Settings
