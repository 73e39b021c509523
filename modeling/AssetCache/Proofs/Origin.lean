import AssetCache.Proofs.Containment
import AssetCache.Proofs.Url.Authority

namespace AssetCache

open Url

namespace Url

variable {origin : Url} {ws ss names rev : List (List Char)} {s : List Char}

theorem splitSegments_plain (hs : ∀ c ∈ s, isSlash .special c = false) :
    splitSegments .special s = [s] := by
  induction s with
  | nil => rfl
  | cons c s ih =>
    have hc := hs c List.mem_cons_self
    rw [splitSegments, if_neg (by simp [hc]), ih fun d hd => hs d (List.mem_cons_of_mem _ hd)]

theorem splitSegments_joinWith (hnames : ∀ n ∈ names, IsWritten n) (hne : names ≠ []) :
    splitSegments .special (joinWith '/' names) = names := by
  induction names with
  | nil => exact absurd rfl hne
  | cons n names ih =>
    have hn : ∀ c ∈ n, isSlash .special c = false := fun c hc =>
      ((hnames n List.mem_cons_self).plain c hc).2
    cases names with
    | nil => exact splitSegments_plain hn
    | cons n' names =>
      rw [joinWith, splitSegments_append hn, ih (fun m hm => hnames m (List.mem_cons_of_mem _ hm))
        (List.cons_ne_nil n' names)]
      exact List.cons_ne_nil n' names

theorem text_joinWith (hne : names ≠ []) :
    (UrlPath.segments names).text = '/' :: joinWith '/' names := by
  induction names with
  | nil => exact absurd rfl hne
  | cons n names ih =>
    cases names with
    | nil => simp [UrlPath.text, joinWith]
    | cons n' names =>
      have hrest := ih (List.cons_ne_nil n' names)
      have hjoin : joinWith '/' (n :: n' :: names) = n ++ '/' :: joinWith '/' (n' :: names) := rfl
      rw [UrlPath.text] at hrest ⊢
      rw [List.flatMap_cons, hrest, hjoin, List.cons_append]

theorem walk_written (hss : ∀ s ∈ ss, IsWritten s) (rev : List (List Char)) :
    walk .special rev ss = ss.reverse ++ rev := by
  induction ss generalizing rev with
  | nil => rfl
  | cons s ss ih =>
    have hs := hss s List.mem_cons_self
    have hrest := ih (fun s' hs' => hss s' (List.mem_cons_of_mem _ hs')) (s :: rev)
    cases ss with
    | nil => simp [walk, hs.double, hs.single, writeSegment_special, hs.escape_eq]
    | cons s' ss =>
      rw [walk, hs.double, hs.single, writeSegment_special, hs.escape_eq,
        if_neg Bool.false_ne_true, if_neg Bool.false_ne_true, hrest]
      · simp
      · exact List.cons_ne_nil s' ss

/-- What is said in plain names: nothing in them has to be escaped or worked off, and no slash is
before them. -/
structure ArePlain (names : List (List Char)) : Prop where
  written : ∀ n ∈ names, IsWritten n
  first : ∃ c n rest, names = (c :: n) :: rest

namespace ArePlain

theorem ne_nil (h : ArePlain names) : names ≠ [] := by
  obtain ⟨c, n, rest, rfl⟩ := h.first
  exact List.cons_ne_nil (c :: n) rest

theorem plain (h : ArePlain names) : ∀ c ∈ joinWith '/' names, c = '/' ∨ inPathSet c = false := by
  intro c hc
  have htext : c ∈ (UrlPath.segments names).text := by
    rw [text_joinWith h.ne_nil]
    exact List.mem_cons_of_mem _ hc
  obtain ⟨n, hn, hmem⟩ := List.mem_flatMap.mp htext
  obtain rfl | hmem := List.mem_cons.mp hmem
  · exact .inl rfl
  · exact .inr ((h.written n hn).plain c hmem).1

theorem lt (h : ArePlain names) : ∀ c ∈ joinWith '/' names, 0x20 < c.toNat := by
  intro c hc
  obtain rfl | hset := h.plain c hc
  · decide
  · exact lt_of_not_inPathSet hset

theorem no_mark (h : ArePlain names) : ∀ c ∈ joinWith '/' names, c ≠ '?' ∧ c ≠ '#' := by
  intro c hc
  obtain rfl | hset := h.plain c hc
  · decide
  · refine ⟨?_, ?_⟩
    · rintro rfl
      cases hset
    · rintro rfl
      cases hset

theorem cons (h : ArePlain names) : ∃ c rest, joinWith '/' names = c :: rest ∧
    inPathSet c = false ∧ isSlash .special c = false := by
  obtain ⟨c, n, rest, rfl⟩ := h.first
  have hc := (h.written (c :: n) List.mem_cons_self).plain c List.mem_cons_self
  cases rest with
  | nil => exact ⟨c, n, rfl, hc⟩
  | cons n' rest => exact ⟨c, _, rfl, hc⟩

theorem head? (h : ArePlain names) :
    ∀ c, (joinWith '/' names).head? = some c → c ≠ '/' ∧ c ≠ '\\' := by
  obtain ⟨c, rest, hjoin, _, hslash⟩ := h.cons
  rw [hjoin]
  rintro d ⟨⟩
  refine ⟨?_, ?_⟩
  · rintro rfl
    cases hslash
  · rintro rfl
    cases hslash

theorem isAllBlank (h : ArePlain names) :
    Text.isAllBlank (String.ofList (joinWith '/' names)) = false := by
  obtain ⟨c, rest, hjoin, hset, _⟩ := h.cons
  have hgt := lt_of_not_inPathSet hset
  have hle : c.toNat ≤ 0x7e := by
    simp only [inPathSet, inFragmentSet, inControls, Bool.or_eq_false_iff,
      decide_eq_false_iff_not] at hset
    omega
  have hc : Text.isBlank c = false := by
    simp only [Text.isBlank, Bool.or_eq_false_iff, Bool.and_eq_false_iff, decide_eq_false_iff_not,
      beq_eq_false_iff_ne]
    omega
  rw [Text.isAllBlank, String.toList_ofList, hjoin, List.all_cons, hc, Bool.false_and]

theorem cleaned (h : ArePlain names) :
    cleaned (String.ofList (joinWith '/' names)) = joinWith '/' names := by
  obtain ⟨b, hb, hnil⟩ := cleaned_append (a := joinWith '/' names) (b := [])
    (by rw [String.toList_ofList, List.append_nil]) h.lt fun _ => rfl
  rw [hb, hnil rfl, List.append_nil]

end ArePlain

theorem text_folders (ws : List (List Char)) :
    (UrlPath.segments (ws ++ [[]])).text = ws.flatMap ('/' :: ·) ++ ['/'] := by
  simp [UrlPath.text]

theorem chars_beneath (hpath : origin.path = .segments (ws ++ [[]])) (hweb : IsWeb origin)
    (hquery : origin.query = none) (hfragment : origin.fragment = none) (h : ArePlain names) :
    (beneath origin ws (joinWith '/' names) none none).chars =
      origin.chars ++ joinWith '/' names := by
  obtain ⟨a, ha⟩ := hweb.authority
  have hread : readSegments .special ws (joinWith '/' names) = .segments (ws ++ names) := by
    rw [readSegments_special, splitSegments_joinWith h.written h.ne_nil, walk_written h.written]
    simp
  have htext : (UrlPath.segments (ws ++ names)).text =
      ws.flatMap ('/' :: ·) ++ '/' :: joinWith '/' names := by
    rw [UrlPath.text, List.flatMap_append, ← text_joinWith h.ne_nil]
    rfl
  rw [chars_of_authority ha, chars_of_authority (u := beneath origin ws (joinWith '/' names) none none)
    ha, beneath, hread, htext, hpath, text_folders, hquery, hfragment]
  simp [marked]

end Url

namespace Site

variable {origin u : Url} {t t' : Http.Target}

theorem locate_congr (hpath : t'.path = t.path) (hquery : t'.query = t.query)
    (h : locate origin t = .ok u) : locate origin t' = .ok u := by
  rw [locate] at h ⊢
  rw [hpath, hquery]
  split at h
  · next hprefix =>
    rw [if_pos hprefix]
    exact h
  · cases h

end Site

theorem Manifest.entryUrl_plain [Idna] {origin : Url} {ws names : List (List Char)}
    (hweb : IsWeb origin)
    (hhttp : origin.isHttp = true) (hpath : origin.path = .segments (ws ++ [[]]))
    (hquery : origin.query = none) (hfragment : origin.fragment = none) (h : ArePlain names)
    (hscheme : scheme? (joinWith '/' names) = none) :
    Manifest.entryUrl origin (String.ofList (joinWith '/' names)) =
      .ok (beneath origin ws (joinWith '/' names) none none) := by
  have hread := readRelative_beneath (q := none) (f := none) hweb.kind hpath hquery hfragment h.head?
    h.no_mark fun _ hq => (by cases hq)
  rw [marked, marked, List.append_nil, List.append_nil] at hread
  rw [Manifest.entryUrl, h.isAllBlank, if_neg Bool.false_ne_true, join,
    resolve_relative hweb (by rwa [h.cleaned]), h.cleaned, hread]
  exact if_pos hhttp

/-- Origins that can be used as a base. Such an origin ends in a slash, and all that is said in plain
names, be it the target of a request or an entry of a manifest, comes after it. -/
structure IsBase [Idna] (origin : Url) : Prop where
  slash : origin.path.text.getLast? = some '/'
  query : origin.query = none
  fragment : origin.fragment = none
  root : ∀ t : Http.Target, t.path = ['/'] → t.query = none → Site.locate origin t = .ok origin
  names : ∀ names, ArePlain names → ∃ u : Url,
    u.text = origin.text ++ String.ofList (joinWith '/' names) ∧
    (∀ t : Http.Target, t.path = '/' :: joinWith '/' names → t.query = none →
      Site.locate origin t = .ok u) ∧
    (scheme? (joinWith '/' names) = none →
      Manifest.resolve origin [String.ofList (joinWith '/' names)] = .ok [Request.get u])

theorem isBase_of_slash [Idna] {origin : Url} {ws : List (List Char)} (hweb : IsWeb origin)
    (hhttp : origin.isHttp = true) (hpath : origin.path = .segments (ws ++ [[]]))
    (hws : ∀ s ∈ ws, IsWritten s) (hquery : origin.query = none)
    (hfragment : origin.fragment = none) : IsBase origin where
  slash := by
    rw [hpath, text_folders]
    exact List.getLast?_concat
  query := hquery
  fragment := hfragment
  root t ht hq := by
    have hself : beneath origin ws [] none none = origin := by
      obtain ⟨scheme, authority, path, query, fragment⟩ := origin
      cases hpath
      cases hquery
      cases hfragment
      rw [beneath, readSegments_nil]
      rfl
    have hlocate := Site.locate_eq (p := []) (q := none) hweb.kind hpath hws (fun _ hc => by cases hc)
      (fun _ hc => by cases hc) fun _ hq => (by cases hq)
    rw [hself, if_pos (List.isPrefixOf_iff_prefix.mpr (List.prefix_refl _))] at hlocate
    exact Site.locate_congr ht hq hlocate
  names names h := by
    have hchars := chars_beneath hpath hweb hquery hfragment h
    have hlocate := Site.locate_eq (q := none) hweb.kind hpath hws h.head? h.lt
      fun _ hq => (by cases hq)
    rw [if_pos (List.isPrefixOf_iff_prefix.mpr (hchars ▸ List.prefix_append _ _))] at hlocate
    refine ⟨beneath origin ws (joinWith '/' names) none none, ?_, fun t ht hq =>
      Site.locate_congr ht hq hlocate, fun hscheme => Manifest.resolve_singleton
        (Manifest.entryUrl_plain hweb hhttp hpath hquery hfragment h hscheme)⟩
    rw [Url.text, hchars, String.ofList_append, Url.text]

theorem Site.locate_refuses {origin : Url} {t : Http.Target} (hweb : IsWeb origin)
    (ht : t.IsPlain) (hq : t.query = none)
    (hmarked : ¬ (origin.query = none ∧ origin.fragment = none)) :
    ∃ e, Site.locate origin t = .error e := by
  cases hlocate : Site.locate origin t with
  | error e => exact ⟨e, rfl⟩
  | ok u =>
    obtain ⟨list, hlist, hleads, rfl⟩ := Site.locate_parts hweb ht hlocate
    obtain ⟨a, ha⟩ := hweb.authority
    have hchars := chars_of_authority (u := { origin with
      path := .segments list, query := t.query.map (readQuery origin.kind), fragment := none }) ha
    rw [chars_of_authority ha, hchars, List.prefix_append_right_inj, hq] at hleads
    simp only [Option.map_none, marked, List.append_nil] at hleads
    -- one of the two signs would have to be in the path
    refine absurd ⟨?_, ?_⟩ hmarked
    · cases hquery : origin.query with
      | none => rfl
      | some text =>
        refine absurd (hleads.subset ?_) (not_mem_text (c := '?') hlist rfl)
        simp [hquery]
    · cases hfragment : origin.fragment with
      | none => rfl
      | some text =>
        refine absurd (hleads.subset ?_) (not_mem_text (c := '#') hlist rfl)
        simp [hfragment]

namespace Settings

variable {s : Settings} {origin : Url}

theorem parsed_of_originUrl [Idna] (h : s.originUrl = .ok origin) :
    ∃ text, Url.parse text = .ok origin ∧ origin.isHttp = true ∧
      text.toList.getLast? = some '/' ∧
      ('?' ∉ text.toList ∧ '#' ∉ text.toList ↔
        '?' ∉ s.cache.origin.toList ∧ '#' ∉ s.cache.origin.toList) := by
  rw [originUrl] at h
  split at h
  · cases h
  · next url hparse =>
    split at h
    · next hhttp =>
      cases h
      refine ⟨_, hparse, hhttp, ?_, ?_⟩
      · split
        · next hslash => exact hslash
        · rw [String.toList_append]
          exact List.getLast?_concat
      · split
        · rfl
        · rw [String.toList_append]
          simp
    · cases h

theorem originUrl_of_validate [Idna] (h : s.validate = .ok ()) :
    ∃ origin, s.originUrl = .ok origin := by
  rw [validate] at h
  cases ho : s.originUrl with
  | error e =>
    rw [ho] at h
    cases h
  | ok origin => exact ⟨origin, rfl⟩

/-- Settings that are valid have an origin. It can be used as a base if its text has neither of the
signs that a query and a fragment begin with; the slash that is put behind the text would be part of
them. With one of the signs the origin is refused every request that has no query. -/
theorem origin_is_base_iff [Idna] (hs : s.validate = .ok ()) :
    ∃ origin, s.originUrl = .ok origin ∧
      (IsBase origin ↔ '?' ∉ s.cache.origin.toList ∧ '#' ∉ s.cache.origin.toList) ∧
      (¬ IsBase origin → ∀ text t, Http.Target.ofString? text = some t → t.query = none →
        ∃ e, Site.locate origin t = .error e) := by
  obtain ⟨origin, ho⟩ := originUrl_of_validate hs
  obtain ⟨text, hparse, hhttp, hlast, hplain⟩ := parsed_of_originUrl ho
  have hweb := isWeb_of_parse hparse hhttp
  have hmarks := query_and_fragment_none_iff hparse hhttp
  have hbase : IsBase origin ↔ origin.query = none ∧ origin.fragment = none := by
    refine ⟨fun h => ⟨h.query, h.fragment⟩, fun h => ?_⟩
    obtain ⟨ws, hpath, hws⟩ := path_of_slash hparse hhttp hlast (hmarks.mp h)
    exact isBase_of_slash hweb hhttp hpath hws h.1 h.2
  refine ⟨origin, ho, by rw [hbase, hmarks, hplain], fun hno text' t ht hq => ?_⟩
  exact Site.locate_refuses hweb (Http.Target.isPlain_of_ofString? ht) hq (mt hbase.mpr hno)

open scoped Idna

/-- An origin with a user, a port and a folder, without a slash at its end. -/
theorem folder_is_base :
    let settings := { Settings.default with
      cache := { Settings.default.cache with origin := "http://me@assets.local:81/game" } }
    settings.validate = .ok () ∧ ∃ origin, settings.originUrl = .ok origin ∧ IsBase origin := by
  intro settings
  have hs : settings.validate = .ok () := by decide +kernel
  obtain ⟨origin, ho, hbase, _⟩ := origin_is_base_iff hs
  exact ⟨hs, origin, ho, hbase.mpr ⟨by decide +kernel, by decide +kernel⟩⟩

/-- The slash comes after the query. An entry takes the place of the folder, and the front refuses
all that the entry could be asked for with. -/
theorem origin_with_query_is_no_base :
    let settings := { Settings.default with
      cache := { Settings.default.cache with origin := "http://assets.local/game?v=1" } }
    settings.validate = .ok () ∧ ∃ origin u, settings.originUrl = .ok origin ∧ ¬ IsBase origin ∧
      Manifest.resolve origin ["app.js"] = .ok [Request.get u] ∧
      u.text = "http://assets.local/app.js" ∧
      (Site.locate origin ⟨none, none, "/app.js".toList, none⟩).isOk = false := by
  intro settings
  have ho : settings.originUrl = .ok ⟨"http".toList, some ⟨[], "assets.local".toList, none⟩,
      .segments ["game".toList], some "v=1/".toList, none⟩ := by decide +kernel
  refine ⟨by decide +kernel, _, ⟨"http".toList, some ⟨[], "assets.local".toList, none⟩,
    .segments ["app.js".toList], none, none⟩, ho, ?_, ?_, ?_, ?_⟩
  · intro hbase
    cases hbase.query
  · decide +kernel
  · decide +kernel
  · decide +kernel

end Settings

end AssetCache
