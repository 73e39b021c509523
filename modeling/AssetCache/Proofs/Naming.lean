import AssetCache.Proofs.Front
import AssetCache.Proofs.Url.Reference

namespace AssetCache

open Url

variable {origin : Url} {ws : List (List Char)} {p : List Char} {q : Option (List Char)}

namespace Http.Target

theorem lt_of_isPathChar {c : Char} (h : isPathChar c = true) : 0x20 < c.toNat := by
  simp only [isPathChar, Bool.or_eq_true, Bool.and_eq_true, beq_iff_eq, decide_eq_true_eq] at h
  omega

theorem lt_of_isQueryChar {c : Char} (h : isQueryChar c = true) : 0x20 < c.toNat := by
  simp only [isQueryChar, Bool.or_eq_true, Bool.and_eq_true, beq_iff_eq, decide_eq_true_eq] at h
  omega

theorem exists_marked (sign : Char) (cs : List Char) :
    ∃ f, cs.dropWhile (· != sign) = marked sign f := by
  cases h : cs.dropWhile (· != sign) with
  | nil => exact ⟨none, rfl⟩
  | cons c f =>
    have hc := List.head?_dropWhile_not (· != sign) cs
    rw [h] at hc
    have hc : c = sign := by simpa using hc
    exact ⟨some f, by rw [hc, marked]⟩

theorem pathAndQuery?_slash {cs path : List Char} (h : pathAndQuery? ('/' :: cs) = some (path, q)) :
    ∃ p f, cs = p ++ (marked '?' q ++ marked '#' f) ∧ path = '/' :: p ∧
      (∀ c ∈ p, isPathChar c = true) ∧ ∀ text, q = some text → ∀ c ∈ text, isQueryChar c = true := by
  obtain ⟨f, hf⟩ := exists_marked '#' cs
  have hcs : cs.takeWhile (· != '#') ++ marked '#' f = cs := by
    rw [← hf, List.takeWhile_append_dropWhile]
  rw [pathAndQuery?, List.takeWhile_cons_of_pos (by decide)] at h
  generalize cs.takeWhile (· != '#') = body at h hcs
  rw [List.takeWhile_cons_of_pos (by decide), List.dropWhile_cons_of_pos (by decide)] at h
  have hbody := List.takeWhile_append_dropWhile (p := (· != '?')) (l := body)
  obtain ⟨q', hq'⟩ := exists_marked '?' body
  rw [hq'] at h hbody
  split at h
  · cases h
  · next hpath =>
    have hp : ∀ c ∈ body.takeWhile (· != '?'), isPathChar c = true := by
      rw [Bool.not_eq_true, Bool.not_eq_false', List.all_cons, Bool.and_eq_true] at hpath
      exact List.all_eq_true.mp hpath.2
    have hsplit : cs = body.takeWhile (· != '?') ++ (marked '?' q' ++ marked '#' f) := by
      rw [← List.append_assoc, hbody, hcs]
    cases q' with
    | none =>
      cases h
      exact ⟨_, f, hsplit, rfl, hp, fun _ h => (nomatch h)⟩
    | some query =>
      rw [marked] at h
      dsimp only at h
      split at h
      · next hquery =>
        cases h
        refine ⟨_, f, hsplit, rfl, hp, fun text htext => ?_⟩
        cases htext
        exact List.all_eq_true.mp hquery
      · cases h

theorem ofString?_slash {e : String} {t : Target} (h : ofString? ("/" ++ e) = some t) :
    ∃ p q f, e.toList = p ++ (marked '?' q ++ marked '#' f) ∧ t = ⟨none, none, '/' :: p, q⟩ ∧
      (∀ c ∈ p, isPathChar c = true) ∧ ∀ text, q = some text → ∀ c ∈ text, isQueryChar c = true := by
  have hcs : ("/" ++ e).toList = '/' :: e.toList := by
    rw [String.toList_append]
    rfl
  rw [ofString?] at h
  split at h
  · cases h
  · rw [hcs, ofChars?.eq_def] at h
    have hrooted : rooted none none ('/' :: e.toList) = some t := h
    rw [rooted, Option.map_eq_some_iff] at hrooted
    obtain ⟨⟨path, q⟩, hparts, rfl⟩ := hrooted
    obtain ⟨p, f, he, rfl, hp, hq⟩ := pathAndQuery?_slash hparts
    exact ⟨p, q, f, he, rfl, hp, hq⟩

end Http.Target

theorem withPath_beneath (hkind : origin.kind = .special)
    (hpath : origin.path = .segments (ws ++ [[]])) (hws : ∀ s ∈ ws, IsWritten s)
    (hp : ∀ c ∈ p, 0x20 < c.toNat) (hq : ∀ text, q = some text → ∀ c ∈ text, 0x20 < c.toNat) :
    ((origin.withPath (origin.path.text ++ p)).withQuery q).withoutFragment =
      beneath origin ws p q none := by
  have htext : ∀ c ∈ origin.path.text ++ p, 0x20 < c.toNat := by
    intro c hc
    rcases List.mem_append.mp hc with hc | hc
    · rw [hpath] at hc
      cases mem_text hws hc with
      | inl hslash =>
        rw [hslash]
        decide
      | inr hplain => exact lt_of_not_inPathSet hplain
    · exact hp c hc
  have hpath' : origin.withPath (origin.path.text ++ p) =
      { origin with path := readSegments .special ws p } := by
    rw [withPath.eq_def, hpath]
    dsimp only
    rw [← hpath, filter_isTabOrNewline htext, hkind, hpath, readPath_append hws]
  have hquery : (q.map fun q => readQuery origin.kind (q.filter (!isTabOrNewline ·))) =
      q.map (readQuery .special) := by
    cases q with
    | none => rfl
    | some text => rw [Option.map_some, Option.map_some, filter_isTabOrNewline (hq text rfl), hkind]
  have hkind' : ({ origin with path := readSegments .special ws p } : Url).kind = origin.kind := rfl
  rw [hpath', withQuery, hkind', hquery, beneath, readSegments_special]
  rfl

theorem Site.locate_eq (hkind : origin.kind = .special)
    (hpath : origin.path = .segments (ws ++ [[]])) (hws : ∀ s ∈ ws, IsWritten s)
    (hfirst : ∀ c, p.head? = some c → c ≠ '/' ∧ c ≠ '\\')
    (hp : ∀ c ∈ p, 0x20 < c.toNat) (hq : ∀ text, q = some text → ∀ c ∈ text, 0x20 < c.toNat) :
    Site.locate origin ⟨none, none, '/' :: p, q⟩ =
      if origin.chars.isPrefixOf (beneath origin ws p q none).chars then
        .ok (beneath origin ws p q none)
      else
        .error (.invalidRequest
          ((⟨none, none, '/' :: p, q⟩ : Http.Target).text ++ " resolves outside of " ++
            origin.text)) := by
  have hdrop : ('/' :: p).dropWhile (· == '/') = p := by
    rw [List.dropWhile_cons_of_pos (by decide)]
    cases p with
    | nil => rfl
    | cons c p => exact List.dropWhile_cons_of_neg (by simpa using (hfirst c rfl).1)
  simp only [Site.locate, hdrop, withPath_beneath hkind hpath hws hp hq]

theorem Manifest.entryUrl_eq [Idna] {e : String} {f : Option (List Char)} (hweb : IsWeb origin)
    (hhttp : origin.isHttp = true) (hpath : origin.path = .segments (ws ++ [[]]))
    (hquery : origin.query = none) (hfragment : origin.fragment = none)
    (hblank : Text.isAllBlank e = false) (hscheme : scheme? e.toList = none)
    (he : e.toList = p ++ (marked '?' q ++ marked '#' f))
    (hfirst : ∀ c, p.head? = some c → c ≠ '/' ∧ c ≠ '\\')
    (hp : ∀ c ∈ p, 0x20 < c.toNat ∧ c ≠ '?' ∧ c ≠ '#')
    (hq : ∀ text, q = some text → ∀ c ∈ text, 0x20 < c.toNat ∧ c ≠ '#') :
    ∃ f', Manifest.entryUrl origin e = .ok (beneath origin ws p q f') := by
  have hbody : ∀ c ∈ p ++ marked '?' q, 0x20 < c.toNat := by
    intro c hc
    rcases List.mem_append.mp hc with hc | hc
    · exact (hp c hc).1
    · cases q with
      | none => cases hc
      | some text =>
        rcases List.mem_cons.mp hc with rfl | hc
        · decide
        · exact (hq text rfl c hc).1
  rw [← List.append_assoc] at he
  obtain ⟨f', hf'⟩ := cleaned_marked he hbody
  have hnone : scheme? (cleaned e) = none := by
    rw [hf', scheme?_marked]
    rwa [he, scheme?_marked] at hscheme
  have hread := readRelative_beneath (f := f') hweb.kind hpath hquery hfragment hfirst
    (fun c hc => (hp c hc).2) fun text htext hmem => (hq text htext '#' hmem).2 rfl
  refine ⟨f', ?_⟩
  rw [Manifest.entryUrl, hblank, if_neg Bool.false_ne_true, join, resolve_relative hweb hnone, hf',
    List.append_assoc, hread]
  exact if_pos hhttp

theorem isPrefix_chars_beneath {f : Option (List Char)} (hweb : IsWeb origin)
    (hpath : origin.path = .segments (ws ++ [[]])) (hws : ∀ s ∈ ws, IsWritten s)
    (hquery : origin.query = none) (hfragment : origin.fragment = none) :
    origin.chars <+: (beneath origin ws p q f).chars ↔
      origin.chars <+: (beneath origin ws p q none).chars := by
  obtain ⟨a, ha⟩ := hweb.authority
  have hhash : '#' ∉ origin.path.text := by
    intro h
    rw [hpath] at h
    cases mem_text hws h with
    | inl h => exact absurd h (by decide)
    | inr h => exact absurd h (by decide)
  have horigin : origin.chars =
      (origin.scheme ++ ':' :: '/' :: '/' :: a.text) ++ origin.path.text := by
    rw [chars_of_authority ha, hquery, hfragment, marked, marked, List.append_nil, List.append_nil]
  have hbeneath : ∀ f, origin.chars <+: (beneath origin ws p q f).chars ↔
      origin.path.text <+:
        (readSegments .special ws p).text ++ marked '?' (q.map (readQuery .special)) := by
    intro f
    rw [horigin, chars_of_authority (u := beneath origin ws p q f) ha, beneath,
      List.prefix_append_right_inj, isPrefix_append_marked hhash]
  rw [hbeneath, hbeneath]

/-- What the address of an origin is like: web addresses are resolved beneath its path. -/
structure IsOrigin [Idna] (origin : Url) : Prop where
  parsed : ∃ text, Url.parse text = .ok origin
  http : origin.isHttp = true
  slash : origin.path.text.getLast? = some '/'
  query : origin.query = none
  fragment : origin.fragment = none

/-- An entry that is a relative reference, and the target that it makes after a slash. -/
structure IsRelative (e : String) (t : Http.Target) : Prop where
  blank : Text.isAllBlank e = false
  first : e.toList.head? ≠ some '/' ∧ e.toList.head? ≠ some '\\'
  scheme : scheme? e.toList = none
  target : Http.Target.ofString? ("/" ++ e) = some t

theorem exists_beneath [Idna] {e : String} {t : Http.Target} (ho : IsOrigin origin)
    (he : IsRelative e t) :
    ∃ url fragment, Manifest.entryUrl origin e = .ok { url with fragment } ∧
      (Site.locate origin t = .ok url ∧ origin.chars <+: { url with fragment }.chars ∨
        (∃ error, Site.locate origin t = .error error) ∧
          ¬ origin.chars <+: { url with fragment }.chars) := by
  obtain ⟨⟨text, horigin⟩, hhttp, hslash, hquery, hfragment⟩ := ho
  obtain ⟨hblank, hfirst, hscheme, ht⟩ := he
  have hweb := isWeb_of_parse horigin hhttp
  obtain ⟨list, hlist, hne, hwritten⟩ := hweb.path
  obtain ⟨ws, rfl⟩ := eq_append_nil_of_text hne hwritten (hlist ▸ hslash)
  have hws : ∀ s ∈ ws, IsWritten s := fun s hs => hwritten s (List.mem_append_left _ hs)
  obtain ⟨p, q, f, he, rfl, hp, hq⟩ := Http.Target.ofString?_slash ht
  have hfirst' : ∀ c, p.head? = some c → c ≠ '/' ∧ c ≠ '\\' := by
    intro c hc
    have hhead : e.toList.head? = some c := by rw [he, List.head?_append, hc, Option.some_or]
    rw [hhead] at hfirst
    exact ⟨fun h => hfirst.1 (h ▸ rfl), fun h => hfirst.2 (h ▸ rfl)⟩
  have hp' : ∀ c ∈ p, 0x20 < c.toNat ∧ c ≠ '?' ∧ c ≠ '#' := by
    intro c hc
    refine ⟨Http.Target.lt_of_isPathChar (hp c hc), ?_, ?_⟩
    · rintro rfl
      exact absurd (hp _ hc) (by decide)
    · rintro rfl
      exact absurd (hp _ hc) (by decide)
  have hq' : ∀ text, q = some text → ∀ c ∈ text, 0x20 < c.toNat ∧ c ≠ '#' := by
    intro text htext c hc
    refine ⟨Http.Target.lt_of_isQueryChar (hq text htext c hc), ?_⟩
    rintro rfl
    exact absurd (hq text htext _ hc) (by decide)
  obtain ⟨f', hentry⟩ := Manifest.entryUrl_eq hweb hhttp hlist hquery hfragment hblank hscheme he
    hfirst' hp' hq'
  have hlocate := Site.locate_eq hweb.kind hlist hws hfirst' (fun c hc => (hp' c hc).1)
    fun text htext c hc => (hq' text htext c hc).1
  have hunder := isPrefix_chars_beneath (p := p) (q := q) (f := f') hweb hlist hws hquery hfragment
  refine ⟨beneath origin ws p q none, f'.map readFragment, hentry, ?_⟩
  by_cases h : origin.chars <+: (beneath origin ws p q none).chars
  · rw [if_pos (List.isPrefixOf_iff_prefix.mpr h)] at hlocate
    exact .inl ⟨hlocate, hunder.mpr h⟩
  · rw [if_neg fun h' => h (List.isPrefixOf_iff_prefix.mp h')] at hlocate
    exact .inr ⟨⟨_, hlocate⟩, fun h' => h (hunder.mp h')⟩

theorem Scene.fetch_of_entry [Idna] {m : Manager} {s : Scene} {net₀ net : Network} {capacity : Nat}
    {e : String} {url : Url} {fragment : Option (List Char)} (hm : m.store.Sound)
    (he : e ∈ m.manifest) (hentry : Manifest.entryUrl m.origin e = .ok { url with fragment })
    (hs : (Scene.begin ⟨m.origin, .begin capacity m⟩ net₀).Reaches s)
    (hnet : s.latest = some net) :
    ∃ response, (net (Request.get { url with fragment })).outcome = .response response ∧
      ∀ r : Http.Inbound, r.method = .get → ∀ now,
        s.manager.fetch now (Site.request r url) = (some (.ok response), s.manager.countHit) := by
  obtain ⟨requests, h, hr, -, hh, hresponses⟩ := Scene.serves_of_reaches hm hs hnet
  obtain ⟨response, ho, hget⟩ := hresponses _ (Manifest.get_mem_resolve hr he hentry)
  refine ⟨response, ho, fun r hmethod now => Manager.fetch_of_stored hh ?_⟩
  rw [Request.get, Manager.key_withFragment] at hget
  rw [Request.key, Site.request, hmethod]
  exact hget

/-- An entry that is not rooted names what the target of the same text names: if the target leads
beneath the origin it has the key of the entry's request, and it leads elsewhere just if the entry
does. Once an install has succeeded a GET for it is answered from the bucket; the targets of the two
pages about the cache itself are the only ones left out. -/
theorem front_agrees_with_manifest [Idna] {e : String} {t : Http.Target} (ho : IsOrigin origin)
    (he : IsRelative e t) :
    ∃ url, Manifest.resolve origin [e] = .ok [Request.get url] ∧
      (∀ v, Site.locate origin t = .ok v → (Request.get url).key = Key.of .get v) ∧
      ((∃ error, Site.locate origin t = .error error) ↔ ¬ origin.chars <+: url.chars) ∧
      ∀ v, Site.locate origin t = .ok v →
        ∀ (m : Manager) capacity net₀ net (s : Scene), m.store.Sound → m.origin = origin →
          e ∈ m.manifest → (Scene.begin ⟨origin, .begin capacity m⟩ net₀).Reaches s →
          s.latest = some net →
          ∃ response, (net (Request.get url)).outcome = .response response ∧
            ∀ r : Http.Inbound, r.method = .get → r.target = t → ∀ now,
              s.manager.fetch now (Site.request r v) = (some (.ok response), s.manager.countHit) ∧
              (r.body.size ≤ Site.bodyLimit → t.path ≠ "/_precache/health".toList →
                t.path ≠ "/_precache/metrics".toList → s.site.dispatcher.Idle →
                s.site.dispatcher.running = true → ∀ c, ∃ page site,
                  s.site.answer (Manager.worker now) r c = (page, site) ∧
                  page.status = (Site.pageOf response).status ∧
                  page.body = (Site.pageOf response).body ∧
                  site.manager = s.manager.countHit) := by
  obtain ⟨url, fragment, hentry, hlocate⟩ := exists_beneath ho he
  have hkey := Manager.key_withFragment url fragment [] none
  have hunique : ∀ v, Site.locate origin t = .ok v → url = v := by
    intro v hv
    rcases hlocate with ⟨hurl, -⟩ | ⟨⟨error, herror⟩, -⟩
    · cases hurl.symm.trans hv
      rfl
    · cases herror.symm.trans hv
  refine ⟨{ url with fragment }, Manifest.resolve_singleton hentry, ?_, ?_, ?_⟩
  · intro v hv
    cases hunique v hv
    exact hkey
  · rcases hlocate with ⟨hurl, hunder⟩ | ⟨herror, hunder⟩
    · refine ⟨fun ⟨error, herror⟩ => ?_, fun h => absurd hunder h⟩
      cases hurl.symm.trans herror
    · exact ⟨fun _ => hunder, fun _ => herror⟩
  · intro v hv m capacity net₀ net s hm hmorigin hmember hs hnet
    cases hunique v hv
    subst hmorigin
    obtain ⟨response, hresponse, hfetch⟩ := Scene.fetch_of_entry hm hmember hentry hs hnet
    refine ⟨response, hresponse, fun r hmethod htarget now => ⟨hfetch r hmethod now, ?_⟩⟩
    intro hbody hhealth hmetrics hi hrunning c
    subst htarget
    have hsite : s.site.origin = m.origin := hs.origin
    obtain ⟨hstatus, hpage, hafter⟩ := Site.answer_of_fetch c hi hrunning hbody (hsite ▸ hv)
      hhealth hmetrics (fun headers => hfetch { r with headers } hmethod now)
    exact ⟨_, s.site.afterHit, Prod.ext rfl hafter, hstatus, hpage, rfl⟩

open scoped Idna

/-- An entry with a dot segment, a query and a fragment. -/
theorem front_agrees_on_page :
    let net : Network := fun _ => ⟨0, .response ⟨200, [], .empty⟩⟩
    let origin : Url :=
      ⟨"http".toList, some ⟨[], "a".toList, none⟩, .segments ["game".toList, []], none, none⟩
    let t : Http.Target := ⟨none, none, "/./page".toList, some "q=1".toList⟩
    ∃ url v, Manifest.resolve origin ["./page?q=1#top"] = .ok [Request.get url] ∧
      Site.locate origin t = .ok v ∧ (Request.get url).key = Key.of .get v ∧
      ∃ s : Scene, s.latest.isSome ∧ ∃ page site,
        s.site.answer (Manager.worker net) ⟨.get, t, [], .empty⟩ ⟨"id", "now"⟩ = (page, site) ∧
        site.manager = s.manager.countHit := by
  intro net origin t
  have ho : IsOrigin origin :=
    ⟨⟨"http://a/game/", by decide +kernel⟩, by decide, by decide, rfl, rfl⟩
  have he : IsRelative "./page?q=1#top" t :=
    ⟨by decide, by decide, by decide, by decide +kernel⟩
  obtain ⟨url, hresolve, hkey, -, hhit⟩ := front_agrees_with_manifest ho he
  have hv : Site.locate origin t = .ok ⟨"http".toList, some ⟨[], "a".toList, none⟩,
      .segments ["game".toList, "page".toList], some "q=1".toList, none⟩ := by decide +kernel
  have hok : (Manager.install net
      (.begin "assets" ["./page?q=1#top"] origin (.begin none .empty))).1 = some (.ok ()) := by
    decide +kernel
  generalize hm : Manager.begin "assets" ["./page?q=1#top"] origin (.begin none .empty) = m at hok
  have hsound : m.store.Sound := by
    rw [← hm]
    exact Store.sound_begin none Disk.isTree_empty
  have hmember : "./page?q=1#top" ∈ m.manifest := by
    rw [← hm]
    exact List.mem_cons_self
  have hmorigin : m.origin = origin := by
    rw [← hm]
    rfl
  have hs := Scene.reaches_install (s := Scene.begin ⟨origin, .begin 1 m⟩ net) hok
  obtain ⟨response, -, hanswer⟩ := hhit _ hv m 1 net net _ hsound hmorigin hmember hs rfl
  obtain ⟨page, site, hpage, -, -, hmanager⟩ := (hanswer ⟨.get, t, [], .empty⟩ rfl rfl net).2
    (Nat.zero_le _) (by decide) (by decide) ⟨rfl, rfl, rfl⟩ rfl ⟨"id", "now"⟩
  exact ⟨url, _, hresolve, hv, hkey _ hv, _, rfl, page, site, hpage, hmanager⟩

/-- An entry under the name of a page about the cache is installed, and never served. -/
theorem page_in_place_of_entry :
    let net : Network := fun _ => ⟨0, .response ⟨200, [], .empty⟩⟩
    let origin : Url :=
      ⟨"http".toList, some ⟨[], "assets.local".toList, none⟩, .segments [[]], none, none⟩
    let e := "_precache/health"
    let t : Http.Target := ⟨none, none, "/_precache/health".toList, none⟩
    let installed := Manager.install net (.begin "assets" [e] origin (.begin none .empty))
    IsOrigin origin ∧ IsRelative e t ∧
      (Site.locate origin t).isOk = true ∧ installed.1 = some (.ok ()) ∧
      (Site.answer (Manager.worker net) ⟨origin, .begin 1 installed.2⟩ ⟨.get, t, [], .empty⟩
        ⟨"id", "now"⟩).2.manager.stats.hits = 0 := by
  refine ⟨⟨⟨"http://assets.local/", by decide +kernel⟩, by decide, by decide, rfl, rfl⟩,
    ⟨by decide, by decide, by decide, by decide +kernel⟩, ?_⟩
  decide +kernel

end AssetCache
