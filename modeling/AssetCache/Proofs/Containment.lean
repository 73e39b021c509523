import AssetCache.Proofs.Naming
import AssetCache.Proofs.Url.Percent
import AssetCache.Settings.Basic

namespace AssetCache

open Url

namespace Http.Target

variable {t : Target} {cs path : List Char} {q : Option (List Char)}

structure IsPlain (t : Target) : Prop where
  path : ∀ c ∈ t.path, 0x20 < c.toNat
  query : ∀ q, t.query = some q → ∀ c ∈ q, 0x20 < c.toNat

theorem pathAndQuery?_chars (h : pathAndQuery? cs = some (path, q)) :
    (∀ c ∈ path, 0x20 < c.toNat) ∧ ∀ text, q = some text → ∀ c ∈ text, 0x20 < c.toNat := by
  rw [pathAndQuery?] at h
  split at h
  · cases h
  · next hpath =>
    rw [Bool.not_eq_true, Bool.not_eq_false'] at hpath
    have hpath := fun c hc => lt_of_isPathChar (List.all_eq_true.mp hpath c hc)
    split at h
    · cases h
      exact ⟨hpath, fun _ h => (nomatch h)⟩
    · split at h
      · next hquery =>
        cases h
        refine ⟨hpath, fun text htext c hc => ?_⟩
        cases htext
        exact lt_of_isQueryChar (List.all_eq_true.mp hquery c hc)
      · cases h

theorem isPlain_rooted {scheme authority : Option (List Char)}
    (h : rooted scheme authority cs = some t) : t.IsPlain := by
  rw [rooted, Option.map_eq_some_iff] at h
  obtain ⟨⟨path, q⟩, hparts, rfl⟩ := h
  obtain ⟨hpath, hquery⟩ := pathAndQuery?_chars hparts
  refine ⟨fun c hc => ?_, hquery⟩
  dsimp only at hc
  split at hc
  · rw [List.mem_singleton.mp hc]
    decide
  · exact hpath c hc

theorem isPlain_of_ofString? {text : String} (h : ofString? text = some t) : t.IsPlain := by
  rw [ofString?] at h
  split at h
  · cases h
  · rw [ofChars?.eq_def] at h
    split at h
    · cases h
    · cases h
      exact ⟨List.forall_mem_singleton.mpr (by decide), fun _ h => (by cases h)⟩
    · exact isPlain_rooted h
    · split at h
      · cases h
      · split at h
        · cases h
          exact ⟨fun _ h => (by cases h), fun _ h => (by cases h)⟩
        · cases h
      · split at h
        · cases h
        · cases h
        · exact isPlain_rooted h

end Http.Target

namespace Url

variable {origin u : Url} {list : List (List Char)} {s : List Char}

def isSeparator (c : Char) : Bool := c == '/' || c == '\\'

/-- `u` lies beneath the origin and asks for `query` there, and no reader who works off the dots in
its path, written in whatever way, is led elsewhere. -/
structure Under (origin : Url) (query : Option (List Char)) (u : Url) : Prop where
  scheme : u.scheme = origin.scheme
  authority : u.authority = origin.authority
  path : origin.path.text <+: u.path.text
  dots : ∀ s ∈ u.path.text.splitOnP isSeparator,
    unescape s ≠ [0x2e] ∧ unescape s ≠ [0x2e, 0x2e]
  query : u.query.map unescape = query.map unescape
  fragment : u.fragment = none

theorem splitOnP_segments (hlist : ∀ s ∈ list, IsWritten s) (hs : IsWritten s) :
    (s ++ (UrlPath.segments list).text).splitOnP isSeparator = s :: list := by
  have hplain : ∀ s, IsWritten s → ∀ c ∈ s, isSeparator c = false := fun s hs c hc =>
    (hs.plain c hc).2
  induction list generalizing s with
  | nil =>
    rw [UrlPath.text, List.flatMap_nil, List.append_nil]
    exact List.splitOnP_eq_singleton (hplain s hs)
  | cons s' list ih =>
    rw [UrlPath.text, List.flatMap_cons, List.cons_append,
      List.splitOnP_append_cons_of_forall_mem (hplain s hs) '/' (by decide)]
    exact congrArg (s :: ·) (ih (fun s hs => hlist s (List.mem_cons_of_mem _ hs))
      (hlist s' List.mem_cons_self))

theorem unescape_readQuery (kind : SchemeKind) (q : List Char) :
    unescape (readQuery kind q) = unescape q := by
  refine unescape_escape (by cases kind <;> decide) (fun c hc => ?_) q
  obtain ⟨n, hn⟩ := Option.isSome_iff_exists.mp hc
  have hval := toNat_of_hexValue hn
  have hne : ∀ d : Char, d.toNat < 48 ∨ 57 < d.toNat ∧ d.toNat < 65 ∨ 102 < d.toNat →
      (c == d) = false := by
    intro d hd
    refine beq_false_of_ne fun h => ?_
    subst h
    omega
  have hcontrols : inControls c = false := by
    simp only [inControls, Bool.or_eq_false_iff, decide_eq_false_iff_not]
    omega
  simp only [inQuerySet, hcontrols, hne ' ' (by decide), hne '"' (by decide), hne '#' (by decide),
    hne '<' (by decide), hne '>' (by decide), hne '\'' (by decide), Bool.and_false, Bool.or_false]

end Url

namespace Site

variable {origin u : Url} {t : Http.Target}

theorem locate_parts (hweb : IsWeb origin) (ht : t.IsPlain) (h : locate origin t = .ok u) :
    ∃ list, (∀ s ∈ list, IsWritten s) ∧ origin.chars <+: u.chars ∧
      u = { origin with
        path := .segments list
        query := t.query.map (readQuery origin.kind)
        fragment := none } := by
  obtain ⟨folders, hpath, -, -⟩ := hweb.path
  rw [locate] at h
  generalize origin.path.text ++ t.path.dropWhile (· == '/') = path at h
  obtain ⟨list, hlist, -, hwritten⟩ := readPath_special (path.filter (!isTabOrNewline ·))
  have hread : origin.withPath path = { origin with path := .segments list } := by
    rw [withPath.eq_def, hpath]
    dsimp only
    rw [hweb.kind, hlist]
  have hquery : (t.query.map fun q => readQuery origin.kind (q.filter (!isTabOrNewline ·))) =
      t.query.map (readQuery origin.kind) := by
    cases hq : t.query with
    | none => rfl
    | some q => rw [Option.map_some, Option.map_some, filter_isTabOrNewline (ht.query q hq)]
  have hurl : ((origin.withPath path).withQuery t.query).withoutFragment = { origin with
      path := .segments list
      query := t.query.map (readQuery origin.kind)
      fragment := none } := by
    rw [hread, ← hquery]
    rfl
  rw [hurl] at h
  split at h
  · next hprefix =>
    cases h
    exact ⟨list, hwritten, List.isPrefixOf_iff_prefix.mp hprefix, rfl⟩
  · cases h

theorem locate_under (hweb : IsWeb origin) (ht : t.IsPlain) (h : locate origin t = .ok u) :
    Under origin t.query u := by
  obtain ⟨list, hlist, hprefix, rfl⟩ := locate_parts hweb ht h
  obtain ⟨a, ha⟩ := hweb.authority
  obtain ⟨folders, hpath, -, hfolders⟩ := hweb.path
  have hmark : '?' ∉ origin.path.text := hpath ▸ not_mem_text hfolders rfl
  have hchars := chars_of_authority (u := { origin with
    path := .segments list, query := t.query.map (readQuery origin.kind), fragment := none }) ha
  refine ⟨rfl, rfl, ?_, fun s hs => ?_, ?_, rfl⟩
  · rw [chars_of_authority ha, hchars, List.prefix_append_right_inj, List.append_assoc, marked,
      List.append_nil] at hprefix
    exact (isPrefix_append_marked hmark).mp ((List.prefix_append _ _).trans hprefix)
  · have hsplit : (UrlPath.segments list).text.splitOnP isSeparator = [] :: list :=
      splitOnP_segments hlist isWritten_nil
    rw [hsplit] at hs
    have hwritten : IsWritten s := by
      obtain rfl | hs := List.mem_cons.mp hs
      · exact isWritten_nil
      · exact hlist s hs
    refine ⟨fun hdot => ?_, fun hdots => ?_⟩
    · exact absurd (isSingleDot_of_unescape hdot) (by rw [hwritten.single]; decide)
    · exact absurd (isDoubleDot_of_unescape hdots) (by rw [hwritten.double]; decide)
  · cases t.query with
    | none => rfl
    | some q => exact congrArg some (unescape_readQuery _ q)

end Site

theorem Settings.isWeb_of_originUrl [Idna] {s : Settings} {origin : Url}
    (h : s.originUrl = .ok origin) :
    IsWeb origin := by
  rw [originUrl] at h
  split at h
  · cases h
  · next url hparse =>
    split at h
    · next hhttp =>
      cases h
      exact isWeb_of_parse hparse hhttp
    · cases h

/-- Two stores that only differ in what their buckets hold under other keys than `k`. -/
structure Store.AgreeAt (k : Key) (s s' : Store) : Prop where
  home : s'.home = s.home
  registry : s'.registry = s.registry
  names : s'.buckets.map (·.name) = s.buckets.map (·.name)
  disk : s'.disk = s.disk
  entries : ∀ h, (s'.entries h).get? k = (s.entries h).get? k

namespace Store.AgreeAt

variable {s s' : Store} {k : Key}

theorem load (hs : AgreeAt k s s') (name : String) :
    ∃ d result, s.load name = (result, { s with disk := d }) ∧
      s'.load name = (result, { s' with disk := d }) := by
  obtain ⟨home, registry, buckets, disk⟩ := s
  obtain ⟨home', registry', buckets', disk'⟩ := s'
  obtain ⟨hhome, -, -, hdisk, -⟩ := hs
  cases hhome
  cases hdisk
  simp only [Store.load]
  cases home with
  | none => exact ⟨disk, _, rfl, rfl⟩
  | some home =>
    dsimp only
    generalize disk.exists? (Snapshot.path home name) = looked
    obtain ⟨e | there, d⟩ := looked
    · exact ⟨d, _, rfl, rfl⟩
    · cases there with
      | false => exact ⟨d, _, rfl, rfl⟩
      | true =>
        dsimp only
        generalize d.read (Snapshot.path home name) = got
        obtain ⟨e | bytes, d'⟩ := got
        · exact ⟨d', _, rfl, rfl⟩
        · exact ⟨d', _, rfl, rfl⟩

theorem register (hs : AgreeAt k s s') (name : String) (entries : Entries) :
    (s.register name entries).1 = (s'.register name entries).1 ∧
      AgreeAt k (s.register name entries).2 (s'.register name entries).2 := by
  have hlength : s'.buckets.length = s.buckets.length := by
    have hnames := congrArg List.length hs.names
    rwa [List.length_map, List.length_map] at hnames
  refine ⟨hlength.symm, hs.home, ?_, ?_, hs.disk, fun h => ?_⟩
  · exact congrArg₂ (fun h registry => (name, h) :: registry) hlength hs.registry
  · simp only [Store.register, List.map_append, hs.names]
  · have hentries := hs.entries h
    simp only [Store.entries] at hentries
    simp only [Store.entries, Store.register]
    by_cases hh : h < s.buckets.length
    · rw [List.getElem?_append_left hh, List.getElem?_append_left (hlength ▸ hh)]
      exact hentries
    · have hle : s.buckets.length ≤ h := Nat.not_lt.mp hh
      rw [List.getElem?_append_right hle, List.getElem?_append_right (hlength ▸ hle), hlength]

theorem openBucket (hs : AgreeAt k s s') (name : String) :
    (s.openBucket name).1 = (s'.openBucket name).1 ∧
      AgreeAt k (s.openBucket name).2 (s'.openBucket name).2 := by
  rw [Store.openBucket, Store.openBucket, hs.registry]
  cases s.registry.lookup name with
  | some h => exact ⟨rfl, hs⟩
  | none =>
    obtain ⟨d, result, hload, hload'⟩ := hs.load name
    have hs' : AgreeAt k { s with disk := d } { s' with disk := d } :=
      ⟨hs.home, hs.registry, hs.names, rfl, hs.entries⟩
    rw [hload, hload']
    cases result with
    | error e => exact ⟨rfl, hs'⟩
    | ok entries =>
      obtain ⟨hh, hregistered⟩ := hs'.register name entries
      exact ⟨congrArg Except.ok hh, hregistered⟩

end Store.AgreeAt

namespace Manager

variable {k : Key}

def AgreeAt (k : Key) (m m' : Manager) : Prop :=
  ∃ store, m' = { m with store } ∧ m.store.AgreeAt k store

theorem fetchTask_respects (net : Network) (r : Request) :
    (fetchTask net r).Respects (AgreeAt r.key) := by
  refine ⟨?_, fun opened => ?_⟩
  · rintro m _ ⟨store, rfl, hs⟩
    obtain ⟨hh, hstore⟩ := hs.openBucket m.name
    exact ⟨hh, _, rfl, hstore⟩
  cases opened with
  | error e => trivial
  | ok h =>
    refine ⟨?_, fun found => ?_⟩
    · rintro m _ ⟨store, rfl, hs⟩
      exact ⟨(hs.entries h).symm, store, rfl, hs⟩
    cases found with
    | some response =>
      refine ⟨?_, fun _ => trivial⟩
      rintro m _ ⟨store, rfl, hs⟩
      exact ⟨rfl, store, rfl, hs⟩
    | none =>
      refine ⟨?_, fun _ => Task.Respects.waits ?_ _⟩
      · rintro m _ ⟨store, rfl, hs⟩
        exact ⟨rfl, store, rfl, hs⟩
      · cases (net r).outcome with
        | crash => trivial
        | response response =>
          refine ⟨?_, fun _ => trivial⟩
          rintro m _ ⟨store, rfl, hs⟩
          exact ⟨rfl, store, rfl, hs⟩
        | failure e =>
          refine ⟨?_, fun _ => trivial⟩
          rintro m _ ⟨store, rfl, hs⟩
          exact ⟨rfl, store, rfl, hs⟩

theorem fetchTask_calls (net : Network) (r : Request) :
    (fetchTask net r).Keeps (fun m m' => m'.calls = m.calls ∨ m'.calls = r :: m.calls)
      fun _ => True := by
  refine fun m => ⟨.inl rfl, ?_⟩
  cases m.bucket.1 with
  | error e => trivial
  | ok h =>
    refine fun m => ⟨.inl rfl, ?_⟩
    dsimp only
    cases (m.entries h).get? r.key with
    | some response => exact fun m => ⟨.inl rfl, trivial⟩
    | none =>
      refine fun m => ⟨.inr rfl, Task.Keeps.waits ?_ _⟩
      cases (net r).outcome with
      | crash => trivial
      | response response => exact fun m => ⟨.inl rfl, trivial⟩
      | failure e => exact fun m => ⟨.inl rfl, trivial⟩

end Manager

namespace Site

variable {s : Site} {r : Http.Inbound} {net : Network}

theorem calls_of_idle [Idna] (hi : s.dispatcher.Idle) (q : Request) :
    ∀ call ∈ (s.dispatcher.fetch (Manager.worker net) q).2.shared.calls,
      call ∈ s.manager.calls ∨ call = q := by
  rw [Dispatcher.fetch_idle _ hi]
  split
  · have hkeeps : (Manager.fetchTask net q).Keeps
        (fun m m' => ∀ call ∈ m'.calls, call ∈ m.calls ∨ call = q) fun _ => True := by
      refine (Manager.fetchTask_calls net q).mono (fun m m' h call hc => ?_) fun _ h => h
      obtain h | h := h
      · exact .inl (h ▸ hc)
      · rw [h] at hc
        exact (List.mem_cons.mp hc).symm
    refine (hkeeps.run (fun m call hc => .inl hc) (fun m m' m'' h h' call hc => ?_) _).1
    obtain hc | hc := h' call hc
    · exact h call hc
    · exact .inr hc
  · exact fun call hc => .inl hc

def ownPages : List (List Char) :=
  ["/_precache/health".toList, "/_precache/metrics".toList]

/-- The worker was sent nothing, and of the manager no more than a bucket was opened. -/
structure Unasked (s s' : Site) : Prop where
  origin : s'.origin = s.origin
  dispatcher : s'.dispatcher = { s.dispatcher with shared := s'.manager }
  manager : s'.manager = { s.manager with store := s'.manager.store }
  store : s.manager.store.Sound → s.manager.store.Same s'.manager.store

theorem Unasked.refl (s : Site) : s.Unasked s := ⟨rfl, rfl, rfl, fun _ => .refl _⟩

theorem health_site (s : Site) (time : String) :
    (s.health time).2 = s.withManager s.manager.bucket.2 := by
  rw [health]
  generalize s.manager.bucket = opened
  obtain ⟨e | h, m⟩ := opened <;> rfl

theorem unasked_health (s : Site) (time : String) : s.Unasked (s.health time).2 := by
  have hsame := fun hs => (Store.openBucket_same (s := s.manager.store) hs s.manager.name).1
  rw [health_site]
  exact ⟨rfl, rfl, rfl, hsame⟩

theorem readOnly_cases (r : Http.Inbound) (page : Unit → Http.Page × Site) (s : Site) :
    (readOnly r page s).2 = s ∨ (readOnly r page s).2 = (page ()).2 := by
  rw [readOnly]
  split
  · exact .inr rfl
  · split
    · exact .inr rfl
    · exact .inl rfl

theorem forward_cases (w : Worker Manager) (s : Site) (r : Http.Inbound) :
    ((bodyLimit < r.body.size ∨ ∃ e, locate s.origin r.target = .error e) ∧
      (s.forward w r).2 = s) ∨
    ∃ u, locate s.origin r.target = .ok u ∧
      (s.forward w r).2 = { s with dispatcher := (s.dispatcher.fetch w (request r u)).2 } := by
  rw [forward]
  split
  · next hsize => exact .inl ⟨.inl hsize, rfl⟩
  · split
    · next e he => exact .inl ⟨.inr ⟨e, he⟩, rfl⟩
    · next u hu =>
      refine .inr ⟨u, hu, ?_⟩
      generalize s.dispatcher.fetch w (request r u) = done
      obtain ⟨e | response, d⟩ := done
      · rfl
      · dsimp only
        split <;> rfl

theorem answer_cases (w : Worker Manager) (s : Site) (r : Http.Inbound) (c : Circumstances) :
    (r.target.path ∈ ownPages ∧
      ((s.answer w r c).2 = s ∨ (s.answer w r c).2 = (s.health c.time).2)) ∨
    ((bodyLimit < r.body.size ∨ ∃ e, locate s.origin r.target = .error e) ∧
      (s.answer w r c).2 = s) ∨
    ∃ u q, locate s.origin r.target = .ok u ∧ q.url = u ∧ q.method = r.method ∧
      (s.answer w r c).2 = { s with dispatcher := (s.dispatcher.fetch w q).2 } := by
  rw [answer]
  dsimp only
  generalize Http.grouped _ = headers
  rw [route]
  dsimp only
  by_cases hhealth : r.target.path = "/_precache/health".toList
  · rw [if_pos hhealth]
    exact .inl ⟨hhealth ▸ List.mem_cons_self, readOnly_cases _ _ s⟩
  by_cases hmetrics : r.target.path = "/_precache/metrics".toList
  · rw [if_neg hhealth, if_pos hmetrics]
    exact .inl ⟨hmetrics ▸ by decide, .inl ((readOnly_cases _ _ s).elim id id)⟩
  rw [if_neg hhealth, if_neg hmetrics]
  obtain hrefused | ⟨u, hu, hforward⟩ := forward_cases w s { r with headers }
  · exact .inr (.inl hrefused)
  · exact .inr (.inr ⟨u, _, hu, rfl, rfl, hforward⟩)

end Site

/-- The front asks for nothing outside of the origin. An address that it makes of a target lies
beneath the origin; a request without one leaves no trace, and any other becomes at most one fetch
event for its address: that is what the work on the event looks for in the bucket and what it asks
the network for. -/
theorem requests_stay_under_origin [Idna] {settings : Settings} {origin : Url}
    (ho : settings.originUrl = .ok origin) {text : String} {t : Http.Target}
    (ht : Http.Target.ofString? text = some t) :
    (∀ u, Site.locate origin t = .ok u → Under origin t.query u) ∧
    ∀ (s : Site) (net : Network) (r : Http.Inbound) (c : Circumstances) (s' : Site),
      s.origin = origin → r.target = t → (s.answer (Manager.worker net) r c).2 = s' →
      ((∃ e, Site.locate origin t = .error e) →
        s.Unasked s' ∧ (t.path ∉ Site.ownPages → s' = s)) ∧
      ∀ u, Site.locate origin t = .ok u → s.Unasked s' ∨ ∃ q : Request,
        q.url = u ∧ q.method = r.method ∧
        s' = { s with dispatcher := (s.dispatcher.fetch (Manager.worker net) q).2 } ∧
        ((Manager.worker net).fetch q).Respects (Manager.AgreeAt (Key.of r.method u)) ∧
        ((Manager.worker net).fetch q).Keeps
          (fun m m' => m'.calls = m.calls ∨ m'.calls = q :: m.calls) (fun _ => True) ∧
        (s.dispatcher.Idle → ∀ call ∈ s'.manager.calls, call ∈ s.manager.calls ∨ call = q) := by
  have hweb := Settings.isWeb_of_originUrl ho
  have hplain := Http.Target.isPlain_of_ofString? ht
  refine ⟨fun u => Site.locate_under hweb hplain, ?_⟩
  rintro s net r c s' rfl rfl rfl
  have hcases := Site.answer_cases (Manager.worker net) s r c
  have hlook : ∀ s', s' = s ∨ s' = (s.health c.time).2 → s.Unasked s' := by
    rintro _ (rfl | rfl)
    · exact .refl _
    · exact s.unasked_health c.time
  refine ⟨fun ⟨e, he⟩ => ?_, fun u hu => ?_⟩
  · obtain ⟨hpage, hown⟩ | ⟨-, hself⟩ | ⟨u, q, hu, -⟩ := hcases
    · exact ⟨hlook _ hown, fun hno => absurd hpage hno⟩
    · rw [hself]
      exact ⟨.refl s, fun _ => rfl⟩
    · cases he.symm.trans hu
  · obtain ⟨-, hown⟩ | ⟨-, hself⟩ | ⟨u', q, hu', rfl, hmethod, hfetch⟩ := hcases
    · exact .inl (hlook _ hown)
    · rw [hself]
      exact .inl (.refl s)
    · cases hu.symm.trans hu'
      have hcalls := Manager.fetchTask_calls net q
      refine .inr ⟨q, rfl, hmethod, hfetch, ?_, hcalls, fun hi => ?_⟩
      · rw [← hmethod]
        exact Manager.fetchTask_respects net q
      · rw [hfetch]
        exact Site.calls_of_idle hi q

open scoped Idna

/-- Dots and backslashes in front of a page, and a quote that a query may not hold. -/
theorem page_stays_under_folder :
    let settings := { Settings.default with
      cache := { Settings.default.cache with origin := "http://assets.local/game" } }
    let origin : Url :=
      ⟨"http".toList, some ⟨[], "assets.local".toList, none⟩, .segments ["game".toList, []], none,
        none⟩
    let t : Http.Target := ⟨none, none, "//x\\%2e.\\page".toList, some "q='1'".toList⟩
    settings.originUrl = .ok origin ∧ Http.Target.ofString? "//x\\%2e.\\page?q='1'" = some t ∧
      ∃ u, Site.locate origin t = .ok u ∧ u.text = "http://assets.local/game/page?q=%271%27" ∧
        Under origin t.query u := by
  intro settings origin t
  have ho : settings.originUrl = .ok origin := by decide +kernel
  have ht : Http.Target.ofString? "//x\\%2e.\\page?q='1'" = some t := by decide +kernel
  have hu : Site.locate origin t = .ok ⟨"http".toList, some ⟨[], "assets.local".toList, none⟩,
      .segments ["game".toList, "page".toList], some "q=%271%27".toList, none⟩ := by decide +kernel
  obtain ⟨hunder, -⟩ := requests_stay_under_origin ho ht
  exact ⟨ho, ht, _, hu, by decide +kernel, hunder _ hu⟩

end AssetCache
