import AssetCache.Proofs.Manifest

namespace AssetCache.Manifest

variable {origin url url' : Url} {entry : String} {entries : List String}
  {requests : List Request} {e : InstallError} {i : Nat}

def Shows (entry : String) : Prop := ∃ c ∈ entry.toList, Text.isBlank c = false

def HasWebScheme (url : Url) : Prop := url.scheme = "http".toList ∨ url.scheme = "https".toList

structure LeadsTo [Idna] (origin : Url) (entry : String) (url : Url) : Prop where
  shows : Shows entry
  joins : origin.join entry = .ok url
  web : HasWebScheme url

/-- No two entries lead to the same address, fragments apart. -/
def Apart [Idna] (origin : Url) (entries : List String) : Prop :=
  ∀ {i j : Nat} {a b : String} {url url' : Url}, entries[i]? = some a → entries[j]? = some b →
    LeadsTo origin a url → LeadsTo origin b url' →
    url.withoutFragment.text = url'.withoutFragment.text → i = j

/-- What is wrong with the entry in a place: it is blank, it is no reference, it leads elsewhere
than to the web, or to where an entry before it leads. -/
inductive FaultAt [Idna] (origin : Url) (entries : List String) (i : Nat) : InstallError → Prop
  | blank {entry : String} (hentry : entries[i]? = some entry) (hblank : ¬Shows entry) :
    FaultAt origin entries i (.invalidEntry entry "empty identifier")
  | url {entry : String} {error : Url.Error} (hentry : entries[i]? = some entry)
    (hshows : Shows entry) (hjoin : origin.join entry = .error error) :
    FaultAt origin entries i (.invalidEntry entry error.message)
  | scheme {entry : String} {url : Url} (hentry : entries[i]? = some entry)
    (hshows : Shows entry) (hjoin : origin.join entry = .ok url) (hweb : ¬HasWebScheme url) :
    FaultAt origin entries i
      (.invalidEntry entry ("unsupported scheme " ++ String.ofList url.scheme))
  | repeated {entry earlier : String} {url url' : Url} {j : Nat}
    (hentry : entries[i]? = some entry) (hleads : LeadsTo origin entry url) (hj : j < i)
    (hearlier : entries[j]? = some earlier) (hleads' : LeadsTo origin earlier url')
    (hsame : url.withoutFragment.text = url'.withoutFragment.text) :
    FaultAt origin entries i (.duplicateEntry url.text)

theorem not_shows_iff : ¬Shows entry ↔ Text.isAllBlank entry = true := by
  simp [Shows, Text.isAllBlank]

theorem hasWebScheme_iff : HasWebScheme url ↔ url.isHttp = true := by
  simp [HasWebScheme, Url.isHttp]

theorem entryUrl_of_blank [Idna] (h : ¬Shows entry) : entryUrl origin entry = .error .blank := by
  rw [entryUrl, if_pos (not_shows_iff.mp h)]

theorem entryUrl_of_shows [Idna] (h : Shows entry) : entryUrl origin entry =
    match origin.join entry with
    | .error error => .error (.url error)
    | .ok url => if url.isHttp then .ok url else .error (.scheme (String.ofList url.scheme)) := by
  exact if_neg (mt not_shows_iff.mpr (not_not.mpr h))

theorem entryUrl_of_join_error [Idna] {error : Url.Error} (h : Shows entry)
    (hjoin : origin.join entry = .error error) : entryUrl origin entry = .error (.url error) := by
  rw [entryUrl_of_shows h, hjoin]

theorem entryUrl_of_not_web [Idna] (h : Shows entry) (hjoin : origin.join entry = .ok url)
    (hweb : ¬HasWebScheme url) :
    entryUrl origin entry = .error (.scheme (String.ofList url.scheme)) := by
  rw [entryUrl_of_shows h, hjoin]
  exact if_neg (mt hasWebScheme_iff.mpr hweb)

theorem entryUrl_eq_ok_iff [Idna] : entryUrl origin entry = .ok url ↔ LeadsTo origin entry url := by
  by_cases hshows : Shows entry
  · rw [entryUrl_of_shows hshows]
    constructor
    · intro h
      split at h
      · cases h
      · next hjoin =>
        split at h
        · next hweb =>
          cases h
          exact ⟨hshows, hjoin, hasWebScheme_iff.mpr hweb⟩
        · cases h
    · intro h
      rw [h.joins]
      exact if_pos (hasWebScheme_iff.mp h.web)
  · rw [entryUrl_of_blank hshows]
    exact iff_of_false nofun fun h => hshows h.shows

theorem key_get_eq_iff : (Request.get url).key = (Request.get url').key ↔
    url.withoutFragment.text = url'.withoutFragment.text := by
  change (⟨"GET", _⟩ : Key) = ⟨"GET", _⟩ ↔ _
  rw [Key.mk.injEq]
  exact and_iff_right rfl

theorem exists_leadsTo [Idna] (h : List.Forall₂ (Asks origin) entries requests)
    (hentry : entries[i]? = some entry) :
    ∃ url, LeadsTo origin entry url ∧ requests[i]? = some (Request.get url) := by
  obtain ⟨_, ⟨url, hurl, rfl⟩, hrequest⟩ := getElem?_of_asks h hentry
  exact ⟨url, entryUrl_eq_ok_iff.mp hurl, hrequest⟩

theorem getElem?_of_leadsTo [Idna] (h : List.Forall₂ (Asks origin) entries requests)
    (hentry : entries[i]? = some entry) (hleads : LeadsTo origin entry url) :
    (requests.map Request.key)[i]? = some (Request.get url).key := by
  obtain ⟨url', hleads', hrequest⟩ := exists_leadsTo h hentry
  cases hleads.joins.symm.trans hleads'.joins
  rw [List.getElem?_map, hrequest, Option.map_some]

theorem apart_iff_nodup [Idna] (h : List.Forall₂ (Asks origin) entries requests) :
    Apart origin entries ↔ (requests.map Request.key).Nodup := by
  constructor
  · intro hapart
    rw [List.nodup_iff_injective_getElem]
    rintro ⟨i, hi⟩ ⟨j, hj⟩ hkey
    have hkeyOf : ∀ (i : Nat) (hi : i < (requests.map Request.key).length),
        ∃ a url, entries[i]? = some a ∧ LeadsTo origin a url ∧
          (requests.map Request.key)[i] = (Request.get url).key := by
      intro i hi
      have hlength : i < entries.length := by
        rw [h.length_eq, ← List.length_map]
        exact hi
      have ha := List.getElem?_eq_getElem hlength
      obtain ⟨url, hleads, -⟩ := exists_leadsTo h ha
      have hkey := getElem?_of_leadsTo h ha hleads
      rw [List.getElem?_eq_getElem hi, Option.some.injEq] at hkey
      exact ⟨_, url, ha, hleads, hkey⟩
    obtain ⟨a, url, ha, hleads, hi'⟩ := hkeyOf i hi
    obtain ⟨b, url', hb, hleads', hj'⟩ := hkeyOf j hj
    exact Fin.ext (hapart ha hb hleads hleads'
      (key_get_eq_iff.mp (hi'.symm.trans (hkey.trans hj'))))
  · intro hnodup i j a b url url' ha hb hleads hleads' hsame
    have hi := getElem?_of_leadsTo h ha hleads
    have hj := getElem?_of_leadsTo h hb hleads'
    rw [← key_get_eq_iff.mpr hsame] at hj
    obtain ⟨hlength, -⟩ := List.getElem?_eq_some_iff.mp hi
    exact (List.getElem?_inj hlength hnodup).mp (hi.trans hj.symm)

theorem exists_asks [Idna] (h : ∀ entry ∈ entries, ∃ url, LeadsTo origin entry url) :
    ∃ requests, List.Forall₂ (Asks origin) entries requests := by
  induction entries with
  | nil => exact ⟨[], .nil⟩
  | cons entry rest ih =>
    obtain ⟨⟨url, hleads⟩, hrest⟩ := List.forall_mem_cons.mp h
    obtain ⟨requests, hall⟩ := ih hrest
    exact ⟨Request.get url :: requests, .cons ⟨url, entryUrl_eq_ok_iff.mpr hleads, rfl⟩ hall⟩

theorem exists_resolve_iff [Idna] : (∃ requests, Manifest.resolve origin entries = .ok requests) ↔
    (∀ entry ∈ entries, ∃ url, LeadsTo origin entry url) ∧ Apart origin entries := by
  constructor
  · rintro ⟨requests, h⟩
    obtain ⟨hall, hnodup⟩ := resolve_eq_ok_iff.mp h
    refine ⟨fun entry hentry => ?_, (apart_iff_nodup hall).mpr hnodup⟩
    obtain ⟨i, hi⟩ := List.mem_iff_getElem?.mp hentry
    exact (exists_leadsTo hall hi).imp fun _ h => h.1
  · rintro ⟨hleads, hapart⟩
    obtain ⟨requests, hall⟩ := exists_asks hleads
    exact ⟨requests, resolve_eq_ok_iff.mpr ⟨hall, (apart_iff_nodup hall).mp hapart⟩⟩

theorem not_faultAt_of_resolve [Idna] (h : Manifest.resolve origin entries = .ok requests) :
    ¬FaultAt origin entries i e := by
  obtain ⟨hall, hapart⟩ := exists_resolve_iff.mp ⟨requests, h⟩
  have hleads : ∀ {i : Nat} {entry : String}, entries[i]? = some entry →
      ∃ url, LeadsTo origin entry url := fun hentry => hall _ (List.mem_of_getElem? hentry)
  intro hfault
  cases hfault with
  | blank hentry hblank =>
    obtain ⟨_, h⟩ := hleads hentry
    exact hblank h.shows
  | url hentry _ hjoin =>
    obtain ⟨_, h⟩ := hleads hentry
    cases h.joins.symm.trans hjoin
  | scheme hentry _ hjoin hweb =>
    obtain ⟨_, h⟩ := hleads hentry
    cases h.joins.symm.trans hjoin
    exact hweb h.web
  | repeated hentry hleads hj hearlier hleads' hsame =>
    exact absurd (hapart hentry hearlier hleads hleads' hsame) (Nat.ne_of_gt hj)

theorem FaultAt.take [Idna] (h : FaultAt origin entries i e) {n : Nat} (hi : i < n) :
    FaultAt origin (entries.take n) i e := by
  have htake : ∀ {j : Nat}, j ≤ i → (entries.take n)[j]? = entries[j]? := fun hj =>
    List.getElem?_take_of_lt (Nat.lt_of_le_of_lt hj hi)
  cases h with
  | blank hentry hblank => exact .blank ((htake (Nat.le_refl _)).trans hentry) hblank
  | url hentry hshows hjoin => exact .url ((htake (Nat.le_refl _)).trans hentry) hshows hjoin
  | scheme hentry hshows hjoin hweb =>
    exact .scheme ((htake (Nat.le_refl _)).trans hentry) hshows hjoin hweb
  | repeated hentry hleads hj hearlier hleads' hsame =>
    exact .repeated ((htake (Nat.le_refl _)).trans hentry) hleads hj
      ((htake (Nat.le_of_lt hj)).trans hearlier) hleads' hsame

theorem faultAt_of_entryUrl [Idna] {fault : EntryFault} (hentry : entries[i]? = some entry)
    (h : entryUrl origin entry = .error fault) :
    FaultAt origin entries i (.invalidEntry entry fault.message) := by
  by_cases hshows : Shows entry
  · rw [entryUrl_of_shows hshows] at h
    split at h
    · next hjoin =>
      cases h
      exact .url hentry hshows hjoin
    · next hjoin =>
      split at h
      · cases h
      · next hweb =>
        cases h
        exact .scheme hentry hshows hjoin (mt hasWebScheme_iff.mp hweb)
  · cases h.symm.trans (entryUrl_of_blank hshows)
    exact .blank hentry hshows

/-- Behind entries that resolve, a fault is what stops the resolution. -/
theorem faultAt_iff_stops [Idna] {before after : List String}
    (h : Manifest.resolve origin before = .ok requests) :
    FaultAt origin (before ++ entry :: after) before.length e ↔
      Stops origin (requests.map Request.key).reverse entry e := by
  obtain ⟨hall, -⟩ := resolve_eq_ok_iff.mp h
  have hentry : (before ++ entry :: after)[before.length]? = some entry := by simp
  have hbefore : ∀ {j : Nat}, j < before.length →
      (before ++ entry :: after)[j]? = before[j]? := fun hj => List.getElem?_append_left hj
  constructor
  · intro hfault
    cases hfault with
    | blank hentry' hblank =>
      cases hentry.symm.trans hentry'
      exact .invalid (entryUrl_of_blank hblank)
    | url hentry' hshows hjoin =>
      cases hentry.symm.trans hentry'
      exact .invalid (entryUrl_of_join_error hshows hjoin)
    | scheme hentry' hshows hjoin hweb =>
      cases hentry.symm.trans hentry'
      exact .invalid (entryUrl_of_not_web hshows hjoin hweb)
    | repeated hentry' hleads hj hearlier hleads' hsame =>
      cases hentry.symm.trans hentry'
      refine .repeated (entryUrl_eq_ok_iff.mpr hleads) (List.mem_reverse.mpr ?_)
      rw [key_get_eq_iff.mpr hsame]
      have hkey := getElem?_of_leadsTo hall ((hbefore hj).symm.trans hearlier) hleads'
      exact List.mem_of_getElem? hkey
  · intro hstops
    cases hstops with
    | invalid hurl => exact faultAt_of_entryUrl hentry hurl
    | repeated hurl hseen =>
      obtain ⟨r, hr, hkey⟩ := List.mem_map.mp (List.mem_reverse.mp hseen)
      obtain ⟨j, hj⟩ := List.mem_iff_getElem?.mp hr
      obtain ⟨hlength, -⟩ := List.getElem?_eq_some_iff.mp hj
      rw [← hall.length_eq] at hlength
      have hearlier := List.getElem?_eq_getElem hlength
      obtain ⟨url', hleads', hrequest⟩ := exists_leadsTo hall hearlier
      cases hj.symm.trans hrequest
      exact .repeated hentry (entryUrl_eq_ok_iff.mp hurl) hlength
        ((hbefore hlength).trans hearlier) hleads' (key_get_eq_iff.mp hkey.symm)

/-- A manifest resolves if and only if every entry leads to a web address and no two lead to the
same one, fragments apart. Then there is one bare GET for each entry, in their order, and no two of
them have the same key. Otherwise what is reported is the fault of the first entry that has one,
and the entries before it resolve. -/
theorem resolution_is_exact [Idna] (origin : Url) (entries : Manifest) :
    ((∃ requests, Manifest.resolve origin entries = .ok requests) ↔
      (∀ entry ∈ entries, ∃ url, LeadsTo origin entry url) ∧ Apart origin entries) ∧
    (∀ requests, Manifest.resolve origin entries = .ok requests →
      requests.length = entries.length ∧
      (∀ (i : Nat) (entry : String), entries[i]? = some entry →
        ∃ url, LeadsTo origin entry url ∧ requests[i]? = some ⟨.get, url, [], none⟩) ∧
      (requests.map Request.key).Nodup) ∧
    ∀ e, Manifest.resolve origin entries = .error e ↔
      ∃ i, FaultAt origin entries i e ∧ (∀ j < i, ∀ e', ¬FaultAt origin entries j e') ∧
        ∃ requests, Manifest.resolve origin (entries.take i) = .ok requests := by
  refine ⟨exists_resolve_iff, fun requests h => ?_, fun e => ?_⟩
  · obtain ⟨hall, hnodup⟩ := resolve_eq_ok_iff.mp h
    exact ⟨hall.length_eq.symm, fun i entry hentry => exists_leadsTo hall hentry, hnodup⟩
  · constructor
    · intro h
      obtain ⟨before, entry, after, requests, rfl, hbefore, hstops⟩ :=
        resolveAfter_eq_error_iff.mp h
      rw [List.append_nil] at hstops
      have htake : (before ++ entry :: after).take before.length = before := by simp
      refine ⟨before.length, (faultAt_iff_stops hbefore).mpr hstops, fun j hj e' hfault => ?_,
        requests, htake.symm ▸ hbefore⟩
      have hfault := hfault.take hj
      rw [htake] at hfault
      exact not_faultAt_of_resolve hbefore hfault
    · rintro ⟨i, hfault, -, requests, h⟩
      obtain ⟨entry, hentry⟩ : ∃ entry, entries[i]? = some entry := by
        cases hfault <;> exact ⟨_, ‹_›⟩
      have hstopped : ∀ {before after : List String}, entries = before ++ entry :: after →
          before.length = i → Manifest.resolve origin before = .ok requests →
          Manifest.resolve origin entries = .error e := by
        rintro before after rfl rfl hbefore
        refine resolveAfter_eq_error_iff.mpr ⟨before, entry, after, requests, rfl, hbefore, ?_⟩
        rw [List.append_nil]
        exact (faultAt_iff_stops hbefore).mp hfault
      obtain ⟨hi, hget⟩ := List.getElem?_eq_some_iff.mp hentry
      have hsplit : entries = entries.take i ++ entry :: entries.drop (i + 1) := by
        rw [← hget, List.getElem_cons_drop, List.take_append_drop]
      exact hstopped hsplit (List.length_take_of_le (Nat.le_of_lt hi)) h

def gameFolder : Url :=
  ⟨"http".toList, some ⟨[], "assets.local".toList, none⟩, .segments ["game".toList, []], none, none⟩

/-- Tables with one name, as it is written in German. -/
abbrev germanName : Idna where
  toAscii? name :=
    if name = "bücher.example".toList ∨ name = "xn--bcher-kva.example".toList then
      some "xn--bcher-kva.example".toList
    else none

/-- Two spellings of one address, apart from the fragment or of one host: the second one is
reported. -/
theorem resolution_of_two_spellings :
    let _ := germanName
    (∃ i, FaultAt gameFolder ["app.js", "style.css", "./app.js#top"] i
        (.duplicateEntry "http://assets.local/game/app.js#top") ∧
      ∃ requests, Manifest.resolve gameFolder
        (["app.js", "style.css", "./app.js#top"].take i) = .ok requests) ∧
    ∃ i, FaultAt gameFolder ["http://bücher.example/a", "//xn--bcher-kva.example/a"] i
        (.duplicateEntry "http://xn--bcher-kva.example/a") ∧
      ∃ requests, Manifest.resolve gameFolder
        (["http://bücher.example/a", "//xn--bcher-kva.example/a"].take i) = .ok requests := by
  intro _
  have h : Manifest.resolve gameFolder ["app.js", "style.css", "./app.js#top"] =
      .error (.duplicateEntry "http://assets.local/game/app.js#top") := by decide +kernel
  have hgerman : Manifest.resolve gameFolder
      ["http://bücher.example/a", "//xn--bcher-kva.example/a"] =
      .error (.duplicateEntry "http://xn--bcher-kva.example/a") := by decide +kernel
  obtain ⟨i, hfault, -, hbefore⟩ := ((resolution_is_exact _ _).2.2 _).mp h
  obtain ⟨j, hfault', -, hbefore'⟩ := ((resolution_is_exact _ _).2.2 _).mp hgerman
  exact ⟨⟨i, hfault, hbefore⟩, j, hfault', hbefore'⟩

end AssetCache.Manifest
