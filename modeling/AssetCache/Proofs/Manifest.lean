import AssetCache.Manifest
import Mathlib.Data.List.Forall2
import Mathlib.Data.List.Nodup

namespace AssetCache

theorem Key.of_withFragment (method : Http.Method) (url : Url) (fragment : Option (List Char)) :
    Key.of method { url with fragment } = Key.of method url := by
  obtain ⟨scheme, authority, path, query, _⟩ := url
  cases path with
  | segments list => rfl
  | plain text => cases query <;> rfl

namespace Manifest

variable {origin url : Url} {entry : String} {entries : List String} {seen : List Key}
  {r r' : Request} {requests : List Request} {e : InstallError} {i : Nat}

def Asks [Idna] (origin : Url) (entry : String) (request : Request) : Prop :=
  ∃ url, entryUrl origin entry = .ok url ∧ request = Request.get url

theorem Asks.unique [Idna] (h : Asks origin entry r) (h' : Asks origin entry r') : r = r' := by
  obtain ⟨url, hurl, rfl⟩ := h
  obtain ⟨url', hurl', rfl⟩ := h'
  cases hurl.symm.trans hurl'
  rfl

/-- What stops the resolution at an entry, when the keys in `seen` have been met before. -/
inductive Stops [Idna] (origin : Url) (seen : List Key) (entry : String) : InstallError → Prop
  | invalid {fault : EntryFault} (hurl : entryUrl origin entry = .error fault) :
    Stops origin seen entry (.invalidEntry entry fault.message)
  | repeated {url : Url} (hurl : entryUrl origin entry = .ok url)
    (hseen : (Request.get url).key ∈ seen) : Stops origin seen entry (.duplicateEntry url.text)

theorem Stops.mem_seen [Idna] (h : Stops origin seen entry e) (hasks : Asks origin entry r) :
    r.key ∈ seen := by
  obtain ⟨url, hurl, rfl⟩ := hasks
  cases h with
  | invalid hfault => cases hfault.symm.trans hurl
  | repeated hurl' hseen =>
    cases hurl.symm.trans hurl'
    exact hseen

/-- An entry stops the resolution, or it goes on with one key more. -/
theorem resolveAfter_cons [Idna] (origin : Url) (seen : List Key) (entry : String)
    (rest : List String) :
    (∃ e, Stops origin seen entry e ∧ resolveAfter origin seen (entry :: rest) = .error e) ∨
      ∃ r, Asks origin entry r ∧ r.key ∉ seen ∧
        resolveAfter origin seen (entry :: rest) =
          (resolveAfter origin (r.key :: seen) rest).map (r :: ·) := by
  rw [resolveAfter]
  cases hurl : entryUrl origin entry with
  | error fault => exact .inl ⟨_, .invalid hurl, rfl⟩
  | ok url =>
    dsimp only
    by_cases hseen : (Request.get url).key ∈ seen
    · exact .inl ⟨_, .repeated hurl hseen, if_pos hseen⟩
    · refine .inr ⟨Request.get url, ⟨url, hurl, rfl⟩, hseen, ?_⟩
      rw [if_neg hseen]
      cases resolveAfter origin ((Request.get url).key :: seen) rest <;> rfl

theorem resolveAfter_of_stops [Idna] (h : Stops origin seen entry e) (rest : List String) :
    resolveAfter origin seen (entry :: rest) = .error e := by
  rw [resolveAfter]
  cases h with
  | invalid hurl => rw [hurl]
  | repeated hurl hseen =>
    rw [hurl]
    exact if_pos hseen

theorem resolveAfter_of_asks [Idna] (h : Asks origin entry r) (hnew : r.key ∉ seen)
    (rest : List String) :
    resolveAfter origin seen (entry :: rest) =
      (resolveAfter origin (r.key :: seen) rest).map (r :: ·) := by
  obtain ⟨e, hstops, -⟩ | ⟨r', h', -, heq⟩ := resolveAfter_cons origin seen entry rest
  · exact absurd (hstops.mem_seen h) hnew
  · rw [heq, h.unique h']

def Fresh (seen : List Key) (requests : List Request) : Prop :=
  (requests.map Request.key).Nodup ∧ ∀ r ∈ requests, r.key ∉ seen

theorem fresh_cons_iff :
    Fresh seen (r :: requests) ↔ r.key ∉ seen ∧ Fresh (r.key :: seen) requests := by
  simp only [Fresh, List.map_cons, List.nodup_cons, List.mem_map, List.mem_cons, not_or,
    not_exists, not_and, forall_eq_or_imp, forall_and]
  constructor
  · rintro ⟨⟨hother, hnodup⟩, hnew, hseen⟩
    exact ⟨hnew, hnodup, hother, hseen⟩
  · rintro ⟨hnew, hnodup, hother, hseen⟩
    exact ⟨⟨hother, hnodup⟩, hnew, hseen⟩

theorem resolveAfter_eq_ok_iff [Idna] : resolveAfter origin seen entries = .ok requests ↔
    List.Forall₂ (Asks origin) entries requests ∧ Fresh seen requests := by
  induction entries generalizing seen requests with
  | nil =>
    rw [resolveAfter, Except.ok.injEq, List.forall₂_nil_left_iff]
    constructor
    · rintro rfl
      exact ⟨rfl, List.nodup_nil, List.forall_mem_nil _⟩
    · exact fun h => h.1.symm
  | cons entry rest ih =>
    obtain ⟨e, hstops, heq⟩ | ⟨r, hasks, hnew, heq⟩ := resolveAfter_cons origin seen entry rest
    · rw [heq]
      refine iff_of_false nofun ?_
      rintro ⟨_ | ⟨hasks, _⟩, hfresh⟩
      exact (fresh_cons_iff.mp hfresh).1 (hstops.mem_seen hasks)
    · rw [heq]
      constructor
      · intro h
        cases hrest : resolveAfter origin (r.key :: seen) rest with
        | error e => rw [hrest] at h; cases h
        | ok requests =>
          rw [hrest] at h
          cases h
          obtain ⟨hall, hfresh⟩ := ih.mp hrest
          exact ⟨.cons hasks hall, fresh_cons_iff.mpr ⟨hnew, hfresh⟩⟩
      · rintro ⟨_ | ⟨hasks', hall⟩, hfresh⟩
        cases hasks.unique hasks'
        rw [ih.mpr ⟨hall, (fresh_cons_iff.mp hfresh).2⟩, Except.map]

/-- The resolution fails if some entry stops it and the entries before that resolve. -/
theorem resolveAfter_eq_error_iff [Idna] : resolveAfter origin seen entries = .error e ↔
    ∃ before entry after requests, entries = before ++ entry :: after ∧
      resolveAfter origin seen before = .ok requests ∧
      Stops origin ((requests.map Request.key).reverse ++ seen) entry e := by
  constructor
  · intro h
    induction entries generalizing seen with
    | nil => cases h
    | cons entry rest ih =>
      obtain ⟨e', hstops, heq⟩ | ⟨r, hasks, hnew, heq⟩ := resolveAfter_cons origin seen entry rest
      · cases heq.symm.trans h
        exact ⟨[], entry, rest, [], rfl, rfl, hstops⟩
      · have hrest : resolveAfter origin (r.key :: seen) rest = .error e := by
          rw [heq] at h
          cases hrest : resolveAfter origin (r.key :: seen) rest with
          | error e' => rw [hrest] at h; cases h; rfl
          | ok requests => rw [hrest] at h; cases h
        obtain ⟨before, entry', after, requests, rfl, hbefore, hstops⟩ := ih hrest
        refine ⟨entry :: before, entry', after, r :: requests, rfl, ?_, by simpa using hstops⟩
        rw [resolveAfter_of_asks hasks hnew, hbefore, Except.map]
  · rintro ⟨before, entry, after, requests, rfl, hbefore, hstops⟩
    induction before generalizing seen requests with
    | nil =>
      cases hbefore
      exact resolveAfter_of_stops hstops after
    | cons first before ih =>
      obtain ⟨_ | ⟨hasks, hall⟩, hfresh⟩ := resolveAfter_eq_ok_iff.mp hbefore
      obtain ⟨hnew, hfresh⟩ := fresh_cons_iff.mp hfresh
      have hrest := ih _ (resolveAfter_eq_ok_iff.mpr ⟨hall, hfresh⟩) (by simpa using hstops)
      rw [List.cons_append, resolveAfter_of_asks hasks hnew, hrest, Except.map]

theorem resolve_eq_ok_iff [Idna] : Manifest.resolve origin entries = .ok requests ↔
    List.Forall₂ (Asks origin) entries requests ∧ (requests.map Request.key).Nodup := by
  rw [Manifest.resolve, resolveAfter_eq_ok_iff, Fresh]
  simp

theorem nodup_keys_resolve [Idna] {entries : Manifest}
    (h : Manifest.resolve origin entries = .ok requests) : (requests.map Request.key).Nodup :=
  (resolve_eq_ok_iff.mp h).2

theorem getElem?_of_asks [Idna] (h : List.Forall₂ (Asks origin) entries requests)
    (hentry : entries[i]? = some entry) : ∃ r, Asks origin entry r ∧ requests[i]? = some r := by
  induction h generalizing i with
  | nil => cases hentry
  | cons hasks _ ih =>
    cases i with
    | zero =>
      cases hentry
      exact ⟨_, hasks, rfl⟩
    | succ i => exact ih hentry

theorem eq_get_of_mem_resolve [Idna] {entries : Manifest}
    (h : Manifest.resolve origin entries = .ok requests) (hr : r ∈ requests) :
    ∃ entry ∈ entries, ∃ url, entryUrl origin entry = .ok url ∧ r = Request.get url := by
  obtain ⟨hall, -⟩ := resolve_eq_ok_iff.mp h
  obtain ⟨i, hi⟩ := List.mem_iff_getElem?.mp hr
  obtain ⟨hlt, -⟩ := List.getElem?_eq_some_iff.mp hi
  have hentry := List.getElem?_eq_getElem (hall.length_eq ▸ hlt)
  obtain ⟨r', hasks, hr'⟩ := getElem?_of_asks hall hentry
  cases hi.symm.trans hr'
  exact ⟨_, List.mem_of_getElem? hentry, hasks⟩

theorem get_mem_resolve [Idna] {entries : Manifest}
    (h : Manifest.resolve origin entries = .ok requests)
    (he : entry ∈ entries) (hurl : entryUrl origin entry = .ok url) :
    Request.get url ∈ requests := by
  obtain ⟨i, hi⟩ := List.mem_iff_getElem?.mp he
  obtain ⟨r, hasks, hr⟩ := getElem?_of_asks (resolve_eq_ok_iff.mp h).1 hi
  rw [Asks.unique ⟨url, hurl, rfl⟩ hasks]
  exact List.mem_of_getElem? hr

theorem resolve_singleton [Idna] (hurl : entryUrl origin entry = .ok url) :
    Manifest.resolve origin [entry] = .ok [Request.get url] :=
  resolve_eq_ok_iff.mpr ⟨.cons ⟨url, hurl, rfl⟩ .nil, List.nodup_singleton _⟩

end Manifest

end AssetCache
