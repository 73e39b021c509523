import AssetCache.Proofs.Manifest
import AssetCache.Proofs.Store.Contents
import AssetCache.Proofs.Task
import AssetCache.Proofs.Vary
import Mathlib.Data.List.MinMax
import Mathlib.Data.Prod.Lex

namespace AssetCache

/-- The faults of a manifest itself, found before anything is fetched. -/
def InstallError.OfManifest : InstallError → Prop
  | invalidEntry _ _ | duplicateEntry _ => True
  | _ => False

/-- The network answers a request with a response that may be stored. -/
def Network.Grants (net : Network) (r : Request) : Prop :=
  ∃ response, (net r).outcome = .response response ∧ response.Storable

namespace Manager

variable {net : Network} {m m' : Manager}

/-- A manager without the records it keeps for others: its metrics and its calls. -/
def bare (m : Manager) : Manager := { m with metrics := .empty, calls := [] }

theorem store_of_bare (h : m'.bare = m.bare) : m'.store = m.store :=
  show m'.bare.store = m.bare.store by rw [h]

theorem name_of_bare (h : m'.bare = m.bare) : m'.name = m.name :=
  show m'.bare.name = m.bare.name by rw [h]

theorem manifest_of_bare (h : m'.bare = m.bare) : m'.manifest = m.manifest :=
  show m'.bare.manifest = m.bare.manifest by rw [h]

theorem origin_of_bare (h : m'.bare = m.bare) : m'.origin = m.origin :=
  show m'.bare.origin = m.bare.origin by rw [h]

theorem phase_of_bare (h : m'.bare = m.bare) : m'.phase = m.phase :=
  show m'.bare.phase = m.bare.phase by rw [h]

theorem stats_of_bare (h : m'.bare = m.bare) : m'.stats = m.stats :=
  show m'.bare.stats = m.bare.stats by rw [h]

theorem countAnswer_bare (m : Manager) (o : Outcome) : (m.countAnswer o).bare = m.bare := by
  cases o <;> rfl

theorem verdict_eq_goesOn_iff (r : Request) (o : Outcome) :
    verdict r o = .goesOn ↔ ∃ response, o = .response response ∧ response.Storable := by
  cases o with
  | crash | failure e => exact ⟨fun h => (nomatch h), fun ⟨_, h, _⟩ => (nomatch h)⟩
  | response response =>
    have hfit := unfit_eq_none_iff r.url response
    rw [verdict]
    cases hu : unfit r.url response with
    | none =>
      rw [hu] at hfit
      exact ⟨fun _ => ⟨response, rfl, hfit.mp rfl⟩, fun _ => rfl⟩
    | some e =>
      refine ⟨fun h => (nomatch h), ?_⟩
      rintro ⟨_, h, hs⟩
      cases h
      rw [hfit.mpr hs] at hu
      cases hu

theorem not_ofManifest_of_verdict {r : Request} {o : Outcome} {e : InstallError}
    (h : verdict r o = .fails e) : ¬ e.OfManifest := by
  cases o with
  | crash => cases h
  | failure e =>
    cases h
    exact id
  | response response =>
    rw [verdict] at h
    split at h
    · next hu =>
      cases h
      rw [unfit] at hu
      split at hu
      · cases hu
        exact id
      · split at hu
        · cases hu
          exact id
        · cases hu
    · cases h

/-- When the fetch at a place of the manifest comes to its end: in which round, and where in it. -/
def turn (net : Network) (p : Request × Nat) : ℕ ×ₗ ℕ := toLex ((net p.1).delay, p.2)

theorem turn_le_iff (net : Network) (p : Request × Nat) (n i : Nat) :
    turn net p ≤ toLex (n, i) ↔ (net p.1).delay < n ∨ (net p.1).delay = n ∧ p.2 ≤ i :=
  Prod.Lex.toLex_le_toLex

theorem taken_append {n i : Nat} {before : List (Request × Nat)}
    (hbefore : ∀ p ∈ before, turn net p ≤ toLex (n, i) ∧ net.Grants p.1)
    (after : List (Request × Nat)) : taken net n i (before ++ after) = taken net n i after := by
  induction before with
  | nil => rfl
  | cons p before ih =>
    obtain ⟨⟨hin, hgrants⟩, hbefore⟩ := List.forall_mem_cons.mp hbefore
    rw [List.cons_append, taken, if_pos ((turn_le_iff ..).mp hin),
      (verdict_eq_goesOn_iff ..).mpr hgrants]
    exact ih hbefore

theorem taken_of_in {n i : Nat} {p : Request × Nat} (hin : turn net p ≤ toLex (n, i))
    (hnot : ¬ net.Grants p.1) (after : List (Request × Nat)) :
    taken net n i (p :: after) = verdict p.1 (net p.1).outcome := by
  rw [taken, if_pos ((turn_le_iff ..).mp hin)]
  cases hv : verdict p.1 (net p.1).outcome with
  | goesOn => exact absurd ((verdict_eq_goesOn_iff ..).mp hv) hnot
  | fails | crashes => rfl

/-- Where answers that are in end the fetches, the first of them that is no grant does; all in front
of it are in and grant theirs. -/
theorem exists_of_taken {n i : Nat} {places : List (Request × Nat)}
    (hended : taken net n i places ≠ .goesOn) :
    ∃ before p after, places = before ++ p :: after ∧
      (∀ q ∈ before, turn net q ≤ toLex (n, i) ∧ net.Grants q.1) ∧ turn net p ≤ toLex (n, i) ∧
      ¬ net.Grants p.1 ∧ taken net n i places = verdict p.1 (net p.1).outcome := by
  induction places with
  | nil => exact absurd rfl hended
  | cons p places ih =>
    by_cases hin : turn net p ≤ toLex (n, i)
    · by_cases hgrants : net.Grants p.1
      · have hp : ∀ q ∈ [p], turn net q ≤ toLex (n, i) ∧ net.Grants q.1 :=
          List.forall_mem_singleton.mpr ⟨hin, hgrants⟩
        have hcons : taken net n i (p :: places) = taken net n i places := taken_append hp places
        rw [hcons] at hended ⊢
        obtain ⟨before, q, after, rfl, hbefore, hq⟩ := ih hended
        exact ⟨p :: before, q, after, rfl, List.forall_mem_cons.mpr ⟨⟨hin, hgrants⟩, hbefore⟩, hq⟩
      · exact ⟨[], p, places, rfl, List.forall_mem_nil _, hin, hgrants, taken_of_in hin hgrants _⟩
    · rw [taken, if_neg (mt (turn_le_iff ..).mpr hin)] at hended
      exact absurd rfl hended

theorem outcome_ne_crash_of_grants {r : Request} (hgrants : net.Grants r) :
    (net r).outcome ≠ .crash := by
  obtain ⟨response, ho, -⟩ := hgrants
  rw [ho]
  exact nofun

theorem upshot_of_crash {p : Request × Nat} (requests : List Request)
    (h : (net p.1).outcome = .crash) : upshot net requests p = .crashes := by
  rw [upshot, h]

theorem upshot_eq {p : Request × Nat} (requests : List Request)
    (h : (net p.1).outcome ≠ .crash) : upshot net requests p =
      if requests.length ≤ 30 then verdict p.1 (net p.1).outcome
      else taken net (net p.1).delay p.2 requests.zipIdx := by
  rw [upshot]
  cases ho : (net p.1).outcome with
  | crash => exact absurd ho h
  | failure | response => rfl

theorem not_ofManifest_of_upshot {p : Request × Nat} {requests : List Request} {e : InstallError}
    (h : upshot net requests p = .fails e) : ¬ e.OfManifest := by
  by_cases hcrash : (net p.1).outcome = .crash
  · rw [upshot_of_crash requests hcrash] at h
    cases h
  · rw [upshot_eq requests hcrash] at h
    split at h
    · exact not_ofManifest_of_verdict h
    · obtain ⟨before, q, after, -, -, -, -, hq⟩ := exists_of_taken (by rw [h]; exact nofun)
      exact not_ofManifest_of_verdict (hq.symm.trans h)

theorem upshot_of_grants {p : Request × Nat} {requests : List Request}
    (hall : ∀ r ∈ requests, net.Grants r) (hp : p ∈ requests.zipIdx) :
    upshot net requests p = .goesOn := by
  have hgrants : ∀ q ∈ requests.zipIdx, net.Grants q.1 := fun q hq =>
    hall q.1 (List.fst_mem_of_mem_zipIdx hq)
  rw [upshot_eq requests (outcome_ne_crash_of_grants (hgrants p hp))]
  split
  · exact (verdict_eq_goesOn_iff ..).mpr (hgrants p hp)
  · by_contra hended
    obtain ⟨before, q, after, hsplit, -, -, hnot, -⟩ := exists_of_taken hended
    exact hnot (hgrants q (hsplit ▸ List.mem_append_right _ List.mem_cons_self))

/-- Of many fetches the first that is no grant ends them all, at the latest of the places up to its
own. -/
theorem upshot_of_latest {p w : Request × Nat} {requests : List Request}
    {before after : List (Request × Nat)} (hmany : ¬ requests.length ≤ 30)
    (hplaces : requests.zipIdx = before ++ p :: after) (hbefore : ∀ q ∈ before, net.Grants q.1)
    (hp : ¬ net.Grants p.1) (hlatest : ∀ q ∈ before ++ [p], turn net q ≤ turn net w)
    (hw : (net w.1).outcome ≠ .crash) :
    upshot net requests w = verdict p.1 (net p.1).outcome := by
  have hfront : ∀ q ∈ before, turn net q ≤ turn net w ∧ net.Grants q.1 := fun q hq =>
    ⟨hlatest q (List.mem_append_left _ hq), hbefore q hq⟩
  rw [upshot_eq requests hw, if_neg hmany, hplaces, taken_append hfront]
  exact taken_of_in (hlatest p (List.mem_append_right _ List.mem_cons_self)) hp _

theorem exists_latest (net : Network) (before : List (Request × Nat)) (p : Request × Nat) :
    ∃ w ∈ before ++ [p], ∀ q ∈ before ++ [p], turn net q ≤ turn net w := by
  cases hw : (before ++ [p]).argmax (turn net) with
  | none => simp [List.argmax_eq_none] at hw
  | some w => exact ⟨w, List.argmax_mem hw, fun q hq => List.le_of_mem_argmax hq hw⟩

theorem exists_first_refusal {requests : List Request} (hnot : ¬ ∀ r ∈ requests, net.Grants r) :
    ∃ before p after, requests.zipIdx = before ++ p :: after ∧ (∀ q ∈ before, net.Grants q.1) ∧
      ¬ net.Grants p.1 := by
  classical
  obtain ⟨r, hr, hrefused⟩ : ∃ r ∈ requests, ¬ net.Grants r := by simpa using hnot
  obtain ⟨k, hk⟩ := List.mem_iff_getElem?.mp hr
  have hfind : (requests.zipIdx.find? fun p => ¬ net.Grants p.1).isSome :=
    List.find?_isSome.mpr ⟨(r, k), List.mk_mem_zipIdx_iff_getElem?.mpr hk, decide_eq_true hrefused⟩
  obtain ⟨p, hp⟩ := Option.isSome_iff_exists.mp hfind
  obtain ⟨hnot, before, after, hplaces, hbefore⟩ := List.find?_eq_some_iff_append.mp hp
  exact ⟨before, p, after, hplaces, fun q hq => by simpa using hbefore q hq, of_decide_eq_true hnot⟩

theorem exists_upshot_ne {requests : List Request} (hnot : ¬ ∀ r ∈ requests, net.Grants r) :
    ∃ p ∈ requests.zipIdx, upshot net requests p ≠ .goesOn := by
  obtain ⟨before, p, after, hplaces, hbefore, hp⟩ := exists_first_refusal hnot
  have hmem : p ∈ requests.zipIdx := hplaces ▸ List.mem_append_right _ List.mem_cons_self
  have hverdict : verdict p.1 (net p.1).outcome ≠ .goesOn := mt (verdict_eq_goesOn_iff ..).mp hp
  by_cases hfew : requests.length ≤ 30
  · refine ⟨p, hmem, ?_⟩
    by_cases hcrash : (net p.1).outcome = .crash
    · rw [upshot_of_crash requests hcrash]
      exact nofun
    · rw [upshot_eq requests hcrash, if_pos hfew]
      exact hverdict
  · obtain ⟨w, hw, hlatest⟩ := exists_latest net before p
    refine ⟨w, ?_, ?_⟩
    · rw [hplaces, ← List.singleton_append, ← List.append_assoc]
      exact List.mem_append_left _ hw
    · by_cases hcrash : (net w.1).outcome = .crash
      · rw [upshot_of_crash requests hcrash]
        exact nofun
      · rw [upshot_of_latest hfew hplaces hbefore hp hlatest hcrash]
        exact hverdict

/-- What one round does about one fetch. -/
def look (net : Network) (requests : List Request) (n : Nat) (p : Request × Nat) (m : Manager) :
    Round × Manager :=
  let m := if n = 0 then m.call p.1 else m
  if (net p.1).delay = n then (upshot net requests p, m.countAnswer (net p.1).outcome)
  else (.goesOn, m)

theorem round_cons (net : Network) (requests : List Request) (n : Nat) (p : Request × Nat)
    (rest : List (Request × Nat)) (m : Manager) :
    round net requests n (p :: rest) m =
      match look net requests n p m with
      | (.goesOn, m) => round net requests n rest m
      | ended => ended := by
  rw [round, look]
  by_cases hn : (net p.1).delay = n
  · simp only [if_pos hn]
    cases upshot net requests p <;> rfl
  · simp only [if_neg hn]

/-- What each look keeps is kept by the round. -/
theorem round_keeps {requests : List Request} {n : Nat} {P : Manager → Manager → Prop}
    (hrefl : ∀ m, P m m) (htrans : ∀ m m' m'', P m m' → P m' m'' → P m m'')
    (hlook : ∀ p m, P m (look net requests n p m).2) (places : List (Request × Nat)) (m : Manager) :
    P m (round net requests n places m).2 := by
  induction places generalizing m with
  | nil => exact hrefl m
  | cons p rest ih =>
    have hstep := hlook p m
    rw [round_cons]
    generalize look net requests n p m = looked at hstep
    obtain ⟨_ | e | _, m₁⟩ := looked
    · exact htrans m m₁ _ hstep (ih m₁)
    · exact hstep
    · exact hstep

theorem look_bare (net : Network) (requests : List Request) (n : Nat) (p : Request × Nat)
    (m : Manager) : (look net requests n p m).2.bare = m.bare := by
  have hcall : (if n = 0 then m.call p.1 else m).bare = m.bare := by split <;> rfl
  rw [look]
  by_cases hn : (net p.1).delay = n
  · rw [if_pos hn]
    exact (countAnswer_bare _ _).trans hcall
  · rw [if_neg hn]
    exact hcall

theorem round_bare (net : Network) (requests : List Request) (n : Nat)
    (places : List (Request × Nat)) (m : Manager) :
    (round net requests n places m).2.bare = m.bare :=
  round_keeps (P := fun m m' => m'.bare = m.bare) (fun _ => rfl) (fun _ _ _ h h' => h'.trans h)
    (look_bare net requests n) places m

theorem look_eq_goesOn_iff (net : Network) (requests : List Request) (n : Nat) (p : Request × Nat)
    (m : Manager) : (look net requests n p m).1 = .goesOn ↔
      ((net p.1).delay = n → upshot net requests p = .goesOn) := by
  rw [look]
  by_cases hn : (net p.1).delay = n <;> simp [hn]

theorem upshot_of_look {requests : List Request} {n : Nat} {p : Request × Nat} {e : InstallError}
    (h : (look net requests n p m).1 = .fails e) : upshot net requests p = .fails e := by
  rw [look] at h
  split at h
  · exact h
  · cases h

theorem round_spec (net : Network) (requests : List Request) (n : Nat)
    (places : List (Request × Nat)) (m : Manager) :
    ((round net requests n places m).1 = .goesOn ↔
        ∀ p ∈ places, (net p.1).delay = n → upshot net requests p = .goesOn) ∧
      ∀ e, (round net requests n places m).1 = .fails e → ¬ e.OfManifest := by
  induction places generalizing m with
  | nil => exact ⟨by simp [round], fun _ h => (nomatch h)⟩
  | cons p rest ih =>
    have hgoes := look_eq_goesOn_iff net requests n p m
    have hfails : ∀ e, (look net requests n p m).1 = .fails e → ¬ e.OfManifest := fun e h =>
      not_ofManifest_of_upshot (upshot_of_look h)
    rw [round_cons, List.forall_mem_cons]
    generalize look net requests n p m = looked at hgoes hfails
    obtain ⟨_ | e | _, m₁⟩ := looked
    · obtain ⟨hrest, hfails⟩ := ih m₁
      exact ⟨hrest.trans (and_iff_right (hgoes.mp rfl)).symm, hfails⟩
    · exact ⟨⟨fun h => (nomatch h), fun h => hgoes.mpr h.1⟩, hfails⟩
    · exact ⟨⟨fun h => (nomatch h), fun h => hgoes.mpr h.1⟩, hfails⟩

theorem rounds_keeps (net : Network) (requests : List Request) (n count : Nat) :
    (rounds net requests n count).Keeps (fun m m' => m'.bare = m.bare) fun result =>
      (result = some (.ok ()) ↔ ∀ p ∈ requests.zipIdx, n ≤ (net p.1).delay →
        (net p.1).delay < n + count → upshot net requests p = .goesOn) ∧
      ∀ e, result = some (.error e) → ¬ e.OfManifest := by
  induction count generalizing n with
  | zero => exact ⟨⟨fun _ p _ h h' => absurd h' (by omega), fun _ => rfl⟩, fun _ h => (nomatch h)⟩
  | succ count ih =>
    rw [rounds.eq_def]
    intro m
    obtain ⟨hgoes, hfails⟩ := round_spec net requests n requests.zipIdx m
    refine ⟨round_bare net requests n requests.zipIdx m, ?_⟩
    generalize (round net requests n requests.zipIdx m).1 = ended at hgoes hfails ⊢
    cases ended with
    | fails e =>
      refine ⟨⟨fun h => (nomatch h), fun h => ?_⟩, fun e' h => ?_⟩
      · exact absurd (hgoes.mpr fun p hp hn => h p hp (by omega) (by omega)) (by simp)
      · cases h
        exact hfails e rfl
    | crashes =>
      refine ⟨⟨fun h => (nomatch h), fun h => ?_⟩, fun e' h => (nomatch h)⟩
      exact absurd (hgoes.mpr fun p hp hn => h p hp (by omega) (by omega)) (by simp)
    | goesOn =>
      have hnow := hgoes.mp rfl
      -- that no wait follows the last round does not matter
      have hnext : (rounds net requests (n + 1) count).Keeps (fun m m' => m'.bare = m.bare)
          fun result => (result = some (.ok ()) ↔ ∀ p ∈ requests.zipIdx, n ≤ (net p.1).delay →
              (net p.1).delay < n + (count + 1) → upshot net requests p = .goesOn) ∧
            ∀ e, result = some (.error e) → ¬ e.OfManifest := by
        refine (ih (n + 1)).mono (fun _ _ h => h) fun result h => ⟨h.1.trans ?_, h.2⟩
        constructor
        · intro hlater p hp hle hlt
          by_cases hn : (net p.1).delay = n
          · exact hnow p hp hn
          · exact hlater p hp (by omega) (by omega)
        · exact fun hall p hp hle hlt => hall p hp (by omega) (by omega)
      cases count with
      | zero => exact hnext
      | succ count => exact hnext

theorem le_foldl_max (l : List Nat) (a : Nat) :
    a ≤ l.foldl max a ∧ ∀ n ∈ l, n ≤ l.foldl max a := by
  induction l generalizing a with
  | nil => simp
  | cons b l ih =>
    obtain ⟨h, hl⟩ := ih (max a b)
    simp only [List.foldl_cons, List.forall_mem_cons]
    exact ⟨by omega, by omega, hl⟩

theorem delay_le_longestDelay (net : Network) {requests : List Request} {r : Request}
    (hr : r ∈ requests) : (net r).delay ≤ longestDelay net requests :=
  (le_foldl_max _ 0).2 _ (List.mem_map.mpr ⟨r, hr, rfl⟩)

theorem gather_keeps (net : Network) (requests : List Request) :
    (gather net requests).Keeps (fun m m' => m'.bare = m.bare) fun result =>
      (result = some (.ok ()) ↔ ∀ r ∈ requests, net.Grants r) ∧
      ∀ e, result = some (.error e) → ¬ e.OfManifest := by
  refine (rounds_keeps net requests 0 _).mono (fun _ _ h => h) fun result h => ⟨h.1.trans ?_, h.2⟩
  constructor
  · intro hall
    by_contra hnot
    obtain ⟨p, hp, hended⟩ := exists_upshot_ne hnot
    have := delay_le_longestDelay net (List.fst_mem_of_mem_zipIdx hp)
    exact hended (hall p hp (by omega) (by omega))
  · exact fun hall p hp _ _ => upshot_of_grants hall hp

theorem keys_harvest_sublist (net : Network) (requests : List Request) :
    ((harvest net requests).map (·.1)).Sublist (requests.map Request.key) := by
  induction requests with
  | nil => exact .slnil
  | cons r rest ih =>
    rw [harvest, List.filterMap_cons]
    cases (net r).response? with
    | none => exact ih.cons _
    | some response => exact ih.cons_cons _

theorem mem_harvest {requests : List Request} {r : Request} {response : Response}
    (hr : r ∈ requests) (ho : (net r).outcome = .response response) :
    (r.key, response) ∈ harvest net requests :=
  List.mem_filterMap.mpr ⟨r, hr, by rw [Answer.response?, ho]; rfl⟩

theorem get?_insertAll_harvest {requests : List Request}
    (hn : (requests.map Request.key).Nodup) (hg : ∀ r ∈ requests, net.Grants r)
    (before : Entries) :
    (∀ r ∈ requests, ∃ response, (net r).outcome = .response response ∧
      (before.insertAll (harvest net requests)).get? r.key = some response) ∧
      ∀ k, (∀ r ∈ requests, r.key ≠ k) →
        (before.insertAll (harvest net requests)).get? k = before.get? k := by
  have hsub := keys_harvest_sublist net requests
  constructor
  · intro r hr
    obtain ⟨response, ho, _⟩ := hg r hr
    exact ⟨response, ho, Entries.get?_insertAll_of_mem before (hn.sublist hsub) (mem_harvest hr ho)⟩
  · intro k hk
    refine Entries.get?_insertAll_of_not_mem before fun hmem => ?_
    obtain ⟨r, hr, rfl⟩ := List.mem_map.mp (hsub.subset hmem)
    exact hk r hr rfl

theorem storeAll_cases (h : Handle) (batch : List (Key × Response)) (m : Manager) :
    (∃ e, (m.store.putAll h batch).1 = .error e ∧
      storeAll h batch m = (.error (failed e), { m with store := (m.store.putAll h batch).2 })) ∨
    ((m.store.putAll h batch).1 = .ok () ∧ (storeAll h batch m).1 = .ok () ∧
      (storeAll h batch m).2.bare =
        ({ m with store := (m.store.putAll h batch).2 } : Manager).bare) := by
  rw [storeAll]
  generalize m.store.putAll h batch = put
  obtain ⟨result, store⟩ := put
  cases result with
  | error e => exact .inl ⟨e, rfl, rfl⟩
  | ok _ => exact .inr ⟨rfl, rfl, rfl⟩

def opened (m : Manager) : Manager := { m with store := (m.store.openBucket m.name).2 }

/-- The four places at which populating a bucket is decided, with what has changed by then. -/
theorem populate_cases [Idna] (net : Network) (m : Manager) :
    (∃ e, Manifest.resolve m.origin m.manifest = .error e ∧
      (populate net).run m = (some (.error e), m)) ∨
    (∃ e, (m.store.openBucket m.name).1 = .error e ∧
      (populate net).run m = (some (.error (failed e)), m.opened)) ∨
    ∃ requests h, Manifest.resolve m.origin m.manifest = .ok requests ∧
      (m.store.openBucket m.name).1 = .ok h ∧
      ((¬ (∀ r ∈ requests, net.Grants r) ∧ ((populate net).run m).1 ≠ some (.ok ()) ∧
        (∀ e, ((populate net).run m).1 = some (.error e) → ¬ e.OfManifest) ∧
        ((populate net).run m).2.bare = m.opened.bare) ∨
      ((∀ r ∈ requests, net.Grants r) ∧ ∃ m₁ : Manager, m₁.bare = m.opened.bare ∧
        (populate net).run m = (some (storeAll h (harvest net requests) m₁).1,
          (storeAll h (harvest net requests) m₁).2))) := by
  rw [populate, Task.run]
  cases hr : Manifest.resolve m.origin m.manifest with
  | error e => exact .inl ⟨e, rfl, rfl⟩
  | ok requests =>
    have hbucket : m.bucket = ((m.store.openBucket m.name).1, m.opened) := rfl
    simp only [Task.run, hbucket]
    cases ho : (m.store.openBucket m.name).1 with
    | error e => exact .inr (.inl ⟨e, rfl, rfl⟩)
    | ok h =>
      refine .inr (.inr ⟨requests, h, rfl, rfl, ?_⟩)
      obtain ⟨hbare, hgrants, herror⟩ := (gather_keeps net requests).run (fun _ => rfl)
        (fun _ _ _ h h' => h'.trans h) m.opened
      simp only [Task.run_bind]
      generalize (gather net requests).run m.opened = gathered at hbare hgrants herror ⊢
      obtain ⟨result, m₁⟩ := gathered
      rcases result with _ | e | _
      · exact .inl ⟨fun hg => (nomatch hgrants.mpr hg), fun he => (nomatch he),
          fun _ he => (nomatch he), hbare⟩
      · refine .inl ⟨fun hg => (nomatch hgrants.mpr hg), fun he => (nomatch he), fun e' he => ?_,
          hbare⟩
        cases he
        exact herror e rfl
      · exact .inr ⟨hgrants.mp rfl, m₁, hbare, rfl⟩

theorem install_eq [Idna] (net : Network) (m : Manager) :
    install net m = match (populate net).run m with
      | (some result, m') => (some result, m'.recordInstall result)
      | (none, m') => (none, m') := by
  rw [install, installTask, Task.run_bind]
  generalize (populate net).run m = ran
  obtain ⟨result, m'⟩ := ran
  cases result <;> rfl

/-- To a fetch event, to a reader of any bucket and to the next process the manager is as it was. -/
structure Untouched (m m' : Manager) : Prop where
  store : m.store.Same m'.store
  phase : m'.phase = m.phase
  stats : m'.stats = m.stats

theorem untouched_of_bare {m₁ : Manager} (hu : Untouched m m₁) (h : m'.bare = m₁.bare) :
    Untouched m m' :=
  ⟨(store_of_bare h).symm ▸ hu.store, (phase_of_bare h).trans hu.phase,
    (stats_of_bare h).trans hu.stats⟩

theorem untouched_opened (hm : m.store.Sound) : Untouched m m.opened :=
  ⟨(Store.openBucket_same hm m.name).1, rfl, rfl⟩

theorem install_of_ok [Idna] (h : ((populate net).run m).1 = some (.ok ())) :
    (install net m).1 = some (.ok ()) ∧
      (install net m).2.store = ((populate net).run m).2.store ∧
      (install net m).2.phase =
        if ((populate net).run m).2.phase = .uninitialized then .populated
        else ((populate net).run m).2.phase := by
  rw [install_eq]
  generalize (populate net).run m = ran at h ⊢
  obtain ⟨_ | e | _, m'⟩ := ran
  · cases h
  · cases h
  · by_cases hp : m'.phase = .uninitialized <;>
      simp only [recordInstall, withMetrics, hp, if_true, if_false, and_self]

/-- What an install needs: the manifest resolves, the bucket opens, the network grants every
request and the batch can be committed. -/
def CanInstall [Idna] (net : Network) (m : Manager) : Prop :=
  ∃ requests h, Manifest.resolve m.origin m.manifest = .ok requests ∧
    (m.store.openBucket m.name).1 = .ok h ∧ (∀ r ∈ requests, net.Grants r) ∧
    ((m.store.openBucket m.name).2.putAll h (harvest net requests)).1 = .ok ()

/-- The bucket holds the network's responses to all entries of the manifest, and besides them what
it held before. -/
structure Filled [Idna] (net : Network) (m m' : Manager) : Prop where
  bucket : ∃ requests before after, Manifest.resolve m.origin m.manifest = .ok requests ∧
    m.store.contents m.name = .ok before ∧ m'.store.contents m.name = .ok after ∧
    (∀ r ∈ requests, ∃ response, (net r).outcome = .response response ∧
      after.get? r.key = some response) ∧
    ∀ k, (∀ r ∈ requests, r.key ≠ k) → after.get? k = before.get? k
  phase : m'.phase = if m.phase = .uninitialized then .populated else m.phase

theorem install_of_failed [Idna] {result : Option (Except InstallError Unit)}
    (hrun : (populate net).run m = (result, m')) (hne : result ≠ some (.ok ()))
    (hnot : ¬ CanInstall net m) (hu : Untouched m m') :
    (install net m).1 = result ∧ (install net m).2.calls = m'.calls ∧
      ((install net m).1 = some (.ok ()) ↔ CanInstall net m) ∧
      ((install net m).1 = some (.ok ()) → Filled net m (install net m).2) ∧
      ((install net m).1 ≠ some (.ok ()) → Untouched m (install net m).2) := by
  have hrest : (install net m).1 = result ∧ (install net m).2.calls = m'.calls ∧
      Untouched m (install net m).2 := by
    rw [install_eq, hrun]
    rcases result with _ | e | _
    · exact ⟨rfl, rfl, hu⟩
    · exact ⟨rfl, rfl, untouched_of_bare hu rfl⟩
    · exact absurd rfl hne
  obtain ⟨hresult, hcalls, hu'⟩ := hrest
  rw [hresult]
  exact ⟨rfl, hcalls, ⟨fun h => absurd h hne, fun h => absurd h hnot⟩, fun h => absurd h hne,
    fun _ => hu'⟩

theorem canInstall_iff [Idna] (net : Network) {requests : List Request} {h : Handle}
    (hr : Manifest.resolve m.origin m.manifest = .ok requests)
    (ho : (m.store.openBucket m.name).1 = .ok h) :
    CanInstall net m ↔ (∀ r ∈ requests, net.Grants r) ∧
      (m.opened.store.putAll h (harvest net requests)).1 = .ok () := by
  constructor
  · rintro ⟨requests', h', hr', ho', hg, hp⟩
    cases hr.symm.trans hr'
    cases ho.symm.trans ho'
    exact ⟨hg, hp⟩
  · rintro ⟨hg, hp⟩
    exact ⟨requests, h, hr, ho, hg, hp⟩

theorem filled_of_putAll [Idna] {requests : List Request} {h : Handle} (hm : m.store.Sound)
    (hr : Manifest.resolve m.origin m.manifest = .ok requests)
    (ho : (m.store.openBucket m.name).1 = .ok h) (hg : ∀ r ∈ requests, net.Grants r)
    (hp : (m.opened.store.putAll h (harvest net requests)).1 = .ok ())
    (hstore : m'.store = (m.opened.store.putAll h (harvest net requests)).2)
    (hphase : m'.phase = if m.phase = .uninitialized then .populated else m.phase) :
    Filled net m m' := by
  obtain ⟨hsame, hsound⟩ := Store.openBucket_same hm m.name
  have hregistered := Store.openBucket_registered ho
  have hbefore := Store.contents_of_registered hregistered
  rw [hsame.contents] at hbefore
  obtain ⟨b, hb, _⟩ := hsound.registered m.name h hregistered
  obtain ⟨_, hregistry, _, hentries⟩ := Store.commit_ok hsound hp
  have hafter := Store.contents_of_registered (hregistry ▸ hregistered)
  rw [hentries h (List.getElem?_eq_some_iff.mp hb).1, if_pos rfl] at hafter
  obtain ⟨hin, hout⟩ := get?_insertAll_harvest (Manifest.nodup_keys_resolve hr) hg
    (m.opened.store.entries h)
  exact ⟨⟨requests, _, _, hr, hbefore, hstore ▸ hafter, hin, hout⟩, hphase⟩

/-- An install does well just if it can, and then fills the bucket; else it changes nothing. Of a
manifest that is at fault, and for a bucket that does not open, nothing is fetched. -/
theorem install_all_or_nothing [Idna] (net : Network) (m : Manager) (hm : m.store.Sound) :
    ((install net m).1 = some (.ok ()) ↔ CanInstall net m) ∧
      ((install net m).1 = some (.ok ()) → Filled net m (install net m).2) ∧
      ((install net m).1 ≠ some (.ok ()) → Untouched m (install net m).2) ∧
      ((∃ e, (install net m).1 = some (.error e) ∧ e.OfManifest) ∨
        (∃ e, (m.store.openBucket m.name).1 = .error e) →
          (install net m).2.calls = m.calls) := by
  have hopened := untouched_opened hm
  rcases populate_cases net m with ⟨e, hr, hrun⟩ | ⟨e, ho, hrun⟩ | ⟨requests, h, hr, ho, hcase⟩
  · have hnot : ¬ CanInstall net m := fun ⟨_, _, hr', _⟩ => (nomatch hr.symm.trans hr')
    obtain ⟨_, hcalls, hiff, hok, herr⟩ := install_of_failed hrun (by simp) hnot ⟨.refl _, rfl, rfl⟩
    exact ⟨hiff, hok, herr, fun _ => hcalls⟩
  · have hnot : ¬ CanInstall net m := fun ⟨_, _, _, ho', _⟩ => (nomatch ho.symm.trans ho')
    obtain ⟨_, hcalls, hiff, hok, herr⟩ := install_of_failed hrun (by simp) hnot hopened
    exact ⟨hiff, hok, herr, fun _ => hcalls⟩
  · have hcan := canInstall_iff net hr ho
    have hopens : ¬ ∃ e, (m.store.openBucket m.name).1 = .error e := fun ⟨_, he⟩ =>
      (nomatch ho.symm.trans he)
    rcases hcase with ⟨hg, hne, hnot, hb⟩ | ⟨hg, m₁, hb, hrun⟩
    · obtain ⟨hresult, hcalls, hiff, hok, herr⟩ := install_of_failed rfl hne (fun h => hg (hcan.mp h).1)
        (untouched_of_bare hopened hb)
      refine ⟨hiff, hok, herr, ?_⟩
      rintro (⟨e, he, hof⟩ | he)
      · exact absurd hof (hnot e (hresult.symm.trans he))
      · exact absurd he hopens
    · have hstore := store_of_bare hb
      rcases storeAll_cases h (harvest net requests) m₁ with ⟨e, hp, hs⟩ | ⟨hp, hs, hbare⟩
      · rw [hs] at hrun
        rw [hstore] at hp hrun
        have hsame := (Store.commit_error (Store.openBucket_same hm m.name).2 hp).1
        obtain ⟨hresult, hcalls, hiff, hok, herr⟩ := install_of_failed hrun (by simp)
          (fun h => (nomatch hp.symm.trans (hcan.mp h).2))
          ⟨hopened.store.trans hsame, (phase_of_bare hb).trans hopened.phase,
            (stats_of_bare hb).trans hopened.stats⟩
        refine ⟨hiff, hok, herr, ?_⟩
        rintro (⟨e', he, hof⟩ | he)
        · cases hresult.symm.trans he
          exact absurd hof id
        · exact absurd he hopens
      · have hdone : ((populate net).run m).1 = some (.ok ()) := by rw [hrun, hs]
        obtain ⟨hresult, hstore', hphase⟩ := install_of_ok hdone
        rw [hrun] at hstore' hphase
        rw [hstore] at hp
        refine ⟨⟨fun _ => hcan.mpr ⟨hg, hp⟩, fun _ => hresult⟩, fun _ => ?_,
          fun hne => absurd hresult hne, ?_⟩
        · refine filled_of_putAll hm hr ho hg hp ?_ ?_
          · rw [hstore', store_of_bare hbare, hstore]
          · rw [hphase, phase_of_bare hbare, phase_of_bare hb]
            rfl
        · rintro (⟨e, he, _⟩ | he)
          · cases hresult.symm.trans he
          · exact absurd he hopens

open scoped Idna

/-- Two assets, for the second of which the bucket holds an old response, beside one for a page that
the manifest does not list. -/
theorem install_into_memory :
    let origin : Url := ⟨"http".toList, some ⟨[], "a".toList, none⟩, .segments [[]], none, none⟩
    let first : Response := ⟨200, [("Vary", "accept")], ⟨#[1]⟩⟩
    let second : Response := ⟨204, [], .empty⟩
    let old : Response := ⟨200, [], ⟨#[0]⟩⟩
    let key := fun text : String => (⟨"GET", text⟩ : Key)
    let net : Network := fun r =>
      if r.key = key "http://a/x" then ⟨1, .response first⟩ else ⟨0, .response second⟩
    let store := (((Store.begin none .empty).openBucket "assets").2.putAll 0
      [(key "http://a/y", old), (key "http://a/z", old)]).2
    let m := begin "assets" ["x", "y"] origin store
    m.store.Sound ∧ CanInstall net m ∧ Filled net m (install net m).2 ∧
      (install net m).2.store.contents "assets" = .ok (.ofList
        [(key "http://a/x", first), (key "http://a/y", second), (key "http://a/z", old)]) := by
  intro origin first second old key net store m
  have hopened := (Store.openBucket_same (Store.sound_begin none Disk.isTree_empty) "assets").2
  have hm : m.store.Sound := (Store.commit_ok hopened rfl).1
  obtain ⟨hiff, hfilled, -⟩ := install_all_or_nothing net m hm
  have hok : (install net m).1 = some (.ok ()) := by decide +kernel
  exact ⟨hm, hiff.mp hok, hfilled hok, by decide +kernel⟩

end Manager

end AssetCache
