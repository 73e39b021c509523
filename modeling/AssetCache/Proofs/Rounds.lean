import AssetCache.Proofs.Accounts.Fetch
import AssetCache.Proofs.Install
import Mathlib.Order.WellFounded

namespace AssetCache

/-- What keeps the response to a request out of the bucket. -/
inductive Network.Faults (net : Network) (r : Request) : InstallError → Prop
  | network {e : FetchError} (h : (net r).outcome = .failure e) :
    Faults net r (.network r.url.text e)
  | badStatus {response : Response} (h : (net r).outcome = .response response)
    (hstatus : ¬ (200 ≤ response.status.toNat ∧ response.status.toNat < 300)) :
    Faults net r (.badStatus r.url.text response.status)
  | uncacheable {response : Response} (h : (net r).outcome = .response response)
    (hstatus : 200 ≤ response.status.toNat ∧ response.status.toNat < 300)
    (hvary : ∃ field ∈ response.headers,
      Text.sameLetters field.1 "vary" = true ∧ IsMember ['*'] field.2.toList) :
    Faults net r (.uncacheable r.url.text "Vary: * cannot be matched")

/-- What is kept of installs: the calls, the latest first, how many of them were answered and how
many failed, and how many installs did well and how many did not. -/
structure InstallRecords where
  calls : List Request
  answered : Nat
  failed : Nat
  installs : Nat
  failedInstalls : Nat
deriving DecidableEq

namespace InstallRecords

def after (g : InstallRecords) (sent : List Request) (answered failed : Nat) : InstallRecords :=
  ⟨sent.reverse ++ g.calls, g.answered + answered, g.failed + failed, g.installs, g.failedInstalls⟩

def ended (g : InstallRecords) (ok : Bool) : InstallRecords :=
  if ok then { g with installs := g.installs + 1 }
  else { g with failedInstalls := g.failedInstalls + 1 }

theorem after_nil (g : InstallRecords) : g.after [] 0 0 = g := rfl

theorem after_after (g : InstallRecords) (sent sent' : List Request) (a a' f f' : Nat) :
    (g.after sent a f).after sent' a' f' = g.after (sent ++ sent') (a + a') (f + f') := by
  simp only [after, List.reverse_append, List.append_assoc, Nat.add_assoc]

end InstallRecords

namespace Manager

variable {net : Network} {m m' : Manager} {r : Request} {requests : List Request}
  {p : Request × Nat} {before : List (Request × Nat)} {e : InstallError} {n i : Nat}

def records (m : Manager) : InstallRecords where
  calls := m.calls
  answered := m.metrics.fetchCount "install" true
  failed := m.metrics.fetchCount "install" false
  installs := m.metrics.installs
  failedInstalls := m.metrics.failedInstalls

/-- The place of the manifest whose fetch is the first to fail. -/
structure FirstFault (net : Network) (requests : List Request) (r : Request) (i : Nat)
    (e : InstallError) : Prop where
  place : requests[i]? = some r
  fault : net.Faults r e
  first : ∀ (j : Nat) r', requests[j]? = some r' → (∃ e', net.Faults r' e') →
    turn net (r, i) ≤ turn net (r', j)

/-- How many fetches have come to an end, with a response or without, when the one at the place `i`
has. -/
def endedBy (net : Network) (requests : List Request) (r : Request) (i : Nat) (answered : Bool) :
    Nat :=
  requests.zipIdx.countP fun p =>
    turn net p ≤ turn net (r, i) ∧ (net p.1).response?.isSome = answered

/-- What an install sends whose first fault is at the place `i`: if it is found in the first round,
nothing that comes after it. -/
def sentBy (net : Network) (requests : List Request) (r : Request) (i : Nat) : List Request :=
  if (net r).delay = 0 then requests.take (i + 1) else requests

theorem unfit_eq_some_iff (url : Url) (response : Response) :
    unfit url response = some e ↔
      (¬ (200 ≤ response.status.toNat ∧ response.status.toNat < 300) ∧
        e = .badStatus url.text response.status) ∨
      ((200 ≤ response.status.toNat ∧ response.status.toNat < 300) ∧
        (∃ field ∈ response.headers,
          Text.sameLetters field.1 "vary" = true ∧ IsMember ['*'] field.2.toList) ∧
        e = .uncacheable url.text "Vary: * cannot be matched") := by
  rw [unfit, ← isSuccess_iff, ← hasWildcardVary_iff]
  cases response.isSuccess <;> cases hasWildcardVary response <;> simp [eq_comm]

theorem verdict_eq_fails_iff : verdict r (net r).outcome = .fails e ↔ net.Faults r e := by
  constructor
  · intro h
    cases ho : (net r).outcome with
    | crash =>
      rw [ho] at h
      cases h
    | failure e' =>
      rw [ho] at h
      cases h
      exact .network ho
    | response response =>
      rw [ho, verdict] at h
      split at h
      · next hu =>
        cases h
        obtain ⟨hstatus, rfl⟩ | ⟨hstatus, hvary, rfl⟩ := (unfit_eq_some_iff _ _).mp hu
        · exact .badStatus ho hstatus
        · exact .uncacheable ho hstatus hvary
      · cases h
  · intro hfault
    cases hfault with
    | network ho => rw [ho, verdict]
    | @badStatus response ho hstatus =>
      rw [ho, verdict, (unfit_eq_some_iff r.url response).mpr (.inl ⟨hstatus, rfl⟩)]
    | @uncacheable response ho hstatus hvary =>
      rw [ho, verdict, (unfit_eq_some_iff r.url response).mpr (.inr ⟨hstatus, hvary, rfl⟩)]

theorem not_grants_of_faults (hfault : net.Faults r e) : ¬ net.Grants r := fun hgrants =>
  nomatch (verdict_eq_fails_iff.mpr hfault).symm.trans ((verdict_eq_goesOn_iff ..).mpr hgrants)

theorem exists_faults (hanswers : (net r).outcome ≠ .crash) (hnot : ¬ net.Grants r) :
    ∃ e, net.Faults r e := by
  cases hv : verdict r (net r).outcome with
  | goesOn => exact absurd ((verdict_eq_goesOn_iff ..).mp hv) hnot
  | fails e => exact ⟨e, verdict_eq_fails_iff.mp hv⟩
  | crashes =>
    cases ho : (net r).outcome with
    | crash => exact absurd ho hanswers
    | failure e => exact ⟨_, .network ho⟩
    | response response =>
      rw [ho, verdict] at hv
      split at hv <;> cases hv

theorem records_addFetch (m : Manager) (ok : Bool) :
    (m.withMetrics (·.addFetch "install" ok)).records =
      m.records.after [] (if ok then 1 else 0) (if ok then 0 else 1) := by
  simp only [records, InstallRecords.after, withMetrics, Metrics.fetchCount_addFetch]
  cases ok <;> rfl

theorem records_call (m : Manager) (r : Request) : (m.call r).records = m.records.after [r] 0 0 :=
  rfl

theorem countAnswer_records (m : Manager) (hanswers : (net r).outcome ≠ .crash) :
    (m.countAnswer (net r).outcome).records =
      m.records.after [] (if (net r).response?.isSome = true then 1 else 0)
        (if (net r).response?.isSome = false then 1 else 0) := by
  rw [Answer.response?]
  cases ho : (net r).outcome with
  | crash => exact absurd ho hanswers
  | failure e => exact records_addFetch m false
  | response response => exact records_addFetch m true

def endingIn (net : Network) (n : Nat) (answered : Bool) (places : List (Request × Nat)) : Nat :=
  places.countP fun p => (net p.1).delay = n ∧ (net p.1).response?.isSome = answered

def endingBefore (net : Network) (n : Nat) (answered : Bool) (places : List (Request × Nat)) : Nat :=
  places.countP fun p => (net p.1).delay < n ∧ (net p.1).response?.isSome = answered

theorem endingBefore_succ (net : Network) (n : Nat) (answered : Bool)
    (places : List (Request × Nat)) :
    endingBefore net (n + 1) answered places =
      endingBefore net n answered places + endingIn net n answered places := by
  induction places with
  | nil => rfl
  | cons p rest ih =>
    simp only [endingBefore, endingIn, List.countP_cons, decide_eq_true_eq] at ih ⊢
    by_cases ha : (net p.1).response?.isSome = answered
    · simp only [ha, and_true]
      split <;> split <;> split <;> omega
    · simp only [ha, and_false, if_false]
      exact ih

theorem endingIn_append (net : Network) (n : Nat) (answered : Bool) (l l' : List (Request × Nat)) :
    endingIn net n answered (l ++ l') = endingIn net n answered l + endingIn net n answered l' :=
  List.countP_append

def afterRound (net : Network) (n : Nat) (g : InstallRecords) (part : List (Request × Nat)) :
    InstallRecords :=
  g.after (if n = 0 then part.map (·.1) else []) (endingIn net n true part)
    (endingIn net n false part)

theorem afterRound_append (net : Network) (n : Nat) (g : InstallRecords)
    (l l' : List (Request × Nat)) :
    afterRound net n (afterRound net n g l) l' = afterRound net n g (l ++ l') := by
  rw [afterRound, afterRound, afterRound, InstallRecords.after_after, endingIn_append,
    endingIn_append, List.map_append]
  by_cases hn : n = 0
  · simp only [if_pos hn]
  · simp only [if_neg hn, List.append_nil]

theorem look_records (requests : List Request) (n : Nat) (m : Manager)
    (hanswers : (net p.1).outcome ≠ .crash) :
    (look net requests n p m).2.records = afterRound net n m.records [p] := by
  have hcall : (if n = 0 then m.call p.1 else m).records =
      m.records.after (if n = 0 then [p.1] else []) 0 0 := by
    split
    · exact records_call m p.1
    · rfl
  rw [look, afterRound]
  by_cases hn : (net p.1).delay = n
  · rw [if_pos hn]
    dsimp only
    rw [countAnswer_records _ hanswers, hcall, InstallRecords.after_after]
    simp [endingIn, hn]
  · rw [if_neg hn]
    refine hcall.trans ?_
    simp [endingIn, hn]

theorem look_fails (m : Manager) (hn : (net p.1).delay = n)
    (hends : upshot net requests p = .fails e) : (look net requests n p m).1 = .fails e := by
  rw [look, if_pos hn]
  exact hends

/-- A round goes on past the places by which nothing ends. -/
theorem round_append (hanswers : ∀ p ∈ before, (net p.1).outcome ≠ .crash)
    (hgoes : ∀ p ∈ before, (net p.1).delay = n → upshot net requests p = .goesOn)
    (rest : List (Request × Nat)) (m : Manager) :
    ∃ m₁ : Manager, m₁.bare = m.bare ∧ m₁.records = afterRound net n m.records before ∧
      round net requests n (before ++ rest) m = round net requests n rest m₁ := by
  induction before generalizing m with
  | nil => exact ⟨m, rfl, by simp [afterRound, endingIn, InstallRecords.after_nil], rfl⟩
  | cons p before ih =>
    obtain ⟨hanswer, hanswers⟩ := List.forall_mem_cons.mp hanswers
    obtain ⟨hgo, hgoes⟩ := List.forall_mem_cons.mp hgoes
    have hbare := look_bare net requests n p m
    have hrecords := look_records requests n m hanswer
    have hlook := (look_eq_goesOn_iff net requests n p m).mpr hgo
    generalize hlooked : look net requests n p m = looked at hbare hrecords hlook
    obtain ⟨ended, m₁⟩ := looked
    cases hlook
    obtain ⟨m₂, hbare₂, hrecords₂, hround⟩ := ih hanswers hgoes m₁
    refine ⟨m₂, hbare₂.trans hbare, ?_, ?_⟩
    · rw [hrecords₂, hrecords, afterRound_append]
      rfl
    · rw [List.cons_append, round_cons, hlooked]
      exact hround

theorem round_goesOn (hanswers : ∀ p ∈ before, (net p.1).outcome ≠ .crash)
    (hgoes : ∀ p ∈ before, (net p.1).delay = n → upshot net requests p = .goesOn) (m : Manager) :
    ∃ m₁ : Manager, m₁.bare = m.bare ∧ m₁.records = afterRound net n m.records before ∧
      round net requests n before m = (.goesOn, m₁) := by
  obtain ⟨m₁, hbare, hrecords, hround⟩ := round_append hanswers hgoes [] m
  rw [List.append_nil] at hround
  exact ⟨m₁, hbare, hrecords, hround⟩

theorem round_fails (hanswers : ∀ p ∈ before, (net p.1).outcome ≠ .crash)
    (hgoes : ∀ p ∈ before, (net p.1).delay = n → upshot net requests p = .goesOn)
    (hanswer : (net p.1).outcome ≠ .crash) (hn : (net p.1).delay = n)
    (hends : upshot net requests p = .fails e) (rest : List (Request × Nat)) (m : Manager) :
    ∃ m₁ : Manager, m₁.bare = m.bare ∧ m₁.records = afterRound net n m.records (before ++ [p]) ∧
      round net requests n (before ++ p :: rest) m = (.fails e, m₁) := by
  obtain ⟨m₁, hbare, hrecords, hround⟩ := round_append hanswers hgoes (p :: rest) m
  have hbare₂ := look_bare net requests n p m₁
  have hrecords₂ := look_records requests n m₁ hanswer
  have hlook := look_fails m₁ hn hends
  rw [hround, round_cons]
  generalize look net requests n p m₁ = looked at hbare₂ hrecords₂ hlook ⊢
  obtain ⟨ended, m₂⟩ := looked
  cases hlook
  refine ⟨m₂, hbare₂.trans hbare, ?_, rfl⟩
  rw [hrecords₂, hrecords, afterRound_append]

theorem run_rounds_succ (net : Network) (requests : List Request) (n count : Nat) (m : Manager) :
    (rounds net requests n (count + 1)).run m =
      match round net requests n requests.zipIdx m with
      | (.fails e, m) => (some (.error e), m)
      | (.crashes, m) => (none, m)
      | (.goesOn, m) => (rounds net requests (n + 1) count).run m := by
  rw [rounds.eq_def]
  simp only [Task.run]
  generalize round net requests n requests.zipIdx m = ended
  obtain ⟨_ | e | _, m₁⟩ := ended
  · -- no wait follows the last round, but a wait changes nothing
    cases count <;> rfl
  · rfl
  · rfl

theorem answers_zipIdx (hanswers : ∀ r ∈ requests, (net r).outcome ≠ .crash) :
    ∀ p ∈ requests.zipIdx, (net p.1).outcome ≠ .crash := fun p hp =>
  hanswers p.1 (List.fst_mem_of_mem_zipIdx hp)

theorem run_rounds (hanswers : ∀ r ∈ requests, (net r).outcome ≠ .crash)
    (hgoes : ∀ p ∈ requests.zipIdx, (net p.1).delay < n → upshot net requests p = .goesOn)
    (count : Nat) (m : Manager) :
    ∃ m₁ : Manager, m₁.bare = m.bare ∧
      m₁.records = m.records.after (if n = 0 then [] else requests)
        (endingBefore net n true requests.zipIdx) (endingBefore net n false requests.zipIdx) ∧
      (rounds net requests 0 (n + count)).run m = (rounds net requests n count).run m₁ := by
  induction n generalizing count with
  | zero =>
    refine ⟨m, rfl, ?_, by rw [Nat.zero_add]⟩
    simp [endingBefore, InstallRecords.after_nil]
  | succ n ih =>
    obtain ⟨m₁, hbare, hrecords, hrun⟩ :=
      ih (fun p hp hlt => hgoes p hp (by omega)) (count + 1)
    obtain ⟨m₂, hbare₂, hrecords₂, hround⟩ :=
      round_goesOn (n := n) (answers_zipIdx hanswers) (fun p hp hn => hgoes p hp (by omega)) m₁
    refine ⟨m₂, hbare₂.trans hbare, ?_, ?_⟩
    · rw [hrecords₂, hrecords, afterRound, InstallRecords.after_after, endingBefore_succ,
        endingBefore_succ, List.zipIdx_map_fst]
      by_cases hn : n = 0 <;> simp [hn]
    · rw [show n + 1 + count = n + (count + 1) by omega, hrun, run_rounds_succ, hround]

theorem run_gather_of_grants (hgrants : ∀ r ∈ requests, net.Grants r) (m : Manager) :
    ∃ m₁ : Manager, m₁.bare = m.bare ∧ m₁.records = m.records.after requests requests.length 0 ∧
      (gather net requests).run m = (some (.ok ()), m₁) := by
  obtain ⟨m₁, hbare, hrecords, hrun⟩ := run_rounds
    (fun r hr => outcome_ne_crash_of_grants (hgrants r hr))
    (fun p hp (_ : (net p.1).delay < longestDelay net requests + 1) =>
      upshot_of_grants hgrants hp) 0 m
  refine ⟨m₁, hbare, ?_, hrun⟩
  have hsome : ∀ p ∈ requests.zipIdx, (net p.1).delay < longestDelay net requests + 1 ∧
      (net p.1).response?.isSome = true := fun p hp => by
    have hr := List.fst_mem_of_mem_zipIdx hp
    obtain ⟨response, ho, -⟩ := hgrants p.1 hr
    exact ⟨Nat.lt_succ_of_le (delay_le_longestDelay net hr), by rw [Answer.response?, ho]; rfl⟩
  have hok : endingBefore net (longestDelay net requests + 1) true requests.zipIdx =
      requests.length :=
    (List.countP_eq_length.mpr fun p hp => decide_eq_true (hsome p hp)).trans List.length_zipIdx
  have hbad : endingBefore net (longestDelay net requests + 1) false requests.zipIdx = 0 :=
    List.countP_eq_zero.mpr fun p hp => by simp [hsome p hp]
  rw [hrecords, hok, hbad, if_neg (Nat.succ_ne_zero _)]

/-- By then all fetches of the rounds before have come to an end, and of this round those up to the
place `i`. -/
theorem endedBy_eq (net : Network) (requests : List Request) (r : Request) (i : Nat)
    (answered : Bool) :
    endedBy net requests r i answered =
      endingBefore net (net r).delay answered requests.zipIdx +
        endingIn net (net r).delay answered (requests.zipIdx.take (i + 1)) := by
  have hfrom : ∀ k, (requests.zipIdx k).countP (fun p =>
        decide (turn net p ≤ turn net (r, i) ∧ (net p.1).response?.isSome = answered)) =
      endingBefore net (net r).delay answered (requests.zipIdx k) +
        endingIn net (net r).delay answered ((requests.zipIdx k).take (i + 1 - k)) := by
    induction requests with
    | nil => simp [endingBefore, endingIn]
    | cons r' rest ih =>
      intro k
      have hrest := ih (k + 1)
      rw [endingBefore, endingIn] at hrest ⊢
      rw [List.zipIdx_cons, List.countP_cons, hrest, List.countP_cons]
      simp only [turn, Prod.Lex.toLex_le_toLex, decide_eq_true_eq]
      cases hplace : i + 1 - k with
      | zero =>
        have hle : ¬ k ≤ i := by omega
        have hnext : i + 1 - (k + 1) = 0 := by omega
        simp only [hnext, List.take_zero, List.countP_nil, hle, and_false, or_false]
        omega
      | succ left =>
        have hle : k ≤ i := by omega
        have hnext : i + 1 - (k + 1) = left := by omega
        simp only [hnext, List.take_succ_cons, List.countP_cons, hle, and_true, decide_eq_true_eq]
        by_cases hlt : (net r').delay < (net r).delay
        · simp only [hlt, true_or, true_and, hlt.ne, false_and, if_false]
          omega
        · simp only [hlt, false_or, false_and, if_false]
          omega
  exact hfrom 0

/-- The place of the manifest by whose answer the fetches end, as the first by which they can. -/
structure Ends (net : Network) (requests : List Request) (r : Request) (i : Nat)
    (e : InstallError) : Prop where
  place : requests[i]? = some r
  told : upshot net requests (r, i) = .fails e
  first : ∀ p ∈ requests.zipIdx, turn net p < turn net (r, i) → upshot net requests p = .goesOn

theorem exists_fails_of_upshot (hanswers : ∀ r ∈ requests, (net r).outcome ≠ .crash)
    (hp : p ∈ requests.zipIdx) (hended : upshot net requests p ≠ .goesOn) :
    ∃ e, upshot net requests p = .fails e := by
  have hall := answers_zipIdx hanswers
  rw [upshot_eq requests (hall p hp)] at hended ⊢
  split at hended
  · obtain ⟨e, hfault⟩ := exists_faults (hall p hp) (mt (verdict_eq_goesOn_iff ..).mpr hended)
    exact ⟨e, by rw [if_pos ‹_›, verdict_eq_fails_iff.mpr hfault]⟩
  · obtain ⟨before, q, after, hplaces, -, -, hnot, hq⟩ := exists_of_taken hended
    have hmem : q ∈ requests.zipIdx := hplaces ▸ List.mem_append_right _ List.mem_cons_self
    obtain ⟨e, hfault⟩ := exists_faults (hall q hmem) hnot
    exact ⟨e, by rw [if_neg ‹_›, hq, verdict_eq_fails_iff.mpr hfault]⟩

theorem exists_ends (hanswers : ∀ r ∈ requests, (net r).outcome ≠ .crash)
    (hnot : ¬ ∀ r ∈ requests, net.Grants r) : ∃ r i e, Ends net requests r i e := by
  let turns : Set (ℕ ×ₗ ℕ) := { t | ∃ p ∈ requests.zipIdx, upshot net requests p ≠ .goesOn ∧
    turn net p = t }
  obtain ⟨p, hp, hended⟩ := exists_upshot_ne hnot
  obtain ⟨t, ⟨⟨r, i⟩, hr, hended, rfl⟩, hmin⟩ :=
    wellFounded_lt.has_min turns ⟨turn net p, p, hp, hended, rfl⟩
  obtain ⟨e, he⟩ := exists_fails_of_upshot hanswers hr hended
  refine ⟨r, i, e, List.mk_mem_zipIdx_iff_getElem?.mp hr, he, fun q hq hlt => ?_⟩
  by_contra hgoes
  exact hmin _ ⟨q, hq, hgoes, rfl⟩ hlt

theorem mem_before_iff {q : Request × Nat} {after : List (Request × Nat)}
    (hplaces : requests.zipIdx = before ++ p :: after) :
    q ∈ before ↔ q ∈ requests.zipIdx ∧ q.2 < p.2 := by
  have hsorted : (requests.zipIdx.map (·.2)).Pairwise (· < ·) := by
    rw [List.zipIdx_map_snd]
    exact List.pairwise_lt_range'
  rw [List.pairwise_map, hplaces, List.pairwise_append] at hsorted
  obtain ⟨-, hafter, hfront⟩ := hsorted
  rw [hplaces]
  refine ⟨fun hq => ⟨List.mem_append_left _ hq, hfront q hq p List.mem_cons_self⟩, ?_⟩
  rintro ⟨hq, hlt⟩
  obtain hq | hq := List.mem_append.mp hq
  · exact hq
  · obtain rfl | hq := List.mem_cons.mp hq
    · exact absurd hlt (Nat.lt_irrefl _)
    · exact absurd ((List.pairwise_cons.mp hafter).1 q hq) (Nat.lt_asymm hlt)

theorem eq_of_place {q : Request × Nat} (hp : p ∈ requests.zipIdx) (hq : q ∈ requests.zipIdx)
    (hplace : p.2 = q.2) : p = q := by
  obtain ⟨r, i⟩ := p
  obtain ⟨r', j⟩ := q
  cases hplace
  rw [List.mk_mem_zipIdx_iff_getElem?] at hp hq
  rw [Option.some.inj (hp.symm.trans hq)]

/-- The first of many fetches that is at fault, and the latest of the places up to its own. -/
theorem Ends.exists_least (hends : Ends net requests r i e) (hmany : ¬ requests.length ≤ 30)
    (hanswers : ∀ r ∈ requests, (net r).outcome ≠ .crash) :
    ∃ before p after, requests.zipIdx = before ++ p :: after ∧
      (∀ q ∈ before, net.Grants q.1) ∧ net.Faults p.1 e ∧ (r, i) ∈ before ++ [p] ∧
      ∀ q ∈ before ++ [p], turn net q ≤ turn net (r, i) := by
  have hall := answers_zipIdx hanswers
  have hmem : (r, i) ∈ requests.zipIdx := List.mk_mem_zipIdx_iff_getElem?.mpr hends.place
  have htaken := hends.told
  rw [upshot_eq requests (hall _ hmem), if_neg hmany] at htaken
  obtain ⟨before, p, after, hplaces, hbefore, hin, hnot, hp⟩ :=
    exists_of_taken (by rw [htaken]; exact nofun)
  have hsub : ∀ q ∈ before ++ [p], q ∈ requests.zipIdx := fun q hq => by
    rw [hplaces, ← List.singleton_append, ← List.append_assoc]
    exact List.mem_append_left _ hq
  have hlast : ∀ q ∈ before ++ [p], turn net q ≤ turn net (r, i) := fun q hq =>
    (List.mem_append.mp hq).elim (fun hq => (hbefore q hq).1)
      fun hq => List.mem_singleton.mp hq ▸ hin
  refine ⟨before, p, after, hplaces, fun q hq => (hbefore q hq).2,
    verdict_eq_fails_iff.mp (hp.symm.trans htaken), ?_, hlast⟩
  obtain ⟨w, hw, hlatest⟩ := exists_latest net before p
  obtain heq | hlt := (hlast w hw).eq_or_lt
  · rw [← eq_of_place (hsub w hw) hmem (congrArg (fun t => (ofLex t).2) heq)]
    exact hw
  · have hgoes := hends.first w (hsub w hw) hlt
    rw [upshot_of_latest hmany hplaces (fun q hq => (hbefore q hq).2) hnot hlatest
      (hall w (hsub w hw))] at hgoes
    exact absurd ((verdict_eq_goesOn_iff ..).mp hgoes) hnot

/-- Up to thirty fetches, and any number of them that all are answered at once, end with the first
fault. -/
theorem Ends.firstFault (hends : Ends net requests r i e)
    (hjoin : requests.length ≤ 30 ∨ ∀ r ∈ requests, (net r).delay = 0)
    (hanswers : ∀ r ∈ requests, (net r).outcome ≠ .crash) : FirstFault net requests r i e := by
  have hmem : (r, i) ∈ requests.zipIdx := List.mk_mem_zipIdx_iff_getElem?.mpr hends.place
  by_cases hfew : requests.length ≤ 30
  · have hverdict : ∀ p ∈ requests.zipIdx,
        upshot net requests p = verdict p.1 (net p.1).outcome := fun p hp => by
      rw [upshot_eq requests (answers_zipIdx hanswers p hp), if_pos hfew]
    refine ⟨hends.place, verdict_eq_fails_iff.mp ((hverdict _ hmem).symm.trans hends.told),
      fun j r' hj ⟨e', hfault⟩ => not_lt.mp fun hlt => ?_⟩
    have hmem' : (r', j) ∈ requests.zipIdx := List.mk_mem_zipIdx_iff_getElem?.mpr hj
    cases (hends.first _ hmem' hlt).symm.trans
      ((hverdict _ hmem').trans (verdict_eq_fails_iff.mpr hfault))
  · have hnow := hjoin.resolve_left hfew
    have hturn : ∀ q ∈ requests.zipIdx, turn net q = toLex (0, q.2) := fun q hq => by
      rw [turn, hnow q.1 (List.fst_mem_of_mem_zipIdx hq)]
    obtain ⟨before, p, after, hplaces, hbefore, hfault, hri, hlast⟩ :=
      hends.exists_least hfew hanswers
    have hp : p ∈ requests.zipIdx := hplaces ▸ List.mem_append_right _ List.mem_cons_self
    -- where nothing is late, the latest of the places up to the fault is its own
    have hle := hlast p (List.mem_append_right _ List.mem_cons_self)
    rw [hturn p hp, hturn _ hmem, Prod.Lex.toLex_le_toLex] at hle
    have hself : (r, i) = p := by
      obtain hri | hri := List.mem_append.mp hri
      · have hlt := ((mem_before_iff hplaces).mp hri).2
        omega
      · exact List.mem_singleton.mp hri
    subst hself
    refine ⟨hends.place, hfault, fun j r' hj ⟨e', hfault'⟩ => not_lt.mp fun hlt => ?_⟩
    have hmem' : (r', j) ∈ requests.zipIdx := List.mk_mem_zipIdx_iff_getElem?.mpr hj
    rw [hturn _ hmem', hturn _ hmem, Prod.Lex.toLex_lt_toLex] at hlt
    exact not_grants_of_faults hfault'
      (hbefore _ ((mem_before_iff hplaces).mpr ⟨hmem', by simpa using hlt⟩))

/-- Of more than thirty fetches the one in front is reported, when all up to it have come to an end;
the last of these is the one at the place `i`. -/
structure LeastFault (net : Network) (requests : List Request) (r : Request) (i : Nat)
    (e : InstallError) : Prop where
  place : requests[i]? = some r
  fault : ∃ k r', requests[k]? = some r' ∧ net.Faults r' e ∧ i ≤ k ∧
    ∀ (j : Nat) r'', requests[j]? = some r'' → (j < k → net.Grants r'') ∧
      (j ≤ k → turn net (r'', j) ≤ turn net (r, i))

theorem Ends.leastFault (hends : Ends net requests r i e) (hmany : 30 < requests.length)
    (hanswers : ∀ r ∈ requests, (net r).outcome ≠ .crash) : LeastFault net requests r i e := by
  obtain ⟨before, ⟨r', k⟩, after, hplaces, hbefore, hfault, hri, hlast⟩ :=
    hends.exists_least (Nat.not_le.mpr hmany) hanswers
  have hk : (r', k) ∈ requests.zipIdx := hplaces ▸ List.mem_append_right _ List.mem_cons_self
  have hi : i ≤ k := (List.mem_append.mp hri).elim
    (fun hri => (((mem_before_iff hplaces).mp hri).2).le)
    fun hri => (Prod.mk.inj (List.mem_singleton.mp hri)).2.le
  refine ⟨hends.place, k, r', List.mk_mem_zipIdx_iff_getElem?.mp hk, hfault, hi, fun j r'' hj => ?_⟩
  have hmem : (r'', j) ∈ requests.zipIdx := List.mk_mem_zipIdx_iff_getElem?.mpr hj
  refine ⟨fun hlt => hbefore _ ((mem_before_iff hplaces).mpr ⟨hmem, hlt⟩), fun hle => hlast _ ?_⟩
  obtain heq | hlt := hle.eq_or_lt
  · exact List.mem_append_right _ (List.mem_singleton.mpr (eq_of_place hmem hk heq))
  · exact List.mem_append_left _ ((mem_before_iff hplaces).mpr ⟨hmem, hlt⟩)

theorem run_gather_of_ends (hends : Ends net requests r i e)
    (hanswers : ∀ r ∈ requests, (net r).outcome ≠ .crash) (m : Manager) :
    ∃ m₁ : Manager, m₁.bare = m.bare ∧
      m₁.records = m.records.after (sentBy net requests r i) (endedBy net requests r i true)
        (endedBy net requests r i false) ∧
      (gather net requests).run m = (some (.error e), m₁) := by
  have hr : r ∈ requests := List.mem_of_getElem? hends.place
  have hle := delay_le_longestDelay net hr
  have hall := answers_zipIdx hanswers
  -- the rounds before, in which nothing ends
  have hearlier : ∀ p ∈ requests.zipIdx, (net p.1).delay < (net r).delay →
      upshot net requests p = .goesOn := fun p hp hlt =>
    hends.first p hp (Prod.Lex.toLex_lt_toLex.mpr (.inl hlt))
  obtain ⟨m₁, hbare₁, hrecords₁, hrun⟩ :=
    run_rounds hanswers hearlier (longestDelay net requests - (net r).delay + 1) m
  -- the round that ends with the failure
  have hplace : requests.zipIdx[i]? = some (r, i) := by
    rw [List.getElem?_zipIdx, hends.place]
    simp
  obtain ⟨hlt, hget⟩ := List.getElem?_eq_some_iff.mp hplace
  have hparts : requests.zipIdx.take i ++ (r, i) :: requests.zipIdx.drop (i + 1) =
      requests.zipIdx := by
    rw [← hget, ← List.drop_eq_getElem_cons hlt, List.take_append_drop]
  have hfront : ∀ p ∈ requests.zipIdx.take i, (net p.1).delay = (net r).delay →
      upshot net requests p = .goesOn := by
    intro p hp heq
    refine hends.first p (List.mem_of_mem_take hp) (Prod.Lex.toLex_lt_toLex.mpr (.inr ⟨heq, ?_⟩))
    obtain ⟨j, hj, rfl⟩ := List.mem_take_iff_getElem.mp hp
    simp only [List.getElem_zipIdx]
    omega
  obtain ⟨m₂, hbare₂, hrecords₂, hround⟩ :=
    round_fails (fun p hp => hall p (List.mem_of_mem_take hp)) hfront (hanswers r hr) rfl
      hends.told (requests.zipIdx.drop (i + 1)) m₁
  rw [hparts] at hround
  have htake : requests.zipIdx.take i ++ [(r, i)] = requests.zipIdx.take (i + 1) := by
    rw [← hget, List.take_append_getElem]
  refine ⟨m₂, hbare₂.trans hbare₁, ?_, ?_⟩
  · rw [hrecords₂, hrecords₁, htake, afterRound, InstallRecords.after_after, sentBy, endedBy_eq,
      endedBy_eq, List.map_take, List.zipIdx_map_fst]
    by_cases hn : (net r).delay = 0
    · simp only [if_pos hn, List.nil_append]
    · simp only [if_neg hn, List.append_nil]
  · have hcount : longestDelay net requests + 1 =
        (net r).delay + (longestDelay net requests - (net r).delay + 1) := by omega
    rw [gather, hcount, hrun, run_rounds_succ, hround]

theorem recordInstall_records (m : Manager) (result : Except InstallError Unit) :
    (m.recordInstall result).records = m.records.ended result.isOk := by
  cases result with
  | error e => rfl
  | ok _ =>
    rw [recordInstall]
    split <;> rfl

theorem storeAll_records (h : Handle) (batch : List (Key × Response)) (m : Manager) :
    (storeAll h batch m).2.records = m.records := by
  rw [storeAll]
  generalize m.store.putAll h batch = put
  obtain ⟨e | ⟨⟩, store⟩ := put <;> rfl

theorem install_of_populate [Idna] {result : Except InstallError Unit}
    (hrun : (populate net).run m = (some result, m')) :
    (install net m).1 = some result ∧ (install net m).2.store = m'.store ∧
      (install net m).2.records = m'.records.ended result.isOk := by
  rw [install_eq, hrun]
  refine ⟨rfl, ?_, recordInstall_records m' result⟩
  cases result with
  | error e => rfl
  | ok _ =>
    dsimp only
    rw [recordInstall]
    split <;> rfl

theorem run_populate [Idna] (net : Network) {h : Handle}
    (hresolve : Manifest.resolve m.origin m.manifest = .ok requests)
    (hopen : (m.store.openBucket m.name).1 = .ok h) :
    (populate net).run m = match (gather net requests).run m.opened with
      | (some (.ok ()), m₁) =>
        (some (storeAll h (harvest net requests) m₁).1, (storeAll h (harvest net requests) m₁).2)
      | (some (.error e), m₁) => (some (.error e), m₁)
      | (none, m₁) => (none, m₁) := by
  have hbucket : m.bucket = (.ok h, m.opened) := by rw [bucket, ← hopen]; rfl
  simp only [populate, Task.run, hresolve, hbucket, Task.run_bind]
  generalize (gather net requests).run m.opened = gathered
  obtain ⟨_ | e | ⟨⟩, m₁⟩ := gathered <;> rfl

theorem install_of_grants [Idna] {h : Handle} (hm : m.store.Sound)
    (hresolve : Manifest.resolve m.origin m.manifest = .ok requests)
    (hopen : (m.store.openBucket m.name).1 = .ok h) (hgrants : ∀ r ∈ requests, net.Grants r) :
    let committed := m.opened.store.putAll h (harvest net requests)
    (∀ e, committed.1 = .error e → (install net m).1 = some (.error (failed e)) ∧
      (install net m).2.records = (m.records.after requests requests.length 0).ended false) ∧
    (committed.1 = .ok () → (install net m).1 = some (.ok ()) ∧
      (install net m).2.records = (m.records.after requests requests.length 0).ended true ∧
      (∀ r ∈ requests, ∃ response, (net r).outcome = .response response ∧
        ((install net m).2.store.entries h).get? r.key = some response) ∧
      ∀ k, (∀ r ∈ requests, r.key ≠ k) →
        ((install net m).2.store.entries h).get? k = (m.opened.store.entries h).get? k) := by
  intro committed
  obtain ⟨m₁, hbare, hrecords, hgather⟩ := run_gather_of_grants hgrants m.opened
  have hpopulate := run_populate net hresolve hopen
  rw [hgather] at hpopulate
  obtain ⟨hresult, hstore, hinstall⟩ := install_of_populate hpopulate
  rw [storeAll_records, hrecords] at hinstall
  obtain ⟨e, hput, hstored⟩ | ⟨hput, hstored, hbare'⟩ := storeAll_cases h (harvest net requests) m₁
  · rw [store_of_bare hbare] at hput
    refine ⟨fun e' he => ?_, fun hok => nomatch hput.symm.trans hok⟩
    cases hput.symm.trans he
    rw [hstored] at hresult hinstall
    exact ⟨hresult, hinstall⟩
  · rw [store_of_bare hbare] at hput
    refine ⟨fun e' he => (nomatch hput.symm.trans he), fun hok => ?_⟩
    rw [hstored] at hresult hinstall
    have hentries : (install net m).2.store.entries h =
        (m.opened.store.entries h).insertAll (harvest net requests) := by
      have hsound := (Store.openBucket_same hm m.name).2
      obtain ⟨b, hb, -⟩ := hsound.registered m.name h (Store.openBucket_registered hopen)
      obtain ⟨-, -, -, hafter⟩ := Store.commit_ok hsound hok
      rw [hstore, store_of_bare hbare']
      dsimp only
      rw [store_of_bare hbare]
      exact (hafter h (List.getElem?_eq_some_iff.mp hb).1).trans (if_pos rfl)
    rw [hentries]
    exact ⟨hresult, hinstall, get?_insertAll_harvest (Manifest.nodup_keys_resolve hresolve) hgrants _⟩

/-- An install of a manifest that resolves, over a network that answers every request. If all answers
may be stored, every request was sent once and the responses are stored, each under its own key.
Otherwise the fault that is reported is the first by the delays and then by the places in the
manifest, where that has at most thirty entries or no answer is late; of more entries it is the first
by the places alone, found when all fetches up to it have come to an end. If it is found in the first
round, only the requests up to there were sent, and in any case the answers that came in up to then
were counted and no others. -/
theorem install_reports_first_fault [Idna] (net : Network) (m : Manager) (hm : m.store.Sound)
    {requests : List Request} (hresolve : Manifest.resolve m.origin m.manifest = .ok requests)
    (hanswers : ∀ r ∈ requests, (net r).outcome ≠ .crash) :
    (requests.map Request.key).Nodup ∧
    (∀ e, (m.store.openBucket m.name).1 = .error e →
      (install net m).1 = some (.error (failed e)) ∧
      (install net m).2.records = m.records.ended false) ∧
    ∀ h, (m.store.openBucket m.name).1 = .ok h →
      let committed := m.opened.store.putAll h (harvest net requests)
      ((∀ r ∈ requests, net.Grants r) ∧
        ((∃ e, committed.1 = .error e ∧ (install net m).1 = some (.error (failed e)) ∧
            (install net m).2.records = (m.records.after requests requests.length 0).ended false) ∨
          (committed.1 = .ok () ∧ (install net m).1 = some (.ok ()) ∧
            (install net m).2.records = (m.records.after requests requests.length 0).ended true ∧
            (∀ r ∈ requests, ∃ response, (net r).outcome = .response response ∧
              ((install net m).2.store.entries h).get? r.key = some response) ∧
            ∀ k, (∀ r ∈ requests, r.key ≠ k) →
              ((install net m).2.store.entries h).get? k = (m.opened.store.entries h).get? k))) ∨
      ∃ r i e, (requests.length ≤ 30 ∨ (∀ r ∈ requests, (net r).delay = 0) →
          FirstFault net requests r i e) ∧
        (30 < requests.length → LeastFault net requests r i e) ∧
        (install net m).1 = some (.error e) ∧
        (install net m).2.records = (m.records.after (sentBy net requests r i)
          (endedBy net requests r i true) (endedBy net requests r i false)).ended false := by
  refine ⟨Manifest.nodup_keys_resolve hresolve, fun e he => ?_, fun h hopen => ?_⟩
  · have hbucket : m.bucket = (.error e, m.opened) := by rw [bucket, ← he]; rfl
    have hpopulate : (populate net).run m = (some (.error (failed e)), m.opened) := by
      simp only [populate, Task.run, hresolve, hbucket]
    obtain ⟨hresult, -, hrecords⟩ := install_of_populate hpopulate
    exact ⟨hresult, hrecords⟩
  intro committed
  by_cases hgrants : ∀ r ∈ requests, net.Grants r
  · refine .inl ⟨hgrants, ?_⟩
    obtain ⟨hfails, hdone⟩ := install_of_grants hm hresolve hopen hgrants
    cases hcommitted : committed.1 with
    | error e => exact .inl ⟨e, rfl, hfails e hcommitted⟩
    | ok _ => exact .inr ⟨rfl, hdone hcommitted⟩
  · obtain ⟨r, i, e, hends⟩ := exists_ends hanswers hgrants
    obtain ⟨m₁, -, hrecords, hgather⟩ := run_gather_of_ends hends hanswers m.opened
    have hpopulate := run_populate net hresolve hopen
    rw [hgather] at hpopulate
    obtain ⟨hresult, -, hinstall⟩ := install_of_populate hpopulate
    exact .inr ⟨r, i, e, fun hjoin => hends.firstFault hjoin hanswers,
      fun hmany => hends.leastFault hmany hanswers, hresult, hinstall.trans (by rw [hrecords]; rfl)⟩

open scoped Idna

/-- Three assets, of which the second and the third fail in the second round and the first would do
well in the third: the second is reported, after all three were sent and one answer has come in. -/
theorem install_reports_second_of_three :
    let origin : Url := ⟨"http".toList, some ⟨[], "a".toList, none⟩, .segments [[]], none, none⟩
    let asset := fun name : String => Request.get { origin with path := .segments [name.toList] }
    let requests := [asset "x", asset "y", asset "z"]
    let net : Network := fun r =>
      if r = asset "x" then ⟨2, .response ⟨200, [], .empty⟩⟩
      else if r = asset "y" then ⟨1, .response ⟨404, [], .empty⟩⟩
      else ⟨1, .failure (.timeout "slow")⟩
    let m := begin "assets" ["x", "y", "z"] origin (.begin none .empty)
    m.store.Sound ∧ Manifest.resolve m.origin m.manifest = .ok requests ∧
      (∃ r i, FirstFault net requests r i (.badStatus "http://a/y" 404) ∧
        (install net m).2.records = (m.records.after (sentBy net requests r i)
          (endedBy net requests r i true) (endedBy net requests r i false)).ended false) ∧
      (install net m).2.records = ⟨requests.reverse, 1, 0, 0, 1⟩ := by
  intro origin asset requests net m
  have hm : m.store.Sound := Store.sound_begin none Disk.isTree_empty
  have hresolve : Manifest.resolve m.origin m.manifest = .ok requests := by decide +kernel
  have hanswers : ∀ r ∈ requests, (net r).outcome ≠ .crash := by
    intro r _
    simp only [net]
    split
    · exact nofun
    · split <;> exact nofun
  have hopen : (m.store.openBucket m.name).1 = .ok 0 := by decide +kernel
  have hresult : (install net m).1 = some (.error (.badStatus "http://a/y" 404)) := by decide +kernel
  obtain ⟨-, -, hopened⟩ := install_reports_first_fault net m hm hresolve hanswers
  obtain ⟨-, ⟨e, -, hfails, -⟩ | ⟨-, hdone, -⟩⟩ | ⟨r, i, e, hfirst, -, hfails, hrecords⟩ :=
    hopened 0 hopen
  · cases hresult.symm.trans hfails
  · cases hresult.symm.trans hdone
  · cases hresult.symm.trans hfails
    exact ⟨hm, hresolve, ⟨r, i, hfirst (.inl (by decide)), hrecords⟩, by decide +kernel⟩

end Manager

end AssetCache
