import AssetCache.Front.Calls
import AssetCache.Proofs.CacheFirst
import AssetCache.Proofs.Containment
import AssetCache.Proofs.Front
import AssetCache.Proofs.Http.Fields
import AssetCache.Uuid

namespace AssetCache

open Http (Field Inbound grouped valuesOf visible?)

namespace Uuid

theorem mem_grouped {c : Char} {lengths : List Nat} {ds : List Char} (h : c ∈ grouped lengths ds) :
    c ∈ ds ∨ c = '-' := by
  induction lengths generalizing ds with
  | nil => exact .inl h
  | cons n lengths ih =>
    obtain h | h := List.mem_append.mp h
    · exact .inl (List.mem_of_mem_take h)
    · obtain h | h := List.mem_cons.mp h
      · exact .inr h
      · exact (ih h).imp_left List.mem_of_mem_drop

theorem hexDigit_printing : ∀ n < 16,
    32 ≤ (Digest.hexDigit n).toNat ∧ (Digest.hexDigit n).toNat < 127 := by decide

theorem visible?_text (bytes : List UInt8) : visible? (text bytes).toUTF8 = some (text bytes) := by
  refine Http.visible?_toUTF8 fun c hc => ?_
  rw [text, String.toList_ofList] at hc
  obtain hc | rfl := mem_grouped hc
  · obtain ⟨b, -, hc⟩ := List.mem_flatMap.mp hc
    have hb := b.toNat_lt
    obtain rfl | hc := List.mem_cons.mp hc
    · exact hexDigit_printing _ (by omega)
    · cases List.mem_singleton.mp hc
      exact hexDigit_printing _ (by omega)
  · decide

end Uuid

namespace Http.Page

/-- `p'` is the page `p`, perhaps with more headers. -/
structure Extends (p p' : Page) : Prop where
  status : p'.status = p.status
  body : p'.body = p.body
  headers : p.headers <+: p'.headers

theorem Extends.refl (p : Page) : Extends p p := ⟨rfl, rfl, List.prefix_refl _⟩

theorem Extends.withField {p p' : Page} (h : Extends p p') (name : String) (value : ByteArray) :
    Extends p (p'.withField name value) :=
  ⟨h.status, h.body, h.headers.trans (List.prefix_append _ _)⟩

theorem extends_measured (p : Page) : Extends p p.measured := by
  rw [measured]
  split
  · exact .refl p
  · exact (Extends.refl p).withField _ _

end Http.Page

namespace Site

variable {s : Site} {r : Inbound} {c : Circumstances} {u : Url}

/-- The headers of a request that comes in, with an identifier if there was none among them. -/
def identified (r : Inbound) (id : String) : List Field :=
  if (r.headers.lookup requestIdName).isSome then r.headers
  else r.headers ++ [(requestIdName, id.toUTF8)]

def arriving (r : Inbound) (id : String) : Inbound :=
  { r with headers := grouped (identified r id) }

def event (r : Inbound) (id : String) (u : Url) : Request := request (arriving r id) u

theorem valuesOf_event (r : Inbound) (id : String) (u : Url) (name : String) :
    valuesOf name (event r id u).headers = (valuesOf name (identified r id)).filterMap visible? :=
  (Http.valuesOf_textsOf name _).trans (by rw [arriving, Http.valuesOf_grouped])

def pageFor : Except CacheError Response → Http.Page
  | .error e => e.page
  | .ok response => pageOf response

/-- A request that is not refused becomes a fetch event, and is answered as that is. -/
theorem forward_of_located (w : Worker Manager) (hbody : r.body.size ≤ bodyLimit)
    (hu : locate s.origin r.target = .ok u) :
    s.forward w r = (pageFor (s.dispatcher.fetch w (request r u)).1,
      { s with dispatcher := (s.dispatcher.fetch w (request r u)).2 }) := by
  rw [forward, if_neg (Nat.not_lt.mpr hbody), hu]
  dsimp only
  generalize s.dispatcher.fetch w (request r u) = done
  obtain ⟨e | response, d⟩ := done
  · rfl
  · dsimp only
    rw [pageFor, pageOf]
    cases Http.Page.ofResponse response <;> rfl

theorem route_of_forward (w : Worker Manager) (time : String) (hpage : r.target.path ∉ ownPages) :
    s.route w r time = ((s.forward w r).1.measured, (s.forward w r).2) := by
  have hhealth : r.target.path ≠ "/_precache/health".toList := fun h =>
    hpage (h ▸ List.mem_cons_self)
  have hmetrics : r.target.path ≠ "/_precache/metrics".toList := fun h =>
    hpage (h ▸ List.mem_cons_of_mem _ List.mem_cons_self)
  rw [route, if_neg hhealth, if_neg hmetrics]

theorem answer_of_forward (w : Worker Manager) (hpage : r.target.path ∉ ownPages) :
    (s.answer w r c).2 = (s.forward w (arriving r c.requestId)).2 ∧
      (s.forward w (arriving r c.requestId)).1.Extends (s.answer w r c).1 := by
  have hheaders : (if (r.headers.lookup requestIdName).isSome then r.headers else
      r.headers ++ [(requestIdName, (r.headers.lookup requestIdName).getD c.requestId.toUTF8)]) =
      identified r c.requestId := by
    rw [identified]
    cases r.headers.lookup requestIdName <;> rfl
  have hroute := route_of_forward (s := s) (r := arriving r c.requestId) w c.time hpage
  have hextends := Http.Page.extends_measured (s.forward w (arriving r c.requestId)).1
  rw [answer]
  dsimp only
  rw [hheaders, ← arriving, hroute]
  refine ⟨rfl, ?_⟩
  split
  · exact hextends
  · exact hextends.withField _ _

/-- A request has these header lines: under each name it has the same values in the same order. -/
def Bears (q : Request) (lines : List Field) : Prop :=
  ∀ name, (valuesOf name q.headers).map String.toUTF8 = valuesOf name lines

def isText (f : Field) : Bool := (visible? f.2).isSome

theorem event_bears (r : Inbound) (id : String) (u : Url) :
    Bears (event r id u) ((identified r id).filter isText) := by
  intro name
  rw [valuesOf_event, Http.toUTF8_texts]
  exact (Http.valuesOf_filter name (fun v => (visible? v).isSome) _).symm

theorem event_bears_all_iff (r : Inbound) (bytes : List UInt8) (u : Url) :
    Bears (event r (Uuid.text bytes) u) (identified r (Uuid.text bytes)) ↔
      ∀ f ∈ r.headers, isText f = true := by
  have hmem : ∀ f, f ∈ identified r (Uuid.text bytes) →
      f ∈ r.headers ∨ f = (requestIdName, (Uuid.text bytes).toUTF8) := by
    intro f hf
    rw [identified] at hf
    split at hf
    · exact .inl hf
    · exact (List.mem_append.mp hf).imp_right List.mem_singleton.mp
  have hgiven : ∀ f ∈ r.headers, f ∈ identified r (Uuid.text bytes) := by
    intro f hf
    rw [identified]
    split
    · exact hf
    · exact List.mem_append_left _ hf
  refine ⟨fun hall f hf => ?_, fun htext => ?_⟩
  · have hvalues := (event_bears r (Uuid.text bytes) u f.1).symm.trans (hall f.1)
    have hkept : f.2 ∈ valuesOf f.1 ((identified r (Uuid.text bytes)).filter isText) := by
      rw [hvalues]
      exact Http.mem_valuesOf.mpr (hgiven f hf)
    exact (List.mem_filter.mp (Http.mem_valuesOf.mp hkept)).2
  · have hfilter : (identified r (Uuid.text bytes)).filter isText =
        identified r (Uuid.text bytes) := by
      refine List.filter_eq_self.mpr fun f hf => ?_
      obtain hf | rfl := hmem f hf
      · exact htext f hf
      · rw [isText, Uuid.visible?_text, Option.isSome_some]
    exact hfilter ▸ event_bears r (Uuid.text bytes) u

theorem event_body (r : Inbound) (id : String) (u : Url) :
    ((event r id u).body = none ↔ r.body = .empty) ∧
      ∀ body, (event r id u).body = some body → body = r.body := by
  have hempty : r.body.isEmpty = true ↔ r.body = .empty := by
    rw [ByteArray.isEmpty, beq_iff_eq, ByteArray.size_eq_zero_iff]
  rw [event, request]
  split
  · next h =>
    exact ⟨iff_of_true rfl (hempty.mp h), fun _ h => absurd h.symm (Option.some_ne_none _)⟩
  · next h =>
    refine ⟨iff_of_false (Option.some_ne_none _) (mt hempty.mpr h), fun body hbody => ?_⟩
    exact (Option.some.inj hbody).symm

/-- A request that becomes a fetch event and is not in the bucket is asked of the network with its
method, its body and each of its header lines that is text, and with an identifier if it had none.
Nothing of it is lost if and only if all its header lines are text. -/
theorem front_forwards_text [Idna] (net : Network) (s : Site) (r : Inbound) (bytes : List UInt8)
    (time : String) {u : Url} (hpage : r.target.path ∉ ownPages)
    (hbody : r.body.size ≤ bodyLimit) (hu : locate s.origin r.target = .ok u) :
    let s' := (s.answer (Manager.worker net) r ⟨Uuid.text bytes, time⟩).2
    let lines := identified r (Uuid.text bytes)
    ∃ q : Request, q.url = u ∧ q.method = r.method ∧
      ((q.body = none ↔ r.body = .empty) ∧ ∀ body, q.body = some body → body = r.body) ∧
      Bears q (lines.filter isText) ∧
      (Bears q lines ↔ ∀ f ∈ r.headers, isText f = true) ∧
      s' = { s with dispatcher := (s.dispatcher.fetch (Manager.worker net) q).2 } ∧
      ((Manager.worker net).fetch q).Keeps
        (fun m m' => m'.calls = m.calls ∨ m'.calls = q :: m.calls) (fun _ => True) ∧
      (s.dispatcher.Idle → s.dispatcher.running = true →
        ∀ h, s.manager.bucket.1 = .ok h →
          (s.manager.bucket.2.entries h).get? (Key.of r.method u) = none →
          s'.manager.calls = q :: s.manager.calls) := by
  have hanswer := (answer_of_forward (s := s) (c := ⟨Uuid.text bytes, time⟩) (Manager.worker net)
    hpage).1
  rw [forward_of_located _ (r := arriving r (Uuid.text bytes)) hbody hu] at hanswer
  refine ⟨event r (Uuid.text bytes) u, rfl, rfl, event_body r _ u, event_bears r _ u,
    event_bears_all_iff r bytes u, hanswer, Manager.fetchTask_calls net _,
    fun hi hrunning h ho hnone => ?_⟩
  rw [hanswer, Dispatcher.fetch_idle _ hi, if_pos hrunning]
  have hmiss : Manager.Miss (event r (Uuid.text bytes) u) _ s.manager
      (Manager.fetch net (event r (Uuid.text bytes) u) s.manager) :=
    Manager.fetch_of_missing ho hnone
  exact hmiss.calls

open scoped Idna

/-- A POST with a name that is repeated and a body that is passed on. -/
theorem front_forwards_post :
    let origin : Url := ⟨"http".toList, some ⟨[], "a".toList, none⟩, .segments [[]], none, none⟩
    let s : Site := ⟨origin, .begin 1 (.begin "assets" [] origin (.begin none .empty))⟩
    let r : Inbound := ⟨⟨"POST", by decide⟩, ⟨none, none, "/p".toList, none⟩,
      [("x-a", "1".toUTF8), ("x-b", "2".toUTF8), ("x-a", "3".toUTF8)], "text".toUTF8⟩
    let s' := (s.answer (Manager.worker .uniform) r ⟨Uuid.text [], "now"⟩).2
    ∃ q : Request, s'.manager.calls = [q] ∧ q.method = r.method ∧ q.body ≠ none ∧
      Bears q (identified r (Uuid.text [])) := by
  intro origin s r s'
  have hu : locate s.origin r.target =
      .ok { origin with path := .segments ["p".toList] } := by decide +kernel
  obtain ⟨q, -, hmethod, ⟨hbody, -⟩, -, hbears, -, -, hcalls⟩ :=
    front_forwards_text .uniform s r [] "now" (by decide) (by decide) hu
  refine ⟨q, ?_, hmethod, fun hnone => absurd (hbody.mp hnone) (by decide), ?_⟩
  · exact hcalls ⟨rfl, rfl, rfl⟩ rfl 0 (by decide +kernel) (by decide +kernel)
  · exact hbears.mpr (by decide +kernel)

/-- A legal header line that is not ASCII is lost. -/
theorem accented_header_is_lost :
    let origin : Url := ⟨"http".toList, some ⟨[], "a".toList, none⟩, .segments [[]], none, none⟩
    let s : Site := ⟨origin, .begin 1 (.begin "assets" [] origin (.begin none .empty))⟩
    let r : Inbound := ⟨.get, ⟨none, none, "/p".toList, none⟩, [("x-name", "é".toUTF8)], .empty⟩
    let s' := (s.answer (Manager.worker .uniform) r ⟨Uuid.text [], "now"⟩).2
    (∀ f ∈ r.headers, Http.IsLegal f) ∧ r.target.path ∉ ownPages ∧
      ∃ q : Request, s'.manager.calls = [q] ∧ valuesOf "x-name" q.headers = [] ∧
        ¬ Bears q (identified r (Uuid.text [])) := by
  intro origin s r s'
  refine ⟨by decide +kernel, by decide, event r (Uuid.text [])
    { origin with path := .segments ["p".toList] }, by decide +kernel, by decide +kernel, ?_⟩
  intro hbears
  exact absurd (hbears "x-name") (by decide +kernel)

end Site

end AssetCache
