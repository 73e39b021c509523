import AssetCache.Client
import AssetCache.Proofs.Forwarding
import AssetCache.Proofs.Front
import AssetCache.Proofs.Store.Codec
import Mathlib

namespace AssetCache

namespace Text

variable {a b c : String}

theorem lower_lower (cs : List Char) : lower (lower cs) = lower cs := by
  rw [lower, lower, List.map_map]
  exact List.map_congr_left fun c _ => c.toLower_toLower_eq_toLower

theorem sameLetters_congr (h : sameLetters a b = true) (c : String) :
    sameLetters a c = sameLetters b c := by
  rw [sameLetters, beq_iff_eq] at h
  rw [sameLetters, sameLetters, h]

end Text

namespace Http

variable {α β : Type} {h : Header}

theorem isHopByHop_congr {a b : String} (h : Text.sameLetters a b = true) :
    isHopByHop a = isHopByHop b := by
  simp only [isHopByHop, Text.sameLetters_comm _ a, Text.sameLetters_comm _ b,
    Text.sameLetters_congr h]

def valuesIn (name : String) (fields : List (String × α)) : List α :=
  (fields.filter fun f => Text.sameLetters f.1 name).map (·.2)

def isSendable (h : Header) : Bool := (headerName? h.1).isSome && isHeaderValue h.2.toUTF8

def sent (h : Header) : Field := (String.ofList (Text.lower h.1.toList), h.2.toUTF8)

theorem sameLetters_sent (h : Header) : Text.sameLetters (sent h).1 h.1 = true := by
  rw [sent, Text.sameLetters, String.toList_ofList, Text.lower_lower, beq_self_eq_true]

theorem valuesIn_sent (name : String) (headers : List Header) :
    valuesIn name (headers.map sent) = (valuesIn name headers).map String.toUTF8 := by
  rw [valuesIn, valuesIn, List.filter_map, List.map_map, List.map_map]
  have hname : (fun f : Field => Text.sameLetters f.1 name) ∘ sent =
      fun h => Text.sameLetters h.1 name :=
    funext fun h => Text.sameLetters_congr (sameLetters_sent h) name
  rw [hname]
  rfl

theorem headerName?_eq {s name : String} (h : headerName? s = some name) :
    name = String.ofList (Text.lower s.toList) := by
  rw [headerName?] at h
  split at h
  · exact (Option.some.inj h).symm
  · cases h

theorem field_of_sendable (hs : isSendable h = true) : field h.1 h.2.toUTF8 = .ok (sent h) := by
  rw [isSendable, Bool.and_eq_true, Option.isSome_iff_exists] at hs
  obtain ⟨⟨name, hname⟩, hvalue⟩ := hs
  rw [field, hname]
  dsimp only
  rw [if_pos hvalue, headerName?_eq hname]
  rfl

theorem field_of_not_sendable (hs : isSendable h = false) :
    ∃ fault, field h.1 h.2.toUTF8 = .error fault := by
  rw [field]
  cases hname : headerName? h.1 with
  | none => exact ⟨_, rfl⟩
  | some name =>
    rw [isSendable, hname, Option.isSome_some, Bool.true_and] at hs
    exact ⟨.value, if_neg (ne_true_of_eq_false hs)⟩

namespace Page

/-- The headers of a stored response that are taken over. -/
def takenOver (headers : List Header) : List Header := headers.filter fun h => !isOwn h.1

theorem takenOver_cons (h : Header) (headers : List Header) : takenOver (h :: headers) =
    if isOwn h.1 then takenOver headers else h :: takenOver headers := by
  rw [takenOver, List.filter_cons]
  cases isOwn h.1 <;> rfl

theorem fieldsOf_of_sendable {headers : List Header}
    (hs : ∀ h ∈ takenOver headers, isSendable h = true) :
    fieldsOf headers = .ok ((takenOver headers).map sent) := by
  induction headers with
  | nil => rfl
  | cons h headers ih =>
    rw [takenOver_cons] at hs ⊢
    rw [fieldsOf]
    split
    · next hown =>
      rw [if_pos hown] at hs
      exact ih hs
    · next hown =>
      rw [if_neg hown] at hs
      rw [field_of_sendable (hs h List.mem_cons_self)]
      dsimp only
      rw [ih fun h hh => hs h (List.mem_cons_of_mem _ hh)]
      rfl

theorem fieldsOf_of_not_sendable {headers : List Header} {h : Header}
    (hh : h ∈ takenOver headers) (hs : isSendable h = false) :
    ∃ text, fieldsOf headers = .error (.internal text) := by
  induction headers with
  | nil => cases hh
  | cons g headers ih =>
    rw [takenOver_cons] at hh
    rw [fieldsOf]
    split
    · next hown =>
      rw [if_pos hown] at hh
      exact ih hh
    · next hown =>
      rw [if_neg hown] at hh
      cases hfield : field g.1 g.2.toUTF8 with
      | error fault => exact ⟨_, rfl⟩
      | ok f =>
        obtain rfl | hh := List.mem_cons.mp hh
        · obtain ⟨fault, hfault⟩ := field_of_not_sendable hs
          cases hfield.symm.trans hfault
        · obtain ⟨text, htext⟩ := ih hh
          exact ⟨text, by rw [htext]; rfl⟩

structure IsShowable (r : Response) : Prop where
  status : 100 ≤ r.status ∧ r.status ≤ 999
  headers : ∀ h ∈ r.headers, isOwn h.1 = false → isSendable h = true

theorem mem_takenOver {headers : List Header} {h : Header} :
    h ∈ takenOver headers ↔ h ∈ headers ∧ isOwn h.1 = false := by
  rw [takenOver, List.mem_filter, Bool.not_eq_true']

theorem ofResponse_of_showable {r : Response} (hr : IsShowable r) :
    ofResponse r = .ok ⟨r.status, (takenOver r.headers).map sent, r.body⟩ := by
  have hstatus : ¬ (r.status < 100 ∨ 999 < r.status) := by
    obtain ⟨hlow, hhigh⟩ := hr.status
    rintro (h | h)
    · exact absurd hlow (UInt16.not_le.mpr h)
    · exact absurd hhigh (UInt16.not_le.mpr h)
  rw [ofResponse, if_neg hstatus, fieldsOf_of_sendable]
  · rfl
  · intro h hh
    obtain ⟨hh, hown⟩ := mem_takenOver.mp hh
    exact hr.headers h hh hown

theorem ofResponse_of_not_showable {r : Response} (hr : ¬ IsShowable r) :
    ∃ text, ofResponse r = .error (.internal text) := by
  rw [ofResponse]
  split
  · exact ⟨_, rfl⟩
  · next hstatus =>
    have hstatus : 100 ≤ r.status ∧ r.status ≤ 999 := by
      rw [not_or, UInt16.not_lt, UInt16.not_lt] at hstatus
      exact hstatus
    have hbad : ∃ h ∈ takenOver r.headers, isSendable h = false := by
      by_contra hall
      refine hr ⟨hstatus, fun h hh hown => ?_⟩
      by_contra hsend
      exact hall ⟨h, mem_takenOver.mpr ⟨hh, hown⟩, Bool.eq_false_iff.mpr hsend⟩
    obtain ⟨h, hh, hsend⟩ := hbad
    obtain ⟨text, htext⟩ := fieldsOf_of_not_sendable hh hsend
    exact ⟨text, by rw [htext]; rfl⟩

theorem not_hopByHop_of_sent {headers : List Header} {f : Field}
    (hf : f ∈ (takenOver headers).map sent) : isHopByHop f.1 = false := by
  obtain ⟨h, hh, rfl⟩ := List.mem_map.mp hf
  obtain ⟨-, hown⟩ := mem_takenOver.mp hh
  rw [isOwn, Bool.or_eq_false_iff] at hown
  rw [isHopByHop_congr (sameLetters_sent h), hown.1]

end Page

end Http

namespace Site

variable {s : Site} {r : Http.Inbound} {c : Circumstances} {u : Url} {response : Response}
  {w : Worker Manager}

theorem answer_page (hpage : r.target.path ∉ ownPages) (hbody : r.body.size ≤ bodyLimit)
    (hu : locate s.origin r.target = .ok u)
    (hfetch : (s.dispatcher.fetch w (event r c.requestId u)).1 = .ok response) :
    (pageOf response).Extends (s.answer w r c).1 := by
  have hextends := (answer_of_forward (s := s) (c := c) w hpage).2
  rw [forward_of_located w (r := arriving r c.requestId) hbody hu] at hextends
  dsimp only at hextends
  rwa [show request (arriving r c.requestId) u = event r c.requestId u from rfl, hfetch] at hextends

end Site

namespace Client

open Http Page

variable {reply : Reply} {response : Response}

/-- Of a reply nothing is kept that could not be shown. -/
theorem Reply.showable_of_kept (h : reply.kept = .ok response) : IsShowable response := by
  rw [Reply.kept] at h
  cases hbody : reply.body with
  | error loss => rw [hbody] at h; cases h
  | ok body =>
    rw [hbody] at h
    cases h
    refine ⟨reply.status_mem, fun h hh _ => ?_⟩
    rw [Reply.keptHeaders] at hh
    obtain ⟨f, hf, hkept⟩ := List.mem_filterMap.mp hh
    split at hkept
    · cases hkept
    · obtain ⟨v, hv, rfl⟩ := Option.map_eq_some_iff.mp hkept
      have hlegal := reply.legal_headers f hf
      rw [IsLegal, field] at hlegal
      rw [isSendable, isHeaderValue_of_visible? hv, Bool.and_true]
      cases hname : headerName? f.1 with
      | none => rw [hname] at hlegal; cases hlegal
      | some name => rfl

/-- Whatever carries its requests, and whatever that is told by others, the client answers with what
it kept of a reply. -/
theorem kept_of_fetch [Idna] {σ : Type} (c : Client) (t : Transport (StateM σ)) (r : Request)
    (st : σ)
    (h : ((c.fetch t r).run st).1 = .ok response) :
    ∃ reply : Reply, reply.kept = .ok response := by
  rw [Client.fetch] at h
  cases hprepared : prepare c.defaults r with
  | error e => rw [hprepared] at h; cases h
  | ok out =>
    rw [hprepared] at h
    replace h : ((travel t maxRedirects out).run st).1 >>= Reply.kept = .ok response := h
    cases htravel : ((travel t maxRedirects out).run st).1 with
    | error e => rw [htravel] at h; cases h
    | ok reply =>
      rw [htravel] at h
      exact ⟨reply, h⟩

end Client

namespace Http.Page

/-- A stored response can be shown if and only if its status has three digits and those of its
headers that are taken over are legal. The page then has its status, its body, and under each name
the values of the headers taken over in their order; nothing in it belongs to a connection. If it
cannot be shown, there is an internal error in its place. The front answers with that page or with
that of the error. What the client answers can always be shown, also when it has been stored in a
snapshot and read again. -/
theorem responses_are_shown_as_they_are [Idna] (r : Response) :
    ((∃ page, ofResponse r = .ok page) ↔ (100 ≤ r.status ∧ r.status ≤ 999) ∧
      ∀ h ∈ r.headers, isOwn h.1 = false → isSendable h = true) ∧
    (∀ page, ofResponse r = .ok page → page.status = r.status ∧ page.body = r.body ∧
      (∀ name, valuesIn name page.headers =
        (valuesIn name (takenOver r.headers)).map String.toUTF8) ∧
      ∀ f ∈ page.headers, isHopByHop f.1 = false) ∧
    (∀ e, ofResponse r = .error e → ∃ text, e = .internal text ∧
      Site.pageOf r = .ofJson 500 (.record
        [("error", .record
          [("message", .text ("Internal error: " ++ text)), ("type", .text "api_error")]),
         ("type", .text "error")])) ∧
    (∀ (w : Worker Manager) (s : Site) (q : Inbound) (c : Circumstances) (u : Url),
      q.target.path ∉ Site.ownPages → q.body.size ≤ Site.bodyLimit →
      Site.locate s.origin q.target = .ok u →
      (s.dispatcher.fetch w (Site.event q c.requestId u)).1 = .ok r →
      (Site.pageOf r).Extends (s.answer w q c).1) ∧
    ∀ (σ : Type) (t : Client.Transport (StateM σ)) (client : Client) (q : Request) (st : σ),
      ((client.fetch t q).run st).1 = .ok r →
      ∃ page, ofResponse r = .ok page ∧
        ∀ (home name : String) (entries : Entries) (key : Key), ∃ loaded stored,
          Snapshot.load home name (Snapshot.encode name (entries.insert key r)) = .ok loaded ∧
          loaded.get? key = some stored ∧ ofResponse stored = .ok page := by
  have hshown : ∀ page, ofResponse r = .ok page →
      IsShowable r ∧ page = ⟨r.status, (takenOver r.headers).map sent, r.body⟩ := by
    intro page hpage
    by_cases hr : IsShowable r
    · rw [ofResponse_of_showable hr] at hpage
      exact ⟨hr, (Except.ok.inj hpage).symm⟩
    · obtain ⟨text, htext⟩ := ofResponse_of_not_showable hr
      cases hpage.symm.trans htext
  refine ⟨⟨fun ⟨page, hpage⟩ => ?_, fun ⟨hstatus, hheaders⟩ => ?_⟩, fun page hpage => ?_,
    fun e he => ?_, fun w s q c u hpage hbody hu hfetch => ?_, fun σ t client q st hfetch => ?_⟩
  · exact ⟨(hshown page hpage).1.status, (hshown page hpage).1.headers⟩
  · exact ⟨_, ofResponse_of_showable ⟨hstatus, hheaders⟩⟩
  · obtain ⟨-, rfl⟩ := hshown page hpage
    exact ⟨rfl, rfl, fun name => valuesIn_sent name _, fun f hf => not_hopByHop_of_sent hf⟩
  · have hr : ¬ IsShowable r := fun hr => by
      cases he.symm.trans (ofResponse_of_showable hr)
    obtain ⟨text, htext⟩ := ofResponse_of_not_showable hr
    cases he.symm.trans htext
    exact ⟨text, rfl, by rw [Site.pageOf, htext]; rfl⟩
  · exact Site.answer_page hpage hbody hu hfetch
  · obtain ⟨reply, hkept⟩ := Client.kept_of_fetch client t q st hfetch
    have hok := ofResponse_of_showable (Client.Reply.showable_of_kept hkept)
    refine ⟨_, hok, fun home name entries key => ⟨_, r, Snapshot.load_encode home name _, ?_, hok⟩⟩
    rw [Entries.get?_insert, if_pos rfl]

open scoped Idna

/-- Names in several cases, an illegal header that is not taken over, and one that is and cannot be.
The client drops the latter when it stands in a reply. -/
theorem names_in_any_case_are_shown :
    let shown : Response :=
      ⟨203, [("X-Tag", "1"), ("Connection", "a\nb"), ("Content-Length", "7"), ("x-tag", "é")],
        .empty⟩
    let refused : Response := ⟨200, [("no token", "1")], .empty⟩
    let url : Url :=
      ⟨"http".toList, some ⟨[], "a".toList, none⟩, .segments ["p".toList], none, none⟩
    let origin : Url := { url with path := .segments [[]] }
    let store := ((Store.begin none .empty).register "assets"
      (.ofList [((Request.get url).key, refused)])).2
    let s : Site := ⟨origin, .begin 1 (.begin "assets" [] origin store)⟩
    let q : Inbound := ⟨.get, ⟨none, none, "/p".toList, none⟩, [], .empty⟩
    let t : Client.Transport (StateM Nat) := fun _ n =>
      (.ok ⟨203, [("x-tag", "1".toUTF8), ("x-name", "é".toUTF8)], .ok .empty, by decide,
        by decide +kernel⟩, n + 1)
    (∃ page, ofResponse shown = .ok page ∧
        valuesIn "X-TAG" page.headers = ["1".toUTF8, "é".toUTF8]) ∧
      (s.answer (Manager.worker fun _ => ⟨0, .crash⟩) q ⟨"id", "now"⟩).1.status = 500 ∧
      ∃ page, ofResponse ⟨203, [("x-tag", "1")], .empty⟩ = .ok page ∧
        ((Client.fetch ⟨[]⟩ t (.get url)).run 0).1 = .ok ⟨203, [("x-tag", "1")], .empty⟩ := by
  intro shown refused url origin store s q t
  obtain ⟨hshown, hpage, -⟩ := responses_are_shown_as_they_are shown
  obtain ⟨page, hok⟩ := hshown.mpr ⟨by decide, by decide +kernel⟩
  obtain ⟨-, -, hvalues, -⟩ := hpage page hok
  obtain ⟨-, -, herror, hanswer, -⟩ := responses_are_shown_as_they_are refused
  obtain ⟨text, -, hinstead⟩ :=
    herror (.internal "failed to build response: invalid HTTP header name") (by decide +kernel)
  have hstatus := (hanswer (Manager.worker fun _ => ⟨0, .crash⟩) s q ⟨"id", "now"⟩ url (by decide)
    (by decide) (by decide +kernel) (by decide +kernel)).status
  have hfetch : ((Client.fetch ⟨[]⟩ t (.get url)).run 0).1 =
      .ok ⟨203, [("x-tag", "1")], .empty⟩ := by decide +kernel
  obtain ⟨-, -, -, -, hkept⟩ := responses_are_shown_as_they_are ⟨203, [("x-tag", "1")], .empty⟩
  obtain ⟨page', hok', -⟩ := hkept Nat t ⟨[]⟩ (.get url) 0 hfetch
  rw [hinstead] at hstatus
  exact ⟨⟨page, hok, (hvalues "X-TAG").trans (by decide +kernel)⟩, hstatus, page', hok', hfetch⟩

end Http.Page

end AssetCache
