import AssetCache.Proofs.Serving

namespace AssetCache.Site

variable {s : Site} {net : Network} {r : Http.Inbound} {url : Url} {response : Response}

def pageOf (response : Response) : Http.Page :=
  match Http.Page.ofResponse response with
  | .error e => e.page
  | .ok page => page

def afterHit (s : Site) : Site :=
  { s with dispatcher := { s.dispatcher with
      sent := s.dispatcher.sent + 1
      replies := []
      shared := s.manager.countHit } }

theorem forward_of_fetch [Idna] (hi : s.dispatcher.Idle) (hrunning : s.dispatcher.running = true)
    (hbody : r.body.size ≤ bodyLimit) (hurl : locate s.origin r.target = .ok url)
    (hfetch : s.manager.fetch net (request r url) = (some (.ok response), s.manager.countHit)) :
    s.forward (Manager.worker net) r = (pageOf response, s.afterHit) := by
  have hrun : ((Manager.worker net).fetch (request r url)).run s.dispatcher.shared =
      (some (.ok response), s.manager.countHit) := hfetch
  rw [forward, if_neg (Nat.not_lt.mpr hbody), hurl]
  dsimp only
  rw [Dispatcher.fetch_idle _ hi, if_pos hrunning, hrun, pageOf]
  dsimp only [Option.getD]
  cases Http.Page.ofResponse response with
  | error e => rfl
  | ok page => rfl

/-- Neither the length of the body nor an identifier changes more of a page than its headers. -/
theorem answer_of_fetch [Idna] (c : Circumstances) (hi : s.dispatcher.Idle)
    (hrunning : s.dispatcher.running = true) (hbody : r.body.size ≤ bodyLimit)
    (hurl : locate s.origin r.target = .ok url)
    (hhealth : r.target.path ≠ "/_precache/health".toList)
    (hmetrics : r.target.path ≠ "/_precache/metrics".toList)
    (hfetch : ∀ headers, s.manager.fetch net (request { r with headers } url) =
      (some (.ok response), s.manager.countHit)) :
    (s.answer (Manager.worker net) r c).1.status = (pageOf response).status ∧
      (s.answer (Manager.worker net) r c).1.body = (pageOf response).body ∧
      (s.answer (Manager.worker net) r c).2 = s.afterHit := by
  have hroute : ∀ headers, s.route (Manager.worker net) { r with headers } c.time =
      ((pageOf response).measured, s.afterHit) := by
    intro headers
    rw [route, if_neg hhealth, if_neg hmetrics,
      forward_of_fetch (r := { r with headers }) hi hrunning hbody hurl (hfetch headers)]
  have hmeasured : (pageOf response).measured.status = (pageOf response).status ∧
      (pageOf response).measured.body = (pageOf response).body := by
    rw [Http.Page.measured]
    split <;> exact ⟨rfl, rfl⟩
  rw [answer]
  simp only [hroute, and_true]
  split
  · exact hmeasured
  · exact hmeasured

end AssetCache.Site
