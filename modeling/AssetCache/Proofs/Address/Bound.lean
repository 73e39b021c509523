import AssetCache.Program
import AssetCache.Proofs.Address.Text

namespace AssetCache

def IpAddress.isV4 : IpAddress → Bool
  | v4 .. => true
  | v6 _ => false

theorem Endpoint.ofText?_of_host {host : String} {ip : IpAddress}
    (h : IpAddress.ofText? host = some ip) (port : UInt16) :
    ofText? (join host port) = if ip.isV4 then some ⟨ip, port, 0⟩ else none := by
  cases ip with
  | v4 a b c d => exact ofText?_of_v4 h port
  | v6 groups => exact ofText?_of_v6 h port

namespace Program

variable {w : World} {line : CommandLine} {start : Start} {ip : IpAddress}

def netOf [Idna] (w : World) (start : Start) : Network :=
  start.client.network (w.transport start.settings.network)

theorem prepare_apply [Idna] (line : CommandLine) (s : Settings) :
    prepare (line.apply s) = prepare s := rfl

def installed [Idna] (w : World) (start : Start) : Except CacheError Unit × Site :=
  let site := site start.settings start.origin w.surroundings.disk
  let (result, dispatcher) := site.dispatcher.install (Manager.worker (netOf w start))
  (result, { site with dispatcher })

/-- A run whose install succeeds and that is to serve. -/
structure Populates [Idna] (w : World) (line : CommandLine) (start : Start) : Prop where
  begins : begin w.surroundings line = .ok start
  serves : line.installOnly = false
  succeeds : (installed w start).1 = .ok ()

theorem Populates.runWith_eq [Idna] (h : Populates w line start) :
    runWith w line = listen w start.settings (installed w start).2 (netOf w start) := by
  have hok := h.succeeds
  rw [installed] at hok ⊢
  rw [runWith, h.begins]
  dsimp only at hok ⊢
  rw [install, ← netOf]
  dsimp only
  rw [hok, h.serves]
  rfl

def noAddress : Exit := ⟨1, "", "Error: invalid socket address syntax\n"⟩

theorem listen_of_host {s : Settings} {host : String} {port : UInt16}
    (hserver : s.server = ⟨host, port⟩) (h : IpAddress.ofText? host = some ip) (site : Site)
    (net : Network) : listen w s site net =
      if ip.isV4 then
        match w.refusal ⟨ip, port, 0⟩ with
        | some e => .exit (refused e) site.manager.store.disk
        | none => .serving ⟨ip, port, 0⟩ site net
      else .exit noAddress site.manager.store.disk := by
  rw [listen, hserver, Endpoint.ofText?_of_host h]
  cases ip with
  | v4 a b c d => rfl
  | v6 groups => rfl

/-- Let a host be the text of an address; every address has its standard one. With a port behind it the
text of four bytes is read back as that address and that port, and so a run whose install succeeds
listens there, if the system lets it. The text of eight groups is not, though it would be with
brackets around it: such a run ends with an error after its install. -/
theorem address_is_bound_iff_v4 [Idna] (host : String) (ip : IpAddress) (port : UInt16)
    (hhost : IpAddress.ofText? host = some ip) :
    IpAddress.ofText? ip.text = some ip ∧
    (Endpoint.ofText? (Endpoint.join host port) = if ip.isV4 then some ⟨ip, port, 0⟩ else none) ∧
    (ip.isV4 = false →
      Endpoint.ofText? (Endpoint.join ("[" ++ host ++ "]") port) = some ⟨ip, port, 0⟩) ∧
    ∀ (w : World) (line : CommandLine) (start : Start), Populates w line start →
      start.settings.server = ⟨host, port⟩ →
      let site := (installed w start).2
      (ip.isV4 = true → runWith w line =
        match w.refusal ⟨ip, port, 0⟩ with
        | some e => .exit (refused e) site.manager.store.disk
        | none => .serving ⟨ip, port, 0⟩ site (netOf w start)) ∧
      (ip.isV4 = false → runWith w line = .exit noAddress site.manager.store.disk) := by
  refine ⟨ip.ofText?_text, Endpoint.ofText?_of_host hhost port, fun hv6 => ?_,
    fun w line start hrun hserver => ?_⟩
  · cases ip with
    | v4 a b c d => cases hv6
    | v6 groups => exact Endpoint.ofText?_of_bracketed hhost port
  · rw [hrun.runWith_eq, listen_of_host hserver hhost]
    refine ⟨fun hv4 => ?_, fun hv6 => ?_⟩
    · rw [if_pos hv4]
    · rw [hv6]
      rfl

def assetWorld : World where
  surroundings := ⟨"/", "/", [], ⟨[(["c.toml"], .file "cache.manifest = ['app.js']".toUTF8)], []⟩⟩
  transport _ _ := .ok ⟨200, [], .ok .empty, by decide, List.forall_mem_nil _⟩
  refusal _ := none

def assetLine (host : Option String) : CommandLine := ⟨some "c.toml", host, none, false, false⟩

def assetStart (host : String) : Start where
  settings := { Settings.default with
    server := ⟨host, 8080⟩
    cache := { Settings.default.cache with manifest := ["app.js"] } }
  origin := ⟨"http".toList, some ⟨[], "127.0.0.1".toList, some 8000⟩, .segments [[]], none, none⟩
  client := ⟨[("accept", "*/*".toUTF8), ("user-agent", "precache/0.1.0".toUTF8)]⟩

theorem populates_asset (host : Option String) :
    Populates assetWorld (assetLine host) (assetStart (host.getD "127.0.0.1")) where
  begins := by
    have hload : Settings.load (some "c.toml") assetWorld.surroundings =
        .ok (assetStart "127.0.0.1").settings := by decide +kernel
    have hprepare : prepare (assetStart "127.0.0.1").settings =
        .ok ((assetStart "127.0.0.1").origin, (assetStart "127.0.0.1").client) := by
      have hlog : LogFormat.ofName (assetStart "127.0.0.1").settings.logging.format = .ok .pretty := by
        decide +kernel
      have horigin : (assetStart "127.0.0.1").settings.originUrl = .ok (assetStart "127.0.0.1").origin := by
        decide +kernel
      have hclient : Client.ofSettings (assetStart "127.0.0.1").settings.network =
          .ok (assetStart "127.0.0.1").client := if_pos (by decide +kernel)
      rw [prepare, hlog, horigin, hclient]
      rfl
    rw [begin, assetLine, hload]
    dsimp only
    rw [if_neg Bool.false_ne_true, prepare_apply, hprepare]
    rfl
  serves := rfl
  succeeds := by
    have h : (installed assetWorld (assetStart "127.0.0.1")).1 = .ok () := by decide +kernel
    exact h

/-- The host that the settings have where none is given. -/
theorem loopback_is_bound :
    let ip : IpAddress := .v4 127 0 0 1
    ip.text = "127.0.0.1" ∧ Endpoint.ofText? "127.0.0.1:8080" = some ⟨ip, 8080, 0⟩ ∧
      Populates assetWorld (assetLine none) (assetStart "127.0.0.1") ∧
      ∃ site net, runWith assetWorld (assetLine none) = .serving ⟨ip, 8080, 0⟩ site net := by
  intro ip
  have hhost : IpAddress.ofText? "127.0.0.1" = some ip := by decide +kernel
  obtain ⟨-, hread, -, hruns⟩ := address_is_bound_iff_v4 "127.0.0.1" ip 8080 hhost
  have hrun := populates_asset none
  exact ⟨rfl, hread, hrun, _, _,
    (hruns assetWorld (assetLine none) (assetStart "127.0.0.1") hrun rfl).1 rfl⟩

/-- The other loopback address, which has eight groups. Its text is no host for the program, which
tells so when the asset has been fetched. -/
theorem loopback_of_groups_is_not_bound :
    let ip : IpAddress := .v6 ⟨#[0, 0, 0, 0, 0, 0, 0, 1], rfl⟩
    let ran := installed assetWorld (assetStart "::1")
    ip.text = "::1" ∧ Endpoint.ofText? (Endpoint.join "::1" 8080) = none ∧ ran.1 = .ok () ∧
      runWith assetWorld (assetLine (some "::1")) = .exit noAddress ran.2.manager.store.disk := by
  intro ip ran
  have hhost : IpAddress.ofText? "::1" = some ip := by decide +kernel
  have hserver : (assetStart "::1").settings.server = ⟨"::1", 8080⟩ := rfl
  have hrun : Populates assetWorld (assetLine (some "::1")) (assetStart "::1") :=
    populates_asset (some "::1")
  refine ⟨by decide +kernel, by decide +kernel, hrun.succeeds, ?_⟩
  rw [hrun.runWith_eq, listen_of_host hserver hhost]
  rfl

end Program

end AssetCache
