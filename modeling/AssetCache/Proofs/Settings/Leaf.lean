import AssetCache.Settings.Load
import AssetCache.Proofs.Settings.Overlay

namespace AssetCache.Settings

inductive Leaf where
  | host
  | port
  | name
  | manifest
  | origin
  | persistDir
  | timeoutSeconds
  | connectTimeoutSeconds
  | userAgent
  | level
  | format
deriving DecidableEq

namespace Leaf

def part : Leaf → String
  | host | port => "server"
  | name | manifest | origin | persistDir => "cache"
  | timeoutSeconds | connectTimeoutSeconds | userAgent => "network"
  | level | format => "logging"

def key : Leaf → String
  | host => "host"
  | port => "port"
  | name => "name"
  | manifest => "manifest"
  | origin => "origin"
  | persistDir => "persist_dir"
  | timeoutSeconds => "timeout_seconds"
  | connectTimeoutSeconds => "connect_timeout_seconds"
  | userAgent => "user_agent"
  | level => "level"
  | format => "format"

def path (l : Leaf) : String := l.part ++ "." ++ l.key

def variableName (l : Leaf) : String :=
  "PRECACHE_" ++ l.part.toUpper ++ "__" ++ l.key.toUpper

abbrev Value : Leaf → Type
  | port => UInt16
  | manifest => Manifest
  | persistDir => Option String
  | timeoutSeconds | connectTimeoutSeconds => UInt64
  | host | name | origin | userAgent | level | format => String

def get (s : Settings) : (l : Leaf) → l.Value
  | host => s.server.host
  | port => s.server.port
  | name => s.cache.name
  | manifest => s.cache.manifest
  | origin => s.cache.origin
  | persistDir => s.cache.persistDir
  | timeoutSeconds => s.network.timeoutSeconds
  | connectTimeoutSeconds => s.network.connectTimeoutSeconds
  | userAgent => s.network.userAgent
  | level => s.logging.level
  | format => s.logging.format

def read : (l : Leaf) → Tree → Except Mismatch l.Value
  | port => asUInt16 port.path
  | manifest => asTexts manifest.path
  | persistDir => asOptionalText persistDir.path
  | timeoutSeconds => asUInt64 timeoutSeconds.path
  | connectTimeoutSeconds => asUInt64 connectTimeoutSeconds.path
  | host => asText host.path
  | name => asText name.path
  | origin => asText origin.path
  | userAgent => asText userAgent.path
  | level => asText level.path
  | format => asText format.path

theorem eq_of_key {l l' : Leaf} (h : l.key = l'.key) : l = l' := by
  cases l <;> cases l' <;> first | rfl | exact absurd h (by decide)

theorem isPlain_part (l : Leaf) : IsPlain l.part := by
  cases l <;> decide +kernel

theorem isPlain_key (l : Leaf) : IsPlain l.key := by
  cases l <;> decide +kernel

theorem pathOf_path (l : Leaf) : pathOf l.path = [.member l.part, .member l.key] := by
  cases l <;> decide +kernel

theorem eq_of_path {l l' : Leaf} (h : l.path = l'.path) : l = l' := by
  have hpath := l.pathOf_path
  rw [h, pathOf_path] at hpath
  injection hpath with _ hpath
  injection hpath with hkey
  injection hkey with hkey
  exact (eq_of_key hkey).symm

theorem variableKey?_variableName (l : Leaf) : variableKey? l.variableName = some l.path := by
  cases l <;> decide +kernel

end Leaf

namespace Tree

def inside (t : Tree) (part : String) : List (String × Tree) :=
  (t.members.lookup part).elim [] members

def leaf (t : Tree) (l : Leaf) : Option Tree := (t.inside l.part).lookup l.key

/-- What stands in the place of a section without being one. -/
def standIn (t : Tree) (part : String) : Option Tree :=
  (t.members.lookup part).filter fun v => !v.isTable

/-- A setting as the tree has it, or else its default. -/
def result (t : Tree) (l : Leaf) : Except Mismatch l.Value :=
  (t.leaf l).elim (.ok (l.get default)) l.read

def readPart {σ : Type} (part structName : String) (fields : List (Field σ)) (start : σ)
    (t : Tree) : Except Mismatch σ :=
  (t.members.lookup part).elim (.ok start) (readSection part structName fields start)

end Tree

section Reading

variable {σ α : Type} {part structName name : String} {ms : List (String × Tree)}
  {fields rest : List (Field σ)} {start s : σ} {t : Tree}

theorem bind_eq_ok {ε β γ : Type} {x : Except ε β} {f : β → Except ε γ} {c : γ} :
    (x >>= f) = .ok c ↔ ∃ b, x = .ok b ∧ f b = .ok c := by
  cases x with
  | error e => exact ⟨nofun, nofun⟩
  | ok b => exact ⟨fun h => ⟨b, rfl, h⟩, fun ⟨_, hb, h⟩ => by cases hb; exact h⟩

theorem readMembers_nil (part : String) (fields : List (Field σ)) (s : σ) :
    readMembers part [] fields s = .ok s := by
  induction fields with
  | nil => rw [readMembers]
  | cons f rest ih => rw [readMembers, List.lookup_nil]; exact ih

/-- A field is read where its name stands, and keeps what it has otherwise. -/
theorem readMembers_cons {read : String → Tree → Except Mismatch α} {put : α → σ → σ} (old : α)
    (hold : put old s = s) :
    readMembers part ms (⟨name, fun key t s => (read key t).map fun v => put v s⟩ :: rest) s = (do
      let v ← (ms.lookup name).elim (.ok old) (read (part ++ "." ++ name))
      readMembers part ms rest (put v s)) := by
  rw [readMembers]
  cases hname : ms.lookup name with
  | none => exact congrArg _ hold.symm
  | some t =>
    dsimp only [Option.elim_some]
    cases read (part ++ "." ++ name) t <;> rfl

/-- A section is read by name, unless something else stands in its place. -/
theorem readPart_eq (t : Tree) :
    t.readPart part structName fields start =
      (t.standIn part).elim (readMembers part (t.inside part) fields start)
        (readSection part structName fields start) := by
  rw [Tree.readPart, Tree.standIn, Tree.inside]
  cases hpart : t.members.lookup part with
  | none => exact (readMembers_nil part fields start).symm
  | some v => cases v <;> rfl

theorem readServer (t : Tree) :
    readMembers "server" (t.inside "server") serverFields default.server = (do
      let host ← t.result .host
      let port ← t.result .port
      .ok ⟨host, port⟩) :=
  (readMembers_cons default.server.host rfl).trans <| bind_congr fun _ =>
  (readMembers_cons default.server.port rfl).trans <| bind_congr fun _ => rfl

theorem readCache (t : Tree) :
    readMembers "cache" (t.inside "cache") cacheFields default.cache = (do
      let name ← t.result .name
      let manifest ← t.result .manifest
      let origin ← t.result .origin
      let persistDir ← t.result .persistDir
      .ok ⟨name, manifest, origin, persistDir⟩) :=
  (readMembers_cons default.cache.name rfl).trans <| bind_congr fun _ =>
  (readMembers_cons default.cache.manifest rfl).trans <| bind_congr fun _ =>
  (readMembers_cons default.cache.origin rfl).trans <| bind_congr fun _ =>
  (readMembers_cons default.cache.persistDir rfl).trans <| bind_congr fun _ => rfl

theorem readNetwork (t : Tree) :
    readMembers "network" (t.inside "network") networkFields default.network = (do
      let timeoutSeconds ← t.result .timeoutSeconds
      let connectTimeoutSeconds ← t.result .connectTimeoutSeconds
      let userAgent ← t.result .userAgent
      .ok ⟨timeoutSeconds, connectTimeoutSeconds, userAgent⟩) :=
  (readMembers_cons default.network.timeoutSeconds rfl).trans <| bind_congr fun _ =>
  (readMembers_cons default.network.connectTimeoutSeconds rfl).trans <| bind_congr fun _ =>
  (readMembers_cons default.network.userAgent rfl).trans <| bind_congr fun _ => rfl

theorem readLogging (t : Tree) :
    readMembers "logging" (t.inside "logging") loggingFields default.logging = (do
      let level ← t.result .level
      let format ← t.result .format
      .ok ⟨level, format⟩) :=
  (readMembers_cons default.logging.level rfl).trans <| bind_congr fun _ =>
  (readMembers_cons default.logging.format rfl).trans <| bind_congr fun _ => rfl

theorem decode_eq (t : Tree) :
    decode t = (do
      let server ← t.readPart "server" "ServerConfig" serverFields default.server
      let cache ← t.readPart "cache" "CacheSettings" cacheFields default.cache
      let network ← t.readPart "network" "NetworkConfig" networkFields default.network
      let logging ← t.readPart "logging" "LoggingConfig" loggingFields default.logging
      .ok ⟨server, cache, network, logging⟩) :=
  (readMembers_cons default.server rfl).trans <| bind_congr fun _ =>
  (readMembers_cons default.cache rfl).trans <| bind_congr fun _ =>
  (readMembers_cons default.network rfl).trans <| bind_congr fun _ =>
  (readMembers_cons default.logging rfl).trans <| bind_congr fun _ => rfl

theorem readPart_eq_ok (hplace : ∀ v, t.standIn part = some v → v.items = []) :
    t.readPart part structName fields start = .ok s ↔
      readMembers part (t.inside part) fields start = .ok s ∧
        ∀ v, t.standIn part = some v → ∃ source, v = .list source [] := by
  rw [readPart_eq]
  cases hv : t.standIn part with
  | none => simp
  | some v =>
    obtain ⟨hlookup, htable⟩ := Option.filter_eq_some_iff.mp hv
    have hinside : t.inside part = v.members := by rw [Tree.inside, hlookup]; rfl
    have hitems := hplace v hv
    rw [hinside]
    cases v with
    | table => cases htable
    | list source items =>
      cases hitems
      have hlist : readSection part structName fields start (.list source []) = .ok start := by
        cases fields <;> rfl
      simp [Tree.members, readMembers_nil, hlist]
    | scalar source v => simp [readSection, Tree.members]

/-- The whole, setting by setting. -/
theorem decode_eq_ok_iff {settings : Settings}
    (hplace : ∀ (l : Leaf) (v : Tree), t.standIn l.part = some v → v.items = []) :
    decode t = .ok settings ↔
      (∀ l : Leaf, t.result l = .ok (l.get settings)) ∧
        ∀ (l : Leaf) (v : Tree), t.standIn l.part = some v → ∃ source, v = .list source [] := by
  have hserver : ∀ v, t.standIn "server" = some v → v.items = [] := hplace .host
  have hcache : ∀ v, t.standIn "cache" = some v → v.items = [] := hplace .name
  have hnetwork : ∀ v, t.standIn "network" = some v → v.items = [] := hplace .userAgent
  have hlogging : ∀ v, t.standIn "logging" = some v → v.items = [] := hplace .level
  simp only [decode_eq, bind_eq_ok, readPart_eq_ok hserver, readPart_eq_ok hcache,
    readPart_eq_ok hnetwork, readPart_eq_ok hlogging, readServer, readCache, readNetwork,
    readLogging]
  constructor
  · rintro ⟨server, ⟨⟨host, hhost, port, hport, hs⟩, hserver⟩,
      cache, ⟨⟨name, hname, manifest, hmanifest, origin, horigin, dir, hdir, hc⟩, hcache⟩,
      network, ⟨⟨timeout, htimeout, connect, hconnect, agent, hagent, hn⟩, hnetwork⟩,
      logging, ⟨⟨level, hlevel, format, hformat, hl⟩, hlogging⟩, heq⟩
    cases hs
    cases hc
    cases hn
    cases hl
    cases heq
    exact ⟨fun l => by cases l <;> assumption, fun l => by cases l <;> assumption⟩
  · rintro ⟨hresult, hlist⟩
    exact ⟨_, ⟨⟨_, hresult .host, _, hresult .port, rfl⟩, hlist .host⟩,
      _, ⟨⟨_, hresult .name, _, hresult .manifest, _, hresult .origin, _, hresult .persistDir, rfl⟩,
        hlist .name⟩,
      _, ⟨⟨_, hresult .timeoutSeconds, _, hresult .connectTimeoutSeconds, _, hresult .userAgent,
        rfl⟩, hlist .userAgent⟩,
      _, ⟨⟨_, hresult .level, _, hresult .format, rfl⟩, hlist .level⟩, rfl⟩

end Reading

end AssetCache.Settings
