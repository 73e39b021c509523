import AssetCache.Proofs.Decimal.Whole
import AssetCache.Proofs.Settings.Verbatim
import AssetCache.Proofs.Toml.Place

namespace AssetCache.Settings

open Decimal (IsKept IsShortInt Spells taken)
open Toml (Value)

variable {l : Leaf} {v : String} {n : Int} {k : Nat} {t : Tree}

namespace Leaf

def isNumber : Leaf → Bool
  | port | timeoutSeconds | connectTimeoutSeconds => true
  | _ => false

def numberOf : (l : Leaf) → l.Value → Option Nat
  | port, x => some x.toNat
  | timeoutSeconds, x | connectTimeoutSeconds, x => some x.toNat
  | host, _ | name, _ | manifest, _ | origin, _ | persistDir, _ | userAgent, _ | level, _
  | format, _ => none

def numberIn (l : Leaf) (s : Settings) : Option Nat := l.numberOf (l.get s)

def limit : Leaf → Nat
  | port => 2 ^ 16
  | _ => 2 ^ 64

/-- The numbers that a variable cannot give: those of 64 bits with a sign that are less than zero,
and those that are taken for a number that is too large. -/
def Refuses (l : Leaf) (n : Int) : Prop := (IsShortInt n ∧ n < 0) ∨ l.limit ≤ taken n

end Leaf

theorem read_of_asNat (hl : l.isNumber = true) (h : asNat l.path t = .ok k) (hk : k < 2 ^ 64) :
    if k < l.limit then ∃ x, l.read t = .ok x ∧ l.numberOf x = some k
    else ∃ e, l.read t = .error e := by
  cases l with
  | host | name | manifest | origin | persistDir | userAgent | level | format => cases hl
  | port =>
    rw [Leaf.read, asUInt16, h]
    dsimp only
    split
    · next hlt => exact ⟨_, if_pos hlt, congrArg some (UInt16.toNat_ofNat_of_lt hlt)⟩
    · next hlt => exact ⟨_, if_neg hlt⟩
  | timeoutSeconds | connectTimeoutSeconds =>
    rw [Leaf.read, asUInt64, h]
    exact (if_pos hk).mpr ⟨_, rfl, congrArg some (UInt64.toNat_ofNat_of_lt hk)⟩

theorem read_of_asNat_error {e : Mismatch} (hl : l.isNumber = true) (h : asNat l.path t = .error e) :
    l.read t = .error e := by
  cases l with
  | host | name | manifest | origin | persistDir | userAgent | level | format => cases hl
  | port => rw [Leaf.read, asUInt16, h]
  | timeoutSeconds | connectTimeoutSeconds =>
    rw [Leaf.read, asUInt64, h]
    rfl

theorem isNoTruth_spells (h : Spells v.toList n) : IsNoTruth v := by
  intro b
  rw [Decimal.lower_spells h]
  cases b with
  | true => exact h.ne_of_head? (c := 't') (by decide) rfl (by decide) (by decide)
  | false => exact h.ne_of_head? (c := 'f') (by decide) rfl (by decide) (by decide)

theorem scalarOfText_spells (h : Spells v.toList n) (hshort : IsShortInt n) :
    scalarOfText v = .int n := by
  refine scalarOfText_int (isNoTruth_spells h) ?_
  rw [Decimal.int64?_spells h, if_pos hshort]

theorem asNat_of_not_short (key : String) (h : Spells v.toList n) (hshort : ¬IsShortInt n) :
    asNat key (fromEnvironment v) = .ok (taken n) := by
  obtain ⟨negative, m, hx, rfl⟩ := Decimal.ofText?_spells h
  have hint : Decimal.int64? v = none := by rw [Decimal.int64?_spells h, if_neg hshort]
  have hlarge : 2 ^ 63 ≤ m := by
    rw [IsShortInt] at hshort
    split at hshort <;> omega
  rw [fromEnvironment, scalarOfText_float (isNoTruth_spells h) hint hx, asNat,
    Decimal.Binary64.toNatClamped_ofDecimal negative hlarge, taken, if_neg hshort]
  cases negative with
  | true =>
    rw [if_pos rfl, if_pos rfl, if_pos (by omega)]
  | false =>
    have hlimit : Nat.pow 2 64 - 1 = 2 ^ 64 - 1 := rfl
    rw [if_neg Bool.false_ne_true, if_neg Bool.false_ne_true, if_neg (by omega), Int.toNat_natCast,
      hlimit]

theorem asNat_fromEnvironment (key : String) (h : Spells v.toList n) :
    if IsShortInt n ∧ n < 0 then ∃ e, asNat key (fromEnvironment v) = .error e
    else asNat key (fromEnvironment v) = .ok (taken n) := by
  by_cases hshort : IsShortInt n
  · rw [fromEnvironment, scalarOfText_spells h hshort]
    cases n with
    | ofNat m =>
      have hpos : ¬Int.ofNat m < 0 := Int.not_lt.mpr (Int.natCast_nonneg m)
      rw [if_neg fun h => hpos h.2, taken, if_pos hshort]
      rfl
    | negSucc m =>
      rw [if_pos ⟨hshort, Int.negSucc_lt_zero m⟩]
      exact ⟨_, rfl⟩
  · rw [if_neg fun h => hshort h.1]
    exact asNat_of_not_short key h hshort

theorem taken_lt (n : Int) : taken n < 2 ^ 64 := by
  rw [taken]
  split
  · next hshort =>
    obtain ⟨_, hlt⟩ := hshort
    omega
  · split <;> omega

/-- A variable gives its setting the number that it is taken for, or is refused. -/
theorem read_spells (hl : l.isNumber = true) (h : Spells v.toList n) :
    (l.Refuses n → ∃ e, l.read (fromEnvironment v) = .error e) ∧
      (¬l.Refuses n → ∃ x, l.read (fromEnvironment v) = .ok x ∧
        l.numberOf x = some (taken n)) := by
  have hnat := asNat_fromEnvironment l.path h
  by_cases hnegative : IsShortInt n ∧ n < 0
  · rw [if_pos hnegative] at hnat
    obtain ⟨e, he⟩ := hnat
    exact ⟨fun _ => ⟨e, read_of_asNat_error hl he⟩, fun hnot => absurd (.inl hnegative) hnot⟩
  · rw [if_neg hnegative] at hnat
    have hread := read_of_asNat hl hnat (taken_lt n)
    by_cases hlt : taken n < l.limit
    · rw [if_pos hlt] at hread
      exact ⟨fun h => h.elim (absurd · hnegative) fun h => absurd h (Nat.not_le.mpr hlt),
        fun _ => hread⟩
    · rw [if_neg hlt] at hread
      exact ⟨fun _ => hread, fun hnot => absurd (.inr (Nat.le_of_not_lt hlt)) hnot⟩

variable {path : Option String} {s : Surroundings} {settings : Settings}
  {members : List (String × Value)}

theorem numberIn_of_file [Idna] (hl : l.isNumber = true) (hshort : IsShortInt n)
    (hreads : Reads path s members) (hplain : PlainKeys members) (hvars : Variables s.environment)
    (hnone : variableIn s.environment l = none) (hgiven : given members l = some (.int n))
    (h : load path s = .ok settings) : ∃ k, l.numberIn settings = some k ∧ (k : Int) = n := by
  have hvalue : valueOf members l = some (.int n) := by rw [valueOf, hgiven]; rfl
  obtain ⟨source, hread⟩ := read_of_file hreads hplain hvars hnone hvalue h
  cases n with
  | negSucc m =>
    rw [read_of_asNat_error hl rfl] at hread
    cases hread
  | ofNat m =>
    have hlt := hshort.2
    rw [Int.ofNat_eq_natCast] at hlt
    have hnumber := read_of_asNat hl (t := .ofToml source (.int (.ofNat m))) (k := m) rfl (by omega)
    split at hnumber
    · obtain ⟨x, hx, hnumber⟩ := hnumber
      cases hx.symm.trans hread
      exact ⟨m, hnumber, rfl⟩
    · obtain ⟨e, he⟩ := hnumber
      cases he.symm.trans hread

theorem given_of_tells {ms : Toml.Members} {x : Value} (h : ms.toTable.Tells [l.part, l.key] x)
    (hplace : inPlace (Toml.membersToValue ms) l.part = none) :
    given (Toml.membersToValue ms) l = some x := by
  obtain h | ⟨before, name, rest, items, hpath, hlist⟩ := h
  · obtain ⟨v, hv, hx⟩ := Option.bind_eq_some_iff.mp h
    rw [given, hv]
    cases v with
    | table inner =>
      obtain ⟨w, hw, hx⟩ := Option.bind_eq_some_iff.mp hx
      cases hx
      exact hw
    | _ => cases hx
  · cases before with
    | nil => cases hlist
    | cons part before =>
      cases before with
      | nil =>
        cases hpath
        obtain ⟨v, hv, hx⟩ := Option.bind_eq_some_iff.mp hlist
        cases hx
        rw [inPlace, hv] at hplace
        cases hplace
      | cons => simp at hpath

theorem readDocument_of_read {cs : List Char} (h : Toml.read (String.ofList cs) = some members) :
    ∃ k d, Toml.readDocumentLines ⟨[], []⟩ k (FileFormat.withoutMark cs) = some d ∧
      members = Toml.membersToValue d.members := by
  rw [Toml.read, String.toList_ofList] at h
  obtain ⟨d, hd, rfl⟩ := Option.map_eq_some_iff.mp h
  exact ⟨_, d, hd, rfl⟩

/-- Whatever number is written in decimal for a setting, the settings that are loaded have it, if it
is written in the file and nothing is said about the setting in the environment. In the environment
a number of 64 bits with a sign is what it is or is refused. Any other number is not refused, unless
the setting is too small for it, and then it is taken for zero or for a multiple of 2048 near by,
up to the greatest number of 64 bits. -/
theorem number_is_kept_iff [Idna] {l : Leaf} (hl : l.isNumber = true) {v : String} {n : Int}
    (hn : Spells v.toList n) :
    ((taken n : Int) = n ↔ IsKept n) ∧
    (∀ path s settings, Variables s.environment → variableIn s.environment l = some v →
      load path s = .ok settings → l.numberIn settings = some (taken n) ∧ ¬l.Refuses n) ∧
    (∀ path s settings, Variables s.environment → variableIn s.environment l = none →
      Gives path s settings → ¬l.Refuses n → ∃ settings', l.numberIn settings' = some (taken n) ∧
        load path (s.withVariable l v) = settings'.validate.map fun _ => settings') ∧
    ∀ path s source cs rest members settings,
      s.contents (path.getD (userFile s.home)) = .ok (source, .toml, cs) →
      Toml.read (String.ofList cs) = some members → PlainKeys members →
      inPlace members l.part = none → Variables s.environment →
      variableIn s.environment l = none →
      Toml.Writes (FileFormat.withoutMark cs) [l.part, l.key] (v.toList ++ rest) →
      (∀ c, rest.head? = some c → Toml.isScalarChar c = false) →
      load path s = .ok settings → ∃ k, l.numberIn settings = some k ∧ (k : Int) = n := by
  obtain ⟨hrefuse, haccept⟩ := read_spells hl hn
  refine ⟨Decimal.taken_eq_self_iff n, ?_, ?_, ?_⟩
  · intro path s settings hvars hv hload
    obtain ⟨⟨layer, -, hdecode⟩, -⟩ := gives_of_load hload
    have hread := read_of_decode hvars hv hdecode
    have hnot : ¬l.Refuses n := fun h => by
      obtain ⟨e, he⟩ := hrefuse h
      cases he.symm.trans hread
    obtain ⟨x, hx, hnumber⟩ := haccept hnot
    cases hx.symm.trans hread
    exact ⟨hnumber, hnot⟩
  · intro path s settings hvars hnone hgives hnot
    obtain ⟨x, hx, hnumber⟩ := haccept hnot
    obtain ⟨settings', hget, hload⟩ := load_of_read hx hvars hnone hgives
    exact ⟨settings', by rw [Leaf.numberIn, hget, hnumber], hload⟩
  · intro path s source cs rest members settings hcontents hread hplain hplace hvars hnone hwrites
      hrest hload
    obtain ⟨k, d, hdocument, rfl⟩ := readDocument_of_read hread
    obtain ⟨htells, hshort⟩ := Toml.tells_of_writes hwrites hn hrest hdocument
    exact numberIn_of_file hl hshort (.file hcontents hread) hplain hvars hnone
      (given_of_tells htells hplace) hload

theorem read_briefFile : Toml.read (String.ofList briefFile) = some briefMembers := by
  unfold Toml.read
  rw [String.toList_ofList]
  unfold briefFile
  simp only [String.reduceToList]
  with_unfolding_all rfl

theorem plainKeys_briefMembers : PlainKeys briefMembers where
  names := by decide +kernel
  inner h := by
    simp only [briefMembers, lookup_cons] at h
    split_ifs at h <;> cases h <;> decide +kernel

def behindPort : List Char := "\n[cache]\nmanifest = []\n".toList

theorem writes_briefFile : Toml.Writes (FileFormat.withoutMark briefFile)
    [Leaf.port.part, Leaf.port.key] ("9000".toList ++ behindPort) := by
  have hline : Toml.readLine ⟨[], []⟩ (FileFormat.withoutMark briefFile) =
      some (⟨[("server", .table .headed [])], ["server"]⟩, "port = 9000".toList ++ behindPort) := by
    unfold briefFile behindPort
    simp only [String.reduceToList]
    with_unfolding_all rfl
  have hkey : Toml.readKey (Toml.skipWhite ("port = 9000".toList ++ behindPort)) =
      some (["port"], '=' :: (" 9000".toList ++ behindPort)) := by decide
  exact .line (.line hline (.here _ _)) hkey rfl (by decide)

open scoped Idna

/-- A port in the environment, and the same one in a file. -/
theorem number_is_kept_at_port :
    (∃ settings, load none ((folderWith briefFile none).withVariable .port "9000") =
      .ok settings ∧ Leaf.port.numberIn settings = some 9000) ∧
    ∃ settings, load (some "c.toml") (folderWith briefFile none) = .ok settings ∧
      Leaf.port.numberIn settings = some 9000 := by
  have hn : Spells "9000".toList 9000 := .plain ⟨by decide, List.all_eq_true.mp (by decide)⟩
  obtain ⟨-, hvariable, -, hfile⟩ := number_is_kept_iff (l := .port) rfl hn
  have hload : load none ((folderWith briefFile none).withVariable .port "9000") =
      .ok { default with server := { default.server with port := 9000 } } := by decide +kernel
  have hbrief : load (some "c.toml") (folderWith briefFile none) =
      .ok { default with
        server := { default.server with port := 9000 }
        cache := { default.cache with manifest := [] } } := by decide +kernel
  have hcontents : (folderWith briefFile none).contents "c.toml" =
      .ok ("c.toml", .toml, briefFile) := by decide +kernel
  have hnone : Variables (folderWith briefFile none).environment :=
    ⟨fun _ h => (nomatch h), List.nodup_nil⟩
  obtain ⟨hport, -⟩ := hvariable _ _ _ (variables_singleton .port "9000") (by decide +kernel) hload
  have hrest : ∀ c, behindPort.head? = some c → Toml.isScalarChar c = false := fun c hc => by
    have hhead : behindPort.head? = some '\n' := rfl
    cases hhead.symm.trans hc
    rfl
  obtain ⟨k, hk, heq⟩ := hfile (some "c.toml") _ _ _ _ _ _ hcontents read_briefFile
    plainKeys_briefMembers rfl hnone rfl writes_briefFile hrest hbrief
  refine ⟨⟨_, hload, hport⟩, _, hbrief, ?_⟩
  rw [hk]
  exact congrArg some (Int.natCast_inj.mp heq)

/-- A timeout that a double cannot tell from 2 ^ 63, and a port far below zero. The file keeps the
timeout, as a text, and refuses the port, as the environment refuses a port just below zero. -/
theorem number_of_variable_is_another :
    load none ((folderWith [] none).withVariable .timeoutSeconds "9223372036854775809") =
        .ok { default with
          network := { default.network with timeoutSeconds := 9223372036854775808 } } ∧
      load (some "c.toml")
          (folderWith "[network]\ntimeout_seconds = '9223372036854775809'\n".toList none) =
        .ok { default with
          network := { default.network with timeoutSeconds := 9223372036854775809 } } ∧
      load none ((folderWith [] none).withVariable .port "-99999999999999999999") =
        .ok { default with server := { default.server with port := 0 } } ∧
      (load (some "c.toml")
        (folderWith "[server]\nport = -99999999999999999999\n".toList none)).toOption = none ∧
      (load none ((folderWith [] none).withVariable .port "-1")).toOption = none := by
  decide +kernel

end AssetCache.Settings
