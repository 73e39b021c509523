import AssetCache.Decimal.Shortest

namespace AssetCache

open Decimal (Binary64)

structure Histogram where
  counts : List Nat
  count : Nat
  sum : Binary64
deriving DecidableEq, Repr

namespace Histogram

/-- The upper bounds in ten-thousandths of a second. -/
def boundUnits : List Nat :=
  [5, 10, 50, 100, 250, 500, 1000, 2500, 5000, 10000, 25000, 50000, 100000]

def bounds : List Binary64 := boundUnits.map fun n => Binary64.ofDecimal false n (-4)

def empty : Histogram := ⟨bounds.map fun _ => 0, 0, .zero⟩

def observe (h : Histogram) (x : Binary64) : Histogram :=
  ⟨(h.counts.zip bounds).map fun p => if x.le p.2 then p.1 + 1 else p.1, h.count + 1, h.sum.add x⟩

end Histogram

/-- `fetches` counts network fetches by their purpose and whether they went well, `sizes` holds the
entries of each bucket as last told. -/
structure Metrics where
  hits : Nat
  misses : Nat
  cacheTimes : Histogram
  networkTimes : Histogram
  installs : Nat
  failedInstalls : Nat
  fetches : List ((String × Bool) × Nat)
  sizes : List (String × Nat)
deriving DecidableEq, Repr

namespace Metrics

def empty : Metrics := ⟨0, 0, .empty, .empty, 0, 0, [], []⟩

def addHit (m : Metrics) (seconds : Binary64) : Metrics :=
  { m with hits := m.hits + 1, cacheTimes := m.cacheTimes.observe seconds }

def fetchCount (m : Metrics) (purpose : String) (ok : Bool) : Nat :=
  (m.fetches.lookup (purpose, ok)).getD 0

def addFetch (m : Metrics) (purpose : String) (ok : Bool) : Metrics :=
  { m with
    fetches := ((purpose, ok), m.fetchCount purpose ok + 1) ::
      m.fetches.filter fun p => p.1 ≠ (purpose, ok) }

def addMiss (m : Metrics) (ok : Bool) (seconds : Binary64) : Metrics :=
  let m := { m with misses := m.misses + 1, networkTimes := m.networkTimes.observe seconds }
  m.addFetch "fallback" ok

def addInstall (m : Metrics) (ok : Bool) : Metrics :=
  if ok then { m with installs := m.installs + 1 }
  else { m with failedInstalls := m.failedInstalls + 1 }

def setSize (m : Metrics) (bucket : String) (count : Nat) : Metrics :=
  { m with sizes := (bucket, count) :: m.sizes.filter fun p => p.1 ≠ bucket }

def size? (m : Metrics) (bucket : String) : Option Nat := m.sizes.lookup bucket

def escapeLabel (s : String) : String :=
  String.ofList (s.toList.flatMap fun c =>
    if c = '\\' then ['\\', '\\']
    else if c = '"' then ['\\', '"']
    else if c = '\n' then ['\\', 'n']
    else [c])

def series (name : String) (labels : List (String × String)) (value : String) : String :=
  name ++ "\x7b" ++
    ",".intercalate (labels.map fun p => p.1 ++ "=\"" ++ escapeLabel p.2 ++ "\"") ++
    "\x7d " ++ value

def countText (n : Nat) : String := (Binary64.ofNat n).text

/-- A family of series under its two lines of head, unless it has no series. -/
def family (name help kind : String) (lines : List String) : List String :=
  if lines.isEmpty then []
  else ("# HELP " ++ name ++ " " ++ help) :: ("# TYPE " ++ name ++ " " ++ kind) :: lines

def counter (name label : String) (counts : List (String × Nat)) : List String :=
  (counts.filter fun p => p.2 ≠ 0).map fun p => series name [(label, p.1)] (countText p.2)

def histogramName : String := "fetch_duration_seconds"

def histogram (source : String) (h : Histogram) : List String :=
  if h.count = 0 then []
  else
    ((Histogram.bounds.zip h.counts).map fun p =>
        series (histogramName ++ "_bucket") [("source", source), ("le", p.1.text)]
          (countText p.2)) ++
      [series (histogramName ++ "_bucket") [("source", source), ("le", "+Inf")]
        (countText h.count),
       series (histogramName ++ "_sum") [("source", source)] h.sum.text,
       series (histogramName ++ "_count") [("source", source)] (countText h.count)]

/-- The fetches that went wrong stand first, each kind by its purpose. -/
def fetchSeries (m : Metrics) (ok : Bool) : List String :=
  let own := (m.fetches.filter fun p => p.1.2 = ok).mergeSort fun a b => a.1.1 ≤ b.1.1
  own.map fun p =>
    series "network_fetches_total"
      [("outcome", if ok then "ok" else "error"), ("phase", p.1.1)] (countText p.2)

def lines (m : Metrics) : List String :=
  family "bucket_entries" "Entries stored in a cache bucket" "gauge"
      ((m.sizes.mergeSort fun a b => a.1 ≤ b.1).map fun p =>
        series "bucket_entries" [("bucket", p.1)] (countText p.2)) ++
    family "cache_lookups_total" "Fetch events by cache lookup outcome" "counter"
      (counter "cache_lookups_total" "result" [("hit", m.hits), ("miss", m.misses)]) ++
    family histogramName "Time to answer a fetch event" "histogram"
      (histogram "cache" m.cacheTimes ++ histogram "network" m.networkTimes) ++
    family "installs_total" "Install phase attempts" "counter"
      (counter "installs_total" "status"
        [("failure", m.failedInstalls), ("success", m.installs)]) ++
    family "network_fetches_total" "Network fetches issued" "counter"
      (m.fetchSeries false ++ m.fetchSeries true)

def page (m : Metrics) : String := String.join (m.lines.map (· ++ "\n"))

end Metrics

end AssetCache
