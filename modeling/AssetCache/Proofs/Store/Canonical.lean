import AssetCache.Proofs.Store.Codec
import AssetCache.Proofs.Store.Contents

namespace AssetCache

namespace Entries

variable {m : Entries} {l : List (Key × Response)}

theorem ofList_eq (hkeys : (l.map (·.1)).Nodup)
    (hl : ∀ k r, (k, r) ∈ l ↔ m.get? k = some r) : ofList l = m := by
  apply ext_get?
  intro k
  cases h : m.get? k with
  | some r => exact get?_insertAll_of_mem empty hkeys ((hl k r).mpr h)
  | none =>
    apply get?_insertAll_of_not_mem empty
    intro hk
    obtain ⟨⟨k', r⟩, hmem, hk'⟩ := List.mem_map.mp hk
    subst hk'
    rw [(hl k' r).mp hmem] at h
    cases h

end Entries

namespace Snapshot

variable {name name' : String} {m m' : Entries}

theorem encode_eq_iff :
    encode name' m' = encode name m ↔ name' = name ∧ ∀ k, m'.get? k = m.get? k := by
  constructor
  · intro h
    have hread := decode_encode name' m'
    rw [h, decode_encode name m] at hread
    simp only [Except.ok.injEq, Prod.mk.injEq] at hread
    refine ⟨hread.1.symm, fun k => ?_⟩
    rw [Entries.get?, Entries.get?, hread.2]
  · rintro ⟨rfl, h⟩
    rw [Entries.ext_get? h]

theorem load_of_ne (home : String) (m : Entries) (hne : name' ≠ name) :
    load home name' (encode name m) = .error (.storage ("snapshot " ++ shownPath home name' ++
      " belongs to bucket " ++ Text.quoted name ++ ", not " ++ Text.quoted name')) := by
  simp only [load, decode_encode, if_neg (Ne.symm hne)]

/-- What a commit that does well has written is found in the place of the snapshot. -/
theorem bytesAt_of_commit {d : Disk} (hd : d.IsTree) {home : String}
    (hok : (d.run (commit home name m)).1 = .ok ()) :
    (d.run (commit home name m)).2.bytesAt (path home name) = .ok (encode name m) := by
  obtain ⟨e, he, _⟩ | ⟨_, hreplaced⟩ := run_commit hd home name m
  · rw [hok] at he
    cases he
  · have hfind : (d.run (commit home name m)).2.find (path home name) =
        .ok (.file (encode name m)) := Disk.find_of_at? hreplaced.tree hreplaced.file
    rw [Disk.bytesAt, hfind]

/-- What is written for a bucket is read back as its contents, and under no other name. The file
lists the entries in the order of their keys; its bytes are the same for two buckets just if they
have one name and one contents, and do not tell in which order the entries came. -/
theorem snapshot_is_canonical (home name : String) (m : Entries) :
    load home name (encode name m) = .ok m ∧
    (∀ d : Disk, d.IsTree → (d.run (commit home name m)).1 = .ok () →
      (d.run (commit home name m)).2.bytesAt (path home name) = .ok (encode name m)) ∧
    (∃ l, decode (encode name m) = .ok (name, l) ∧ (l.Pairwise fun a b => a.1 < b.1) ∧
      ∀ k r, (k, r) ∈ l ↔ m.get? k = some r) ∧
    (∀ l : List (Key × Response), (l.map (·.1)).Nodup →
      (∀ k r, (k, r) ∈ l ↔ m.get? k = some r) → encode name (.ofList l) = encode name m) ∧
    (∀ name' m', encode name' m' = encode name m ↔ name' = name ∧ ∀ k, m'.get? k = m.get? k) ∧
    ∀ name', name' ≠ name → load home name' (encode name m) =
      .error (.storage ("snapshot " ++ shownPath home name' ++ " belongs to bucket " ++
        Text.quoted name ++ ", not " ++ Text.quoted name')) := by
  refine ⟨load_encode home name m, fun d hd hok => bytesAt_of_commit hd hok, ?_, ?_, ?_, ?_⟩
  · exact ⟨m.list, decode_encode name m, m.sorted, fun k r => Entries.get?_eq_some_iff.symm⟩
  · intro l hkeys hl
    rw [Entries.ofList_eq hkeys hl]
  · intro name' m'
    exact encode_eq_iff
  · intro name' hne
    exact load_of_ne home m hne

/-- Two entries that came in the order opposite to that of their keys, under a name in quotes: one
has a line break in its key and a body that is no text. -/
theorem snapshot_of_page :
    let page : Key × Response :=
      (⟨"GET", "http://a/é\"\n"⟩, ⟨599, [("x", "\\"), ("x", "")], ⟨#[0, 255, 128]⟩⟩)
    let folder : Key × Response := (⟨"GET", "http://a/"⟩, ⟨200, [("é", "\t")], .empty⟩)
    let m : Entries := .ofList [page, folder]
    let disk := Disk.empty.run (commit "cache" "\"a\"" m)
    disk.1 = .ok () ∧ disk.2.bytesAt (path "cache" "\"a\"") = .ok (encode "\"a\"" m) ∧
      load "cache" "\"a\"" (encode "\"a\"" m) = .ok m ∧
      decode (encode "\"a\"" m) = .ok ("\"a\"", [folder, page]) ∧
      encode "\"a\"" (.ofList [folder, page]) = encode "\"a\"" m ∧
      ∃ e, load "cache" "b" (encode "\"a\"" m) = .error (.storage e) := by
  intro page folder m disk
  have hok : disk.1 = .ok () := by decide +kernel
  have hlist : m.list = [folder, page] := by decide +kernel
  obtain ⟨hload, hwritten, -, horder, -, hother⟩ := snapshot_is_canonical "cache" "\"a\"" m
  have hpairs : ∀ k r, (k, r) ∈ [folder, page] ↔ m.get? k = some r := by
    intro k r
    rw [← hlist, Entries.get?_eq_some_iff]
  refine ⟨hok, hwritten _ Disk.isTree_empty hok, hload, ?_, ?_, _, hother "b" (by decide)⟩
  · rw [← hlist]
    exact decode_encode _ m
  · exact horder _ (by decide) hpairs

end Snapshot

end AssetCache
