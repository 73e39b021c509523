import AssetCache.Url.Host

namespace AssetCache.Url

variable {c sep : Char} {cs host s : List Char} {parts : List (List Char)}

theorem exists_digitChar {base n : Nat} (hbase : 1 < base) (hc : c ∈ Nat.toDigits base n) :
    ∃ d < base, c = Nat.digitChar d := by
  induction n using Nat.strongRecOn with
  | _ n ih =>
    rw [Nat.toDigits_eq_if hbase] at hc
    split at hc
    · next hn => exact ⟨n, hn, List.mem_singleton.mp hc⟩
    · next hn =>
      obtain hc | hc := List.mem_append.mp hc
      · exact ih (n / base) (Nat.div_lt_self (by omega) hbase) hc
      · exact ⟨n % base, Nat.mod_lt n (by omega), List.mem_singleton.mp hc⟩

theorem not_mem_toDigits {base : Nat} (hc : ∀ d < 16, c ≠ Nat.digitChar d) (hbase : 1 < base)
    (hle : base ≤ 16) (n : Nat) : c ∉ Nat.toDigits base n := by
  intro hmem
  obtain ⟨d, hd, heq⟩ := exists_digitChar hbase hmem
  exact hc d (by omega) heq

theorem mem_joinWith (hc : c ∈ joinWith sep parts) : c = sep ∨ ∃ s ∈ parts, c ∈ s := by
  induction parts with
  | nil => cases hc
  | cons s parts ih =>
    cases parts with
    | nil => exact .inr ⟨s, List.mem_cons_self, hc⟩
    | cons s' parts =>
      rw [joinWith.eq_3 _ _ _ (List.cons_ne_nil s' parts)] at hc
      obtain hc | hc := List.mem_append.mp hc
      · exact .inr ⟨s, List.mem_cons_self, hc⟩
      · obtain rfl | hc := List.mem_cons.mp hc
        · exact .inl rfl
        · obtain rfl | ⟨t, ht, hc⟩ := ih hc
          · exact .inl rfl
          · exact .inr ⟨t, List.mem_cons_of_mem s ht, hc⟩

theorem not_mem_hexText (hc : ∀ d < 16, c ≠ Nat.digitChar d) (hcolon : c ≠ ':') (ns : List Nat) :
    c ∉ Ipv6.hexText ns := by
  intro hmem
  obtain hsep | ⟨s, hs, hmem⟩ := mem_joinWith hmem
  · exact hcolon hsep
  · obtain ⟨n, -, rfl⟩ := List.mem_map.mp hs
    exact not_mem_toDigits hc (by decide) (by decide) _ hmem

theorem not_mem_ipv6 (hc : ∀ d < 16, c ≠ Nat.digitChar d) (hcolon : c ≠ ':') (groups : List Nat) :
    c ∉ Ipv6.text groups := by
  rw [Ipv6.text]
  dsimp only
  split
  · exact not_mem_hexText hc hcolon groups
  · simp [not_mem_hexText hc hcolon, hcolon]

theorem hash_ne_digitChar : ∀ d < 16, '#' ≠ Nat.digitChar d := by decide

theorem hash_not_mem_ipv4 (address : Nat) : '#' ∉ Ipv4.text address := by
  intro hmem
  obtain hdot | ⟨s, hs, hmem⟩ := mem_joinWith hmem
  · cases hdot
  · obtain ⟨w, -, rfl⟩ := List.mem_map.mp hs
    exact not_mem_toDigits hash_ne_digitChar (by decide) (by decide) _ hmem

theorem hash_not_mem_bracketed (h : bracketed cs = .ok host) : '#' ∉ host := by
  rw [bracketed] at h
  split at h
  · split at h
    · cases h
      simp [not_mem_ipv6 hash_ne_digitChar]
    · cases h
  · cases h

/-- Whatever the tables make of a name. -/
theorem hash_not_mem_domain [Idna] (h : domain cs = .ok s) : '#' ∉ s := by
  rw [domain] at h
  split at h
  · cases h
  · split at h
    · cases h
    · split at h
      · cases h
      · next hallowed =>
        cases h
        exact fun hhash => hallowed (List.any_eq_true.mpr ⟨'#', hhash, by decide⟩)

theorem hash_not_mem_specialHost [Idna] (h : specialHost cs = .ok host) : '#' ∉ host := by
  rw [specialHost.eq_def] at h
  split at h
  · exact hash_not_mem_bracketed h
  · cases hname : domain _ with
    | error e =>
      rw [hname] at h
      cases h
    | ok name =>
      rw [hname] at h
      simp only [bind, Except.bind] at h
      split at h
      · cases h
      · split at h
        · split at h
          · cases h
            exact hash_not_mem_ipv4 _
          · cases h
        · cases h
          exact hash_not_mem_domain hname

end AssetCache.Url
