import AssetCache.Proofs.Url.Fragment
import AssetCache.Proofs.Url.Host

namespace AssetCache.Url

variable {scheme cs userinfo host : List Char} {start ss : List (List Char)} {set : Char → Bool}
  {u base : Url} {a : Authority} {q : List Char} {text : String}

theorem hash_not_mem_escape (hset : set '#' = true) (cs : List Char) : '#' ∉ escape set cs := by
  intro hc
  obtain ⟨hplain, -⟩ | ⟨hplain, -⟩ := mem_escape hc
  · rw [hset] at hplain
    cases hplain
  · cases hplain

theorem hash_not_mem_userinfo (cs : List Char) : '#' ∉ readUserinfo cs := by
  have hpart : ∀ cs, '#' ∉ escape inUserinfoSet cs := hash_not_mem_escape rfl
  rw [readUserinfo]
  split
  · exact hpart _
  · simp [hpart]
  · exact hpart _

theorem hash_not_mem_query {kind : SchemeKind} (h : (readEnd kind cs).1 = some q) : '#' ∉ q := by
  have hread : ∀ q, '#' ∉ readQuery kind q := hash_not_mem_escape (by cases kind <;> rfl)
  rw [readEnd.eq_def] at h
  split at h
  · split at h
    all_goals
      cases h
      exact hread _
  · cases h
  · cases h

/-- A web address whose only part with a hash sign may be the fragment. -/
structure IsClean (u : Url) : Prop extends IsWeb u where
  plain : ∀ a, u.authority = some a → '#' ∉ a.text
  query_plain : ∀ q, u.query = some q → '#' ∉ q

theorem hash_not_mem_authority {port : Option Nat} (huser : '#' ∉ userinfo) (hhost : '#' ∉ host) :
    '#' ∉ (⟨userinfo, host, port⟩ : Authority).text := by
  have hport : ∀ p, '#' ∉ Nat.toDigits 10 p :=
    not_mem_toDigits hash_ne_digitChar (by decide) (by decide)
  rw [Authority.text]
  cases port <;> cases userinfo <;> simp_all

theorem readUser_plain {kind : SchemeKind} {hostText : List Char}
    (h : readUser kind cs = .ok (userinfo, hostText)) : '#' ∉ userinfo := by
  rw [readUser] at h
  dsimp only at h
  split at h
  · cases h
    exact List.not_mem_nil
  · split at h
    · cases h
    · cases h
      exact List.not_mem_nil
  · cases h
    exact hash_not_mem_userinfo _

theorem isClean_readAuthority [Idna] (hkind : SchemeKind.of scheme = .special)
    (h : readAuthority scheme cs = .ok u) : IsClean u := by
  rw [readAuthority_eq] at h
  split at h
  · cases h
  · next userinfo hostText huser =>
    obtain ⟨host, port, rest, hhost, -, -, -, rfl⟩ := readHosted_eq_ok_iff.mp h
    refine ⟨⟨hkind, ⟨_, rfl⟩, ?_⟩, fun a ha => ?_, fun q hq => hash_not_mem_query hq⟩
    · rw [ofParts, hkind]
      exact readPath_special _
    · cases ha
      refine hash_not_mem_authority (readUser_plain huser) ?_
      have hspecial : SchemeKind.special.isSpecial = true := rfl
      rw [hkind, readHost, if_pos hspecial] at hhost
      split at hhost
      · cases hhost
      · exact hash_not_mem_specialHost hhost

theorem IsClean.replaced (hb : IsClean base) (hstart : ∀ s ∈ start, IsWritten s) (cs : List Char) :
    IsClean (replaced base start cs) where
  kind := hb.kind
  authority := hb.authority
  path := by
    rw [Url.replaced, hb.kind]
    exact readSegments_written hstart _
  plain := hb.plain
  query_plain _ hq := hash_not_mem_query hq

theorem IsClean.withFragment (hb : IsClean base) (fragment : Option (List Char)) :
    IsClean { base with fragment } :=
  ⟨⟨hb.kind, hb.authority, hb.path⟩, hb.plain, hb.query_plain⟩

theorem readRelative_of_slashes [Idna] {c d : Char} (hc : (c == '/' || c == '\\') = true)
    (hd : (d == '/' || d == '\\') = true) (base : Url) (cs : List Char) :
    ∃ after, readRelative base (c :: d :: cs) = readAuthority base.scheme after := by
  rw [readRelative.eq_def]
  split
  · next h => cases h
  · next h =>
    cases h
    cases hc
  · next h =>
    cases h
    cases hc
  · next h =>
    cases h
    dsimp only
    rw [if_pos hc]
    split
    · exact ⟨_, rfl⟩
    · rw [if_pos hd]
      exact ⟨_, rfl⟩

theorem readRelative_clean [Idna] (h : readRelative base cs = .ok u) :
    u.scheme = base.scheme ∧ (IsClean base → IsClean u) := by
  cases cs with
  | nil =>
    obtain rfl := Except.ok.inj h
    exact ⟨rfl, fun hb => hb.withFragment none⟩
  | cons c cs =>
    by_cases hslash : (c == '/' || c == '\\') = true
    · by_cases hone : leadingSlashes cs = []
      · rw [readRelative_of_slash hslash hone] at h
        obtain rfl := Except.ok.inj h
        exact ⟨rfl, fun hb => hb.replaced (List.forall_mem_nil _) cs⟩
      · cases cs with
        | nil => exact absurd rfl hone
        | cons d cs =>
          have hnext : (d == '/' || d == '\\') = true := by
            by_contra hno
            rw [leadingSlashes, List.takeWhile_cons, if_neg hno] at hone
            exact hone rfl
          obtain ⟨after, hread⟩ := readRelative_of_slashes hslash hnext base cs
          rw [hread] at h
          exact ⟨(readAuthority_ok h).1, fun hb => isClean_readAuthority hb.kind h⟩
    · by_cases hmark : c = '?'
      · subst hmark
        have hquery : ∀ q, (readEnd base.kind ('?' :: cs)).1 = some q → '#' ∉ q := fun q hq =>
          hash_not_mem_query hq
        obtain rfl := Except.ok.inj h
        exact ⟨rfl, fun hb => ⟨⟨hb.kind, hb.authority, hb.path⟩, hb.plain, hquery⟩⟩
      · by_cases hhash : c = '#'
        · subst hhash
          obtain rfl := Except.ok.inj h
          exact ⟨rfl, fun hb => hb.withFragment _⟩
        · rw [Bool.or_eq_true, beq_iff_eq, beq_iff_eq, not_or] at hslash
          rw [readRelative_of_first hmark hhash hslash.1 hslash.2] at h
          obtain rfl := Except.ok.inj h
          refine ⟨rfl, fun hb => ?_⟩
          refine hb.replaced (fun s hs => ?_) (c :: cs)
          obtain ⟨list, hpath, -, hlist⟩ := hb.path
          rw [hb.kind, shorten_special, baseSegments, hpath] at hs
          exact hlist s (List.mem_reverse.mp (List.mem_of_mem_tail (List.mem_reverse.mp hs)))

/-- What comes of reading a text, alone or against an address that was read before. -/
inductive IsRead [Idna] : Url → Prop
  | parse {text : String} {u : Url} (h : parse text = .ok u) : IsRead u
  | join {base : Url} {text : String} {u : Url} (hb : IsRead base) (h : base.join text = .ok u) :
    IsRead u

theorem scheme_of_kind_file (h : SchemeKind.of scheme = .file) : scheme = fileScheme := by
  rw [SchemeKind.of] at h
  split at h
  · assumption
  · split at h <;> cases h

theorem resolve_clean [Idna] {base : Option Url} (h : resolve base text = .ok u)
    (hhttp : u.isHttp = true) :
    (∃ b, base = some b ∧ u.scheme = b.scheme ∧ (IsClean b → IsClean u)) ∨ IsClean u := by
  have hkind := kind_of_isHttp hhttp
  have hfile : ∀ {base cs}, (∀ b, base = some b → b.scheme = fileScheme) →
      readFile base cs ≠ .ok u := by
    intro base cs hbase hread
    rw [scheme_readFile hbase hread] at hkind
    cases hkind
  rw [resolve.eq_def] at h
  dsimp only at h
  split at h
  · next scheme after _ =>
    split at h
    · refine absurd h (hfile fun b hb => ?_)
      simpa using (Option.filter_eq_some_iff.mp hb).2
    · next hspecial =>
      cases base with
      | none =>
        rw [readSpecial_none] at h
        exact .inr (isClean_readAuthority hspecial h)
      | some b =>
        rw [readSpecial_some] at h
        split at h
        · exact .inl ⟨b, rfl, readRelative_clean h⟩
        · exact .inr (isClean_readAuthority hspecial h)
    · next hother =>
      rw [scheme_readPlain h, hother] at hkind
      cases hkind
  · split at h
    · cases h
    · next b =>
      split at h
      · cases h
        exact .inl ⟨b, rfl, rfl, fun hb => hb.withFragment _⟩
      · cases h
      · split at h
        · next hbfile =>
          refine absurd h (hfile fun b' hb => ?_)
          cases hb
          exact scheme_of_kind_file hbfile
        · exact .inl ⟨b, rfl, readRelative_clean h⟩

theorem IsRead.clean [Idna] (h : IsRead u) (hhttp : u.isHttp = true) : IsClean u := by
  induction h with
  | parse h =>
    obtain ⟨b, hb, -⟩ | hclean := resolve_clean h hhttp
    · cases hb
    · exact hclean
  | join _ h ih =>
    obtain ⟨b, hb, hscheme, hclean⟩ | hclean := resolve_clean h hhttp
    · cases hb
      exact hclean (ih (by rw [isHttp, ← hscheme]; exact hhttp))
    · exact hclean

theorem IsClean.hash_not_mem (h : IsClean u) (hhttp : u.isHttp = true) : '#' ∉ u.resource := by
  obtain ⟨a, ha⟩ := h.authority
  obtain ⟨list, hpath, -, hlist⟩ := h.path
  have hscheme : '#' ∉ u.scheme := by
    rw [isHttp, Bool.or_eq_true, beq_iff_eq, beq_iff_eq] at hhttp
    obtain h | h := hhttp <;> rw [h] <;> decide
  have hquery : '#' ∉ marked '?' u.query := by
    cases hq : u.query with
    | none => exact List.not_mem_nil
    | some q => simp [marked, h.query_plain q hq]
  have hplain : '#' ∉ u.hierarchy := by
    rw [hierarchy, ha]
    simp [h.plain a ha, hpath, not_mem_text hlist (c := '#') rfl]
  have hresource : u.resource = u.scheme ++ ':' :: u.hierarchy ++ marked '?' u.query := by
    rw [resource]
    cases u.query <;> rfl
  rw [hresource]
  simp [hscheme, hplain, hquery]

theorem chars_eq_resource (u : Url) : u.chars = u.resource ++ marked '#' u.fragment := by
  obtain ⟨scheme, authority, path, query, _ | fragment⟩ := u <;> rfl

theorem IsClean.withoutFragment_eq (h : IsClean u) :
    u.withoutFragment = { u with fragment := none } := by
  obtain ⟨list, hpath, -⟩ := h.path
  rw [withoutFragment, hpath]

theorem IsClean.chars_withoutFragment (h : IsClean u) : u.withoutFragment.chars = u.resource := by
  rw [h.withoutFragment_eq, chars_eq_resource, marked, List.append_nil]
  rfl

/-- The text without the fragment is what stands in front of the first hash sign. -/
theorem IsClean.takeWhile_chars (h : IsClean u) (hhttp : u.isHttp = true) :
    u.chars.takeWhile (· != '#') = u.resource := by
  have hplain : ∀ c ∈ u.resource, (c != '#') = true := fun c hc => by
    have hne : c ≠ '#' := fun heq => h.hash_not_mem hhttp (heq ▸ hc)
    simpa using hne
  rw [chars_eq_resource, List.takeWhile_append_of_pos hplain]
  cases u.fragment <;> simp [marked]

end AssetCache.Url
