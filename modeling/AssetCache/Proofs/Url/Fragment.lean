import AssetCache.Proofs.Url.Authority

namespace AssetCache.Url

variable {scheme cs rest userinfo hostText : List Char} {f : Option (List Char)} {kind : SchemeKind}
  {u base : Url} {s text : String}

theorem endsAuthority_hash (kind : SchemeKind) : endsAuthority kind '#' = true := rfl

theorem readUser_marked (h : readUser kind cs = .ok (userinfo, hostText)) (hne : hostText ≠ []) :
    readUser kind (cs ++ marked '#' f) = .ok (userinfo, hostText ++ marked '#' f) := by
  rw [readUser, span_marked (by rw [endsAuthority_hash]; rfl)]
  rw [readUser, List.span_eq_takeWhile_dropWhile] at h
  dsimp only at h ⊢
  split at h
  · cases h
    rfl
  · next after hat =>
    split at h
    · cases h
    · next hempty =>
      cases h
      rw [if_neg, List.append_assoc]
      -- a host that is missing at the end of the text is missing before a fragment
      cases after with
      | nil =>
        cases hbeyond : cs.dropWhile (!endsAuthority kind ·) with
        | nil => exact absurd hbeyond hne
        | cons c beyond => exact absurd (by rw [hbeyond]; rfl) hempty
      | cons c after => exact Bool.false_ne_true
  · cases h
    rw [List.append_assoc]

theorem spanHost_marked (kind : SchemeKind) (bracket : Bool) (cs : List Char) :
    spanHost kind bracket (cs ++ marked '#' f) =
      ((spanHost kind bracket cs).1, (spanHost kind bracket cs).2 ++ marked '#' f) := by
  induction cs generalizing bracket with
  | nil =>
    cases f with
    | none => rfl
    | some f =>
      rw [List.nil_append, marked, spanHost.eq_2, endsAuthority_hash, Bool.or_true, if_pos rfl]
      rfl
  | cons c cs ih =>
    rw [List.cons_append, spanHost, spanHost]
    split
    · rfl
    · rw [ih]

theorem isEnd_marked (h : isEnd rest = true) : isEnd (rest ++ marked '#' f) = true := by
  cases rest with
  | nil => cases f <;> rfl
  | cons c rest => exact h

theorem readPort_marked {port : Option Nat} (h : readPort scheme cs = .ok (port, rest)) :
    readPort scheme (cs ++ marked '#' f) = .ok (port, rest ++ marked '#' f) := by
  rw [readPort, span_marked (by decide)]
  rw [readPort, List.span_eq_takeWhile_dropWhile] at h
  dsimp only at h ⊢
  split at h
  · cases h
  · split at h
    · next hend =>
      cases h
      rw [if_pos ⟨hend.1, isEnd_marked hend.2⟩]
    · cases h

theorem readPortBehind_marked {port : Option Nat}
    (h : readPortBehind scheme cs = .ok (port, rest)) :
    readPortBehind scheme (cs ++ marked '#' f) = .ok (port, rest ++ marked '#' f) := by
  rw [readPortBehind.eq_def] at h
  split at h
  · exact readPort_marked h
  · next hcolon =>
    cases h
    cases cs with
    | nil => cases f <;> rfl
    | cons c cs =>
      exact readPortBehind.eq_2 _ _ fun digits heq => hcolon cs (by rw [(List.cons.inj heq).1])

theorem spanPath_marked (cs : List Char) :
    spanPath (cs ++ marked '#' f) = ((spanPath cs).1, (spanPath cs).2 ++ marked '#' f) := by
  rw [spanPath, span_marked (by decide), spanPath, List.span_eq_takeWhile_dropWhile]

theorem spanPath_query (h : '#' ∉ cs) :
    ∃ q, (spanPath cs).2 = marked '?' q ∧ ∀ text, q = some text → '#' ∉ text := by
  have hfirst := List.head?_dropWhile_not (fun c => c != '?' && c != '#') cs
  have hrest : cs.dropWhile (fun c => c != '?' && c != '#') ⊆ cs :=
    (List.dropWhile_sublist _).subset
  rw [spanPath, List.span_eq_takeWhile_dropWhile]
  dsimp only
  cases hsplit : cs.dropWhile fun c => c != '?' && c != '#' with
  | nil =>
    refine ⟨none, rfl, fun text htext => ?_⟩
    cases htext
  | cons c q =>
    rw [hsplit] at hfirst hrest
    have hhash : c ≠ '#' := fun heq => h (heq ▸ hrest List.mem_cons_self)
    have hmark : c = '?' := by
      by_contra hne
      simp [hne, hhash] at hfirst
    refine ⟨some q, by rw [hmark, marked], fun text htext => ?_⟩
    cases htext
    exact fun hmem => h (hrest (List.mem_cons_of_mem c hmem))

theorem readEnd_spanPath_marked (kind : SchemeKind) (h : '#' ∉ cs) :
    readEnd kind ((spanPath cs).2 ++ marked '#' f) =
      ((readEnd kind (spanPath cs).2).1, f.map readFragment) := by
  obtain ⟨q, hq, hplain⟩ := spanPath_query h
  have hend := readEnd_marked (f := none) kind hplain
  rw [marked, List.append_nil] at hend
  rw [hq, readEnd_marked kind hplain, hend]

theorem ofParts_marked (scheme userinfo host : List Char) (port : Option Nat) (h : '#' ∉ rest) :
    ofParts scheme userinfo host port (rest ++ marked '#' f) =
      { ofParts scheme userinfo host port rest with fragment := f.map readFragment } := by
  rw [ofParts, ofParts, spanPath_marked, readEnd_spanPath_marked _ h]

theorem readHosted_marked [Idna] (hplain : '#' ∉ hostText)
    (h : readHosted scheme userinfo hostText = .ok u) :
    readHosted scheme userinfo (hostText ++ marked '#' f) =
      .ok { u with fragment := f.map readFragment } := by
  obtain ⟨host, port, rest, hhost, hcolon, hport, huser, rfl⟩ := readHosted_eq_ok_iff.mp h
  have hbehind := (readPortBehind_behind hport (.of scheme)).trans
    (spanHost_behind (.of scheme) false hostText)
  have hrest : '#' ∉ rest := fun hmem => hplain ((hbehind.mem_iff (endsAuthority_hash _)).mpr hmem)
  refine readHosted_eq_ok_iff.mpr ⟨host, port, rest ++ marked '#' f, ?_, ?_, ?_, huser,
    (ofParts_marked scheme userinfo host port hrest).symm⟩
  · rw [spanHost_marked, hhost]
  · rw [spanHost_marked]
    dsimp only
    cases hspan : (spanHost (.of scheme) false hostText).2 with
    | nil => cases f <;> simp [marked]
    | cons c digits => rwa [hspan] at hcolon
  · rw [spanHost_marked]
    exact readPortBehind_marked hport

theorem ne_nil_of_readHosted [Idna] (hkind : SchemeKind.of scheme = .special)
    (h : readHosted scheme userinfo hostText = .ok u) : hostText ≠ [] := by
  rintro rfl
  rw [readHosted, hkind] at h
  cases h

theorem readAuthority_marked [Idna] (hkind : SchemeKind.of scheme = .special) (hplain : '#' ∉ cs)
    (h : readAuthority scheme cs = .ok u) :
    readAuthority scheme (cs ++ marked '#' f) = .ok { u with fragment := f.map readFragment } := by
  rw [readAuthority_eq] at h ⊢
  split at h
  · cases h
  · next userinfo hostText huser =>
    have hbehind := readUser_behind huser
    have hhost : '#' ∉ hostText := fun hmem =>
      hplain ((hbehind.mem_iff (endsAuthority_hash _)).mpr hmem)
    rw [readUser_marked huser (ne_nil_of_readHosted hkind h)]
    exact readHosted_marked hhost h

theorem leadingSlashes_marked (cs : List Char) :
    leadingSlashes (cs ++ marked '#' f) = leadingSlashes cs := takeWhile_marked rfl cs f

/-- The address in the place of `base` whose path is read behind the folders `start`. -/
def replaced (base : Url) (start : List (List Char)) (cs : List Char) : Url :=
  { base with
    path := readSegments base.kind start (spanPath cs).1
    query := (readEnd base.kind (spanPath cs).2).1
    fragment := (readEnd base.kind (spanPath cs).2).2 }

theorem replaced_marked (base : Url) (start : List (List Char)) (h : '#' ∉ cs) :
    replaced base start (cs ++ marked '#' f) =
      { replaced base start cs with fragment := f.map readFragment } := by
  rw [replaced, replaced, spanPath_marked, readEnd_spanPath_marked _ h]

theorem readRelative_of_slash [Idna] {c : Char} (hc : (c == '/' || c == '\\') = true)
    (hone : leadingSlashes rest = []) :
    readRelative base (c :: rest) = .ok (replaced base [] rest) := by
  have hnext : ∀ d, rest.head? = some d → (d == '/' || d == '\\') = false := by
    intro d hd
    cases rest with
    | nil => cases hd
    | cons e rest =>
      cases hd
      by_contra hslash
      rw [Bool.not_eq_false] at hslash
      rw [leadingSlashes, List.takeWhile_cons, if_pos hslash] at hone
      cases hone
  rw [readRelative.eq_def]
  split
  · next h => cases h
  · next h =>
    cases h
    cases hc
  · next h =>
    cases h
    cases hc
  · next h =>
    cases h
    dsimp only
    rw [if_pos hc]
    split
    · next h =>
      cases h
      cases hnext '/' rfl
    · cases rest with
      | nil => rfl
      | cons d rest =>
        dsimp only
        rw [if_neg (by rw [hnext d rfl]; exact Bool.false_ne_true)]
        rfl

/-- A reference that is not an authority is read in the place of the base, with the fragment apart. -/
theorem readRelative_marked [Idna] (base : Url) (hslashes : (leadingSlashes cs).length < 2)
    (hplain : '#' ∉ cs) : ∃ v : Url, v.scheme = base.scheme ∧ ∀ f,
      readRelative base (cs ++ marked '#' f) = .ok { v with fragment := f.map readFragment } := by
  cases cs with
  | nil =>
    refine ⟨base, rfl, fun f => ?_⟩
    cases f <;> rfl
  | cons c cs =>
    have hhash : c ≠ '#' := fun heq => hplain (heq ▸ List.mem_cons_self)
    have hrest : '#' ∉ cs := fun hmem => hplain (List.mem_cons_of_mem c hmem)
    by_cases hslash : (c == '/' || c == '\\') = true
    · refine ⟨replaced base [] cs, rfl, fun f => ?_⟩
      rw [List.cons_append, readRelative_of_slash hslash, replaced_marked base [] hrest]
      rw [leadingSlashes, List.takeWhile_cons, if_pos hslash, List.length_cons] at hslashes
      rw [leadingSlashes_marked]
      refine List.eq_nil_of_length_eq_zero ?_
      rw [leadingSlashes]
      omega
    · by_cases hmark : c = '?'
      · subst hmark
        have hend : ∀ f, readEnd base.kind ('?' :: cs ++ marked '#' f) =
            (some (readQuery base.kind cs), f.map readFragment) := fun f =>
          readEnd_marked (q := some cs) base.kind fun text htext => by
            cases htext
            exact hrest
        refine ⟨{ base with query := some (readQuery base.kind cs) }, rfl, fun f => ?_⟩
        rw [List.cons_append, readRelative, ← List.cons_append, hend f]
      · rw [Bool.or_eq_true, beq_iff_eq, beq_iff_eq, not_or] at hslash
        refine ⟨replaced base (shorten base.kind (baseSegments base).reverse).reverse (c :: cs), rfl,
          fun f => ?_⟩
        rw [← replaced_marked base _ hplain]
        exact readRelative_of_first hmark hhash hslash.1 hslash.2

/-- A text whose last sign is not left out goes on to stand whole in front of a hash sign. -/
theorem cleaned_hash {c : Char} {init : List Char} (h : s.toList = init ++ [c])
    (hc : 0x20 < c.toNat) (f : String) :
    ∃ f', cleaned (s ++ "#" ++ f) = cleaned s ++ marked '#' (some f') := by
  have hedge : decide (c.toNat ≤ 0x20) = false := decide_eq_false (Nat.not_le.mpr hc)
  have htext : (s ++ "#" ++ f).toList = init ++ [c] ++ '#' :: f.toList := by
    rw [String.toList_append, String.toList_append, h]
    simp
  obtain ⟨front, hfront⟩ := dropWhile_edge_concat hedge init
  obtain ⟨back, hback⟩ := dropWhile_edge_concat (c := '#') rfl f.toList.reverse
  have hwhole : (init ++ [c] ++ '#' :: f.toList).dropWhile (fun c => decide (c.toNat ≤ 0x20)) =
      front ++ [c] ++ '#' :: f.toList := by
    rw [List.dropWhile_append, hfront, if_neg (by simp)]
  have hend : (front ++ [c] ++ '#' :: f.toList).reverse.dropWhile
      (fun c => decide (c.toNat ≤ 0x20)) = back ++ ['#'] ++ (front ++ [c]).reverse := by
    rw [List.reverse_append, List.reverse_cons, List.dropWhile_append, hback, if_neg (by simp)]
  have hself : (front ++ [c]).reverse.dropWhile (fun c => decide (c.toNat ≤ 0x20)) =
      (front ++ [c]).reverse := by
    rw [List.reverse_append]
    exact List.dropWhile_cons_of_neg (by simp [hedge])
  refine ⟨back.reverse.filter (!isTabOrNewline ·), ?_⟩
  rw [cleaned, cleaned, htext, h, hwhole, hend, hfront, hself, List.reverse_append,
    List.reverse_reverse, List.filter_append, List.reverse_append]
  rfl

/-- What is read behind the scheme of a web address, as far as it has no fragment. -/
structure Stem [Idna] (scheme after : List Char) (u : Url) : Prop where
  kind : SchemeKind.of scheme = .special
  plain : '#' ∉ after
  read : readAuthority scheme (after.dropWhile fun c => c == '/' || c == '\\') = .ok u

theorem Stem.marked [Idna] (h : Stem scheme cs u) (f : Option (List Char)) :
    readAuthority scheme ((cs ++ marked '#' f).dropWhile fun c => c == '/' || c == '\\') =
      .ok { u with fragment := f.map readFragment } := by
  rw [dropWhile_marked rfl]
  exact readAuthority_marked h.kind (fun hmem => h.plain ((List.dropWhile_sublist _).subset hmem))
    h.read

theorem exists_stem [Idna] (hread : parse s = .ok u) (hhttp : u.isHttp = true)
    (hplain : '#' ∉ s.toList)
    (hlast : ∀ c, s.toList.getLast? = some c → 0x20 < c.toNat) (f : String) :
    ∃ scheme after f', Stem scheme after u ∧ scheme? (cleaned s) = some (scheme, after) ∧
      scheme? (cleaned (s ++ "#" ++ f)) = some (scheme, after ++ marked '#' (some f')) := by
  obtain ⟨scheme, after, hscheme, hkind, hread⟩ := parse_web hread hhttp
  have hafter : '#' ∉ after := by
    obtain ⟨front, hcs, -⟩ := scheme?_split hscheme
    refine fun hmem => hplain (mem_of_cleaned ?_)
    rw [hcs]
    exact List.mem_append_right _ (List.mem_cons_of_mem _ hmem)
  have hne : s.toList ≠ [] := by
    intro hnil
    rw [cleaned, hnil] at hscheme
    cases hscheme
  obtain ⟨init, c, hinit⟩ := (List.eq_nil_or_concat' s.toList).resolve_left hne
  obtain ⟨f', hcleaned⟩ := cleaned_hash hinit (hlast c (by rw [hinit, List.getLast?_concat])) f
  refine ⟨scheme, after, f', ⟨hkind, hafter, hread⟩, hscheme, ?_⟩
  rw [hcleaned, scheme?_append_marked, hscheme]
  rfl

theorem parse_hash [Idna] (hread : parse s = .ok u) (hhttp : u.isHttp = true)
    (hplain : '#' ∉ s.toList)
    (hlast : ∀ c, s.toList.getLast? = some c → 0x20 < c.toNat) (f : String) :
    ∃ f', parse (s ++ "#" ++ f) = .ok { u with fragment := some f' } := by
  obtain ⟨scheme, after, f', hstem, -, hscheme⟩ := exists_stem hread hhttp hplain hlast f
  refine ⟨readFragment f', ?_⟩
  rw [parse, resolve, hscheme]
  dsimp only
  rw [hstem.kind]
  dsimp only
  rw [readSpecial_none, hstem.marked]
  rfl

/-- Against a base the text may lead elsewhere, but with a fragment it leads to the same place. -/
theorem join_hash [Idna] {b : Url} (hread : parse s = .ok u) (hhttp : u.isHttp = true)
    (hplain : '#' ∉ s.toList) (hlast : ∀ c, s.toList.getLast? = some c → 0x20 < c.toNat)
    (hb : b.isHttp = true) (f : String) :
    ∃ v : Url, v.isHttp = true ∧ b.join s = .ok { v with fragment := none } ∧
      ∃ f', b.join (s ++ "#" ++ f) = .ok { v with fragment := some f' } := by
  obtain ⟨scheme, after, f', hstem, hscheme, hscheme'⟩ := exists_stem hread hhttp hplain hlast f
  have hjoin : ∃ v : Url, v.isHttp = true ∧ ∀ f,
      readSpecial scheme (some b) (after ++ marked '#' f) =
        .ok { v with fragment := f.map readFragment } := by
    by_cases hrelative : (leadingSlashes after).length < 2 ∧ b.scheme = scheme
    · obtain ⟨v, hv, hall⟩ := readRelative_marked b hrelative.1 hstem.plain
      refine ⟨v, by rw [isHttp, hv]; exact hb, fun f => ?_⟩
      rw [readSpecial_some, leadingSlashes_marked, if_pos hrelative, hall]
    · refine ⟨u, hhttp, fun f => ?_⟩
      rw [readSpecial_some, leadingSlashes_marked, if_neg hrelative, hstem.marked]
  obtain ⟨v, hv, hall⟩ := hjoin
  refine ⟨v, hv, ?_, readFragment f', ?_⟩
  · have hnone := hall none
    rw [marked, List.append_nil] at hnone
    rw [join, resolve, hscheme]
    dsimp only
    rw [hstem.kind]
    exact hnone
  · rw [join, resolve, hscheme']
    dsimp only
    rw [hstem.kind]
    exact hall (some f')

end AssetCache.Url
