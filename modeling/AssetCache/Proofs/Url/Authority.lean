import AssetCache.Proofs.Url.Reference

namespace AssetCache.Url

variable {scheme cs before after rest rest' userinfo hostText : List Char}
  {rev ss : List (List Char)} {c : Char} {kind : SchemeKind} {u : Url} {text : String}

def readUser (kind : SchemeKind) (cs : List Char) : Except Error (List Char × List Char) :=
  let (region, beyond) := cs.span (!endsAuthority kind ·)
  match splitAtLastAt region with
  | none => .ok ([], cs)
  | some ([], after) =>
    if after.isEmpty && !beyond.isEmpty then .error .emptyHost else .ok ([], after ++ beyond)
  | some (before, after) => .ok (readUserinfo before, after ++ beyond)

def readPortBehind (scheme : List Char) : List Char → Except Error (Option Nat × List Char)
  | ':' :: cs => readPort scheme cs
  | cs => .ok (none, cs)

def ofParts (scheme userinfo host : List Char) (port : Option Nat) (rest : List Char) : Url :=
  let kind := SchemeKind.of scheme
  ⟨scheme, some ⟨userinfo, host, port⟩, readPath kind (spanPath rest).1,
    (readEnd kind (spanPath rest).2).1, (readEnd kind (spanPath rest).2).2⟩

def readHosted [Idna] (scheme userinfo hostText : List Char) : Except Error Url :=
  let kind := SchemeKind.of scheme
  match readHost kind (spanHost kind false hostText).1 with
  | .error e => .error e
  | .ok host =>
    if host.isEmpty && (spanHost kind false hostText).2.head? == some ':' then .error .emptyHost
    else
      match readPortBehind scheme (spanHost kind false hostText).2 with
      | .error e => .error e
      | .ok (port, rest) =>
        if host.isEmpty && !userinfo.isEmpty then .error .emptyHost
        else .ok (ofParts scheme userinfo host port rest)

theorem readHosted_eq [Idna] (scheme userinfo hostText : List Char) :
    readHosted scheme userinfo hostText = (do
      let kind := SchemeKind.of scheme
      let (hostChars, rest) := spanHost kind false hostText
      let host ← readHost kind hostChars
      if host.isEmpty && rest.head? == some ':' then throw .emptyHost
      let (port, rest) ← match rest with
        | ':' :: cs => readPort scheme cs
        | cs => pure (none, cs)
      if host.isEmpty && !userinfo.isEmpty then throw .emptyHost
      let (path, rest) := spanPath rest
      let (query, fragment) := readEnd kind rest
      pure ⟨scheme, some ⟨userinfo, host, port⟩, readPath kind path, query, fragment⟩) := by
  rw [readHosted]
  simp only [bind, Except.bind, pure, Except.pure, throw, throwThe, MonadExceptOf.throw]
  generalize spanHost (.of scheme) false hostText = spanned
  obtain ⟨hostChars, rest⟩ := spanned
  cases readHost (.of scheme) hostChars with
  | error e => rfl
  | ok host =>
    by_cases hcolon : (host.isEmpty && rest.head? == some ':') = true
    · simp only [if_pos hcolon]
    · simp only [if_neg hcolon]
      obtain _ | ⟨c, digits⟩ := rest
      · rfl
      · by_cases hc : c = ':'
        · subst hc
          cases hport : readPort scheme digits
          all_goals simp only [readPortBehind, hport]
          rfl
        · have hbehind : readPortBehind scheme (c :: digits) = .ok (none, c :: digits) := by
            simp [readPortBehind, hc]
          rw [hbehind]
          simp [hc, ofParts]

theorem readAuthority_eq [Idna] (scheme cs : List Char) : readAuthority scheme cs =
    match readUser (.of scheme) cs with
    | .error e => .error e
    | .ok (userinfo, hostText) => readHosted scheme userinfo hostText := by
  simp only [readHosted_eq]
  rw [readAuthority, readUser]
  dsimp only
  obtain _ | ⟨_ | ⟨c, before⟩, after⟩ :=
    splitAtLastAt (cs.span (!endsAuthority (.of scheme) ·)).1
  · rfl
  · dsimp only
    split <;> rfl
  · rfl

theorem readHosted_eq_ok_iff [Idna] :
    readHosted scheme userinfo hostText = .ok u ↔ ∃ host port rest,
      readHost (.of scheme) (spanHost (.of scheme) false hostText).1 = .ok host ∧
      (host.isEmpty && (spanHost (.of scheme) false hostText).2.head? == some ':') = false ∧
      readPortBehind scheme (spanHost (.of scheme) false hostText).2 = .ok (port, rest) ∧
      (host.isEmpty && !userinfo.isEmpty) = false ∧
      u = ofParts scheme userinfo host port rest := by
  rw [readHosted]
  constructor
  · intro h
    split at h
    · cases h
    · next host hhost =>
      split at h
      · cases h
      · next hcolon =>
        split at h
        · cases h
        · next port rest hport =>
          split at h
          · cases h
          · next huser =>
            cases h
            exact ⟨host, port, rest, hhost, Bool.eq_false_iff.mpr hcolon, hport,
              Bool.eq_false_iff.mpr huser, rfl⟩
  · rintro ⟨host, port, rest, hhost, hcolon, hport, huser, rfl⟩
    simp only [hhost, hcolon, hport, huser, Bool.false_eq_true, if_false]

/-- `rest` stands in `cs` behind a part without any sign that ends an authority. -/
def Behind (kind : SchemeKind) (rest cs : List Char) : Prop :=
  ∃ front, cs = front ++ rest ∧ ∀ c ∈ front, endsAuthority kind c = false

namespace Behind

theorem refl (kind : SchemeKind) (cs : List Char) : Behind kind cs cs :=
  ⟨[], rfl, fun _ hc => nomatch hc⟩

theorem trans (h : Behind kind rest' rest) (h' : Behind kind rest cs) : Behind kind rest' cs := by
  obtain ⟨front, rfl, hfront⟩ := h
  obtain ⟨front', rfl, hfront'⟩ := h'
  refine ⟨front' ++ front, (List.append_assoc ..).symm, fun c hc => ?_⟩
  exact (List.mem_append.mp hc).elim (hfront' c) (hfront c)

theorem cons (hc : endsAuthority kind c = false) (cs : List Char) : Behind kind cs (c :: cs) :=
  ⟨[c], rfl, fun d hd => by rwa [List.mem_singleton.mp hd]⟩

theorem mem_iff (h : Behind kind rest cs) (hc : endsAuthority kind c = true) :
    c ∈ cs ↔ c ∈ rest := by
  obtain ⟨front, rfl, hfront⟩ := h
  rw [List.mem_append]
  refine ⟨fun hmem => hmem.resolve_left fun hmem => ?_, .inr⟩
  rw [hfront c hmem] at hc
  cases hc

theorem getLast? (h : Behind kind rest cs) (hc : endsAuthority kind c = true)
    (hlast : cs.getLast? = some c) : rest.getLast? = some c := by
  obtain ⟨front, rfl, hfront⟩ := h
  rw [List.getLast?_append, Option.or_eq_some_iff] at hlast
  refine hlast.resolve_right fun hlast => ?_
  rw [hfront c (List.mem_of_getLast? hlast.2)] at hc
  cases hc

end Behind

theorem splitAtLastAt_eq (h : splitAtLastAt cs = some (before, after)) :
    ∃ c, cs = before ++ c :: after := by
  rw [splitAtLastAt, List.span_eq_takeWhile_dropWhile] at h
  have hsplit := List.takeWhile_append_dropWhile (p := (· != '@')) (l := cs.reverse)
  generalize cs.reverse.takeWhile (· != '@') = back at h hsplit
  cases hrest : cs.reverse.dropWhile (· != '@') with
  | nil =>
    rw [hrest] at h
    cases h
  | cons c front =>
    rw [hrest] at h hsplit
    cases h
    refine ⟨c, ?_⟩
    rw [← cs.reverse_reverse, ← hsplit]
    simp

theorem spanHost_behind (kind : SchemeKind) (bracket : Bool) (cs : List Char) :
    Behind kind (spanHost kind bracket cs).2 cs := by
  induction cs generalizing bracket with
  | nil => exact .refl kind []
  | cons c cs ih =>
    rw [spanHost]
    split
    · exact .refl kind (c :: cs)
    · next hends =>
      rw [Bool.or_eq_true, not_or, Bool.not_eq_true, Bool.not_eq_true] at hends
      exact (ih (c == '[' || (bracket && c != ']'))).trans (.cons hends.2 cs)

theorem endsAuthority_of_isDigit (hc : c.isDigit = true) : endsAuthority kind c = false := by
  have hne : ∀ d : Char, d.isDigit = false → (c == d) = false := by
    intro d hd
    refine beq_false_of_ne fun heq => ?_
    rw [heq, hd] at hc
    cases hc
  simp [endsAuthority, isSlash, hne]

theorem readPort_behind {port : Option Nat × List Char} (h : readPort scheme cs = .ok port)
    (kind : SchemeKind) : Behind kind port.2 cs := by
  rw [readPort, List.span_eq_takeWhile_dropWhile] at h
  dsimp only at h
  split at h
  · cases h
  · split at h
    · cases h
      exact ⟨cs.takeWhile Char.isDigit, List.takeWhile_append_dropWhile.symm,
        fun c hc => endsAuthority_of_isDigit (List.mem_takeWhile_imp hc)⟩
    · cases h

theorem splitAtLastAt_behind
    (h : splitAtLastAt (cs.takeWhile (!endsAuthority kind ·)) = some (before, after)) :
    Behind kind (after ++ cs.dropWhile (!endsAuthority kind ·)) cs := by
  have hplain : ∀ c ∈ cs.takeWhile (!endsAuthority kind ·), endsAuthority kind c = false := by
    intro c hc
    simpa using List.mem_takeWhile_imp hc
  have hsplit := List.takeWhile_append_dropWhile (p := (!endsAuthority kind ·)) (l := cs)
  obtain ⟨c, hregion⟩ := splitAtLastAt_eq h
  rw [hregion] at hplain hsplit
  refine ⟨before ++ [c], by simpa using hsplit.symm, fun d hd => hplain d ?_⟩
  rw [List.append_cons]
  exact List.mem_append_left _ hd

theorem readUser_behind (h : readUser kind cs = .ok (userinfo, hostText)) :
    Behind kind hostText cs := by
  rw [readUser, List.span_eq_takeWhile_dropWhile] at h
  dsimp only at h
  split at h
  · cases h
    exact .refl kind cs
  · next hat =>
    split at h
    · cases h
    · cases h
      exact splitAtLastAt_behind hat
  · next hat =>
    cases h
    exact splitAtLastAt_behind hat

theorem readPortBehind_behind {port : Option Nat}
    (h : readPortBehind scheme cs = .ok (port, rest)) (kind : SchemeKind) :
    Behind kind rest cs := by
  rw [readPortBehind.eq_def] at h
  split at h
  · next digits => exact (readPort_behind h kind).trans (.cons (by cases kind <;> rfl) digits)
  · cases h
    exact .refl kind cs

theorem readHosted_behind [Idna] (h : readHosted scheme userinfo hostText = .ok u) :
    ∃ rest, Behind (.of scheme) rest hostText ∧ u.path = readPath (.of scheme) (spanPath rest).1 ∧
      (u.query, u.fragment) = readEnd (.of scheme) (spanPath rest).2 := by
  obtain ⟨host, port, rest, -, -, hport, -, rfl⟩ := readHosted_eq_ok_iff.mp h
  exact ⟨rest, (readPortBehind_behind hport _).trans (spanHost_behind _ false hostText), rfl, rfl⟩

theorem readAuthority_behind [Idna] (h : readAuthority scheme cs = .ok u) :
    ∃ rest, Behind (.of scheme) rest cs ∧ u.path = readPath (.of scheme) (spanPath rest).1 ∧
      (u.query, u.fragment) = readEnd (.of scheme) (spanPath rest).2 := by
  rw [readAuthority_eq] at h
  split at h
  · cases h
  · next huser =>
    obtain ⟨rest, hrest, hparts⟩ := readHosted_behind h
    exact ⟨rest, hrest.trans (readUser_behind huser), hparts⟩

theorem scheme?_split (h : scheme? cs = some (scheme, after)) :
    ∃ front, cs = front ++ ':' :: after ∧ ∀ c ∈ front, inScheme c = true := by
  cases cs with
  | nil => cases h
  | cons c cs =>
    rw [scheme?, List.span_eq_takeWhile_dropWhile] at h
    split at h
    · next hc =>
      have hsplit := List.takeWhile_append_dropWhile (p := inScheme) (l := cs)
      have hplain : ∀ d ∈ cs.takeWhile inScheme, inScheme d = true :=
        fun d hd => List.mem_takeWhile_imp hd
      split at h
      · next front behind hspan =>
        rw [Prod.mk.injEq] at hspan
        rw [hspan.1, hspan.2] at hsplit
        rw [hspan.1] at hplain
        cases h
        refine ⟨c :: front, by rw [List.cons_append, hsplit], fun d hd => ?_⟩
        obtain rfl | hd := List.mem_cons.mp hd
        · simp [inScheme, Char.isAlphanum, hc]
        · exact hplain d hd
      · cases h
    · cases h

theorem mem_dropWhile {test : Char → Bool} (hc : test c = false) (cs : List Char) :
    c ∈ cs.dropWhile test ↔ c ∈ cs := by
  have hsplit := List.takeWhile_append_dropWhile (p := test) (l := cs)
  nth_rewrite 2 [← hsplit]
  rw [List.mem_append, or_iff_right]
  intro hmem
  rw [List.mem_takeWhile_imp hmem] at hc
  cases hc

theorem mem_cleaned (hc : 0x20 < c.toNat) (text : String) : c ∈ cleaned text ↔ c ∈ text.toList := by
  have hedge : decide (c.toNat ≤ 0x20) = false := decide_eq_false (Nat.not_le.mpr hc)
  have hkept : (!isTabOrNewline c) = true := by
    have hfilter := filter_isTabOrNewline (a := [c]) (by simpa using hc)
    exact List.filter_eq_self.mp hfilter c List.mem_cons_self
  rw [cleaned, List.mem_filter, and_iff_left hkept, List.mem_reverse, mem_dropWhile hedge,
    List.mem_reverse, mem_dropWhile hedge]

theorem dropWhile_edge_concat (hc : decide (c.toNat ≤ 0x20) = false) (init : List Char) :
    ∃ front, (init ++ [c]).dropWhile (fun c => decide (c.toNat ≤ 0x20)) = front ++ [c] := by
  rw [List.dropWhile_append]
  split
  · exact ⟨[], List.dropWhile_cons_of_neg (by simp [hc])⟩
  · exact ⟨_, rfl⟩

theorem getLast?_cleaned (h : text.toList.getLast? = some '/') :
    (cleaned text).getLast? = some '/' := by
  obtain ⟨init, hinit⟩ := List.getLast?_eq_some_iff.mp h
  have hslash : decide ('/'.toNat ≤ 0x20) = false := rfl
  obtain ⟨front, hfront⟩ := dropWhile_edge_concat hslash init
  rw [cleaned, hinit, hfront, List.reverse_append, List.reverse_singleton, List.singleton_append,
    List.dropWhile_cons_of_neg (by decide), List.reverse_cons, List.reverse_reverse,
    List.filter_append]
  exact List.getLast?_concat

theorem ne_nil_of_readAuthority [Idna] (hkind : SchemeKind.of scheme = .special)
    (h : readAuthority scheme cs = .ok u) : cs ≠ [] := by
  rintro rfl
  rw [readAuthority, hkind] at h
  cases h

/-- What the path, the query and the fragment of a web address are read from has the end of the
whole text, and just the marks of the whole text that a query or a fragment begins with. -/
theorem parse_behind [Idna] (h : parse text = .ok u) (hhttp : u.isHttp = true) :
    ∃ rest, ('?' ∉ text.toList ∧ '#' ∉ text.toList ↔ '?' ∉ rest ∧ '#' ∉ rest) ∧
      (text.toList.getLast? = some '/' → rest.getLast? = some '/') ∧
      u.path = readPath .special (spanPath rest).1 ∧
      (u.query, u.fragment) = readEnd .special (spanPath rest).2 := by
  obtain ⟨scheme, after, hscheme, hkind, hread⟩ := parse_web h hhttp
  obtain ⟨front, hcs, hfront⟩ := scheme?_split hscheme
  obtain ⟨rest, hbehind, hpath, hend⟩ := readAuthority_behind hread
  rw [hkind] at hbehind hpath hend
  have hslashes := List.takeWhile_append_dropWhile (p := fun c => c == '/' || c == '\\') (l := after)
  have hmem : ∀ c, c = '?' ∨ c = '#' → (c ∈ text.toList ↔ c ∈ rest) := by
    intro c hc
    have hends : endsAuthority .special c = true := by obtain rfl | rfl := hc <;> rfl
    rw [← hbehind.mem_iff hends, ← mem_cleaned (by obtain rfl | rfl := hc <;> decide), hcs,
      List.mem_append, List.mem_cons, or_iff_right, or_iff_right]
    · exact (mem_dropWhile (by obtain rfl | rfl := hc <;> rfl) after).symm
    · obtain rfl | rfl := hc <;> decide
    · intro hmem
      have hplain := hfront c hmem
      obtain rfl | rfl := hc <;> cases hplain
  refine ⟨rest, ?_, fun hlast => hbehind.getLast? rfl ?_, hpath, hend⟩
  · rw [hmem '?' (.inl rfl), hmem '#' (.inr rfl)]
  · have hlast := getLast?_cleaned hlast
    obtain ⟨last, hlast'⟩ := Option.ne_none_iff_exists'.mp
      (mt List.getLast?_eq_none_iff.mp (ne_nil_of_readAuthority hkind hread))
    rw [hcs, ← hslashes, List.append_cons, ← List.append_assoc, List.getLast?_append, hlast',
      Option.some_or] at hlast
    rw [hlast', hlast]

theorem spanPath_plain (h : '?' ∉ cs ∧ '#' ∉ cs) : spanPath cs = (cs, []) := by
  have hall : ∀ c ∈ cs, (c != '?' && c != '#') = true := by
    intro c hc
    have hmark : c ≠ '?' := fun he => h.1 (he ▸ hc)
    have hhash : c ≠ '#' := fun he => h.2 (he ▸ hc)
    simp [hmark, hhash]
  rw [spanPath, List.span_eq_takeWhile_dropWhile, List.takeWhile_eq_self_iff.mpr hall,
    List.dropWhile_eq_nil_iff.mpr hall]

theorem readEnd_spanPath (kind : SchemeKind) (cs : List Char) :
    readEnd kind (spanPath cs).2 = (none, none) ↔ '?' ∉ cs ∧ '#' ∉ cs := by
  refine ⟨fun h => ?_, fun h => by rw [spanPath_plain h]; rfl⟩
  have hsplit := List.takeWhile_append_dropWhile (p := fun c => c != '?' && c != '#') (l := cs)
  have hfirst := List.head?_dropWhile_not (fun c => c != '?' && c != '#') cs
  rw [spanPath, List.span_eq_takeWhile_dropWhile] at h
  cases hrest : cs.dropWhile fun c => c != '?' && c != '#' with
  | nil =>
    have hall := List.dropWhile_eq_nil_iff.mp hrest
    exact ⟨fun hc => absurd (hall '?' hc) (by decide), fun hc => absurd (hall '#' hc) (by decide)⟩
  | cons c rest =>
    rw [hrest] at h hfirst
    have hc : c = '?' ∨ c = '#' := by
      by_contra hno
      simp only [not_or] at hno
      simp [hno] at hfirst
    obtain rfl | rfl := hc
    · rw [readEnd] at h
      split at h <;> cases h
    · cases h

theorem splitSegments_slash (kind : SchemeKind) (cs : List Char) :
    splitSegments kind (cs ++ ['/']) = splitSegments kind cs ++ [[]] := by
  induction cs with
  | nil => rfl
  | cons c cs ih =>
    rw [List.cons_append, splitSegments, splitSegments, ih]
    split
    · rfl
    · obtain ⟨s, ss, hs⟩ := List.exists_cons_of_ne_nil (splitSegments_ne_nil kind cs)
      rw [hs]
      rfl

theorem walk_slash (rev ss : List (List Char)) :
    ∃ rev', walk .special rev (ss ++ [[]]) = [] :: rev' := by
  induction ss generalizing rev with
  | nil => exact ⟨rev, rfl⟩
  | cons s ss ih =>
    have hne : ss ++ [[]] ≠ [] := by simp
    obtain ⟨s', ss', hss⟩ := List.exists_cons_of_ne_nil hne
    rw [List.cons_append, hss, walk, ← hss]
    · split
      · exact ih _
      · split
        · exact ih _
        · exact ih _
    · exact List.cons_ne_nil s' ss'

theorem readPath_slash (h : cs.getLast? = some '/') :
    ∃ ws, readPath .special cs = .segments (ws ++ [[]]) ∧ ∀ s ∈ ws, IsWritten s := by
  have hread : ∀ cs, cs.getLast? = some '/' ∨ cs = [] →
      ∃ ws, readSegments .special [] cs = .segments (ws ++ [[]]) := by
    intro cs hcs
    -- an empty segment comes last, behind the slash or as the only one
    have hsplit : ∃ ss, splitSegments .special cs = ss ++ [[]] := by
      obtain hlast | rfl := hcs
      · obtain ⟨init, rfl⟩ := List.getLast?_eq_some_iff.mp hlast
        exact ⟨_, splitSegments_slash .special init⟩
      · exact ⟨[], rfl⟩
    obtain ⟨ss, hss⟩ := hsplit
    obtain ⟨rev, hrev⟩ := walk_slash [] ss
    exact ⟨rev.reverse, by rw [readSegments_special, hss, List.reverse_nil, hrev, List.reverse_cons]⟩
  have hpath : ∃ ws, readPath .special cs = .segments (ws ++ [[]]) := by
    cases cs with
    | nil => cases h
    | cons c cs =>
      rw [readPath]
      split
      · refine hread cs ?_
        rw [List.getLast?_cons, Option.some.injEq] at h
        cases hlast : cs.getLast? with
        | none => exact .inr (List.getLast?_eq_none_iff.mp hlast)
        | some d =>
          rw [hlast, Option.getD_some] at h
          exact .inl (congrArg some h)
      · exact hread (c :: cs) (.inl h)
  obtain ⟨ws, hpath⟩ := hpath
  obtain ⟨list, hlist, _, hwritten⟩ := readPath_special cs
  rw [hpath] at hlist
  cases hlist
  exact ⟨ws, hpath, fun s hs => hwritten s (List.mem_append_left _ hs)⟩

theorem query_and_fragment_none_iff [Idna] (h : parse text = .ok u) (hhttp : u.isHttp = true) :
    (u.query = none ∧ u.fragment = none) ↔ '?' ∉ text.toList ∧ '#' ∉ text.toList := by
  obtain ⟨rest, hplain, _, _, hend⟩ := parse_behind h hhttp
  rw [hplain, ← readEnd_spanPath .special, ← hend, Prod.mk.injEq]

theorem path_of_slash [Idna] (h : parse text = .ok u) (hhttp : u.isHttp = true)
    (hlast : text.toList.getLast? = some '/') (hplain : '?' ∉ text.toList ∧ '#' ∉ text.toList) :
    ∃ ws, u.path = .segments (ws ++ [[]]) ∧ ∀ s ∈ ws, IsWritten s := by
  obtain ⟨rest, hrest, hslash, hpath, _⟩ := parse_behind h hhttp
  rw [hpath, spanPath_plain (hrest.mp hplain)]
  exact readPath_slash (hslash hlast)

end AssetCache.Url
