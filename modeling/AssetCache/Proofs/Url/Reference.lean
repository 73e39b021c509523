import AssetCache.Proofs.Url.Path
import AssetCache.Url.Edit
import Mathlib.Data.List.Basic
import Mathlib.Data.List.TakeDrop
import Mathlib.Data.List.TakeWhile

namespace AssetCache.Url

variable {scheme cs a b p : List Char} {ws : List (List Char)} {q f : Option (List Char)} {u base : Url}

/-- The form of every web address that has been read. -/
structure IsWeb (u : Url) : Prop where
  kind : u.kind = .special
  authority : ∃ a, u.authority = some a
  path : ∃ list, u.path = .segments list ∧ list ≠ [] ∧ ∀ s ∈ list, IsWritten s

theorem readAuthority_ok [Idna] (h : readAuthority scheme cs = .ok u) :
    u.scheme = scheme ∧ (∃ a, u.authority = some a) ∧
      ∃ path, u.path = readPath (.of scheme) path := by
  have hend : ∀ (a : Authority) (rest : List Char),
      (⟨scheme, some a, readPath (.of scheme) (spanPath rest).1,
        (readEnd (.of scheme) (spanPath rest).2).1,
        (readEnd (.of scheme) (spanPath rest).2).2⟩ : Url) = u →
      u.scheme = scheme ∧ (∃ a, u.authority = some a) ∧
        ∃ path, u.path = readPath (.of scheme) path := by
    rintro a rest rfl
    exact ⟨rfl, ⟨a, rfl⟩, _, rfl⟩
  rw [readAuthority] at h
  simp only [bind, Except.bind, pure, Except.pure, throw, throwThe, MonadExceptOf.throw] at h
  repeat' split at h
  all_goals first
    | exact hend _ _ (Except.ok.inj h)
    | cases h

theorem kind_of_isHttp (h : u.isHttp = true) : SchemeKind.of u.scheme = .special := by
  simp only [isHttp, Bool.or_eq_true, beq_iff_eq] at h
  rcases h with h | h
  · rw [h]
    decide
  · rw [h]
    decide

theorem scheme_readPlain [Idna] (h : readPlain scheme cs = .ok u) : u.scheme = scheme := by
  rw [readPlain.eq_def] at h
  split at h
  · exact (readAuthority_ok h).1
  · cases h
    rfl

theorem scheme_readFile [Idna] {base : Option Url}
    (hbase : ∀ b, base = some b → b.scheme = fileScheme)
    (h : readFile base cs = .ok u) : u.scheme = fileScheme := by
  have hurl : ∀ host path rest, (fileUrl host path rest).scheme = fileScheme := fun _ _ _ => rfl
  rw [readFile.eq_def] at h
  simp only [bind, Except.bind, pure, Except.pure] at h
  repeat' split at h
  all_goals first
    | exact (Except.ok.inj h) ▸ hurl _ _ _
    | cases h
      have hb := hbase _ rfl
      exact hb
    | cases h

def leadingSlashes (cs : List Char) : List Char := cs.takeWhile fun c => c == '/' || c == '\\'

theorem drop_leadingSlashes (cs : List Char) :
    cs.drop (leadingSlashes cs).length = cs.dropWhile fun c => c == '/' || c == '\\' := by
  nth_rewrite 2 [← List.takeWhile_append_dropWhile (p := fun c => c == '/' || c == '\\') (l := cs)]
  exact List.drop_left

theorem readSpecial_none [Idna] (scheme cs : List Char) :
    readSpecial scheme none cs =
      readAuthority scheme (cs.dropWhile fun c => c == '/' || c == '\\') := by
  rw [← drop_leadingSlashes]
  rfl

theorem readSpecial_some [Idna] (scheme : List Char) (b : Url) (cs : List Char) :
    readSpecial scheme (some b) cs =
      if (leadingSlashes cs).length < 2 ∧ b.scheme = scheme then readRelative b cs
      else readAuthority scheme (cs.dropWhile fun c => c == '/' || c == '\\') := by
  rw [← drop_leadingSlashes]
  rfl

theorem parse_web [Idna] {text : String} (h : parse text = .ok u) (hhttp : u.isHttp = true) :
    ∃ scheme after, scheme? (cleaned text) = some (scheme, after) ∧
      SchemeKind.of scheme = .special ∧
      readAuthority scheme (after.dropWhile fun c => c == '/' || c == '\\') = .ok u := by
  have hkind := kind_of_isHttp hhttp
  rw [parse, resolve] at h
  split at h
  · next scheme after hscheme =>
    split at h
    · rw [Option.filter_none] at h
      have hnone : ∀ b : Url, none = some b → b.scheme = fileScheme := by
        intro b hb
        cases hb
      rw [scheme_readFile hnone h] at hkind
      exact absurd hkind (by decide)
    · next hspecial =>
      rw [readSpecial_none] at h
      exact ⟨scheme, after, hscheme, hspecial, h⟩
    · next hother =>
      rw [scheme_readPlain h, hother] at hkind
      cases hkind
  · cases h

theorem isWeb_of_parse [Idna] {text : String} (h : parse text = .ok u) (hhttp : u.isHttp = true) :
    IsWeb u := by
  obtain ⟨scheme, after, _, hspecial, hread⟩ := parse_web h hhttp
  obtain ⟨rfl, ha, path, hpath⟩ := readAuthority_ok hread
  rw [hspecial] at hpath
  exact ⟨hspecial, ha, hpath ▸ readPath_special path⟩

theorem eq_append_nil_of_text {list : List (List Char)} (hne : list ≠ [])
    (hlist : ∀ s ∈ list, IsWritten s) (h : (UrlPath.segments list).text.getLast? = some '/') :
    ∃ ws, list = ws ++ [[]] := by
  obtain ⟨ws, last, rfl⟩ := (List.eq_nil_or_concat' list).resolve_left hne
  cases last with
  | nil => exact ⟨ws, rfl⟩
  | cons c last =>
    have hlast : '/' ∈ c :: last := by
      rw [UrlPath.text, List.flatMap_append] at h
      refine List.mem_of_getLast? ?_
      simpa using h
    exact absurd ((hlist _ (by simp)).plain '/' hlast).2 (by decide)

/-- A part of an address after the sign that it begins with. -/
def marked (sign : Char) : Option (List Char) → List Char
  | none => []
  | some text => sign :: text

theorem chars_eq (u : Url) : u.chars =
    u.scheme ++ ':' :: u.hierarchy ++ marked '?' u.query ++ marked '#' u.fragment := by
  obtain ⟨scheme, authority, path, _ | query, _ | fragment⟩ := u <;> rfl

theorem chars_of_authority {a : Authority} (ha : u.authority = some a) : u.chars =
    (u.scheme ++ ':' :: '/' :: '/' :: a.text) ++
      (u.path.text ++ marked '?' u.query ++ marked '#' u.fragment) := by
  rw [chars_eq, hierarchy, ha]
  simp only [List.append_assoc, List.cons_append]

theorem isPrefix_append_marked {sign : Char} (ha : sign ∉ a) :
    a <+: b ++ marked sign f ↔ a <+: b := by
  refine ⟨fun h => ?_, fun h => h.trans (List.prefix_append b _)⟩
  rcases List.prefix_or_prefix_of_prefix h (List.prefix_append b _) with h' | ⟨rest, rfl⟩
  · exact h'
  · have hrest := (List.prefix_append_right_inj b).mp h
    have hnil : rest = [] := by
      cases rest with
      | nil => rfl
      | cons c rest =>
        cases f with
        | none => exact absurd hrest (by simp [marked])
        | some text =>
          rw [marked, List.cons_prefix_cons] at hrest
          exact absurd (by simp [hrest.1]) ha
    subst hnil
    exact ⟨[], by simp⟩

theorem span_append {test : Char → Bool} (ha : ∀ c ∈ a, test c = true)
    (hb : ∀ c, b.head? = some c → test c = false) : (a ++ b).span test = (a, b) := by
  rw [List.span_eq_takeWhile_dropWhile, List.takeWhile_append_of_pos ha,
    List.dropWhile_append_of_pos ha]
  cases b with
  | nil => rw [List.takeWhile_nil, List.append_nil, List.dropWhile_nil]
  | cons c b =>
    have hc : ¬ test c = true := by simp [hb c rfl]
    rw [List.takeWhile_cons_of_neg hc, List.append_nil, List.dropWhile_cons_of_neg hc]

theorem readEnd_marked (kind : SchemeKind) (hq : ∀ text, q = some text → '#' ∉ text) :
    readEnd kind (marked '?' q ++ marked '#' f) = (q.map (readQuery kind), f.map readFragment) := by
  cases q with
  | none => cases f <;> rfl
  | some text =>
    have hspan : (text ++ marked '#' f).span (· != '#') = (text, marked '#' f) := by
      refine span_append (fun c hc => ?_) (fun c hc => ?_)
      · have hne : c ≠ '#' := fun h => hq text rfl (h ▸ hc)
        simpa using hne
      · cases f with
        | none => cases hc
        | some text =>
          cases hc
          rfl
    rw [marked, List.cons_append, readEnd.eq_1, hspan]
    cases f <;> rfl

theorem readRelative_of_first [Idna] {c : Char} (hmark : c ≠ '?') (hhash : c ≠ '#')
    (hslash : c ≠ '/')
    (hback : c ≠ '\\') :
    readRelative base (c :: cs) = .ok { base with
      path := readSegments base.kind
        (shorten base.kind (baseSegments base).reverse).reverse (spanPath (c :: cs)).1
      query := (readEnd base.kind (spanPath (c :: cs)).2).1
      fragment := (readEnd base.kind (spanPath (c :: cs)).2).2 } := by
  have hno : ¬ (c == '/' || c == '\\') = true := by simp [hslash, hback]
  rw [readRelative.eq_def]
  split
  · next h => cases h
  · next h => exact absurd (List.cons.inj h).1 hmark
  · next h => exact absurd (List.cons.inj h).1 hhash
  · next h =>
    cases h
    exact if_neg hno

/-- The address of a path and what follows it, relative to the folders `ws` of a base. -/
def beneath (base : Url) (ws : List (List Char)) (p : List Char) (q f : Option (List Char)) : Url :=
  { base with
    path := readSegments .special ws p
    query := q.map (readQuery .special)
    fragment := f.map readFragment }

theorem readSegments_nil (ws : List (List Char)) :
    readSegments .special ws [] = .segments (ws ++ [[]]) := by
  rw [readSegments_special]
  simp [splitSegments, walk, isDoubleDot, isSingleDot, singleDots, writeSegment, escape]

theorem readRelative_beneath [Idna] (hkind : base.kind = .special)
    (hpath : base.path = .segments (ws ++ [[]])) (hquery : base.query = none)
    (hfragment : base.fragment = none) (hfirst : ∀ c, p.head? = some c → c ≠ '/' ∧ c ≠ '\\')
    (hp : ∀ c ∈ p, c ≠ '?' ∧ c ≠ '#') (hq : ∀ text, q = some text → '#' ∉ text) :
    readRelative base (p ++ (marked '?' q ++ marked '#' f)) = .ok (beneath base ws p q f) := by
  obtain ⟨scheme, authority, path, query, fragment⟩ := base
  cases hpath
  cases hquery
  cases hfragment
  have hend := readEnd_marked .special (f := f) hq
  cases p with
  | nil =>
    rw [beneath, readSegments_nil]
    cases q with
    | none => cases f <;> rfl
    | some text =>
      rw [List.nil_append]
      simp only [readRelative, marked, List.cons_append] at hend ⊢
      rw [hkind, hend]
  | cons c p =>
    obtain ⟨hslash, hback⟩ := hfirst c rfl
    obtain ⟨hmark, hhash⟩ := hp c List.mem_cons_self
    have hspan : spanPath (c :: p ++ (marked '?' q ++ marked '#' f)) =
        (c :: p, marked '?' q ++ marked '#' f) := by
      refine span_append (fun d hd => ?_) (fun d hd => ?_)
      · have := hp d hd
        simpa using this
      · cases q with
        | some text => cases hd; rfl
        | none => cases f with
          | some text => cases hd; rfl
          | none => cases hd
    rw [List.cons_append] at hspan ⊢
    rw [readRelative_of_first hmark hhash hslash hback, hspan, beneath]
    simp only [hkind, hend, baseSegments, List.reverse_append, List.reverse_cons,
      List.reverse_nil, List.nil_append, List.singleton_append, shorten_special, List.tail_cons,
      List.reverse_reverse]

theorem dropWhile_eq_self {test : Char → Bool} (ha : ∀ c ∈ a, test c = false) :
    a.dropWhile test = a := by
  cases a with
  | nil => rfl
  | cons c a => exact List.dropWhile_cons_of_neg (by simp [ha c List.mem_cons_self])

theorem filter_isTabOrNewline (ha : ∀ c ∈ a, 0x20 < c.toNat) :
    a.filter (!isTabOrNewline ·) = a := by
  refine List.filter_eq_self.mpr fun c hc => ?_
  have hgt := ha c hc
  rw [isTabOrNewline, Bool.not_eq_true', Bool.or_eq_false_iff, Bool.or_eq_false_iff]
  refine ⟨⟨?_, ?_⟩, ?_⟩
  all_goals
    refine beq_false_of_ne fun heq => ?_
    subst heq
    revert hgt
    decide

theorem cleaned_append {text : String} (h : text.toList = a ++ b) (ha : ∀ c ∈ a, 0x20 < c.toNat)
    (hnil : a = [] → b = []) : ∃ b', cleaned text = a ++ b' ∧ (b = [] → b' = []) := by
  have hedge : ∀ c ∈ a, decide (c.toNat ≤ 0x20) = false := fun c hc =>
    decide_eq_false (Nat.not_le.mpr (ha c hc))
  have hfront : (a ++ b).dropWhile (fun c => decide (c.toNat ≤ 0x20)) = a ++ b := by
    cases a with
    | nil => rw [hnil rfl, List.append_nil, List.dropWhile_nil]
    | cons c a =>
      rw [List.cons_append, List.dropWhile_cons_of_neg (by simp [hedge c List.mem_cons_self])]
  have hback : (b.reverse ++ a.reverse).dropWhile (fun c => decide (c.toNat ≤ 0x20)) =
      b.reverse.dropWhile (fun c => decide (c.toNat ≤ 0x20)) ++ a.reverse := by
    have hself := dropWhile_eq_self (a := a.reverse) fun c hc => hedge c (List.mem_reverse.mp hc)
    rw [List.dropWhile_append, hself]
    split
    · next hempty => rw [List.isEmpty_iff.mp hempty, List.nil_append]
    · rfl
  have hkept := filter_isTabOrNewline ha
  refine ⟨(b.reverse.dropWhile fun c => decide (c.toNat ≤ 0x20)).reverse.filter
    (!isTabOrNewline ·), ?_, ?_⟩
  · rw [cleaned, h, hfront, List.reverse_append, hback, List.reverse_append,
      List.reverse_reverse, List.filter_append, hkept]
  · rintro rfl
    rfl

theorem cleaned_marked {text : String} (h : text.toList = a ++ marked '#' f)
    (ha : ∀ c ∈ a, 0x20 < c.toNat) : ∃ f', cleaned text = a ++ marked '#' f' := by
  cases f with
  | none =>
    obtain ⟨b', hb, hnil⟩ := cleaned_append h ha fun _ => rfl
    rw [hnil rfl] at hb
    exact ⟨none, hb⟩
  | some f =>
    rw [marked, ← List.singleton_append, ← List.append_assoc] at h
    have ha' : ∀ c ∈ a ++ ['#'], 0x20 < c.toNat := by
      intro c hc
      rcases List.mem_append.mp hc with hc | hc
      · exact ha c hc
      · rw [List.mem_singleton.mp hc]
        decide
    obtain ⟨f', hf, -⟩ := cleaned_append h ha' (by simp)
    exact ⟨some f', by rw [hf, List.append_assoc, List.singleton_append, marked]⟩

theorem span_marked {test : Char → Bool} (htest : test '#' = false) (a : List Char)
    (f : Option (List Char)) :
    (a ++ marked '#' f).span test = (a.takeWhile test, a.dropWhile test ++ marked '#' f) := by
  have hsplit : a ++ marked '#' f = a.takeWhile test ++ (a.dropWhile test ++ marked '#' f) := by
    rw [← List.append_assoc, List.takeWhile_append_dropWhile]
  rw [hsplit]
  refine span_append (fun c hc => List.mem_takeWhile_imp hc) fun c hc => ?_
  have hnot := List.head?_dropWhile_not test a
  cases h : a.dropWhile test with
  | nil =>
    rw [h, List.nil_append] at hc
    cases f with
    | none => cases hc
    | some f =>
      cases hc
      exact htest
  | cons d ds =>
    rw [h] at hnot hc
    cases hc
    exact hnot

theorem takeWhile_marked {test : Char → Bool} (htest : test '#' = false) (a : List Char)
    (f : Option (List Char)) : (a ++ marked '#' f).takeWhile test = a.takeWhile test := by
  have hspan := span_marked htest a f
  rw [List.span_eq_takeWhile_dropWhile] at hspan
  exact congrArg Prod.fst hspan

theorem dropWhile_marked {test : Char → Bool} (htest : test '#' = false) (a : List Char)
    (f : Option (List Char)) :
    (a ++ marked '#' f).dropWhile test = a.dropWhile test ++ marked '#' f := by
  have hspan := span_marked htest a f
  rw [List.span_eq_takeWhile_dropWhile] at hspan
  exact congrArg Prod.snd hspan

theorem scheme?_append_marked (a : List Char) (f : Option (List Char)) :
    scheme? (a ++ marked '#' f) = (scheme? a).map fun p => (p.1, p.2 ++ marked '#' f) := by
  cases a with
  | nil =>
    cases f with
    | none => rfl
    | some f => rfl
  | cons c a =>
    rw [List.cons_append, scheme?, scheme?, span_marked (by decide),
      List.span_eq_takeWhile_dropWhile]
    split
    · cases a.dropWhile inScheme with
      | nil => cases f <;> rfl
      | cons d after =>
        by_cases hd : d = ':'
        · subst hd
          rfl
        · simp [hd]
    · rfl

theorem scheme?_marked : scheme? (a ++ marked '#' f) = none ↔ scheme? a = none := by
  rw [scheme?_append_marked, Option.map_eq_none_iff]

theorem resolve_relative [Idna] {text : String} (hb : IsWeb base)
    (h : scheme? (cleaned text) = none) :
    resolve (some base) text = readRelative base (cleaned text) := by
  obtain ⟨list, hpath, -, -⟩ := hb.path
  have hkind : base.kind ≠ .file := by
    rw [hb.kind]
    decide
  rw [resolve, h, hpath]
  dsimp only
  split
  · next f heq =>
    rw [heq, ← hpath]
    rfl
  · contradiction
  · rw [if_neg hkind]

theorem colon_of_scheme? {cs : List Char} {p : List Char × List Char} (h : scheme? cs = some p) :
    ':' ∈ cs := by
  cases cs with
  | nil => cases h
  | cons c cs =>
    rw [scheme?] at h
    split at h
    · split at h
      · next rest after hspan =>
        rw [List.span_eq_takeWhile_dropWhile, Prod.mk.injEq] at hspan
        have hmem : ':' ∈ cs.dropWhile inScheme := by
          rw [hspan.2]
          exact List.mem_cons_self
        exact List.mem_cons_of_mem _ ((List.dropWhile_sublist _).subset hmem)
      · cases h
    · cases h

theorem mem_of_cleaned {text : String} {c : Char} (h : c ∈ cleaned text) : c ∈ text.toList := by
  have hinner := List.mem_reverse.mp (List.mem_filter.mp h).1
  have hfront := List.mem_reverse.mp ((List.dropWhile_sublist _).subset hinner)
  exact (List.dropWhile_sublist _).subset hfront

theorem colon_of_parse [Idna] {text : String} {u : Url} (h : parse text = .ok u) :
    ':' ∈ text.toList := by
  rw [parse, resolve] at h
  cases hscheme : scheme? (cleaned text) with
  | none => rw [hscheme] at h; cases h
  | some p => exact mem_of_cleaned (colon_of_scheme? hscheme)

end AssetCache.Url
