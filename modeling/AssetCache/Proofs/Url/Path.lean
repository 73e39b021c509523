import AssetCache.Url.Path

namespace AssetCache.Url

variable {s cs rest : List Char} {c : Char} {rev ss ws : List (List Char)}

theorem splitSegments_ne_nil (kind : SchemeKind) (cs : List Char) : splitSegments kind cs ≠ [] := by
  cases cs with
  | nil => simp [splitSegments]
  | cons c cs =>
    rw [splitSegments]
    split
    · simp
    · split <;> simp

theorem isSlash_of_mem_splitSegments {kind : SchemeKind} (hs : s ∈ splitSegments kind cs)
    (hc : c ∈ s) : isSlash kind c = false := by
  induction cs generalizing s with
  | nil =>
    rw [List.mem_singleton.mp hs] at hc
    cases hc
  | cons d cs ih =>
    rw [splitSegments] at hs
    split at hs
    · rcases List.mem_cons.mp hs with rfl | hs
      · cases hc
      · exact ih hs hc
    · next hd =>
      split at hs
      · rw [List.mem_singleton.mp hs, List.mem_singleton] at hc
        rw [hc]
        exact Bool.eq_false_iff.mpr hd
      · next s' ss' heq =>
        rcases List.mem_cons.mp hs with rfl | hs
        · rcases List.mem_cons.mp hc with rfl | hc
          · exact Bool.eq_false_iff.mpr hd
          · exact ih (heq ▸ List.mem_cons_self) hc
        · exact ih (heq ▸ List.mem_cons_of_mem _ hs) hc

theorem splitSegments_append {kind : SchemeKind} (hs : ∀ c ∈ s, isSlash kind c = false)
    (rest : List Char) : splitSegments kind (s ++ '/' :: rest) = s :: splitSegments kind rest := by
  induction s with
  | nil => rw [List.nil_append, splitSegments, if_pos (by simp [isSlash])]
  | cons c s ih =>
    have hc := hs c List.mem_cons_self
    rw [List.cons_append, splitSegments, if_neg (by simp [hc]),
      ih fun d hd => hs d (List.mem_cons_of_mem _ hd)]

theorem escape_cons (set : Char → Bool) (c : Char) (cs : List Char) :
    escape set (c :: cs) = escape set [c] ++ escape set cs := escape_append set [c] cs

theorem escape_of_not_mem {set : Char → Bool} (hc : set c = false) (cs : List Char) :
    escape set (c :: cs) = c :: escape set cs := by
  simp [escape, hc]

theorem escape_eq_self {set : Char → Bool} (hs : ∀ c ∈ s, set c = false) : escape set s = s := by
  induction s with
  | nil => rfl
  | cons c s ih =>
    rw [escape_of_not_mem (hs c List.mem_cons_self),
      ih fun d hd => hs d (List.mem_cons_of_mem _ hd)]

theorem utf8EncodeChar_head (c : Char) :
    ∃ b bs, String.utf8EncodeChar c = b :: bs ∧ (b.toNat = c.toNat ∨ 0x80 ≤ b.toNat) := by
  have hval : c.val.toNat = c.toNat := rfl
  rw [String.utf8EncodeChar.eq_def]
  dsimp only
  split
  · exact ⟨_, _, rfl, .inl (by rw [UInt8.toNat_ofNat']; omega)⟩
  · split
    · exact ⟨_, _, rfl, .inr (by rw [UInt8.toNat_ofNat']; omega)⟩
    · split
      · exact ⟨_, _, rfl, .inr (by rw [UInt8.toNat_ofNat']; omega)⟩
      · exact ⟨_, _, rfl, .inr (by rw [UInt8.toNat_ofNat']; omega)⟩

theorem escape_of_mem (hc : inPathSet c = true) (cs : List Char) :
    ∃ b : UInt8, b ≠ 0x2e ∧ ∃ more, escape inPathSet (c :: cs) = escapeByte b ++ more := by
  obtain ⟨b, bs, hb, hval⟩ := utf8EncodeChar_head c
  refine ⟨b, fun hdot => ?_, bs.flatMap escapeByte ++ escape inPathSet cs, ?_⟩
  · have hb : b.toNat = 0x2e := congrArg UInt8.toNat hdot
    have hc' : c = '.' := Char.toNat_inj.mp (show c.toNat = 0x2e by omega)
    rw [hc'] at hc
    cases hc
  · rw [escape_cons]
    simp [escape, hc, hb]

theorem upperHex_plain {n : Nat} (hn : n < 16) :
    inPathSet (upperHex n) = false ∧ isSlash .special (upperHex n) = false := by
  revert n
  decide

theorem eq_dot_of_escapeByte {b : UInt8} {d : Char} (hd : d = 'e' ∨ d = 'E')
    (h : escapeByte b = ['%', '2', d]) : b = 0x2e := by
  have hupper : ∀ n < 16, (upperHex n = '2' → n = 2) ∧ upperHex n ≠ 'e' ∧
      (upperHex n = 'E' → n = 14) := by decide
  have hb := b.toNat_lt
  simp only [escapeByte, List.cons.injEq, true_and, and_true] at h
  obtain ⟨hhigh, hlow⟩ := h
  have htwo := (hupper (b.toNat / 16) (by omega)).1 hhigh
  obtain ⟨-, hsmall, hlarge⟩ := hupper (b.toNat % 16) (by omega)
  rcases hd with rfl | rfl
  · exact absurd hlow hsmall
  · have hfourteen := hlarge hlow
    exact UInt8.toNat_inj.mp (show b.toNat = 0x2e by omega)

theorem eq_cons_of_escape (hc : c ≠ '%') (h : escape inPathSet s = c :: rest) :
    ∃ s', s = c :: s' ∧ escape inPathSet s' = rest := by
  cases s with
  | nil => cases h
  | cons d s' =>
    by_cases hd : inPathSet d = true
    · obtain ⟨b, -, more, hmore⟩ := escape_of_mem hd s'
      rw [hmore, escapeByte, List.cons_append, List.cons.injEq] at h
      exact absurd h.1.symm hc
    · rw [escape_of_not_mem (Bool.eq_false_iff.mpr hd), List.cons.injEq] at h
      obtain ⟨rfl, hrest⟩ := h
      exact ⟨s', rfl, hrest⟩

theorem eq_append_of_escape {piece : List Char} (hp : piece ∈ singleDots)
    (h : escape inPathSet s = piece ++ rest) :
    ∃ s', s = piece ++ s' ∧ escape inPathSet s' = rest := by
  have hescaped : ∀ d : Char, d = 'e' ∨ d = 'E' →
      escape inPathSet s = ['%', '2', d] ++ rest →
      ∃ s', s = ['%', '2', d] ++ s' ∧ escape inPathSet s' = rest := by
    intro d hd hs
    cases s with
    | nil => cases hs
    | cons c s₁ =>
      by_cases hc : inPathSet c = true
      · obtain ⟨b, hne, more, hmore⟩ := escape_of_mem hc s₁
        rw [hmore] at hs
        exact absurd (eq_dot_of_escapeByte hd (List.append_inj_left hs rfl)) hne
      · rw [escape_of_not_mem (Bool.eq_false_iff.mpr hc)] at hs
        obtain ⟨rfl, hs₁⟩ := List.cons.inj hs
        have hd' : d ≠ '%' := by
          rcases hd with rfl | rfl <;> decide
        obtain ⟨s₂, rfl, hs₂⟩ := eq_cons_of_escape (c := '2') (by decide) hs₁
        obtain ⟨s₃, rfl, hs₃⟩ := eq_cons_of_escape hd' hs₂
        exact ⟨s₃, rfl, hs₃⟩
  simp only [singleDots, List.mem_cons, List.not_mem_nil, or_false] at hp
  rcases hp with rfl | rfl | rfl
  · exact eq_cons_of_escape (c := '.') (by decide) h
  · exact hescaped 'e' (.inl rfl) h
  · exact hescaped 'E' (.inr rfl) h

theorem escape_eq_nil (h : escape inPathSet s = []) : s = [] := by
  cases s with
  | nil => rfl
  | cons c s =>
    by_cases hc : inPathSet c = true
    · obtain ⟨b, -, more, hmore⟩ := escape_of_mem hc s
      rw [hmore] at h
      cases h
    · rw [escape_of_not_mem (Bool.eq_false_iff.mpr hc)] at h
      cases h

theorem isSingleDot_escape (h : isSingleDot s = false) :
    isSingleDot (escape inPathSet s) = false := by
  refine Bool.eq_false_iff.mpr fun he => Bool.eq_false_iff.mp h ?_
  have hp : escape inPathSet s ∈ singleDots := List.contains_iff_mem.mp he
  obtain ⟨s', hs, hnil⟩ := eq_append_of_escape hp (List.append_nil _).symm
  rw [escape_eq_nil hnil, List.append_nil] at hs
  rw [hs]
  exact he

theorem isDoubleDot_iff : isDoubleDot s = true ↔ ∃ a ∈ singleDots, ∃ b ∈ singleDots, s = a ++ b := by
  simp only [isDoubleDot, List.any_eq_true, beq_iff_eq]

theorem isDoubleDot_escape (h : isDoubleDot s = false) :
    isDoubleDot (escape inPathSet s) = false := by
  refine Bool.eq_false_iff.mpr fun he => Bool.eq_false_iff.mp h ?_
  obtain ⟨a, ha, b, hb, heq⟩ := isDoubleDot_iff.mp he
  obtain ⟨s', rfl, hs'⟩ := eq_append_of_escape ha heq
  obtain ⟨s'', rfl, hnil⟩ := eq_append_of_escape hb (hs'.trans (List.append_nil _).symm)
  rw [escape_eq_nil hnil, List.append_nil]
  exact isDoubleDot_iff.mpr ⟨a, ha, b, hb, rfl⟩

/-- What an escaped text holds was there before and is not in the set, or comes of an escape. -/
theorem mem_escape {set : Char → Bool} (hc : c ∈ escape set s) :
    (set c = false ∧ c ∈ s) ∨ (inPathSet c = false ∧ isSlash .special c = false) := by
  obtain ⟨d, hd, hc⟩ := List.mem_flatMap.mp hc
  split at hc
  · obtain ⟨b, -, hc⟩ := List.mem_flatMap.mp hc
    have hb := b.toNat_lt
    simp only [escapeByte, List.mem_cons, List.not_mem_nil, or_false] at hc
    refine .inr ?_
    rcases hc with rfl | rfl | rfl
    · decide
    · exact upperHex_plain (by omega)
    · exact upperHex_plain (by omega)
  · next hplain =>
    cases List.mem_singleton.mp hc
    exact .inl ⟨Bool.eq_false_iff.mpr hplain, hd⟩

theorem escape_plain (hs : ∀ c ∈ s, isSlash .special c = false) (hc : c ∈ escape inPathSet s) :
    inPathSet c = false ∧ isSlash .special c = false := by
  obtain ⟨hplain, hmem⟩ | hescaped := mem_escape hc
  · exact ⟨hplain, hs c hmem⟩
  · exact hescaped

theorem lt_of_not_inPathSet (hc : inPathSet c = false) : 0x20 < c.toNat := by
  have hspace : c ≠ ' ' := by
    rintro rfl
    cases hc
  have hne : c.toNat ≠ 0x20 := fun h => hspace (Char.toNat_inj.mp h)
  simp only [inPathSet, inFragmentSet, inControls, Bool.or_eq_false_iff, decide_eq_false_iff_not] at hc
  omega

/-- What a segment of a special URL's path is: nothing in it has to be escaped or worked off. -/
structure IsWritten (s : List Char) : Prop where
  plain : ∀ c ∈ s, inPathSet c = false ∧ isSlash .special c = false
  single : isSingleDot s = false
  double : isDoubleDot s = false

theorem isWritten_nil : IsWritten [] := ⟨fun _ h => (nomatch h), rfl, rfl⟩

theorem isWritten_escape (hs : ∀ c ∈ s, isSlash .special c = false)
    (hsingle : isSingleDot s = false) (hdouble : isDoubleDot s = false) :
    IsWritten (escape inPathSet s) :=
  ⟨fun _ hc => escape_plain hs hc, isSingleDot_escape hsingle, isDoubleDot_escape hdouble⟩

theorem IsWritten.escape_eq (hs : IsWritten s) : escape inPathSet s = s :=
  escape_eq_self fun c hc => (hs.plain c hc).1

theorem shorten_special (rev : List (List Char)) : shorten .special rev = rev.tail := by
  cases rev with
  | nil => rfl
  | cons s rev => rw [shorten, if_neg (fun h => (nomatch h.1)), List.tail_cons]

theorem writeSegment_special (rev : List (List Char)) (s : List Char) :
    writeSegment .special rev s = escape inPathSet s := by
  rw [writeSegment, if_neg (fun h => (nomatch h.1))]

/-- Dot segments take written segments away or leave them; the others come out written. -/
theorem isWritten_walk (hrev : ∀ s ∈ rev, IsWritten s)
    (hss : ∀ s ∈ ss, ∀ c ∈ s, isSlash .special c = false) :
    ∀ s ∈ walk .special rev ss, IsWritten s := by
  have hcons : ∀ {rev : List (List Char)} {s}, IsWritten s → (∀ s ∈ rev, IsWritten s) →
      ∀ s' ∈ s :: rev, IsWritten s' := by
    intro rev s hs hrev s' hs'
    rcases List.mem_cons.mp hs' with rfl | hs'
    · exact hs
    · exact hrev s' hs'
  have hshorten : ∀ {rev : List (List Char)}, (∀ s ∈ rev, IsWritten s) →
      ∀ s ∈ shorten .special rev, IsWritten s := by
    intro rev hrev s hs
    rw [shorten_special] at hs
    exact hrev s (List.mem_of_mem_tail hs)
  fun_induction walk .special rev ss with
  | case1 rev => exact hrev
  | case2 rev s hd => exact hcons isWritten_nil (hshorten hrev)
  | case3 rev s hd hs => exact hcons isWritten_nil hrev
  | case4 rev s hd hs =>
    rw [writeSegment_special]
    exact hcons (isWritten_escape (hss s List.mem_cons_self) (Bool.eq_false_iff.mpr hs)
      (Bool.eq_false_iff.mpr hd)) hrev
  | case5 rev s rest hne hd ih =>
    exact ih (hshorten hrev) fun s' hs' => hss s' (List.mem_cons_of_mem _ hs')
  | case6 rev s rest hne hd hs ih =>
    exact ih hrev fun s' hs' => hss s' (List.mem_cons_of_mem _ hs')
  | case7 rev s rest hne hd hs ih =>
    refine ih (hcons ?_ hrev) fun s' hs' => hss s' (List.mem_cons_of_mem _ hs')
    rw [writeSegment_special]
    exact isWritten_escape (hss s List.mem_cons_self) (Bool.eq_false_iff.mpr hs)
      (Bool.eq_false_iff.mpr hd)

theorem walk_ne_nil (rev : List (List Char)) (hss : ss ≠ []) : walk .special rev ss ≠ [] := by
  fun_induction walk .special rev ss with
  | case1 rev => exact absurd rfl hss
  | case2 | case3 | case4 => simp
  | case5 rev s rest hne hd ih => exact ih (by simpa using hne)
  | case6 rev s rest hne hd hs ih => exact ih (by simpa using hne)
  | case7 rev s rest hne hd hs ih => exact ih (by simpa using hne)

theorem walk_append (hws : ∀ s ∈ ws, IsWritten s) (hss : ss ≠ []) (rev : List (List Char)) :
    walk .special rev (ws ++ ss) = walk .special (ws.reverse ++ rev) ss := by
  induction ws generalizing rev with
  | nil => rfl
  | cons w ws ih =>
    have hw := hws w List.mem_cons_self
    obtain ⟨s, rest, hrest⟩ : ∃ s rest, ws ++ ss = s :: rest :=
      List.exists_cons_of_ne_nil (by simp [hss])
    rw [List.cons_append, hrest, walk, hw.double, hw.single, writeSegment_special, hw.escape_eq,
      if_neg Bool.false_ne_true, if_neg Bool.false_ne_true, ← hrest,
      ih (fun s hs => hws s (List.mem_cons_of_mem _ hs)), List.reverse_cons, List.append_assoc,
      List.singleton_append]
    exact List.cons_ne_nil s rest

theorem readSegments_special (base : List (List Char)) (cs : List Char) :
    readSegments .special base cs =
      .segments (walk .special base.reverse (splitSegments .special cs)).reverse := by
  rw [readSegments, if_neg (by decide)]

theorem readSegments_written (hws : ∀ s ∈ ws, IsWritten s) (cs : List Char) :
    ∃ list, readSegments .special ws cs = .segments list ∧ list ≠ [] ∧ ∀ s ∈ list, IsWritten s := by
  refine ⟨_, readSegments_special ws cs, ?_, fun s hs => ?_⟩
  · simpa using walk_ne_nil ws.reverse (splitSegments_ne_nil .special cs)
  · exact isWritten_walk (fun s hs => hws s (List.mem_reverse.mp hs))
      (fun s hs c hc => isSlash_of_mem_splitSegments hs hc) s (List.mem_reverse.mp hs)

theorem readPath_special (cs : List Char) : ∃ list, readPath .special cs = .segments list ∧
    list ≠ [] ∧ ∀ s ∈ list, IsWritten s := by
  have hread : ∀ cs, ∃ list, readSegments .special [] cs = .segments list ∧
      list ≠ [] ∧ ∀ s ∈ list, IsWritten s := readSegments_written (List.forall_mem_nil _)
  rw [readPath.eq_def]
  split
  · exact hread []
  · split
    · exact hread _
    · exact hread _

theorem splitSegments_written (hws : ∀ s ∈ ws, IsWritten s) (cs : List Char) :
    splitSegments .special (ws.flatMap (· ++ ['/']) ++ cs) = ws ++ splitSegments .special cs := by
  induction ws with
  | nil => rfl
  | cons w ws ih =>
    rw [List.flatMap_cons, List.append_assoc, List.append_assoc, List.singleton_append,
      splitSegments_append fun c hc => ((hws w List.mem_cons_self).plain c hc).2,
      ih fun s hs => hws s (List.mem_cons_of_mem _ hs), List.cons_append]

theorem text_segments_slash (ws : List (List Char)) :
    (UrlPath.segments (ws ++ [[]])).text = '/' :: ws.flatMap (· ++ ['/']) := by
  induction ws with
  | nil => rfl
  | cons w ws ih =>
    rw [UrlPath.text] at ih ⊢
    rw [List.cons_append, List.flatMap_cons, ih]
    simp

theorem mem_text (hws : ∀ s ∈ ws, IsWritten s)
    (hc : c ∈ (UrlPath.segments (ws ++ [[]])).text) : c = '/' ∨ inPathSet c = false := by
  rw [text_segments_slash] at hc
  rcases List.mem_cons.mp hc with hc | hc
  · exact .inl hc
  · obtain ⟨w, hw, hc⟩ := List.mem_flatMap.mp hc
    rcases List.mem_append.mp hc with hc | hc
    · exact .inr ((hws w hw).plain c hc).1
    · exact .inl (List.mem_singleton.mp hc)

theorem not_mem_text (hws : ∀ s ∈ ws, IsWritten s) (hc : inPathSet c = true) :
    c ∉ (UrlPath.segments ws).text := by
  intro h
  obtain ⟨s, hs, h⟩ := List.mem_flatMap.mp h
  obtain rfl | h := List.mem_cons.mp h
  · cases hc
  · rw [((hws s hs).plain c h).1] at hc
    cases hc

/-- After a written path that ends in a slash, more text is read as relative to that path. -/
theorem readPath_append (hws : ∀ s ∈ ws, IsWritten s) (cs : List Char) :
    readPath .special ((UrlPath.segments (ws ++ [[]])).text ++ cs) =
      readSegments .special ws cs := by
  rw [text_segments_slash, List.cons_append, readPath, if_pos (by decide), readSegments_special,
    readSegments_special, splitSegments_written hws,
    walk_append hws (splitSegments_ne_nil .special cs), List.reverse_nil, List.append_nil]

end AssetCache.Url
