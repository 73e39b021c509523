import AssetCache.Toml.Written
import Mathlib.Tactic.SplitIfs

namespace AssetCache.Toml

variable {c quote : Char} {cs ds read rest tail : List Char} {run now best n : Nat}

theorem hexValue?_hexDigit {n : Nat} (h : n < 16) : hexValue? (hexDigit n) = some n := by
  have hall : ∀ n < 16, hexValue? (hexDigit n) = some n := by decide
  exact hall n h

theorem codePoint?_hexDigits (hc : c.toNat < 256) (tail : List Char) :
    codePoint? 4 ('0' :: '0' :: hexDigit (c.toNat / 16 % 16) :: hexDigit (c.toNat % 16) :: tail) =
      some (c, tail) := by
  have hhigh := hexValue?_hexDigit (n := c.toNat / 16 % 16) (by omega)
  have hlow := hexValue?_hexDigit (n := c.toNat % 16) (by omega)
  have hdigits : ['0', '0', hexDigit (c.toNat / 16 % 16), hexDigit (c.toNat % 16)].mapM hexValue? =
      some [0, 0, c.toNat / 16 % 16, c.toNat % 16] := by
    simp [List.mapM_cons, hhigh, hlow, show hexValue? '0' = some 0 from rfl]
  have hvalue : [0, 0, c.toNat / 16 % 16, c.toNat % 16].foldl (fun a d => a * 16 + d) 0 =
      c.toNat := by
    simp only [List.foldl_cons, List.foldl_nil]
    omega
  have hvalid : Nat.isValidChar c.toNat := c.valid
  simp only [codePoint?, List.take_succ_cons, List.take_zero, List.length_cons, List.length_nil,
    hdigits, hvalue, if_pos hvalid, Char.ofNat_toNat]
  rfl

theorem lt_of_isControl (h : isControl c = true) : c.toNat < 256 := by
  simp only [isControl, Bool.or_eq_true, Bool.and_eq_true, decide_eq_true_eq, beq_iff_eq] at h
  omega

/-- A character stands for itself, or for what follows a backslash, which no line end does. -/
theorem escape_cases (c : Char) :
    (escape c = [c] ∧ c ≠ '"' ∧ c ≠ '\\' ∧ isControl c = false) ∨
      ∃ body, escape c = '\\' :: body ∧
        ∀ tail, continued? (body ++ tail) = none ∧ escape? (body ++ tail) = some (c, tail) := by
  rw [escape]
  iterate 5
    split
    · next h =>
      subst h
      exact .inr ⟨_, rfl, fun _ => ⟨rfl, rfl⟩⟩
  split
  · next h =>
    subst h
    exact .inr ⟨_, rfl, fun _ => ⟨rfl, rfl⟩⟩
  · next hquote =>
    split
    · next h =>
      subst h
      exact .inr ⟨_, rfl, fun _ => ⟨rfl, rfl⟩⟩
    · next hbackslash =>
      split
      · next hcontrol =>
        exact .inr ⟨_, rfl, fun tail => ⟨rfl, codePoint?_hexDigits (lt_of_isControl hcontrol) tail⟩⟩
      · next hcontrol => exact .inl ⟨rfl, hquote, hbackslash, Bool.eq_false_iff.mpr hcontrol⟩

theorem escape_eq_cons (c : Char) :
    ∃ d ds, escape c = d :: ds ∧ d ≠ '"' ∧ d ≠ '\n' ∧ d ≠ '\r' := by
  obtain ⟨hself, hquote, -, hcontrol⟩ | ⟨body, hescape, -⟩ := escape_cases c
  · refine ⟨c, [], hself, hquote, ?_, ?_⟩
    all_goals
      rintro rfl
      cases hcontrol
  · exact ⟨'\\', body, hescape, by decide, by decide, by decide⟩

theorem readBasic_quote (read tail : List Char) :
    readBasic read ('"' :: tail) = some (read.reverse, tail) := by
  rw [readBasic, if_pos rfl]

theorem readBasic_escape (read tail : List Char) (c : Char) :
    readBasic read (escape c ++ tail) = readBasic (c :: read) tail := by
  obtain ⟨hself, hquote, hbackslash, hcontrol⟩ | ⟨body, hescape, hbody⟩ := escape_cases c
  · rw [hself, List.singleton_append, readBasic, if_neg hquote, if_neg hbackslash,
      if_neg (Bool.eq_false_iff.mp hcontrol)]
  · rw [hescape, List.cons_append, readBasic, if_neg (by decide), if_pos rfl]
    split
    · next hnone =>
      rw [(hbody tail).2] at hnone
      cases hnone
    · next hsome =>
      rw [(hbody tail).2] at hsome
      cases hsome
      rfl

theorem readBasic_flatMap (read cs tail : List Char) :
    readBasic read (cs.flatMap escape ++ '"' :: tail) = some (read.reverse ++ cs, tail) := by
  induction cs generalizing read with
  | nil => rw [List.flatMap_nil, List.nil_append, readBasic_quote, List.append_nil]
  | cons c cs ih =>
    rw [List.flatMap_cons, List.append_assoc, readBasic_escape, ih, List.reverse_cons,
      List.append_assoc, List.singleton_append]

theorem readLiteral_append (h : ∀ c ∈ cs, c ≠ '\'' ∧ isControl c = false) (read tail : List Char) :
    readLiteral read (cs ++ '\'' :: tail) = some (read.reverse ++ cs, tail) := by
  induction cs generalizing read with
  | nil => rw [List.nil_append, readLiteral, if_pos rfl, List.append_nil]
  | cons c cs ih =>
    obtain ⟨⟨hquote, hcontrol⟩, hcs⟩ := List.forall_mem_cons.mp h
    rw [List.cons_append, readLiteral, if_neg hquote, if_neg (Bool.eq_false_iff.mp hcontrol),
      ih hcs, List.reverse_cons, List.append_assoc, List.singleton_append]

/-- After `run` quotes, those at the head of a text are too few to end it. They may go on to its own
end, where others follow. -/
def FewQuotes (quote : Char) (run : Nat) (cs : List Char) : Prop :=
  (∃ k, run + k ≤ 2 ∧ cs = List.replicate k quote) ∨
    ∀ tail, run + ((cs ++ tail).takeWhile (· == quote)).length ≤ 2

theorem FewQuotes.cons_self (h : FewQuotes quote (run + 1) cs) :
    FewQuotes quote run (quote :: cs) := by
  obtain ⟨k, hk, rfl⟩ | hfew := h
  · exact .inl ⟨k + 1, by omega, rfl⟩
  · refine .inr fun tail => ?_
    have hfew := hfew tail
    rw [List.cons_append, List.takeWhile_cons_of_pos (p := (· == quote)) (beq_self_eq_true quote),
      List.length_cons]
    omega

theorem fewQuotes_cons_of_ne (hrun : run ≤ 2) (hc : c ≠ quote) : FewQuotes quote run (c :: cs) := by
  refine .inr fun tail => ?_
  rw [List.cons_append, List.takeWhile_cons_of_neg (by simpa using hc)]
  exact hrun

theorem closing?_replicate (hn : n ≤ 2) (hrest : rest.head? ≠ some quote) :
    closing? quote (List.replicate (n + 3) quote ++ rest) =
      some (List.replicate n quote, rest) := by
  have hnone : rest.takeWhile (· == quote) = [] := by
    cases rest with
    | nil => rfl
    | cons c rest =>
      exact List.takeWhile_cons_of_neg fun hc => hrest (congrArg some (beq_iff_eq.mp hc))
  have hlength :
      ((List.replicate (n + 3) quote ++ rest).takeWhile (· == quote)).length = n + 3 := by
    rw [List.takeWhile_append_of_pos fun c hc => beq_iff_eq.mpr (List.eq_of_mem_replicate hc),
      hnone, List.append_nil, List.length_replicate]
  have hown : min (n + 3 - 3) 2 = n := by omega
  rw [closing?, hlength, if_neg (by omega), hown]
  dsimp only
  rw [List.drop_left' List.length_replicate]

/-- The quotes after a text end it, and those at its own end belong to it. -/
theorem FewQuotes.closing? (h : FewQuotes quote (run + 1) cs) (hrest : rest.head? ≠ some quote) :
    closing? quote (quote :: (cs ++ (List.replicate 3 quote ++ rest))) = none ∨
      ∃ n, cs = List.replicate n quote ∧
        Toml.closing? quote (quote :: (cs ++ (List.replicate 3 quote ++ rest))) =
          some (List.replicate (n + 1) quote, rest) := by
  obtain ⟨n, hn, rfl⟩ | hfew := h
  · refine .inr ⟨n, rfl, ?_⟩
    rw [← closing?_replicate (n := n + 1) (by omega) hrest, ← List.replicate_append_replicate,
      List.replicate_succ (n := n), List.append_assoc, List.cons_append]
  · left
    have hfew := hfew (List.replicate 3 quote ++ rest)
    refine if_pos ?_
    rw [List.takeWhile_cons_of_pos (p := (· == quote)) (beq_self_eq_true quote), List.length_cons]
    omega

theorem fewQuotes_escapeLines (h : run ≤ 2) : FewQuotes '"' run (escapeLines run cs) := by
  induction cs generalizing run with
  | nil => exact .inl ⟨0, h, rfl⟩
  | cons c cs ih =>
    rw [escapeLines]
    split
    · split
      · exact fewQuotes_cons_of_ne h (by decide)
      · exact (ih (by omega)).cons_self
    · next hc =>
      split
      · exact fewQuotes_cons_of_ne h (by decide)
      · obtain ⟨d, ds, hescape, hd, -⟩ := escape_eq_cons c
        rw [hescape]
        exact fewQuotes_cons_of_ne h hd

theorem eq_replicate_of_escapeLines (h : escapeLines run cs = List.replicate n '"') :
    cs = List.replicate n '"' := by
  have hhead : ∀ {d : Char} {ds : List Char} {n : Nat}, d :: ds = List.replicate n '"' → d = '"' :=
    fun heq => List.eq_of_mem_replicate (heq ▸ List.mem_cons_self)
  induction cs generalizing run n with
  | nil => exact h
  | cons c cs ih =>
    rw [escapeLines] at h
    split at h
    · next hc =>
      split at h
      · exact absurd (hhead h) (by decide)
      · cases n with
        | zero => cases h
        | succ n =>
          obtain ⟨-, h⟩ := List.cons.inj h
          rw [hc, ih h, List.replicate_succ]
    · next hc =>
      split at h
      · exact absurd (hhead h) (by decide)
      · obtain ⟨d, ds, hescape, hd, -⟩ := escape_eq_cons c
        rw [hescape] at h
        exact absurd (hhead h) hd

theorem readLines_backslash {body : List Char} (hbody : continued? body = none)
    (hescape : escape? body = some (c, tail)) (read : List Char) :
    readLines read ('\\' :: body) = readLines (c :: read) tail := by
  rw [readLines.eq_def]
  dsimp only
  rw [if_neg (by decide), if_neg (by decide), if_neg (by decide), if_pos rfl]
  split
  · next h =>
    rw [hbody] at h
    cases h
  · split
    · next h =>
      rw [hescape] at h
      cases h
    · next h =>
      rw [hescape] at h
      cases h
      rfl

theorem readLines_escape (hc : c ≠ '"') (read tail : List Char) :
    readLines read (escape c ++ tail) = readLines (c :: read) tail := by
  obtain ⟨hself, -, hbackslash, hcontrol⟩ | ⟨body, hescape, hbody⟩ := escape_cases c
  · have hne : ∀ {d : Char}, isControl d = true → c ≠ d := by
      rintro d hd rfl
      rw [hcontrol] at hd
      cases hd
    rw [hself, List.singleton_append, readLines.eq_def]
    dsimp only
    rw [if_neg hc, if_neg (hne rfl), if_neg (hne rfl), if_neg hbackslash,
      if_neg (Bool.eq_false_iff.mp hcontrol)]
  · rw [hescape, List.cons_append, readLines_backslash (hbody tail).1 (hbody tail).2]

theorem readLines_quote (read cs : List Char) :
    readLines read ('"' :: cs) =
      match closing? '"' ('"' :: cs) with
      | some (own, rest) => some (read.reverse ++ own, rest)
      | none => readLines ('"' :: read) cs := by
  rw [readLines.eq_def]
  exact if_pos rfl

theorem readLines_newline (read cs : List Char) :
    readLines read ('\n' :: cs) = readLines ('\n' :: read) cs := by
  rw [readLines.eq_def]
  exact (if_neg (by decide)).trans (if_pos rfl)

theorem reverse_cons_append (c : Char) (read cs : List Char) :
    (c :: read).reverse ++ cs = read.reverse ++ c :: cs := by
  rw [List.reverse_cons, List.append_assoc, List.singleton_append]

theorem readLines_escapeLines (hrun : run ≤ 2) (hrest : rest.head? ≠ some '"') (read : List Char) :
    readLines read (escapeLines run cs ++ (List.replicate 3 '"' ++ rest)) =
      some (read.reverse ++ cs, rest) := by
  induction cs generalizing run read with
  | nil =>
    have hclosing : closing? '"' ('"' :: (List.replicate 2 '"' ++ rest)) = some ([], rest) :=
      closing?_replicate (Nat.zero_le 2) hrest
    rw [escapeLines, List.nil_append, List.replicate_succ, List.cons_append, readLines_quote,
      hclosing]
  | cons c cs ih =>
    rw [escapeLines]
    split
    · next hc =>
      subst hc
      split
      · rw [List.cons_append, List.cons_append, readLines_backslash rfl rfl, ih (by decide),
          reverse_cons_append]
      · have hfew : FewQuotes '"' (run + 1) (escapeLines (run + 1) cs) :=
          fewQuotes_escapeLines (by omega)
        rw [List.cons_append, readLines_quote]
        obtain hnone | ⟨k, hk, hsome⟩ := hfew.closing? hrest
        · rw [hnone]
          dsimp only
          rw [ih (by omega), reverse_cons_append]
        · rw [hsome, eq_replicate_of_escapeLines hk, List.replicate_succ]
    · next hc =>
      split
      · next hnewline =>
        subst hnewline
        rw [List.cons_append, readLines_newline, ih (by decide), reverse_cons_append]
      · rw [List.append_assoc, readLines_escape hc, ih (by decide), reverse_cons_append]

theorem le_longestRun (quote : Char) (now best : Nat) (cs : List Char) :
    best ≤ longestRun quote now best cs := by
  induction cs generalizing now best with
  | nil => exact Nat.le_refl best
  | cons c cs ih =>
    rw [longestRun]
    split
    · exact Nat.le_trans (Nat.le_max_left ..) (ih ..)
    · exact ih ..

theorem fewQuotes_of_longestRun (h : longestRun quote now best cs ≤ 2) (hnow : now ≤ 2) :
    FewQuotes quote now cs := by
  induction cs generalizing now best with
  | nil => exact .inl ⟨0, hnow, rfl⟩
  | cons c cs ih =>
    rw [longestRun] at h
    split at h
    · next hc =>
      subst hc
      have hbest := le_longestRun c (now + 1) (max best (now + 1)) cs
      exact (ih h (by omega)).cons_self
    · next hc => exact fewQuotes_cons_of_ne hnow hc

theorem readLiteralLines_quote (read cs : List Char) :
    readLiteralLines read ('\'' :: cs) =
      match closing? '\'' ('\'' :: cs) with
      | some (own, rest) => some (read.reverse ++ own, rest)
      | none => readLiteralLines ('\'' :: read) cs := by
  rw [readLiteralLines.eq_def]
  exact if_pos rfl

theorem readLiteralLines_append (hcs : ∀ c ∈ cs, isControl c = true → c = '\n')
    (hquotes : longestRun '\'' now best cs ≤ 2) (hnow : now ≤ 2) (hrest : rest.head? ≠ some '\'')
    (read : List Char) :
    readLiteralLines read (cs ++ (List.replicate 3 '\'' ++ rest)) =
      some (read.reverse ++ cs, rest) := by
  induction cs generalizing now best read with
  | nil =>
    have hclosing : closing? '\'' ('\'' :: (List.replicate 2 '\'' ++ rest)) = some ([], rest) :=
      closing?_replicate (Nat.zero_le 2) hrest
    rw [List.nil_append, List.replicate_succ, List.cons_append, readLiteralLines_quote, hclosing]
  | cons c cs ih =>
    obtain ⟨hcontrol, htail⟩ := List.forall_mem_cons.mp hcs
    rw [longestRun] at hquotes
    rw [List.cons_append]
    split at hquotes
    · next hc =>
      subst hc
      have hbest := le_longestRun '\'' (now + 1) (max best (now + 1)) cs
      rw [readLiteralLines_quote]
      obtain hnone | ⟨n, hn, hsome⟩ :=
        (fewQuotes_of_longestRun hquotes (by omega)).closing? hrest
      · rw [hnone]
        dsimp only
        rw [ih htail hquotes (by omega), reverse_cons_append]
      · rw [hsome, hn, List.replicate_succ]
    · next hc =>
      rw [readLiteralLines.eq_def]
      dsimp only
      rw [if_neg hc]
      by_cases hnewline : c = '\n'
      · rw [if_pos hnewline, ih htail hquotes (by decide), reverse_cons_append]
      · have hplain : isControl c = false := Bool.eq_false_iff.mpr fun h => hnewline (hcontrol h)
        have hreturn : c ≠ '\r' := by
          rintro rfl
          cases hplain
        rw [if_neg hnewline, if_neg hreturn, if_neg (Bool.eq_false_iff.mp hplain),
          ih htail hquotes (by decide), reverse_cons_append]

theorem not_mem_of_longestRun (h : longestRun quote now best cs = 0) : quote ∉ cs := by
  induction cs generalizing now best with
  | nil => exact List.not_mem_nil
  | cons c cs ih =>
    rw [longestRun] at h
    split at h
    · have hbest := le_longestRun quote (now + 1) (max best (now + 1)) cs
      omega
    · next hc =>
      rw [List.mem_cons, not_or]
      exact ⟨Ne.symm hc, ih h⟩

theorem eq_newline_of_isControl (h : (Traits.of cs).hasControl = false) :
    ∀ c ∈ cs, isControl c = true → c = '\n' := by
  intro c hc hcontrol
  have hnot := List.any_eq_false.mp h c hc
  rw [hcontrol, Bool.true_and] at hnot
  simpa using hnot

theorem newline_not_mem (h : (Traits.of cs).hasNewline = false) : '\n' ∉ cs := by
  intro hmem
  rw [Traits.of, List.contains_iff_mem.mpr hmem] at h
  cases h

theorem choose_literal {t : Traits} (h : t.choose = .literal) :
    t.hasControl = false ∧ t.apostrophes = 0 ∧ t.hasNewline = false := by
  unfold Traits.choose at h
  split_ifs at h with _ hliteral
  simpa [and_assoc] using hliteral

theorem choose_literalLines {t : Traits} (h : t.choose = .literalLines) :
    t.hasControl = false ∧ t.apostrophes ≤ 2 := by
  unfold Traits.choose at h
  split_ifs at h with _ _ _ hliteral
  simpa using hliteral

theorem dropLineEnd_cons (hnewline : c ≠ '\n') (hreturn : c ≠ '\r') :
    dropLineEnd (c :: cs) = c :: cs := by
  rw [dropLineEnd]
  · exact fun _ h => hnewline (List.cons.inj h).1
  · exact fun _ h => hreturn (List.cons.inj h).1

theorem dropLineEnd_opening {t : Traits} (h : t.hasNewline = false → dropLineEnd ds = ds) :
    dropLineEnd ((if t.hasNewline then ['\n'] else []) ++ ds) = ds := by
  cases hnewline : t.hasNewline with
  | true => rfl
  | false => exact h hnewline

theorem dropLineEnd_escapeLines (h : '\n' ∉ cs) (rest : List Char) :
    dropLineEnd (escapeLines 0 cs ++ (List.replicate 3 '"' ++ rest)) =
      escapeLines 0 cs ++ (List.replicate 3 '"' ++ rest) := by
  cases cs with
  | nil => exact dropLineEnd_cons (by decide) (by decide)
  | cons c cs =>
    rw [escapeLines]
    split
    · exact dropLineEnd_cons (by decide) (by decide)
    · split
      · next hnewline => exact absurd (hnewline ▸ List.mem_cons_self) h
      · obtain ⟨d, ds, hescape, -, hnewline, hreturn⟩ := escape_eq_cons c
        rw [hescape]
        exact dropLineEnd_cons hnewline hreturn

theorem dropLineEnd_of_not_control (hcontrol : ∀ c ∈ cs, isControl c = true → c = '\n')
    (h : '\n' ∉ cs) (rest : List Char) :
    dropLineEnd (cs ++ (List.replicate 3 '\'' ++ rest)) =
      cs ++ (List.replicate 3 '\'' ++ rest) := by
  cases cs with
  | nil => exact dropLineEnd_cons (by decide) (by decide)
  | cons d cs =>
    have hd : d ≠ '\n' := fun hd => h (hd ▸ List.mem_cons_self)
    refine dropLineEnd_cons hd fun hreturn => ?_
    exact hd (hcontrol d List.mem_cons_self (hreturn ▸ rfl))

theorem readString_basic (h : ∀ tail, ds ≠ '"' :: '"' :: tail) :
    readString ('"' :: ds) = readBasic [] ds := by
  rw [readString]
  exact h

theorem readString_literal (h : ∀ tail, ds ≠ '\'' :: '\'' :: tail) :
    readString ('\'' :: ds) = readLiteral [] ds := by
  rw [readString]
  exact h

theorem cons_ne_cons_cons (h : rest.head? ≠ some quote) (tail : List Char) :
    quote :: rest ≠ quote :: quote :: tail :=
  fun heq => h (by rw [(List.cons.inj heq).2, List.head?_cons])

theorem readString_escaped (cs : List Char) (hrest : rest.head? ≠ some '"') :
    readString ('"' :: (cs.flatMap escape ++ '"' :: rest)) = some (cs, rest) := by
  rw [readString_basic]
  · exact readBasic_flatMap [] cs rest
  · intro tail
    cases cs with
    | nil => exact cons_ne_cons_cons hrest tail
    | cons c cs =>
      obtain ⟨d, ds, hescape, hd, -⟩ := escape_eq_cons c
      rw [List.flatMap_cons, hescape]
      exact fun heq => hd (List.cons.inj heq).1

theorem readString_plain (hplain : ∀ c ∈ cs, c ≠ '\'' ∧ isControl c = false)
    (hrest : rest.head? ≠ some '\'') :
    readString ('\'' :: (cs ++ '\'' :: rest)) = some (cs, rest) := by
  rw [readString_literal]
  · exact readLiteral_append hplain [] rest
  · intro tail
    cases cs with
    | nil => exact cons_ne_cons_cons hrest tail
    | cons c cs => exact fun heq => (hplain c List.mem_cons_self).1 (List.cons.inj heq).1

theorem plain_of_choose_literal (h : (Traits.of cs).choose = .literal) :
    ∀ c ∈ cs, c ≠ '\'' ∧ isControl c = false := by
  obtain ⟨hcontrol, hapostrophes, hnewline⟩ := choose_literal h
  intro c hc
  refine ⟨?_, Bool.eq_false_iff.mpr fun h => ?_⟩
  · rintro rfl
    exact not_mem_of_longestRun hapostrophes hc
  · exact newline_not_mem hnewline (eq_newline_of_isControl hcontrol c hc h ▸ hc)

theorem readString_writeString (s : String) (hquote : rest.head? ≠ some '"')
    (happostrophe : rest.head? ≠ some '\'') :
    readString (writeString s ++ rest) = some (s.toList, rest) := by
  rw [writeString]
  cases hchoose : (Traits.of s.toList).choose with
  | basic =>
    dsimp only
    rw [List.cons_append, List.append_assoc, List.singleton_append]
    exact readString_escaped s.toList hquote
  | literal =>
    dsimp only
    rw [List.cons_append, List.append_assoc, List.singleton_append]
    exact readString_plain (plain_of_choose_literal hchoose) happostrophe
  | lines =>
    dsimp only
    rw [opening, List.append_assoc, List.append_assoc, List.append_assoc]
    have hdrop := dropLineEnd_opening fun h : (Traits.of s.toList).hasNewline = false =>
      dropLineEnd_escapeLines (newline_not_mem h) rest
    exact (congrArg (readLines []) hdrop).trans (readLines_escapeLines (Nat.zero_le 2) hquote [])
  | literalLines =>
    obtain ⟨hcontrol, hapostrophes⟩ := choose_literalLines hchoose
    have hcontrol := eq_newline_of_isControl hcontrol
    dsimp only
    rw [opening, List.append_assoc, List.append_assoc, List.append_assoc]
    have hdrop := dropLineEnd_opening fun h : (Traits.of s.toList).hasNewline = false =>
      dropLineEnd_of_not_control hcontrol (newline_not_mem h) rest
    exact (congrArg (readLiteralLines []) hdrop).trans
      (readLiteralLines_append hcontrol hapostrophes (Nat.zero_le 2) happostrophe [])

end AssetCache.Toml
