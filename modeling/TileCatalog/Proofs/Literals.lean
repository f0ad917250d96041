import TileCatalog.Proofs.Grammar

/-!
# Reading literals

`stringTail` and `skipStringTail` read exactly the spellings of strings, the first only those that
are text. `Numeral.read` reads exactly the spellings of numbers; as nothing need follow a number, it
reads as far as it can, and what it reads is known only if the text behind does not go on with it
(`Stops`).
-/

namespace TileCatalog.Json

/-! ### Escapes -/

theorem length_le_byteSize (cs : List Char) : cs.length ≤ byteSize cs := by
  induction cs with
  | nil => exact Nat.le_refl _
  | cons c cs ih =>
    have := c.utf8Size_pos
    rw [List.length_cons, byteSize]
    omega

theorem hexUnit_eq_ok_iff {cs rest : List Char} {n : Nat} :
    hexUnit cs = .ok (n, rest) ↔ ∃ ds, cs = ds ++ rest ∧ hexValue? ds = some n := by
  constructor
  · intro h
    unfold hexUnit at h
    split at h
    · cases h
    · split at h
      · rename_i a b c d rest' _
        split at h
        · rename_i ha hb hc hd
          cases h
          exact ⟨[a, b, c, d], rfl, by simp [hexValue?, ha, hb, hc, hd]⟩
        · cases h
      · cases h
  · rintro ⟨ds, rfl, h⟩
    unfold hexValue? at h
    split at h
    · rename_i a b c d
      have hl : ¬ byteSize ([a, b, c, d] ++ rest) < 4 := by
        have := length_le_byteSize ([a, b, c, d] ++ rest)
        simp only [List.length_append, List.length_cons, List.length_nil] at this
        omega
      split at h
      · rename_i ha hb hc hd
        cases h
        unfold hexUnit
        rw [if_neg hl]
        simp [ha, hb, hc, hd]
      · cases h
    · cases h

theorem shortEscape?_eq_some_iff {e c : Char} :
    shortEscape? e = some c ↔ (e, c) ∈ shortEscapes := by
  constructor
  · intro h
    unfold shortEscape? at h
    split at h
    · rename_i he
      cases h
      rcases he with rfl | rfl | rfl <;> simp [shortEscapes]
    · repeat' split at h
      all_goals cases h
      all_goals
        rename_i he
        simp [he, shortEscapes]
  · intro h
    simp only [shortEscapes, List.mem_cons, Prod.mk.injEq, List.not_mem_nil, or_false] at h
    rcases h with ⟨rfl, rfl⟩ | ⟨rfl, rfl⟩ | ⟨rfl, rfl⟩ | ⟨rfl, rfl⟩ | ⟨rfl, rfl⟩ | ⟨rfl, rfl⟩ |
      ⟨rfl, rfl⟩ | ⟨rfl, rfl⟩ <;> rfl

theorem ne_u_of_mem_shortEscapes {e c : Char} (h : (e, c) ∈ shortEscapes) : e ≠ 'u' := by
  rintro rfl
  simp [shortEscapes] at h

theorem skipEscape_eq_ok_iff {cs rest : List Char} :
    skipEscape cs = .ok rest ↔ ∃ us e, Escape us e ∧ cs = e ++ rest := by
  constructor
  · intro h
    unfold skipEscape at h
    split at h
    · cases h
    · rename_i c cs
      split at h
      · rename_i hc
        subst hc
        split at h
        · cases h
        · rename_i n _ hn
          cases h
          obtain ⟨ds, rfl, hds⟩ := hexUnit_eq_ok_iff.1 hn
          exact ⟨_, _, .unit hds, rfl⟩
      · split at h
        · rename_i hs
          cases h
          obtain ⟨d, hd⟩ := Option.isSome_iff_exists.1 hs
          exact ⟨_, _, .short (shortEscape?_eq_some_iff.1 hd), rfl⟩
        · cases h
  · rintro ⟨us, e, he, rfl⟩
    cases he with
    | short h =>
      simp [skipEscape, ne_u_of_mem_shortEscapes h, shortEscape?_eq_some_iff.2 h]
    | @unit ds n h =>
      have hn : hexUnit (ds ++ rest) = .ok (n, rest) := hexUnit_eq_ok_iff.2 ⟨ds, rfl, h⟩
      simp [skipEscape, hn]

/-! ### Strings that are skipped -/

theorem skipStringTail_eq_ok_iff {cs rest : List Char} :
    skipStringTail cs = .ok rest ↔ ∃ us body, Spelling us body ∧ cs = body ++ '"' :: rest := by
  constructor
  · intro h
    fun_induction skipStringTail cs with
    | case1 => cases h
    | case2 =>
      cases h
      exact ⟨[], [], .nil, rfl⟩
    | case3 => cases h
    | case4 _ _ he _ _ ih =>
      obtain ⟨us, body, hs, rfl⟩ := ih h
      obtain ⟨vs, e, hv, rfl⟩ := skipEscape_eq_ok_iff.1 he
      exact ⟨_, _, .escape hv hs, by simp⟩
    | case5 => cases h
    | case6 c cs hq hb hc ih =>
      obtain ⟨us, body, hs, rfl⟩ := ih h
      exact ⟨_, _, .plain hq hb (by simpa using hc) hs, rfl⟩
  · rintro ⟨us, body, hs, rfl⟩
    induction hs with
    | nil =>
      rw [List.nil_append, skipStringTail]
      simp
    | plain hq hb hc _ ih =>
      rw [List.cons_append, skipStringTail]
      simp [hq, hb, hc, ih]
    | @escape us vs e cs he _ ih =>
      have hskip : skipEscape (e ++ (cs ++ '"' :: rest)) = .ok (cs ++ '"' :: rest) :=
        skipEscape_eq_ok_iff.2 ⟨us, e, he, rfl⟩
      rw [List.cons_append, List.append_assoc, skipStringTail, if_neg (by decide), if_pos rfl]
      split
      · rename_i herr
        rw [hskip] at herr
        cases herr
      · rename_i hok
        rw [hskip] at hok
        cases hok
        exact ih

/-! ### Strings that are read -/

theorem takeMark_eq_ok_iff {c : Char} {cs rest : List Char} :
    takeMark c cs = .ok rest ↔ cs = c :: rest := by
  unfold takeMark
  constructor
  · intro h
    split at h
    · cases h
    · split at h
      · rename_i hd
        cases h
        rw [hd]
      · cases h
  · rintro rfl
    simp

theorem lowSurrogate_eq_ok_iff {cs rest : List Char} {n : Nat} :
    lowSurrogate cs = .ok (n, rest) ↔
      ∃ ds, cs = '\\' :: 'u' :: (ds ++ rest) ∧ hexValue? ds = some n ∧ isLowSurrogate n = true := by
  constructor
  · intro h
    unfold lowSurrogate at h
    split at h
    · cases h
    · rename_i hback
      split at h
      · cases h
      · rename_i hu
        split at h
        · cases h
        · rename_i hunit
          split at h
          · rename_i hlow
            cases h
            obtain ⟨ds, rfl, hds⟩ := hexUnit_eq_ok_iff.1 hunit
            obtain rfl := takeMark_eq_ok_iff.1 hu
            exact ⟨ds, takeMark_eq_ok_iff.1 hback, hds, hlow⟩
          · cases h
  · rintro ⟨ds, rfl, hds, hlow⟩
    have hunit : hexUnit (ds ++ rest) = .ok (n, rest) := hexUnit_eq_ok_iff.2 ⟨ds, rfl, hds⟩
    simp [lowSurrogate, takeMark_eq_ok_iff.2, hunit, hlow]

/-- An escape that is read spells the units of one character. -/
theorem exists_of_escape {cs rest : List Char} {c : Char} (h : escape cs = .ok (c, rest)) :
    ∃ us body, (∀ {vs ds}, Spelling vs ds → Spelling (us ++ vs) ('\\' :: (body ++ ds))) ∧
      cs = body ++ rest ∧ ∀ vs, text? (us ++ vs) = (text? vs).map (c :: ·) := by
  unfold escape at h
  split at h
  · cases h
  · rename_i e cs
    split at h
    · rename_i he
      subst he
      unfold unicodeEscape at h
      split at h
      · cases h
      · rename_i n cs₁ hn
        obtain ⟨ds, rfl, hds⟩ := hexUnit_eq_ok_iff.1 hn
        split at h
        · cases h
        · rename_i hlow
          split at h
          · rename_i hhigh
            split at h
            · cases h
            · rename_i m cs₂ hm
              simp only [Except.ok.injEq, Prod.mk.injEq] at h
              obtain ⟨rfl, rfl⟩ := h
              obtain ⟨ds', rfl, hds', hm⟩ := lowSurrogate_eq_ok_iff.1 hm
              refine ⟨[n, m], 'u' :: (ds ++ '\\' :: 'u' :: ds'), fun hs => ?_, by simp,
                text?_pair hhigh hm⟩
              simpa using Spelling.escape (.unit hds) (.escape (.unit hds') hs)
          · rename_i hhigh
            simp only [Except.ok.injEq, Prod.mk.injEq] at h
            obtain ⟨rfl, rfl⟩ := h
            exact ⟨[n], 'u' :: ds, .escape (.unit hds), rfl,
              text?_unit (by simpa using hhigh) (by simpa using hlow)⟩
    · split at h
      · rename_i hd
        cases h
        exact ⟨_, [e], .escape (.short (shortEscape?_eq_some_iff.1 hd)), rfl,
          text?_units_append _⟩
      · cases h

theorem exists_of_stringTail {cs ds rest : List Char} (h : stringTail cs = .ok (ds, rest)) :
    ∃ us body, Spelling us body ∧ cs = body ++ '"' :: rest ∧ text? us = some ds := by
  fun_induction stringTail cs generalizing ds rest with
  | case1 => cases h
  | case2 =>
    cases h
    exact ⟨[], [], .nil, rfl, rfl⟩
  | case3 => cases h
  | case4 => cases h
  | case5 _ _ _ he _ _ _ htail _ ih =>
    cases h
    obtain ⟨us, body, hs, rfl, ht⟩ := ih htail
    obtain ⟨vs, e, hv, rfl, htext⟩ := exists_of_escape he
    refine ⟨_, _, hv hs, by simp, ?_⟩
    rw [htext, ht, Option.map_some]
  | case6 => cases h
  | case7 => cases h
  | case8 c cs hq hb hc ds' rest' htail ih =>
    cases h
    obtain ⟨us, body, hs, rfl, ht⟩ := ih htail
    refine ⟨_, _, .plain hq hb (by simpa using hc) hs, rfl, ?_⟩
    rw [text?_units_append, ht, Option.map_some]

theorem exists_units_eq_cons (c : Char) : ∃ u us, units c = u :: us := by
  unfold units
  split
  · exact ⟨_, _, rfl⟩
  · exact ⟨_, _, rfl⟩

/-- The second unit of a pair is spelled by an escape of its own. -/
theorem Spelling.exists_of_low {us : List Nat} {cs : List Char} (h : Spelling us cs) {w : Nat}
    {vs : List Nat} (hus : us = w :: vs) (hw : isLowSurrogate w = true) :
    ∃ ds cs', cs = '\\' :: 'u' :: (ds ++ cs') ∧ hexValue? ds = some w ∧ Spelling vs cs' := by
  have hunits : ∀ c (us' : List Nat), units c ++ us' ≠ w :: vs := by
    intro c us' hc
    obtain ⟨u, us, hu⟩ := exists_units_eq_cons c
    rw [hu, List.cons_append] at hc
    obtain ⟨rfl, -⟩ := List.cons.inj hc
    rw [isLowSurrogate_head_units hu] at hw
    cases hw
  cases h with
  | nil => cases hus
  | plain => exact absurd hus (hunits _ _)
  | escape he h =>
    cases he with
    | short => exact absurd hus (hunits _ _)
    | unit hn =>
      obtain ⟨rfl, rfl⟩ := List.cons.inj hus
      exact ⟨_, _, rfl, hn, h⟩

theorem stringTail_escape {cs rest : List Char} {c : Char} (h : escape cs = .ok (c, rest)) :
    stringTail ('\\' :: cs) =
      match stringTail rest with
      | .error e => .error e
      | .ok (ds, rest') => .ok (c :: ds, rest') := by
  rw [stringTail, if_neg (by decide), if_pos rfl]
  split
  · rename_i he
    rw [h] at he
    cases he
  · rename_i he
    rw [h] at he
    cases he
    rfl

theorem escape_short {e c : Char} (h : (e, c) ∈ shortEscapes) (rest : List Char) :
    escape (e :: rest) = .ok (c, rest) := by
  simp [escape, ne_u_of_mem_shortEscapes h, shortEscape?_eq_some_iff.2 h]

theorem escape_unit {ds : List Char} {n : Nat} (h : hexValue? ds = some n)
    (hh : isHighSurrogate n = false) (hl : isLowSurrogate n = false) (rest : List Char) :
    escape ('u' :: (ds ++ rest)) = .ok (Char.ofNat n, rest) := by
  have hn : hexUnit (ds ++ rest) = .ok (n, rest) := hexUnit_eq_ok_iff.2 ⟨ds, rfl, h⟩
  simp [escape, unicodeEscape, hn, hh, hl]

theorem escape_pair {ds ds' : List Char} {n m : Nat} (h : hexValue? ds = some n)
    (h' : hexValue? ds' = some m) (hn : isHighSurrogate n = true) (hm : isLowSurrogate m = true)
    (hl : isLowSurrogate n = false) (rest : List Char) :
    escape ('u' :: (ds ++ '\\' :: 'u' :: (ds' ++ rest))) =
      .ok (Char.ofNat (0x10000 + (n - 0xD800) * 0x400 + (m - 0xDC00)), rest) := by
  have hunit : hexUnit (ds ++ '\\' :: 'u' :: (ds' ++ rest)) =
      .ok (n, '\\' :: 'u' :: (ds' ++ rest)) := hexUnit_eq_ok_iff.2 ⟨ds, rfl, h⟩
  have hlow : lowSurrogate ('\\' :: 'u' :: (ds' ++ rest)) = .ok (m, rest) :=
    lowSurrogate_eq_ok_iff.2 ⟨ds', rfl, h', hm⟩
  simp [escape, unicodeEscape, hunit, hn, hl, hlow]

theorem stringTail_of_spelling {us : List Nat} {body ds : List Char} (hs : Spelling us body)
    (ht : text? us = some ds) (rest : List Char) :
    stringTail (body ++ '"' :: rest) = .ok (ds, rest) := by
  -- a pair takes two escapes at once, so the induction is on the length of the literal
  induction hn : body.length using Nat.strongRecOn generalizing us body ds with
  | ind n ih =>
    cases hs with
    | nil =>
      cases ht
      rw [List.nil_append, stringTail, if_pos rfl]
    | @plain c us cs hq hb hc hs =>
      rw [text?_units_append] at ht
      obtain ⟨ds', ht', rfl⟩ := Option.map_eq_some_iff.1 ht
      have := ih _ (by simp only [← hn, List.length_cons]; omega) hs ht' rfl
      rw [List.cons_append, stringTail]
      simp [hq, hb, hc, this]
    | @escape us vs e cs he hs =>
      rw [List.cons_append, List.append_assoc]
      cases he with
      | @short e c h =>
        rw [text?_units_append] at ht
        obtain ⟨ds', ht', rfl⟩ := Option.map_eq_some_iff.1 ht
        rw [List.singleton_append, stringTail_escape (escape_short h _),
          ih _ (by simp only [← hn, List.length_cons, List.length_append]; omega) hs ht' rfl]
      | @unit es n h =>
        rw [List.singleton_append] at ht
        cases hl : isLowSurrogate n with
        | true =>
          rw [text?_low hl] at ht
          cases ht
        | false =>
          cases hh : isHighSurrogate n with
          | false =>
            rw [text?_unit hh hl] at ht
            obtain ⟨ds', ht', rfl⟩ := Option.map_eq_some_iff.1 ht
            rw [List.cons_append, stringTail_escape (escape_unit h hh hl _),
              ih _ (by simp only [← hn, List.length_cons, List.length_append]; omega) hs ht' rfl]
          | true =>
            obtain ⟨w, vs, rfl, hw⟩ := exists_of_text?_high hh ht
            obtain ⟨es', cs', rfl, h', hs⟩ := hs.exists_of_low rfl hw
            rw [text?_pair hh hw] at ht
            obtain ⟨ds', ht', rfl⟩ := Option.map_eq_some_iff.1 ht
            rw [List.cons_append, List.cons_append, List.cons_append, List.append_assoc,
              stringTail_escape (escape_pair h h' hh hw hl _),
              ih _ (by simp only [← hn, List.length_cons, List.length_append]; omega) hs ht' rfl]

theorem stringTail_eq_ok_iff {cs ds rest : List Char} :
    stringTail cs = .ok (ds, rest) ↔
      ∃ us body, Spelling us body ∧ cs = body ++ '"' :: rest ∧ text? us = some ds := by
  constructor
  · exact exists_of_stringTail
  · rintro ⟨us, body, hs, rfl, ht⟩
    exact stringTail_of_spelling hs ht rest

/-! ### Numbers -/

/-- The text does not go on with a number that stands in front of it. -/
def Stops (cs : List Char) : Prop :=
  ∀ c ∈ cs.head?, isDigit c = false ∧ c ≠ '.' ∧ c ≠ 'e' ∧ c ≠ 'E'

theorem isDigits_takeWhile {c : Char} {cs : List Char} (hc : isDigit c = true) :
    IsDigits (spanDigits (c :: cs)).1 := by
  refine ⟨?_, fun d hd => List.mem_takeWhile_imp hd⟩
  simp [spanDigits, hc]

theorem spanDigits_eq (cs : List Char) : cs = (spanDigits cs).1 ++ (spanDigits cs).2 :=
  List.takeWhile_append_dropWhile.symm

theorem spanDigits_append {ds rest : List Char} (hd : ∀ d ∈ ds, isDigit d = true)
    (hr : ∀ c ∈ rest.head?, isDigit c = false) : spanDigits (ds ++ rest) = (ds, rest) := by
  unfold spanDigits
  rw [List.takeWhile_append_of_pos hd, List.dropWhile_append_of_pos hd]
  cases rest with
  | nil => simp
  | cons c rest =>
    have hc : isDigit c = false := hr c rfl
    simp [hc]

namespace Numeral

variable {atEnd : Cause} {cs rest ds p q : List Char} {power : Option (Bool × List Char)}

theorem exists_of_takeWhole (h : takeWhole atEnd cs = .ok (ds, rest)) :
    IsWhole ds ∧ cs = ds ++ rest := by
  unfold takeWhole at h
  have hzero : IsWhole ['0'] := ⟨⟨by simp, by simp [isDigit]⟩, fun _ => rfl⟩
  split at h
  · cases h
  · rename_i c cs
    split at h
    · rename_i hc
      subst hc
      split at h
      · cases h
        exact ⟨hzero, rfl⟩
      · split at h
        · cases h
        · cases h
          exact ⟨hzero, rfl⟩
    · rename_i hc
      split at h
      · rename_i hd
        cases h
        refine ⟨⟨isDigits_takeWhile hd, ?_⟩, spanDigits_eq _⟩
        intro h0
        rw [List.takeWhile_cons, if_pos hd, List.head?_cons] at h0
        exact absurd (Option.some.inj h0) hc
      · cases h

theorem takeWhole_append (h : IsWhole ds) (hr : ∀ c ∈ rest.head?, isDigit c = false) :
    takeWhole atEnd (ds ++ rest) = .ok (ds, rest) := by
  obtain ⟨d, ds', rfl, hd⟩ := h.1.exists_eq_cons
  have hspan := spanDigits_append h.1.2 hr
  rw [List.cons_append] at hspan ⊢
  unfold takeWhole
  by_cases h0 : d = '0'
  · subst h0
    obtain ⟨-, rfl⟩ := List.cons.inj (h.2 rfl)
    cases rest with
    | nil => rfl
    | cons c rest =>
      have hc : isDigit c = false := hr c rfl
      simp [hc]
  · simp only [h0, hd, hspan, if_true, if_false]

theorem exists_of_takePlaces (h : takePlaces atEnd cs = .ok (ds, rest)) :
    ∃ p, PlacesSpelled ds p ∧ cs = p ++ rest := by
  unfold takePlaces at h
  split at h
  · cases h
    exact ⟨[], .none, rfl⟩
  · split at h
    · rename_i hc
      subst hc
      split at h
      · cases h
      · split at h
        · rename_i hd
          cases h
          exact ⟨_, .some (isDigits_takeWhile hd), congrArg ('.' :: ·) (spanDigits_eq _)⟩
        · cases h
    · cases h
      exact ⟨[], .none, rfl⟩

theorem takePlaces_append (h : PlacesSpelled ds p)
    (hr : ∀ c ∈ rest.head?, isDigit c = false ∧ c ≠ '.') :
    takePlaces atEnd (p ++ rest) = .ok (ds, rest) := by
  cases h with
  | none =>
    cases rest with
    | nil => rfl
    | cons c rest =>
      have hc : c ≠ '.' := (hr c rfl).2
      simp [takePlaces, hc]
  | some h =>
    have hspan := spanDigits_append h.2 fun c hc => (hr c hc).1
    obtain ⟨d, ds', rfl, hd⟩ := h.exists_eq_cons
    rw [List.cons_append] at hspan
    simp [takePlaces, hd, hspan]

theorem exists_of_takeSign (cs : List Char) :
    ∃ sign, SignSpelled (takeSign cs).1 sign ∧ cs = sign ++ (takeSign cs).2 := by
  unfold takeSign
  split
  · exact ⟨[], .none, rfl⟩
  · split
    · rename_i hc
      exact ⟨['+'], .plus, by simp [hc]⟩
    · split
      · rename_i hc
        exact ⟨['-'], .minus, by simp [hc]⟩
      · exact ⟨[], .none, rfl⟩

theorem takeSign_append {down : Bool} {sign : List Char} (h : SignSpelled down sign)
    (hd : IsDigits ds) (rest : List Char) :
    takeSign (sign ++ (ds ++ rest)) = (down, ds ++ rest) := by
  cases h with
  | none =>
    obtain ⟨d, ds', rfl, hdigit⟩ := hd.exists_eq_cons
    have hplus : d ≠ '+' := by
      rintro rfl
      cases hdigit
    have hminus : d ≠ '-' := by
      rintro rfl
      cases hdigit
    simp [takeSign, hplus, hminus]
  | plus => rfl
  | minus => rfl

theorem exists_of_takePower (h : takePower atEnd cs = .ok (power, rest)) :
    ∃ q, PowerSpelled power q ∧ cs = q ++ rest := by
  unfold takePower at h
  split at h
  · cases h
    exact ⟨[], .none, rfl⟩
  · rename_i e cs
    split at h
    · rename_i he
      obtain ⟨sign, hs, hcs⟩ := exists_of_takeSign cs
      split at h
      · cases h
      · rename_i hsign
        split at h
        · rename_i hd
          cases h
          refine ⟨_, .some he hs (isDigits_takeWhile hd), ?_⟩
          rw [hsign, spanDigits_eq (_ :: _)] at hcs
          rw [hcs, List.cons_append, List.append_assoc]
        · cases h
    · cases h
      exact ⟨[], .none, rfl⟩

theorem takePower_append (h : PowerSpelled power q)
    (hr : ∀ c ∈ rest.head?, isDigit c = false ∧ c ≠ 'e' ∧ c ≠ 'E') :
    takePower atEnd (q ++ rest) = .ok (power, rest) := by
  cases h with
  | none =>
    cases rest with
    | nil => rfl
    | cons c rest =>
      obtain ⟨-, he, hE⟩ := hr c rfl
      simp [takePower, he, hE]
  | @some e down sign ds he hs hd =>
    have hsign := takeSign_append hs hd rest
    have hspan := spanDigits_append hd.2 fun c hc => (hr c hc).1
    obtain ⟨d, ds', rfl, hdigit⟩ := hd.exists_eq_cons
    rw [List.cons_append] at hspan hsign
    simp [takePower, he, hsign, hdigit, hspan]

theorem exists_of_takeMinus (cs : List Char) :
    cs = (if (takeMinus cs).1 then ['-'] else []) ++ (takeMinus cs).2 := by
  unfold takeMinus
  split
  · rfl
  · split
    · rename_i hc
      simp [hc]
    · rfl

theorem exists_of_read {x : Numeral} (h : read atEnd cs = .ok (x, rest)) :
    ∃ w, x.Spelled w ∧ cs = w ++ rest := by
  unfold read at h
  split at h
  · cases h
  · rename_i hwhole
    split at h
    · cases h
    · rename_i hplaces
      split at h
      · cases h
      · rename_i hpower
        cases h
        obtain ⟨hw, hcs⟩ := exists_of_takeWhole hwhole
        obtain ⟨p, hp, rfl⟩ := exists_of_takePlaces hplaces
        obtain ⟨q, hq, rfl⟩ := exists_of_takePower hpower
        refine ⟨_, .mk hw hp hq, ?_⟩
        rw [List.append_assoc, List.append_assoc, List.append_assoc, ← hcs]
        exact exists_of_takeMinus cs

theorem read_append {x : Numeral} {w : List Char} (h : x.Spelled w) (hr : Stops rest) :
    read atEnd (w ++ rest) = .ok (x, rest) := by
  cases h with
  | @mk negative whole places p q power hw hp hq =>
    -- what stands behind the whole digits and behind the places starts with no digit
    have hq' : ∀ c ∈ (q ++ rest).head?, isDigit c = false ∧ c ≠ '.' := by
      intro c hc
      cases hq with
      | none => exact ⟨(hr c hc).1, (hr c hc).2.1⟩
      | some he hs h =>
        cases hc
        rcases he with rfl | rfl <;> exact ⟨rfl, by decide⟩
    have hp' : ∀ c ∈ (p ++ (q ++ rest)).head?, isDigit c = false := by
      intro c hc
      cases hp with
      | none => exact (hq' c hc).1
      | some h =>
        cases hc
        rfl
    have hminus : takeMinus ((if negative then ['-'] else []) ++ (whole ++ (p ++ (q ++ rest)))) =
        (negative, whole ++ (p ++ (q ++ rest))) := by
      cases negative with
      | true => rfl
      | false =>
        obtain ⟨d, ds, rfl, hd⟩ := hw.1.exists_eq_cons
        have hne : d ≠ '-' := by
          rintro rfl
          cases hd
        simp [takeMinus, hne]
    have hpower : takePower atEnd (q ++ rest) = .ok (power, rest) :=
      takePower_append hq fun c hc => ⟨(hr c hc).1, (hr c hc).2.2⟩
    simp only [List.append_assoc, read, hminus, takeWhole_append hw hp', takePlaces_append hp hq',
      hpower]

end Numeral

end TileCatalog.Json
