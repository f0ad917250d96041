import TileCatalog.Asset.Gallery
import TileCatalog.Proofs.ManifestLoading
import TileCatalog.Proofs.RoundTrip

/-!
# Truncated manifests

What is left of a written manifest after a cut is never taken for another manifest: wherever the cut
falls, the reader runs into the end of the text and says so (`EndsEarly`).

`Reader.Takes r w a` says that `r` reads `a` from `w`, whatever stands behind it, and runs into the
end of every proper prefix of `w`. The two go together, since in front of a cut in one item stand
all the items before it, and the reader has to come through these first.
-/

namespace TileCatalog.Json

variable {α β δ : Type}

/-! ### Cuts -/

/-- `p` is what a cut leaves of `w`: a prefix of it, and not all of it. -/
def Cut (p w : List Char) : Prop := p <+: w ∧ p ≠ w

namespace Cut

variable {p u v w : List Char} {c : Char}

theorem not_nil : ¬ Cut p [] := fun h => h.2 (List.prefix_nil.1 h.1)

theorem cons_iff : Cut p (c :: w) ↔ p = [] ∨ ∃ p', p = c :: p' ∧ Cut p' w := by
  cases p with
  | nil => simp [Cut]
  | cons d p =>
    simp only [Cut, List.cons_prefix_cons, ne_eq, List.cons.injEq, reduceCtorEq, false_or]
    constructor
    · rintro ⟨⟨rfl, hp⟩, hne⟩
      exact ⟨p, ⟨rfl, rfl⟩, hp, fun h => hne ⟨rfl, h⟩⟩
    · rintro ⟨p', ⟨rfl, rfl⟩, hp, hne⟩
      exact ⟨⟨rfl, hp⟩, fun h => hne h.2⟩

theorem singleton (h : Cut p [c]) : p = [] := by
  rcases cons_iff.1 h with hp | ⟨p', -, h'⟩
  · exact hp
  · exact absurd h' not_nil

/-- A cut falls in the first part of a text or in the second. -/
theorem append (h : Cut p (u ++ v)) : Cut p u ∨ ∃ p', p = u ++ p' ∧ Cut p' v := by
  induction u generalizing p with
  | nil => exact .inr ⟨p, rfl, h⟩
  | cons c u ih =>
    rcases cons_iff.1 h with rfl | ⟨p', rfl, h'⟩
    · exact .inl (cons_iff.2 (.inl rfl))
    · rcases ih h' with hu | ⟨p'', rfl, hv⟩
      · exact .inl (cons_iff.2 (.inr ⟨p', rfl, hu⟩))
      · exact .inr ⟨p'', rfl, hv⟩

theorem byteSize_lt (h : Cut p w) : byteSize p < byteSize w := by
  induction w generalizing p with
  | nil => exact absurd h not_nil
  | cons c w ih =>
    have hc := c.utf8Size_pos
    rcases cons_iff.1 h with rfl | ⟨p', rfl, h'⟩
    · rw [byteSize, byteSize]
      omega
    · have := ih h'
      rw [byteSize, byteSize]
      omega

end Cut

/-- The end of the text was met too early. -/
def EndsEarly (o : Except Fault β) : Prop := ∃ e, o = .error e ∧ e.cause.category = .eof

/-! ### Words and strings -/

theorem endsEarly_takeWord {word p : List Char} (h : Cut p word) : EndsEarly (takeWord word p) := by
  induction word generalizing p with
  | nil => exact absurd h Cut.not_nil
  | cons w word ih =>
    rcases Cut.cons_iff.1 h with rfl | ⟨p', rfl, h'⟩
    · exact ⟨_, rfl, rfl⟩
    · simpa [takeWord] using ih h'

theorem utf8Size_hexChar (n : Nat) : (hexChar n).utf8Size = 1 := by
  have h : ∀ k < 16, (Nat.digitChar k).utf8Size = 1 := by decide
  exact h _ (Nat.mod_lt n (by decide))

theorem endsEarly_hexUnit {p : List Char} (h : byteSize p < 4) : EndsEarly (hexUnit p) := by
  refine ⟨.past .eofInString 4 p, ?_, rfl⟩
  unfold hexUnit
  rw [if_pos h]

theorem endsEarly_unicodeEscape {p : List Char} (h : byteSize p < 4) :
    EndsEarly (unicodeEscape p) := by
  obtain ⟨e, he, hc⟩ := endsEarly_hexUnit h
  exact ⟨e, by rw [unicodeEscape, he], hc⟩

theorem escape_control {c : Char} (h : c < ' ') (rest : List Char) :
    escape ('u' :: '0' :: '0' :: hexChar (c.toNat / 16) :: hexChar c.toNat :: rest) =
      .ok (c, rest) := by
  have hn := toNat_lt_of_lt_blank h
  have hhigh : isHighSurrogate c.toNat = false := by
    simp only [isHighSurrogate, Bool.and_eq_false_iff, decide_eq_false_iff_not]
    omega
  have hlow : isLowSurrogate c.toNat = false := by
    simp only [isLowSurrogate, Bool.and_eq_false_iff, decide_eq_false_iff_not]
    omega
  have := escape_unit (hexValue?_control hn) hhigh hlow rest
  rwa [Char.ofNat_toNat] at this

/-- What follows the backslash in a written character, if there is one, is read as a whole or ends
early. -/
theorem writeChar_eq_or (c : Char) :
    (writeChar c = [c] ∧ c ≠ '"' ∧ c ≠ '\\' ∧ isControl c = false) ∨
      ∃ e, writeChar c = '\\' :: e ∧ (∀ rest, escape (e ++ rest) = .ok (c, rest)) ∧
        ∀ p, Cut p e → EndsEarly (escape p) := by
  rcases writeChar_cases c with ⟨e, he, hw⟩ | ⟨hc, hw⟩ | ⟨hquote, hback, hc, hw⟩
  · refine .inr ⟨[e], hw, escape_short he, fun p hp => ?_⟩
    rw [hp.singleton]
    exact ⟨_, rfl, rfl⟩
  · refine .inr ⟨_, hw, escape_control hc, fun p hp => ?_⟩
    rcases Cut.cons_iff.1 hp with rfl | ⟨p', rfl, hp'⟩
    · exact ⟨_, rfl, rfl⟩
    · have hlt := hp'.byteSize_lt
      have hsize : byteSize ['0', '0', hexChar (c.toNat / 16), hexChar c.toNat] = 4 := by
        simp only [byteSize, utf8Size_hexChar]
        rfl
      exact endsEarly_unicodeEscape (hsize ▸ hlt)
  · exact .inl ⟨hw, hquote, hback, hc⟩

theorem stringTail_plain {c : Char} (hquote : c ≠ '"') (hback : c ≠ '\\')
    (hc : isControl c = false) (rest : List Char) :
    stringTail (c :: rest) =
      match stringTail rest with
      | .error e => .error e
      | .ok (ds, rest') => .ok (c :: ds, rest') := by
  cases hrest : stringTail rest with
  | error e => simp [stringTail, hquote, hback, hc, hrest]
  | ok p => simp [stringTail, hquote, hback, hc, hrest]

theorem stringTail_written (s : String) (rest : List Char) :
    stringTail (s.toList.flatMap writeChar ++ '"' :: rest) = .ok (s.toList, rest) :=
  stringTail_of_spelling (spelling_writeChar s.toList) (text?_unitsOf s) rest

/-- A string that is cut anywhere behind its opening quote ends early. -/
theorem endsEarly_stringTail {cs p : List Char} (h : Cut p (cs.flatMap writeChar ++ ['"'])) :
    EndsEarly (stringTail p) := by
  have hnil : EndsEarly (stringTail []) := ⟨_, by rw [stringTail], rfl⟩
  induction cs generalizing p with
  | nil =>
    rw [h.singleton]
    exact hnil
  | cons c cs ih =>
    rw [List.flatMap_cons, List.append_assoc] at h
    rcases writeChar_eq_or c with ⟨hw, hquote, hback, hc⟩ | ⟨e, hw, hwhole, hcut⟩
    · rw [hw] at h
      rcases Cut.cons_iff.1 h with rfl | ⟨p', rfl, h'⟩
      · exact hnil
      · obtain ⟨f, hf, hcause⟩ := ih h'
        exact ⟨f, by rw [stringTail_plain hquote hback hc, hf], hcause⟩
    · rw [hw] at h
      rcases Cut.cons_iff.1 h with rfl | ⟨p', rfl, h'⟩
      · exact hnil
      · rcases h'.append with he | ⟨p'', rfl, hrest⟩
        · obtain ⟨f, hf, hcause⟩ := hcut p' he
          refine ⟨f, ?_, hcause⟩
          rw [stringTail]
          grind
        · obtain ⟨f, hf, hcause⟩ := ih hrest
          exact ⟨f, by rw [stringTail_escape (hwhole p''), hf], hcause⟩

/-! ### Readers -/

/-- The reader takes `a` from `w`, whatever stands behind, and a cut anywhere in `w` makes it end
early. -/
structure Reader.Takes (r : Reader α) (w : List Char) (a : α) : Prop where
  /-- The text goes on with neither a blank nor the end of a list. -/
  opens : ∃ c w', w = c :: w' ∧ isBlank c = false ∧ c ≠ ']'
  whole : ∀ rest, r.run (w ++ rest) = .ok (a, rest)
  cut : ∀ {p}, Cut p w → EndsEarly (r.run p)

namespace Reader.Takes

variable {r : Reader α} {w : List Char} {a : α}

theorem nil (T : r.Takes w a) : EndsEarly (r.run []) := by
  obtain ⟨c, w', rfl, -, -⟩ := T.opens
  exact T.cut (Cut.cons_iff.2 (.inl rfl))

theorem map (T : r.Takes w a) (f : α → β) : (r.map f).Takes w (f a) where
  opens := T.opens
  whole rest := by
    show mapRun f r (w ++ rest) = _
    rw [mapRun, T.whole]
  cut hp := by
    obtain ⟨e, he, hc⟩ := T.cut hp
    refine ⟨e, ?_, hc⟩
    show mapRun f r _ = _
    rw [mapRun, he]

protected theorem text (s : String) : Reader.text.Takes (writeString s) s where
  opens := ⟨'"', _, rfl, rfl, by decide⟩
  whole rest := by
    have hw : writeString s ++ rest = '"' :: (s.toList.flatMap writeChar ++ '"' :: rest) := by
      simp [writeString]
    rw [hw]
    show textRun ('"' :: (s.toList.flatMap writeChar ++ '"' :: rest)) = _
    simp [textRun, skipBlanks_cons, isBlank, stringTail_written]
  cut {p} hp := by
    rw [writeString, List.cons_append] at hp
    show EndsEarly (textRun p)
    rcases Cut.cons_iff.1 hp with rfl | ⟨p', rfl, hp'⟩
    · exact ⟨_, rfl, rfl⟩
    · obtain ⟨e, he, hc⟩ := endsEarly_stringTail hp'
      exact ⟨e, by simp [textRun, skipBlanks_cons, isBlank, he], hc⟩

/-- A reader of optional values takes `null` for none. -/
theorem optional_none (hnil : EndsEarly (r.run [])) :
    r.optional.Takes ['n', 'u', 'l', 'l'] none where
  opens := ⟨'n', _, rfl, rfl, by decide⟩
  whole rest := by
    have hw : takeWord ['u', 'l', 'l'] ('u' :: 'l' :: 'l' :: rest) = .ok rest :=
      takeWord_eq_ok_iff.2 rfl
    show optionalRun r ('n' :: 'u' :: 'l' :: 'l' :: rest) = _
    rw [optionalRun, skipBlanks_cons rfl]
    simp [hw, Except.map]
  cut {p} hp := by
    show EndsEarly (optionalRun r p)
    rcases Cut.cons_iff.1 hp with rfl | ⟨p', rfl, hp'⟩
    · obtain ⟨e, he, hc⟩ := hnil
      refine ⟨e, ?_, hc⟩
      show mapRun some r [] = _
      rw [mapRun, he]
    · obtain ⟨e, he, hc⟩ := endsEarly_takeWord hp'
      refine ⟨e, ?_, hc⟩
      rw [optionalRun, skipBlanks_cons rfl]
      simp [he, Except.map]

/-- A reader of optional values takes what the reader of the values takes, if it does not begin as
`null` does. -/
theorem optional_some (T : r.Takes w a) (hn : w.head? ≠ some 'n') :
    r.optional.Takes w (some a) where
  opens := T.opens
  whole rest := by
    obtain ⟨c, w', rfl, hb, -⟩ := T.opens
    have hc : c ≠ 'n' := fun h => hn (congrArg some h)
    show optionalRun r (c :: (w' ++ rest)) = _
    simp only [optionalRun, skipBlanks_cons hb, hc, if_false]
    exact (T.map some).whole rest
  cut {p} hp := by
    obtain ⟨c, w', rfl, hb, -⟩ := T.opens
    have hc : c ≠ 'n' := fun h => hn (congrArg some h)
    have hcut := (T.map some).cut hp
    show EndsEarly (optionalRun r p)
    rcases Cut.cons_iff.1 hp with rfl | ⟨p', rfl, -⟩
    · exact hcut
    · simpa only [optionalRun, skipBlanks_cons hb, hc, if_false] using hcut

theorem option {write : α → List Char} (h : ∀ a, r.Takes (write a) a)
    (hn : ∀ a, (write a).head? ≠ some 'n') (hnil : EndsEarly (r.run [])) (o : Option α) :
    r.optional.Takes (writeOption write o) o := by
  cases o with
  | none => exact optional_none hnil
  | some a => exact (h a).optional_some (hn a)

end Reader.Takes

/-! ### Lists -/

/-- What stands in front of an item: a comma, unless it is the first. -/
def leadingText (first : Bool) : List Char := if first then [] else [',']

theorem Cut.leadingText {p : List Char} {first : Bool} (h : Cut p (leadingText first)) :
    p = [] := by
  cases first with
  | true => exact absurd h Cut.not_nil
  | false => exact h.singleton

/-- Items written in a row; `first` if nothing stands before them. -/
def rowText (write : α → List Char) : Bool → List α → List Char
  | _, [] => []
  | first, a :: as => leadingText first ++ (write a ++ rowText write false as)

theorem writeItems_eq_rowText (write : α → List Char) (as : List α) :
    writeItems write as = rowText write true as := by
  match as with
  | [] => rfl
  | [a] => simp [writeItems, rowText, leadingText]
  | a :: b :: as =>
    have ih := writeItems_eq_rowText write (b :: as)
    simp only [writeItems, ih, rowText, leadingText, if_true, Bool.false_eq_true, if_false,
      List.nil_append, List.singleton_append]

theorem endsEarly_nextItem_nil (first : Bool) : EndsEarly (nextItem first []) := ⟨_, rfl, rfl⟩

theorem nextItem_leading (first : Bool) {c : Char} (hb : isBlank c = false) (hc : c ≠ ']')
    (cs : List Char) : nextItem first (leadingText first ++ c :: cs) = .ok (true, c :: cs) := by
  cases first with
  | true => simp [leadingText, nextItem, skipBlanks_cons hb, hc]
  | false => simp [leadingText, nextItem, skipBlanks_cons hb, skipBlanks_cons, isBlank, hc]

theorem endsEarly_nextItem_leading (first : Bool) :
    EndsEarly (nextItem first (leadingText first)) := by
  cases first with
  | true => exact endsEarly_nextItem_nil true
  | false => exact ⟨_, rfl, rfl⟩

section Items

variable {item : Reader α} {write : α → List Char}

theorem endsEarly_readItems_next {first : Bool} {cs : List Char}
    (h : EndsEarly (nextItem first cs)) : EndsEarly (readItems item first cs) := by
  obtain ⟨e, he, hc⟩ := h
  refine ⟨e, ?_, hc⟩
  rw [readItems]
  grind

theorem endsEarly_readItems_item {first : Bool} {cs cs₁ : List Char}
    (h : nextItem first cs = .ok (true, cs₁)) (hi : EndsEarly (item.run cs₁)) :
    EndsEarly (readItems item first cs) := by
  obtain ⟨e, he, hc⟩ := hi
  refine ⟨e, ?_, hc⟩
  rw [readItems]
  grind

theorem endsEarly_readItems_rest {first : Bool} {cs cs₁ cs₂ : List Char} {a : α}
    (h : nextItem first cs = .ok (true, cs₁)) (ha : item.run cs₁ = .ok (a, cs₂))
    (hr : EndsEarly (readItems item false cs₂)) : EndsEarly (readItems item first cs) := by
  obtain ⟨e, he, hc⟩ := hr
  refine ⟨e, ?_, hc⟩
  rw [readItems]
  grind

theorem readItems_rowText {as : List α} (h : ∀ a ∈ as, item.Takes (write a) a) (first : Bool)
    (rest : List Char) :
    readItems item first (rowText write first as ++ ']' :: rest) = .ok (as, rest) := by
  induction as generalizing first with
  | nil => exact readItems_close (nextItem_close first (skipBlanks_cons rfl rest))
  | cons a as ih =>
    obtain ⟨ha, has⟩ := List.forall_mem_cons.1 h
    obtain ⟨c, w, hw, hb, hc⟩ := ha.opens
    have hnext := nextItem_leading first hb hc (w ++ (rowText write false as ++ ']' :: rest))
    have hitem := ha.whole (rowText write false as ++ ']' :: rest)
    rw [hw] at hitem
    rw [rowText, List.append_assoc, List.append_assoc, hw]
    exact readItems_item hnext hitem (ih has false)

theorem endsEarly_readItems {as : List α} (h : ∀ a ∈ as, item.Takes (write a) a) {first : Bool}
    {p : List Char} (hp : Cut p (rowText write first as ++ [']'])) :
    EndsEarly (readItems item first p) := by
  induction as generalizing first p with
  | nil =>
    rw [hp.singleton]
    exact endsEarly_readItems_next (endsEarly_nextItem_nil first)
  | cons a as ih =>
    obtain ⟨ha, has⟩ := List.forall_mem_cons.1 h
    obtain ⟨c, w, hw, hb, hc⟩ := ha.opens
    rw [rowText, List.append_assoc, List.append_assoc] at hp
    rcases hp.append with hlead | ⟨p₁, rfl, hp₁⟩
    · rw [hlead.leadingText]
      exact endsEarly_readItems_next (endsEarly_nextItem_nil first)
    · rcases hp₁.append with hcut | ⟨p₂, rfl, hp₂⟩
      · have hitem := ha.cut hcut
        rw [hw] at hcut
        rcases Cut.cons_iff.1 hcut with rfl | ⟨p', rfl, -⟩
        · rw [List.append_nil]
          exact endsEarly_readItems_next (endsEarly_nextItem_leading first)
        · exact endsEarly_readItems_item (nextItem_leading first hb hc p') hitem
      · have hwhole := ha.whole p₂
        have hrest := ih has hp₂
        rw [hw] at hwhole ⊢
        exact endsEarly_readItems_rest (nextItem_leading first hb hc (w ++ p₂)) hwhole hrest

theorem Reader.Takes.list {as : List α} (h : ∀ a ∈ as, item.Takes (write a) a) :
    item.list.Takes (writeList write as) as where
  opens := ⟨'[', _, rfl, rfl, by decide⟩
  whole rest := by
    have hw : writeList write as ++ rest = '[' :: (rowText write true as ++ ']' :: rest) := by
      simp [writeList, writeItems_eq_rowText]
    rw [hw]
    show listRun item ('[' :: (rowText write true as ++ ']' :: rest)) = _
    simpa [listRun, skipBlanks_cons, isBlank] using readItems_rowText h true rest
  cut {p} hp := by
    rw [writeList, writeItems_eq_rowText, List.cons_append] at hp
    show EndsEarly (listRun item p)
    rcases Cut.cons_iff.1 hp with rfl | ⟨p', rfl, hp'⟩
    · exact ⟨_, rfl, rfl⟩
    · simpa [listRun, skipBlanks_cons, isBlank] using endsEarly_readItems h hp'

end Items

/-! ### Records -/

theorem endsEarly_nextKey_nil (first : Bool) : EndsEarly (nextKey first []) := ⟨_, rfl, rfl⟩

theorem nextKey_leading (first : Bool) (cs : List Char) :
    nextKey first (leadingText first ++ '"' :: cs) = .ok (true, cs) := by
  cases first with
  | true => simp [leadingText, nextKey, skipBlanks_cons, isBlank]
  | false => simp [leadingText, nextKey, skipBlanks_cons, isBlank]

theorem endsEarly_nextKey_leading (first : Bool) :
    EndsEarly (nextKey first (leadingText first)) := by
  cases first with
  | true => exact endsEarly_nextKey_nil true
  | false => exact ⟨_, rfl, rfl⟩

section Records

variable {members : List (Member δ)} {d d' : δ} {m : Member δ} {key : String} {w : List Char}

/-- The members written in `ws` are read into the draft `d` one after another and make `d'` of it.
None of them was met before. -/
inductive Fills (members : List (Member δ)) : δ → List (List Char) → δ → Prop
  | nil (d : δ) : Fills members d [] d
  | cons {d d' d'' : δ} {m : Member δ} {key : String} {w : List Char} {ws : List (List Char)}
      (hm : members.find? (·.key == key) = some m) (hset : m.isSet d = false)
      (T : (m.read d).Takes w d') (F : Fills members d' ws d'') :
      Fills members d (writeMember key w :: ws) d''

theorem readMember_colon (hm : members.find? (·.key == key) = some m) (hset : m.isSet d = false)
    (cs : List Char) : readMember members d key (':' :: cs) = (m.read d).run cs := by
  have hcolon : takeColon (':' :: cs) = .ok cs := takeColon_eq_ok_iff.2 (skipBlanks_cons rfl cs)
  simp [readMember, hm, hset, hcolon]

theorem endsEarly_readMember (hm : members.find? (·.key == key) = some m)
    (hset : m.isSet d = false) (T : (m.read d).Takes w d') {p : List Char} (hp : Cut p (':' :: w)) :
    EndsEarly (readMember members d key p) := by
  rcases Cut.cons_iff.1 hp with rfl | ⟨p', rfl, hp'⟩
  · refine ⟨.next .eofInObject [], ?_, rfl⟩
    have hcolon : takeColon [] = .error (.next .eofInObject []) := rfl
    simp [readMember, hm, hset, hcolon]
  · rw [readMember_colon hm hset]
    exact T.cut hp'

theorem endsEarly_readMembers_key {first : Bool} {cs : List Char}
    (h : EndsEarly (nextKey first cs)) : EndsEarly (readMembers members first d cs) := by
  obtain ⟨e, he, hc⟩ := h
  refine ⟨e, ?_, hc⟩
  rw [readMembers]
  grind

theorem endsEarly_readMembers_tail {first : Bool} {cs cs₁ : List Char}
    (h : nextKey first cs = .ok (true, cs₁)) (ht : EndsEarly (stringTail cs₁)) :
    EndsEarly (readMembers members first d cs) := by
  obtain ⟨e, he, hc⟩ := ht
  refine ⟨e, ?_, hc⟩
  rw [readMembers]
  grind

theorem endsEarly_readMembers_member {first : Bool} {cs cs₁ cs₂ ks : List Char}
    (h : nextKey first cs = .ok (true, cs₁)) (hk : stringTail cs₁ = .ok (ks, cs₂))
    (hm : EndsEarly (readMember members d (String.ofList ks) cs₂)) :
    EndsEarly (readMembers members first d cs) := by
  obtain ⟨e, he, hc⟩ := hm
  refine ⟨e, ?_, hc⟩
  rw [readMembers]
  grind

theorem rowText_member (first : Bool) (key : String) (w : List Char) (ws : List (List Char))
    (rest : List Char) :
    rowText id first (writeMember key w :: ws) ++ rest =
      leadingText first ++ '"' :: (key.toList.flatMap writeChar ++ ['"'] ++
        (':' :: w ++ (rowText id false ws ++ rest))) := by
  simp [rowText, writeMember, writeString]

theorem stringTail_key (key : String) (rest : List Char) :
    stringTail (key.toList.flatMap writeChar ++ ['"'] ++ rest) = .ok (key.toList, rest) := by
  rw [List.append_assoc]
  exact stringTail_written key rest

theorem readMembers_rowText {ws : List (List Char)} (F : Fills members d ws d') (first : Bool)
    (rest : List Char) :
    readMembers members first d (rowText id first ws ++ '\x7d' :: rest) = .ok (d', rest) := by
  induction F generalizing first with
  | nil d => exact readMembers_close (nextKey_close first (skipBlanks_cons rfl rest))
  | @cons d d₁ d' m key w ws hm hset T F ih =>
    have hmember : readMember members d (String.ofList key.toList)
        (':' :: w ++ (rowText id false ws ++ '\x7d' :: rest)) =
          .ok (d₁, rowText id false ws ++ '\x7d' :: rest) := by
      rw [String.ofList_toList, List.cons_append, readMember_colon hm hset, T.whole]
    rw [rowText_member, readMembers_member (nextKey_leading first _) (stringTail_key key _) hmember]
    exact ih false

/-- An object that is cut in front of its closing brace or before that ends early. -/
theorem endsEarly_readMembers {ws : List (List Char)} (F : Fills members d ws d') {first : Bool}
    {p : List Char} (hp : Cut p (rowText id first ws ++ ['\x7d'])) :
    EndsEarly (readMembers members first d p) := by
  induction F generalizing first p with
  | nil d =>
    rw [hp.singleton]
    exact endsEarly_readMembers_key (endsEarly_nextKey_nil first)
  | @cons d d₁ d' m key w ws hm hset T F ih =>
    rw [rowText_member] at hp
    rcases hp.append with hlead | ⟨p₁, rfl, hp₁⟩
    · rw [hlead.leadingText]
      exact endsEarly_readMembers_key (endsEarly_nextKey_nil first)
    rcases Cut.cons_iff.1 hp₁ with rfl | ⟨p₂, rfl, hp₂⟩
    · rw [List.append_nil]
      exact endsEarly_readMembers_key (endsEarly_nextKey_leading first)
    have hnext := nextKey_leading first p₂
    rcases hp₂.append with hkey | ⟨p₃, rfl, hp₃⟩
    · exact endsEarly_readMembers_tail hnext (endsEarly_stringTail hkey)
    have htail := stringTail_key key p₃
    rcases hp₃.append with hvalue | ⟨p₄, rfl, hp₄⟩
    · refine endsEarly_readMembers_member hnext htail ?_
      rw [String.ofList_toList]
      exact endsEarly_readMember hm hset T hvalue
    · have hmember : readMember members d (String.ofList key.toList) (':' :: w ++ p₄) =
          .ok (d₁, p₄) := by
        rw [String.ofList_toList, List.cons_append, readMember_colon hm hset, T.whole]
      rw [readMembers_member hnext htail hmember]
      exact ih hp₄

end Records

theorem Shape.takes {s : Shape δ α} {d : δ} {a : α} {ws : List (List Char)}
    (F : Fills s.members s.draft ws d) (hd : s.finish d = .ok a) :
    s.reader.Takes (writeObject ws) a where
  opens := ⟨'\x7b', _, rfl, rfl, by decide⟩
  whole rest := by
    have hw : writeObject ws ++ rest = '\x7b' :: (rowText id true ws ++ '\x7d' :: rest) := by
      simp [writeObject, writeItems_eq_rowText]
    have hmembers := readMembers_rowText F true rest
    rw [hw]
    show s.run ('\x7b' :: (rowText id true ws ++ '\x7d' :: rest)) = _
    simp [run, skipBlanks_cons, isBlank, hmembers, conclude, hd]
  cut {p} hp := by
    rw [writeObject, writeItems_eq_rowText, List.cons_append] at hp
    show EndsEarly (s.run p)
    rcases Cut.cons_iff.1 hp with rfl | ⟨p', rfl, hp'⟩
    · exact ⟨_, rfl, rfl⟩
    · obtain ⟨e, he, hc⟩ := endsEarly_readMembers F hp'
      exact ⟨e, by simp [run, skipBlanks_cons, isBlank, he, conclude], hc⟩

theorem Reader.Takes.parse_cut {r : Reader α} {w p : List Char} {a : α} (T : r.Takes w a)
    (hp : Cut p w) : ∃ e, r.parse p = .error e ∧ e.category = .eof := by
  obtain ⟨e, he, hc⟩ := T.cut hp
  exact ⟨.ofFault p e, by rw [parse, he], hc⟩

end TileCatalog.Json

namespace TileCatalog

open Json

/-! ### Manifests -/

namespace GoalSpec

theorem takes (g : GoalSpec) : shape.reader.Takes g.written g := by
  have hurl : Reader.text.optional.Takes (writeOption writeString g.url) g.url :=
    .option .text (fun _ => by simp [writeString]) (Reader.Takes.text "").nil g.url
  exact Shape.takes (.cons rfl rfl (hurl.map _) (.nil _)) rfl

end GoalSpec

namespace TileSpec

theorem takes (t : TileSpec) : shape.reader.Takes t.written t := by
  obtain ⟨name, url, goal⟩ := t
  have hname : Reader.text.optional.Takes (writeOption writeString name) name :=
    .option .text (fun _ => by simp [writeString]) (Reader.Takes.text "").nil name
  have hurl := Reader.Takes.text url
  cases goal with
  | none =>
    exact Shape.takes (.cons rfl rfl (hname.map _) (.cons rfl rfl (hurl.map _) (.nil _))) rfl
  | some g =>
    have hgoal : GoalSpec.shape.reader.optional.Takes g.written (some g) :=
      g.takes.optional_some (by simp [GoalSpec.written, writeObject])
    exact Shape.takes (.cons rfl rfl (hname.map _) (.cons rfl rfl (hurl.map _)
      (.cons rfl rfl (hgoal.map _) (.nil _)))) rfl

end TileSpec

namespace Manifest

theorem takes (m : Manifest) : shape.reader.Takes m.written m := by
  have htiles : TileSpec.shape.reader.list.Takes (writeList TileSpec.written m.tiles) m.tiles :=
    .list fun t _ => t.takes
  exact Shape.takes (.cons rfl rfl (htiles.map _) (.nil _)) rfl

/-- What is left of a written manifest after a cut, be it between any two characters, is refused
because the text ended too early. A file that holds it changes nothing but the log, where an error
is added: the catalog stays as it is, and so does its source, which is asked for nothing. -/
theorem ofText_truncated (m : Manifest) {t : String} (hcut : t.toList <+: m.render.toList)
    (hne : t ≠ m.render) :
    ∃ e, ofText t = .error (.parse e) ∧ e.category = .eof ∧
      ∀ {σ : Type} [ImageSource σ] (s : Session σ) (files : Files) (path : String),
        files.read path = .ok t →
          s.loadManifest files path =
            { s with log := s.log ++ [.manifestFailed path (.parse e)] } := by
  have hw : m.render.toList = m.written := String.toList_ofList
  have hcut : Cut t.toList m.written :=
    ⟨hw ▸ hcut, fun h => hne (String.toList_inj.1 (h.trans hw.symm))⟩
  obtain ⟨e, he, hc⟩ := m.takes.parse_cut hcut
  have htext : ofText t = .error (.parse e) := by
    have hparse : parse t = .error e := he
    rw [ofText, hparse]
  refine ⟨e, htext, hc, fun s files path hread => ?_⟩
  have hload : load files path = .error (.parse e) := by
    rw [load, hread]
    exact htext
  have hhas : files.has path = true := by
    by_contra hno
    rw [Bool.not_eq_true, has_eq_false_iff, hload] at hno
    obtain ⟨_, h, -⟩ := hno
    cases h
  rw [s.loadManifest_error hload, if_pos hhas]
  rfl

/-- A manifest with a tile and its goal is cut in the middle of an escape. -/
theorem ofText_truncated_escape :
    let m : Manifest := ⟨[.withGoal (.named "box" "b.png") "\"\x01.png"]⟩
    let t := "\x7b\"tiles\":[\x7b\"name\":\"box\",\"url\":\"b.png\"," ++
      "\"goal\":\x7b\"url\":\"\\\"\\u00"
    let files : Files := ⟨[("m.json" :: Files.home, .file t.toUTF8)]⟩
    let s := (Session.register ({ source := {} } : Session Gallery) (.named "wall" "w.png")).2
    t.toList <+: m.render.toList ∧ t ≠ m.render ∧ files.read "m.json" = .ok t ∧
      ∃ e, ofText t = .error (.parse e) ∧ e.category = .eof ∧
        s.loadManifest files "m.json" =
          { s with log := s.log ++ [.manifestFailed "m.json" (.parse e)] } := by
  intro m t files s
  have hcut : t.toList <+: m.render.toList := by decide +kernel
  have hne : t ≠ m.render := by decide +kernel
  have hread : files.read "m.json" = .ok t := by decide +kernel
  obtain ⟨e, he, hc, hload⟩ := ofText_truncated m hcut hne
  exact ⟨hcut, hne, hread, e, he, hc, hload s files "m.json" hread⟩

end Manifest

end TileCatalog
