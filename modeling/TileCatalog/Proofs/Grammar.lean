import Mathlib.Data.List.DropRight
import TileCatalog.Json.Skip

/-!
# The language of documents

What a document says is a `Value`. It is written as the tokens of the value, each in one of its
spellings and with blanks in front of it, and with blanks at the end (`Spells`).

The strings of a value are lists of UTF-16 code units. An escape may hold any four hexadecimal
digits, also half of a surrogate pair, so that some strings of the language are no text; `text?`
gives the characters of those that are.

Readers take tokens from the front of a text. `Leads toks cs rest` says that `cs` is a spelling of
`toks` in front of `rest`, whatever `rest` goes on with.
-/

namespace TileCatalog.Json

/-! ### Values and their tokens -/

inductive Value where
  | null
  | bool (b : Bool)
  | number (x : Numeral)
  | string (units : List Nat)
  | list (items : List Value)
  /-- The members in the order in which they stand; a key may occur again. -/
  | object (members : List (List Nat × Value))

inductive Token where
  /-- A word or mark, spelled in one way only. -/
  | fixed (text : List Char)
  | number (x : Numeral)
  | string (units : List Nat)

/-- What stands behind an item: commas, each with a further item, and the closing bracket. -/
def continued (close : Char) : List (List Token) → List Token
  | [] => [.fixed [close]]
  | item :: items => .fixed [','] :: (item ++ continued close items)

/-- What stands behind an opening bracket. -/
def enclosed (close : Char) : List (List Token) → List Token
  | [] => [.fixed [close]]
  | item :: items => item ++ continued close items

theorem sizeOf_snd_lt_of_mem {m : List Nat × Value} {ms : List (List Nat × Value)} (h : m ∈ ms) :
    sizeOf m.2 < sizeOf ms := by
  obtain ⟨key, v⟩ := m
  have := List.sizeOf_lt_of_mem h
  simp only [Prod.mk.sizeOf_spec] at this ⊢
  omega

namespace Value

def tokens : Value → List Token
  | null => [.fixed ['n', 'u', 'l', 'l']]
  | bool true => [.fixed ['t', 'r', 'u', 'e']]
  | bool false => [.fixed ['f', 'a', 'l', 's', 'e']]
  | number x => [.number x]
  | string units => [.string units]
  | list items => .fixed ['['] :: enclosed ']' (items.map tokens)
  | object members =>
    .fixed ['\x7b'] ::
      enclosed '\x7d' (members.map fun m => .string m.1 :: .fixed [':'] :: tokens m.2)
decreasing_by
  all_goals simp_wf
  · have := List.sizeOf_lt_of_mem ‹_›
    omega
  · have := sizeOf_snd_lt_of_mem ‹_›
    omega

def memberTokens (m : List Nat × Value) : List Token := .string m.1 :: .fixed [':'] :: m.2.tokens

@[simp] theorem tokens_null : null.tokens = [.fixed ['n', 'u', 'l', 'l']] := by rw [tokens]

@[simp] theorem tokens_true : (bool true).tokens = [.fixed ['t', 'r', 'u', 'e']] := by rw [tokens]

@[simp] theorem tokens_false : (bool false).tokens = [.fixed ['f', 'a', 'l', 's', 'e']] := by
  rw [tokens]

@[simp] theorem tokens_number (x : Numeral) : (number x).tokens = [.number x] := by rw [tokens]

@[simp] theorem tokens_string (units : List Nat) : (string units).tokens = [.string units] := by
  rw [tokens]

@[simp] theorem tokens_list (items : List Value) :
    (list items).tokens = .fixed ['['] :: enclosed ']' (items.map tokens) := by rw [tokens]

@[simp] theorem tokens_object (members : List (List Nat × Value)) :
    (object members).tokens = .fixed ['\x7b'] :: enclosed '\x7d' (members.map memberTokens) := by
  rw [tokens]
  rfl

end Value

/-! ### Text -/

def units (c : Char) : List Nat :=
  if c.toNat < 0x10000 then [c.toNat]
  else [0xD800 + (c.toNat - 0x10000) / 0x400, 0xDC00 + (c.toNat - 0x10000) % 0x400]

def unitsOf (s : String) : List Nat := s.toList.flatMap units

/-- The characters that code units stand for, if no surrogate stands alone. -/
def text? : List Nat → Option (List Char)
  | [] => some []
  | u :: us =>
    if isHighSurrogate u then
      match us with
      | [] => none
      | w :: us =>
        if isLowSurrogate w then
          (text? us).map (Char.ofNat (0x10000 + (u - 0xD800) * 0x400 + (w - 0xDC00)) :: ·)
        else none
    else if isLowSurrogate u then none
    else (text? us).map (Char.ofNat u :: ·)

theorem text?_unit {u : Nat} (hh : isHighSurrogate u = false) (hl : isLowSurrogate u = false)
    (us : List Nat) : text? (u :: us) = (text? us).map (Char.ofNat u :: ·) := by
  rw [text?.eq_def]
  simp [hh, hl]

theorem text?_pair {u w : Nat} (hu : isHighSurrogate u = true) (hw : isLowSurrogate w = true)
    (us : List Nat) : text? (u :: w :: us) =
      (text? us).map (Char.ofNat (0x10000 + (u - 0xD800) * 0x400 + (w - 0xDC00)) :: ·) := by
  rw [text?]
  simp [hu, hw]

/-- A surrogate is the first of a pair or makes the rest no text. -/
theorem exists_of_text?_high {u : Nat} {us : List Nat} {cs : List Char}
    (hu : isHighSurrogate u = true) (h : text? (u :: us) = some cs) :
    ∃ w us', us = w :: us' ∧ isLowSurrogate w = true := by
  rw [text?.eq_def] at h
  dsimp only at h
  rw [if_pos hu] at h
  split at h
  · cases h
  · rename_i w us'
    split at h
    · exact ⟨w, us', rfl, ‹_›⟩
    · cases h

theorem text?_low {u : Nat} (hu : isLowSurrogate u = true) (us : List Nat) :
    text? (u :: us) = none := by
  have hh : isHighSurrogate u = false := by
    simp only [isLowSurrogate, isHighSurrogate, Bool.and_eq_true, decide_eq_true_eq] at hu ⊢
    rw [Bool.and_eq_false_iff]
    right
    simp only [decide_eq_false_iff_not]
    omega
  rw [text?.eq_def]
  simp [hh, hu]

theorem toNat_cases (c : Char) :
    c.toNat < 0xD800 ∨ 0xDFFF < c.toNat ∧ c.toNat < 0x110000 := c.valid

theorem isLowSurrogate_head_units {c : Char} {u : Nat} {us : List Nat} (h : units c = u :: us) :
    isLowSurrogate u = false := by
  have hc := toNat_cases c
  rw [isLowSurrogate, Bool.and_eq_false_iff]
  simp only [decide_eq_false_iff_not]
  unfold units at h
  split at h
  · cases h
    omega
  · cases h
    omega

theorem text?_units_append (c : Char) (us : List Nat) :
    text? (units c ++ us) = (text? us).map (c :: ·) := by
  have hc := toNat_cases c
  unfold units
  split
  · rw [List.singleton_append, text?_unit]
    · rw [Char.ofNat_toNat]
    · simp only [isHighSurrogate, Bool.and_eq_false_iff, decide_eq_false_iff_not]
      omega
    · simp only [isLowSurrogate, Bool.and_eq_false_iff, decide_eq_false_iff_not]
      omega
  · have hn : 0x10000 + (0xD800 + (c.toNat - 0x10000) / 0x400 - 0xD800) * 0x400 +
        (0xDC00 + (c.toNat - 0x10000) % 0x400 - 0xDC00) = c.toNat := by omega
    rw [List.cons_append, List.singleton_append, text?_pair, hn, Char.ofNat_toNat]
    · simp only [isHighSurrogate, Bool.and_eq_true, decide_eq_true_eq]
      omega
    · simp only [isLowSurrogate, Bool.and_eq_true, decide_eq_true_eq]
      omega

theorem text?_flatMap_units (cs : List Char) : text? (cs.flatMap units) = some cs := by
  induction cs with
  | nil => rfl
  | cons c cs ih => rw [List.flatMap_cons, text?_units_append, ih, Option.map_some]

/-! ### Spellings -/

def hexValue? : List Char → Option Nat
  | [a, b, c, d] =>
    match hexDigit? a, hexDigit? b, hexDigit? c, hexDigit? d with
    | some a, some b, some c, some d => some (((a * 16 + b) * 16 + c) * 16 + d)
    | _, _, _, _ => none
  | _ => none

/-- The one-letter escapes and the characters that they stand for. -/
def shortEscapes : List (Char × Char) :=
  [('"', '"'), ('\\', '\\'), ('/', '/'), ('b', '\x08'), ('f', '\x0c'), ('n', '\n'), ('r', '\r'),
    ('t', '\t')]

/-- Code units and an escape for them, without its backslash. -/
inductive Escape : List Nat → List Char → Prop
  | short {e c : Char} (h : (e, c) ∈ shortEscapes) : Escape (units c) [e]
  | unit {ds : List Char} {n : Nat} (h : hexValue? ds = some n) : Escape [n] ('u' :: ds)

/-- Code units and what stands for them between the quotes of a literal. -/
inductive Spelling : List Nat → List Char → Prop
  | nil : Spelling [] []
  | plain {c : Char} {us : List Nat} {cs : List Char} (hq : c ≠ '"') (hb : c ≠ '\\')
      (hc : isControl c = false) (h : Spelling us cs) : Spelling (units c ++ us) (c :: cs)
  | escape {us vs : List Nat} {e cs : List Char} (he : Escape us e) (h : Spelling vs cs) :
      Spelling (us ++ vs) ('\\' :: (e ++ cs))

/-- At least one digit, and nothing else. -/
def IsDigits (ds : List Char) : Prop := ds ≠ [] ∧ ∀ d ∈ ds, isDigit d = true

/-- The digits of a whole number: no zero in front of others. -/
def IsWhole (ds : List Char) : Prop := IsDigits ds ∧ (ds.head? = some '0' → ds = ['0'])

namespace Numeral

inductive PlacesSpelled : List Char → List Char → Prop
  | none : PlacesSpelled [] []
  | some {ds : List Char} (h : IsDigits ds) : PlacesSpelled ds ('.' :: ds)

/-- The sign of a power; whether it is a minus. -/
inductive SignSpelled : Bool → List Char → Prop
  | none : SignSpelled false []
  | plus : SignSpelled false ['+']
  | minus : SignSpelled true ['-']

inductive PowerSpelled : Option (Bool × List Char) → List Char → Prop
  | none : PowerSpelled none []
  | some {e : Char} {down : Bool} {sign ds : List Char} (he : e = 'e' ∨ e = 'E')
      (hs : SignSpelled down sign) (h : IsDigits ds) :
      PowerSpelled (some (down, ds)) (e :: (sign ++ ds))

inductive Spelled : Numeral → List Char → Prop
  | mk {negative : Bool} {whole places p q : List Char} {power : Option (Bool × List Char)}
      (hw : IsWhole whole) (hp : PlacesSpelled places p) (hq : PowerSpelled power q) :
      Spelled ⟨negative, whole, places, power⟩
        ((if negative then ['-'] else []) ++ (whole ++ (p ++ q)))

end Numeral

inductive Token.Spelled : Token → List Char → Prop
  | fixed {c : Char} (hc : isBlank c = false) (text : List Char) :
      Spelled (.fixed (c :: text)) (c :: text)
  | number {x : Numeral} {cs : List Char} (h : x.Spelled cs) : Spelled (.number x) cs
  | string {us : List Nat} {cs : List Char} (h : Spelling us cs) :
      Spelled (.string us) ('"' :: (cs ++ ['"']))

def IsBlanks (ws : List Char) : Prop := ∀ c ∈ ws, isBlank c = true

/-- The tokens spelled out with any blanks between and around them. -/
inductive Spells : List Token → List Char → Prop
  | nil {ws : List Char} (hws : IsBlanks ws) : Spells [] ws
  | cons {tok : Token} {toks : List Token} {ws w cs : List Char} (hws : IsBlanks ws)
      (hw : tok.Spelled w) (h : Spells toks cs) : Spells (tok :: toks) (ws ++ (w ++ cs))

def Value.Renders (v : Value) (text : String) : Prop := Spells v.tokens text.toList

/-! ### Tokens at the front of a text -/

theorem skipBlanks_append {ws : List Char} (hws : IsBlanks ws) (cs : List Char) :
    skipBlanks (ws ++ cs) = skipBlanks cs :=
  List.dropWhile_append_of_pos hws

theorem skipBlanks_cons {c : Char} (hc : isBlank c = false) (cs : List Char) :
    skipBlanks (c :: cs) = c :: cs := by
  simp [skipBlanks, hc]

theorem skipBlanks_eq_nil {ws : List Char} : skipBlanks ws = [] ↔ IsBlanks ws :=
  List.dropWhile_eq_nil_iff

theorem exists_eq_append_skipBlanks (cs : List Char) :
    ∃ ws, IsBlanks ws ∧ cs = ws ++ skipBlanks cs :=
  ⟨cs.takeWhile isBlank, fun _ hc => List.mem_takeWhile_imp hc,
    List.takeWhile_append_dropWhile.symm⟩

theorem IsDigits.exists_eq_cons {ds : List Char} (h : IsDigits ds) :
    ∃ d ds', ds = d :: ds' ∧ isDigit d = true := by
  cases ds with
  | nil => exact absurd rfl h.1
  | cons d ds' => exact ⟨d, ds', rfl, h.2 d List.mem_cons_self⟩

theorem isBlank_of_isDigit {d : Char} (h : isDigit d = true) : isBlank d = false := by
  rw [← Bool.not_eq_true]
  intro hb
  simp only [isBlank, Bool.or_eq_true, beq_iff_eq] at hb
  rcases hb with ((rfl | rfl) | rfl) | rfl <;> simp [isDigit] at h

theorem Numeral.Spelled.exists_eq_cons {x : Numeral} {w : List Char} (h : x.Spelled w) :
    ∃ c w', w = c :: w' ∧ (c = '-' ∨ isDigit c = true) := by
  cases h with
  | @mk negative whole places p q power hw hp hq =>
    cases negative with
    | true => exact ⟨'-', _, rfl, .inl rfl⟩
    | false =>
      obtain ⟨d, ds, rfl, hd⟩ := hw.1.exists_eq_cons
      exact ⟨d, _, rfl, .inr hd⟩

theorem Token.Spelled.exists_eq_cons {tok : Token} {w : List Char} (h : tok.Spelled w) :
    ∃ c w', w = c :: w' ∧ isBlank c = false := by
  cases h with
  | fixed hc text => exact ⟨_, text, rfl, hc⟩
  | number h =>
    obtain ⟨c, w', rfl, hc⟩ := h.exists_eq_cons
    refine ⟨c, w', rfl, ?_⟩
    rcases hc with rfl | hd
    · rfl
    · exact isBlank_of_isDigit hd
  | string h => exact ⟨'"', _, rfl, rfl⟩

namespace Spells

variable {tok : Token} {toks : List Token} {cs rest : List Char}

theorem nil_iff : Spells [] cs ↔ skipBlanks cs = [] := by
  rw [skipBlanks_eq_nil]
  constructor
  · rintro ⟨h⟩
    assumption
  · exact .nil

theorem cons_iff :
    Spells (tok :: toks) cs ↔ ∃ w rest, skipBlanks cs = w ++ rest ∧ tok.Spelled w ∧ Spells toks rest
    := by
  constructor
  · rintro (_ | ⟨hws, hw, h⟩)
    refine ⟨_, _, ?_, hw, h⟩
    obtain ⟨c, w', rfl, hc⟩ := hw.exists_eq_cons
    rw [skipBlanks_append hws, List.cons_append, skipBlanks_cons hc]
  · rintro ⟨w, rest, he, hw, h⟩
    obtain ⟨ws, hws, hcs⟩ := exists_eq_append_skipBlanks cs
    rw [hcs, he]
    exact .cons hws hw h

theorem fixed_iff {c : Char} (hc : isBlank c = false) (text : List Char) :
    Spells (.fixed (c :: text) :: toks) cs ↔
      ∃ rest, skipBlanks cs = c :: (text ++ rest) ∧ Spells toks rest := by
  rw [cons_iff]
  constructor
  · rintro ⟨w, rest, he, ⟨⟩, h⟩
    exact ⟨rest, he, h⟩
  · rintro ⟨rest, he, h⟩
    exact ⟨_, rest, he, .fixed hc text, h⟩

theorem string_iff {us : List Nat} :
    Spells (.string us :: toks) cs ↔ ∃ body rest,
      skipBlanks cs = '"' :: (body ++ '"' :: rest) ∧ Spelling us body ∧ Spells toks rest := by
  rw [cons_iff]
  constructor
  · rintro ⟨w, rest, he, hs | hs | hs, h⟩
    exact ⟨_, rest, by simpa using he, hs, h⟩
  · rintro ⟨body, rest, he, hs, h⟩
    exact ⟨_, rest, by simpa using he, .string hs, h⟩

theorem number_iff {x : Numeral} :
    Spells (.number x :: toks) cs ↔
      ∃ w rest, skipBlanks cs = w ++ rest ∧ x.Spelled w ∧ Spells toks rest := by
  rw [cons_iff]
  constructor
  · rintro ⟨w, rest, he, hs | hs | hs, h⟩
    exact ⟨w, rest, he, hs, h⟩
  · rintro ⟨w, rest, he, hs, h⟩
    exact ⟨w, rest, he, .number hs, h⟩

/-- Blanks in front make no difference. -/
@[simp] theorem skipBlanks_iff : Spells toks (skipBlanks cs) ↔ Spells toks cs := by
  have hidem : skipBlanks (skipBlanks cs) = skipBlanks cs := List.dropWhile_idempotent _ _
  cases toks with
  | nil => rw [nil_iff, nil_iff, hidem]
  | cons tok toks => rw [cons_iff, cons_iff, hidem]

end Spells

/-- `cs` is a spelling of `toks` in front of `rest`. -/
def Leads (toks : List Token) (cs rest : List Char) : Prop :=
  ∀ more, Spells more rest → Spells (toks ++ more) cs

namespace Leads

variable {toks more : List Token} {cs cs' rest : List Char}

theorem nil (cs : List Char) : Leads [] cs cs := fun _ h => h

theorem trans (h : Leads toks cs cs') (h' : Leads more cs' rest) : Leads (toks ++ more) cs rest :=
  fun t ht => by
    rw [List.append_assoc]
    exact h _ (h' t ht)

theorem of_skipBlanks (h : Leads toks (skipBlanks cs) rest) : Leads toks cs rest :=
  fun t ht => Spells.skipBlanks_iff.1 (h t ht)

theorem fixed {c : Char} {text : List Char} (hc : isBlank c = false)
    (h : skipBlanks cs = c :: (text ++ rest)) : Leads [.fixed (c :: text)] cs rest :=
  fun _ ht => (Spells.fixed_iff hc text).2 ⟨rest, h, ht⟩

theorem string {us : List Nat} {body : List Char} (h : skipBlanks cs = '"' :: (body ++ '"' :: rest))
    (hs : Spelling us body) : Leads [.string us] cs rest :=
  fun _ ht => Spells.string_iff.2 ⟨body, rest, h, hs, ht⟩

theorem number {x : Numeral} {w : List Char} (h : skipBlanks cs = w ++ rest) (hs : x.Spelled w) :
    Leads [.number x] cs rest :=
  fun _ ht => Spells.number_iff.2 ⟨w, rest, h, hs, ht⟩

end Leads

end TileCatalog.Json
