import TileCatalog.Proofs.Literals

/-!
# Skipping any value

`skip` takes exactly the renderings of values. What it still has to take when brackets are open is
said by `Closing`: for each bracket on the stack, further items and its closing bracket.
-/

namespace TileCatalog.Json

/-! ### Words, keys and scalars -/

theorem takeWord_eq_ok_iff {word cs rest : List Char} :
    takeWord word cs = .ok rest ↔ cs = word ++ rest := by
  fun_induction takeWord word cs with
  | case1 cs => simp [eq_comm]
  | case2 => simp
  | case3 w word cs ih => simpa using ih
  | case4 w word c cs hne =>
    constructor
    · intro h
      cases h
    · intro h
      exact absurd (List.cons.inj h).1 hne

theorem takeColon_eq_ok_iff {cs rest : List Char} :
    takeColon cs = .ok rest ↔ skipBlanks cs = ':' :: rest := by
  unfold takeColon
  constructor
  · intro h
    split at h
    · cases h
    · rename_i heq
      split at h
      · rename_i hc
        cases h
        rw [heq, hc]
      · cases h
  · intro h
    rw [h]
    simp

theorem Leads.colon {cs rest : List Char} (h : takeColon cs = .ok rest) :
    Leads [.fixed [':']] cs rest :=
  .fixed rfl (takeColon_eq_ok_iff.1 h)

theorem Spells.takeColon {toks : List Token} {cs : List Char}
    (h : Spells (.fixed [':'] :: toks) cs) :
    ∃ rest, takeColon cs = .ok rest ∧ Spells toks rest := by
  obtain ⟨rest, he, h⟩ := (Spells.fixed_iff rfl []).1 h
  exact ⟨rest, takeColon_eq_ok_iff.2 he, h⟩

namespace Bracket

def opening : Bracket → Char
  | list => '['
  | object => '\x7b'

theorem ofChar?_eq_some_iff {c : Char} {b : Bracket} : ofChar? c = some b ↔ c = b.opening := by
  unfold ofChar?
  constructor
  · intro h
    split at h
    · cases h
      assumption
    · split at h
      · cases h
        assumption
      · cases h
  · rintro rfl
    cases b <;> rfl

@[simp] theorem isBlank_opening (b : Bracket) : isBlank b.opening = false := by cases b <;> rfl

@[simp] theorem isBlank_closing (b : Bracket) : isBlank b.closing = false := by cases b <;> rfl

end Bracket

/-- The tokens in front of the value of an item: in an object a key and a colon. -/
inductive IsKey : Bracket → List Token → Prop
  | list : IsKey .list []
  | object (us : List Nat) : IsKey .object [.string us, .fixed [':']]

theorem exists_of_skipKey {b : Bracket} {cs rest : List Char} (h : skipKey b cs = .ok rest) :
    ∃ key, IsKey b key ∧ Leads key cs rest := by
  cases b with
  | list =>
    cases h
    exact ⟨[], .list, .nil cs⟩
  | object =>
    unfold skipKey at h
    dsimp only at h
    split at h
    · cases h
    · rename_i heq
      split at h
      · rename_i hc
        subst hc
        split at h
        · cases h
        · rename_i htail
          obtain ⟨us, body, hs, rfl⟩ := skipStringTail_eq_ok_iff.1 htail
          exact ⟨_, .object us, (Leads.string heq hs).trans (.colon h)⟩
      · cases h

theorem IsKey.skipKey {b : Bracket} {key toks : List Token} {cs : List Char} (hk : IsKey b key)
    (h : Spells (key ++ toks) cs) : ∃ rest, skipKey b cs = .ok rest ∧ Spells toks rest := by
  cases hk with
  | list => exact ⟨cs, rfl, h⟩
  | object us =>
    obtain ⟨body, rest, he, hs, h⟩ := Spells.string_iff.1 h
    obtain ⟨rest', hcolon, h⟩ := h.takeColon
    have htail : skipStringTail (body ++ '"' :: rest) = .ok rest :=
      skipStringTail_eq_ok_iff.2 ⟨us, body, hs, rfl⟩
    exact ⟨rest', by simp [Json.skipKey, he, htail, hcolon], h⟩

theorem Leads.word {c : Char} {word cs rest : List Char} (hc : isBlank c = false)
    (h : takeWord word cs = .ok rest) : Leads [.fixed (c :: word)] (c :: cs) rest := by
  obtain rfl := takeWord_eq_ok_iff.1 h
  exact .fixed hc (skipBlanks_cons hc _)

theorem exists_of_skipScalar {cs rest : List Char} (h : skipScalar cs = .ok rest) :
    ∃ v : Value, Leads v.tokens cs rest := by
  unfold skipScalar at h
  split at h
  · cases h
  · rename_i c cs
    split at h
    · rename_i hc
      subst hc
      exact ⟨.null, by simpa using .word rfl h⟩
    · split at h
      · rename_i hc
        subst hc
        exact ⟨.bool true, by simpa using .word rfl h⟩
      · split at h
        · rename_i hc
          subst hc
          exact ⟨.bool false, by simpa using .word rfl h⟩
        · split at h
          · rename_i hc
            subst hc
            obtain ⟨us, body, hs, rfl⟩ := skipStringTail_eq_ok_iff.1 h
            exact ⟨.string us, by simpa using .string (skipBlanks_cons rfl _) hs⟩
          · split at h
            · split at h
              · cases h
              · rename_i hread
                cases h
                obtain ⟨w, hw, hcs⟩ := Numeral.exists_of_read hread
                obtain ⟨d, w', rfl, hd⟩ := (Token.Spelled.number hw).exists_eq_cons
                rw [hcs]
                exact ⟨.number _, by simpa using .number (skipBlanks_cons hd _) hw⟩
            · cases h

/-! ### What is skipped is a value -/

/-- An item of a bracket: a value, in an object behind its key. -/
def IsItem (b : Bracket) (item : List Token) : Prop :=
  ∃ key, ∃ v : Value, IsKey b key ∧ item = key ++ v.tokens

/-- Closes the brackets of a stack, the innermost first, each behind further items. -/
inductive Closing : List Bracket → List Token → Prop
  | nil : Closing [] []
  | cons {b : Bracket} {outer : List Bracket} {items : List (List Token)} {toks : List Token}
      (hi : ∀ item ∈ items, IsItem b item) (h : Closing outer toks) :
      Closing (b :: outer) (continued b.closing items ++ toks)

theorem exists_eq_map_of_isItem_list {items : List (List Token)}
    (h : ∀ item ∈ items, IsItem .list item) : ∃ vs : List Value, items = vs.map Value.tokens := by
  induction items with
  | nil => exact ⟨[], rfl⟩
  | cons item items ih =>
    obtain ⟨vs, rfl⟩ := ih fun i hi => h i (List.mem_cons_of_mem _ hi)
    obtain ⟨_, v, ⟨⟩, rfl⟩ := h item List.mem_cons_self
    exact ⟨v :: vs, rfl⟩

theorem exists_eq_map_of_isItem_object {items : List (List Token)}
    (h : ∀ item ∈ items, IsItem .object item) :
    ∃ ms : List (List Nat × Value), items = ms.map Value.memberTokens := by
  induction items with
  | nil => exact ⟨[], rfl⟩
  | cons item items ih =>
    obtain ⟨ms, rfl⟩ := ih fun i hi => h i (List.mem_cons_of_mem _ hi)
    obtain ⟨_, v, hk, rfl⟩ := h item List.mem_cons_self
    cases hk with
    | object us => exact ⟨(us, v) :: ms, rfl⟩

theorem exists_tokens_eq_enclosed (b : Bracket) (items : List (List Token))
    (h : ∀ item ∈ items, IsItem b item) :
    ∃ v : Value, v.tokens = .fixed [b.opening] :: enclosed b.closing items := by
  cases b with
  | list =>
    obtain ⟨vs, rfl⟩ := exists_eq_map_of_isItem_list h
    exact ⟨.list vs, Value.tokens_list vs⟩
  | object =>
    obtain ⟨ms, rfl⟩ := exists_eq_map_of_isItem_object h
    exact ⟨.object ms, Value.tokens_object ms⟩

theorem Leads.mark {c : Char} {cs rest : List Char} (hc : isBlank c = false)
    (h : skipBlanks cs = c :: rest) : Leads [.fixed [c]] cs rest :=
  .fixed hc h

/-! ### Steps -/

section Steps

variable {b : Bracket} {stack outer : List Bracket} {cs cs₁ rest : List Char} {c : Char}

theorem skipValue_scalar (h : skipBlanks cs = c :: cs₁) (hc : Bracket.ofChar? c = none)
    (hs : skipScalar (c :: cs₁) = .ok rest) : skipValue stack cs = skipRest stack rest := by
  rw [skipValue]
  grind

theorem skipValue_empty (h : skipBlanks cs = b.opening :: cs₁)
    (h₁ : skipBlanks cs₁ = b.closing :: rest) : skipValue stack cs = skipRest stack rest := by
  have hb := Bracket.ofChar?_eq_some_iff.2 (Eq.refl b.opening)
  rw [skipValue]
  grind

theorem skipValue_item {cs₂ : List Char} (h : skipBlanks cs = b.opening :: cs₁)
    (h₁ : skipBlanks cs₁ = c :: cs₂) (hc : c ≠ b.closing) (hk : skipKey b (c :: cs₂) = .ok rest) :
    skipValue stack cs = skipValue (b :: stack) rest := by
  have hb := Bracket.ofChar?_eq_some_iff.2 (Eq.refl b.opening)
  rw [skipValue]
  grind

theorem skipRest_close (h : skipBlanks cs = b.closing :: rest) :
    skipRest (b :: outer) cs = skipRest outer rest := by
  rw [skipRest]
  grind

theorem skipRest_comma (h : skipBlanks cs = ',' :: cs₁) (hk : skipKey b cs₁ = .ok rest) :
    skipRest (b :: outer) cs = skipValue (b :: outer) rest := by
  have hc : ',' ≠ b.closing := by cases b <;> decide
  rw [skipRest]
  grind

end Steps

theorem exists_of_skipValue_and_skipRest :
    (∀ stack cs, ∀ rest, skipValue stack cs = .ok rest →
      ∃ v : Value, ∃ toks, Closing stack toks ∧ Leads (v.tokens ++ toks) cs rest) ∧
    (∀ stack cs, ∀ rest, skipRest stack cs = .ok rest →
      ∃ toks, Closing stack toks ∧ Leads toks cs rest) := by
  apply skipValue.mutual_induct
  -- faults are not what is given
  case case1 | case2 | case4 | case6 =>
    intros
    rename_i hr
    rw [skipValue] at hr
    grind
  case case9 | case11 | case13 =>
    intros
    rename_i hr
    rw [skipRest] at hr
    grind
  -- an empty bracket
  case case3 =>
    intro stack cs c cs₁ h _ b hb cs₂ h₁ _ ih rest hr
    obtain rfl := Bracket.ofChar?_eq_some_iff.1 hb
    rw [skipValue_empty h h₁] at hr
    obtain ⟨toks, hc, hl⟩ := ih rest hr
    obtain ⟨v, hv⟩ := exists_tokens_eq_enclosed b [] (by simp)
    refine ⟨v, toks, hc, ?_⟩
    rw [hv]
    exact (Leads.mark (by simp) h).trans ((Leads.mark (by simp) h₁).trans hl)
  -- a bracket is opened: its further items and its end are what closes the stack
  case case5 =>
    intro stack cs c cs₁ h _ b hb d cs₂ h₁ _ hd cs₃ hk _ ih rest hr
    obtain rfl := Bracket.ofChar?_eq_some_iff.1 hb
    rw [skipValue_item h h₁ hd hk] at hr
    obtain ⟨v, _, hc, hl⟩ := ih rest hr
    obtain ⟨key, hkey, hlk⟩ := exists_of_skipKey hk
    cases hc with
    | @cons _ _ items toks hi hc =>
      obtain ⟨w, hw⟩ := exists_tokens_eq_enclosed b ((key ++ v.tokens) :: items)
        (List.forall_mem_cons.2 ⟨⟨key, v, hkey, rfl⟩, hi⟩)
      refine ⟨w, toks, hc, ?_⟩
      rw [← h₁] at hlk
      have := (Leads.mark (by simp) h).trans (hlk.of_skipBlanks.trans hl)
      simpa [hw, enclosed] using this
  -- a scalar
  case case7 =>
    intro stack cs c cs₁ h _ hc cs₂ hs _ ih rest hr
    rw [skipValue_scalar h hc hs] at hr
    obtain ⟨toks, hc, hl⟩ := ih rest hr
    rw [← h] at hs
    obtain ⟨v, hv⟩ := exists_of_skipScalar hs
    exact ⟨v, toks, hc, hv.of_skipBlanks.trans hl⟩
  -- no bracket is open
  case case8 =>
    intro cs rest hr
    rw [skipRest] at hr
    cases hr
    exact ⟨[], .nil, .nil cs⟩
  -- a bracket closes
  case case10 =>
    intro cs b outer cs₁ h _ ih rest hr
    rw [skipRest_close h] at hr
    obtain ⟨toks, hc, hl⟩ := ih rest hr
    exact ⟨_, @Closing.cons b outer [] toks (by simp) hc, (Leads.mark (by simp) h).trans hl⟩
  -- a comma and a further item
  case case12 =>
    intro cs b outer cs₁ cs₂ hk _ h _ _ ih rest hr
    rw [skipRest_comma h hk] at hr
    obtain ⟨v, _, hc, hl⟩ := ih rest hr
    obtain ⟨key, hkey, hlk⟩ := exists_of_skipKey hk
    cases hc with
    | @cons _ _ items toks hi hc =>
      refine ⟨_, .cons (List.forall_mem_cons.2 ⟨⟨key, v, hkey, rfl⟩, hi⟩) hc, ?_⟩
      simpa [continued] using (Leads.mark rfl h).trans (hlk.trans hl)

theorem exists_of_skip {cs rest : List Char} (h : skip cs = .ok rest) :
    ∃ v : Value, Leads v.tokens cs rest := by
  obtain ⟨v, toks, hc, hl⟩ := exists_of_skipValue_and_skipRest.1 [] cs rest h
  cases hc
  exact ⟨v, by simpa using hl⟩

/-! ### Every value is skipped -/

/-- Nothing, or a comma or closing bracket first: tokens that may stand behind a value. -/
def Ends (toks : List Token) : Prop :=
  ∀ tok ∈ toks.head?, ∃ c, tok = .fixed [c] ∧ (c = ',' ∨ c = ']' ∨ c = '\x7d')

theorem Ends.continued (b : Bracket) (items : List (List Token)) (toks : List Token) :
    Ends (continued b.closing items ++ toks) := by
  intro tok htok
  cases items with
  | nil =>
    cases htok
    refine ⟨b.closing, rfl, ?_⟩
    cases b <;> simp [Bracket.closing]
  | cons item items =>
    cases htok
    exact ⟨',', rfl, .inl rfl⟩

theorem Ends.stops {toks : List Token} {cs : List Char} (he : Ends toks) (h : Spells toks cs) :
    Stops cs := by
  intro c hc
  obtain ⟨cs', rfl⟩ : ∃ cs', cs = c :: cs' := List.head?_eq_some_iff.1 hc
  cases hb : isBlank c with
  | true =>
    simp only [isBlank, Bool.or_eq_true, beq_iff_eq] at hb
    rcases hb with ((rfl | rfl) | rfl) | rfl <;> decide
  | false =>
    cases toks with
    | nil =>
      rw [Spells.nil_iff, skipBlanks_cons hb] at h
      cases h
    | cons tok toks =>
      obtain ⟨d, rfl, hd⟩ := he tok rfl
      have hdb : isBlank d = false := by rcases hd with rfl | rfl | rfl <;> rfl
      obtain ⟨rest, heq, -⟩ := (Spells.fixed_iff hdb []).1 h
      rw [skipBlanks_cons hb] at heq
      obtain ⟨rfl, -⟩ := List.cons.inj heq
      rcases hd with rfl | rfl | rfl <;> decide

namespace Value

def Starts : Value → Char → Prop
  | null, c => c = 'n'
  | bool true, c => c = 't'
  | bool false, c => c = 'f'
  | number _, c => c = '-' ∨ isDigit c = true
  | string _, c => c = '"'
  | list _, c => c = '['
  | object _, c => c = '\x7b'

theorem exists_starts {v : Value} {toks : List Token} {cs : List Char}
    (h : Spells (v.tokens ++ toks) cs) : ∃ c rest, skipBlanks cs = c :: rest ∧ v.Starts c := by
  match v with
  | null =>
    rw [tokens_null] at h
    obtain ⟨rest, he, -⟩ := (Spells.fixed_iff rfl _).1 h
    exact ⟨_, _, he, rfl⟩
  | bool true =>
    rw [tokens_true] at h
    obtain ⟨rest, he, -⟩ := (Spells.fixed_iff rfl _).1 h
    exact ⟨_, _, he, rfl⟩
  | bool false =>
    rw [tokens_false] at h
    obtain ⟨rest, he, -⟩ := (Spells.fixed_iff rfl _).1 h
    exact ⟨_, _, he, rfl⟩
  | number x =>
    rw [tokens_number] at h
    obtain ⟨w, rest, he, hw, -⟩ := Spells.number_iff.1 h
    obtain ⟨c, w', rfl, hc⟩ := hw.exists_eq_cons
    exact ⟨c, _, he, hc⟩
  | string us =>
    rw [tokens_string] at h
    obtain ⟨body, rest, he, -, -⟩ := Spells.string_iff.1 h
    exact ⟨_, _, he, rfl⟩
  | list items =>
    rw [tokens_list] at h
    obtain ⟨rest, he, -⟩ := (Spells.fixed_iff rfl _).1 h
    exact ⟨_, _, he, rfl⟩
  | object members =>
    rw [tokens_object] at h
    obtain ⟨rest, he, -⟩ := (Spells.fixed_iff rfl _).1 h
    exact ⟨_, _, he, rfl⟩

theorem exists_head {v : Value} {toks : List Token} {cs : List Char}
    (h : Spells (v.tokens ++ toks) cs) : ∃ c rest, skipBlanks cs = c :: rest ∧ c ≠ ']' := by
  obtain ⟨c, rest, he, hc⟩ := exists_starts h
  refine ⟨c, rest, he, ?_⟩
  rintro rfl
  match v with
  | bool true | bool false | null | string _ | list _ | object _ | number _ =>
    simp [Starts, isDigit] at hc

theorem Starts.eq_null {v : Value} (h : v.Starts 'n') : v = null := by
  match v with
  | null => rfl
  | bool true | bool false | string _ | list _ | object _ | number _ =>
    simp [Starts, isDigit] at h

end Value

theorem ne_of_number {c d : Char} (hc : c = '-' ∨ isDigit c = true) (hm : d ≠ '-')
    (hd : isDigit d = false) : c ≠ d := by
  rintro rfl
  rcases hc with rfl | hc
  · exact hm rfl
  · rw [hd] at hc
    cases hc

theorem ofChar?_number {c : Char} (hc : c = '-' ∨ isDigit c = true) : Bracket.ofChar? c = none := by
  rw [Bracket.ofChar?, if_neg (ne_of_number hc (by decide) rfl),
    if_neg (ne_of_number hc (by decide) rfl)]

theorem skipScalar_number {c : Char} {cs rest : List Char} {x : Numeral}
    (hc : c = '-' ∨ isDigit c = true) (h : Numeral.read .invalidNumber (c :: cs) = .ok (x, rest)) :
    skipScalar (c :: cs) = .ok rest := by
  have hne : ∀ {d : Char}, d ≠ '-' → isDigit d = false → c ≠ d := ne_of_number hc
  rw [skipScalar, if_neg (hne (by decide) rfl), if_neg (hne (by decide) rfl),
    if_neg (hne (by decide) rfl), if_neg (hne (by decide) rfl), if_pos hc, h]

/-- Skipping goes past the value to what closes the stack, wherever the value stands. -/
def Skipped (v : Value) : Prop :=
  ∀ (stack : List Bracket) {toks cs}, Ends toks → Spells (v.tokens ++ toks) cs →
    ∃ rest, skipValue stack cs = skipRest stack rest ∧ Spells toks rest

theorem Spells.skipRest {b : Bracket} {outer : List Bracket} {items : List (List Token)}
    {toks : List Token} {cs : List Char}
    (hi : ∀ item ∈ items, ∃ key v, IsKey b key ∧ item = key ++ v.tokens ∧ Skipped v)
    (h : Spells (continued b.closing items ++ toks) cs) :
    ∃ rest, skipRest (b :: outer) cs = skipRest outer rest ∧ Spells toks rest := by
  induction items generalizing cs with
  | nil =>
    obtain ⟨rest, he, h⟩ := (Spells.fixed_iff (by simp) []).1 h
    exact ⟨rest, skipRest_close he, h⟩
  | cons item items ih =>
    obtain ⟨⟨key, v, hk, rfl, hv⟩, hi'⟩ := List.forall_mem_cons.1 hi
    rw [continued, List.cons_append, List.append_assoc, List.append_assoc] at h
    obtain ⟨cs₁, he, h⟩ := (Spells.fixed_iff rfl []).1 h
    obtain ⟨cs₂, hkey, h⟩ := hk.skipKey h
    obtain ⟨cs₃, hval, h⟩ := hv (b :: outer) (.continued b items toks) h
    obtain ⟨rest, hrest, h⟩ := ih hi' h
    exact ⟨rest, by rw [skipRest_comma he hkey, hval, hrest], h⟩

theorem IsKey.exists_head {b : Bracket} {key toks : List Token} {v : Value} {cs : List Char}
    (hk : IsKey b key) (h : Spells (key ++ (v.tokens ++ toks)) cs) :
    ∃ c rest, skipBlanks cs = c :: rest ∧ c ≠ b.closing := by
  cases hk with
  | list =>
    exact Value.exists_head h
  | object us =>
    obtain ⟨body, rest, he, -, -⟩ := Spells.string_iff.1 h
    exact ⟨_, _, he, by decide⟩

theorem Spells.skipValue_enclosed {b : Bracket} {stack : List Bracket} {items : List (List Token)}
    {toks : List Token} {cs : List Char}
    (hi : ∀ item ∈ items, ∃ key v, IsKey b key ∧ item = key ++ v.tokens ∧ Skipped v)
    (h : Spells (.fixed [b.opening] :: (enclosed b.closing items ++ toks)) cs) :
    ∃ rest, skipValue stack cs = Json.skipRest stack rest ∧ Spells toks rest := by
  obtain ⟨cs₁, he, h⟩ := (Spells.fixed_iff (by simp) []).1 h
  cases items with
  | nil =>
    obtain ⟨rest, hclose, h⟩ := (Spells.fixed_iff (by simp) []).1 h
    exact ⟨rest, skipValue_empty he hclose, h⟩
  | cons item items =>
    obtain ⟨⟨key, v, hk, rfl, hv⟩, hi'⟩ := List.forall_mem_cons.1 hi
    rw [enclosed, List.append_assoc, List.append_assoc] at h
    obtain ⟨c, cs₂, hc, hne⟩ := hk.exists_head h
    rw [← Spells.skipBlanks_iff, hc] at h
    obtain ⟨cs₃, hkey, h⟩ := hk.skipKey h
    obtain ⟨cs₄, hval, h⟩ := hv (b :: stack) (.continued b items toks) h
    obtain ⟨rest, hrest, h⟩ := Spells.skipRest hi' h
    exact ⟨rest, by rw [skipValue_item he hc hne hkey, hval, hrest], h⟩

theorem Value.skipped (v : Value) : Skipped v := by
  induction v using Value.tokens.induct with
  | case1 =>
    intro stack toks cs _ h
    rw [tokens_null] at h
    obtain ⟨rest, he, h⟩ := (Spells.fixed_iff rfl _).1 h
    exact ⟨rest, skipValue_scalar he rfl (takeWord_eq_ok_iff.2 rfl), h⟩
  | case2 =>
    intro stack toks cs _ h
    rw [tokens_true] at h
    obtain ⟨rest, he, h⟩ := (Spells.fixed_iff rfl _).1 h
    exact ⟨rest, skipValue_scalar he rfl (takeWord_eq_ok_iff.2 rfl), h⟩
  | case3 =>
    intro stack toks cs _ h
    rw [tokens_false] at h
    obtain ⟨rest, he, h⟩ := (Spells.fixed_iff rfl _).1 h
    exact ⟨rest, skipValue_scalar he rfl (takeWord_eq_ok_iff.2 rfl), h⟩
  | case4 x =>
    intro stack toks cs hends h
    rw [tokens_number] at h
    obtain ⟨w, rest, he, hw, h⟩ := Spells.number_iff.1 h
    obtain ⟨c, w', rfl, hc⟩ := hw.exists_eq_cons
    have hscalar : skipScalar (c :: (w' ++ rest)) = .ok rest :=
      skipScalar_number hc (Numeral.read_append hw (hends.stops h))
    exact ⟨rest, skipValue_scalar he (ofChar?_number hc) hscalar, h⟩
  | case5 us =>
    intro stack toks cs _ h
    rw [tokens_string] at h
    obtain ⟨body, rest, he, hs, h⟩ := Spells.string_iff.1 h
    exact ⟨rest, skipValue_scalar he rfl (skipStringTail_eq_ok_iff.2 ⟨us, body, hs, rfl⟩), h⟩
  | case6 items ih =>
    intro stack toks cs _ h
    rw [tokens_list] at h
    refine Spells.skipValue_enclosed (b := .list) ?_ h
    intro item hitem
    obtain ⟨v, hv, rfl⟩ := List.mem_map.1 hitem
    exact ⟨[], v, .list, rfl, ih v hv⟩
  | case7 members ih =>
    intro stack toks cs _ h
    rw [tokens_object] at h
    refine Spells.skipValue_enclosed (b := .object) ?_ h
    intro item hitem
    obtain ⟨m, hm, rfl⟩ := List.mem_map.1 hitem
    exact ⟨_, m.2, .object m.1, rfl, ih m hm⟩

theorem Value.skip_eq_ok {v : Value} {toks : List Token} {cs : List Char} (he : Ends toks)
    (h : Spells (v.tokens ++ toks) cs) : ∃ rest, skip cs = .ok rest ∧ Spells toks rest := by
  obtain ⟨rest, hv, h⟩ := v.skipped [] he h
  exact ⟨rest, by rw [skip, hv, Json.skipRest], h⟩

end TileCatalog.Json
