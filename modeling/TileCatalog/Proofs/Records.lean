import TileCatalog.Json.Shape
import TileCatalog.Proofs.Skipping

/-!
# Readers and what they decode

A reader reads a decoding (`Reader.Reads`) if it takes exactly the renderings of the values that
the decoding accepts, and gives what they decode to. This is shown of the readers for text, optional
values and lists, and of the reader of a shape for the decoding `Shape.value?`.
-/

namespace TileCatalog.Json

variable {α β δ : Type}

/-- `sound`: what is taken is a rendering of a value that decodes to the result. `complete`: a
rendering of such a value is taken, wherever it stands. -/
structure Reader.Reads (r : Reader α) (decode : Value → Option α) : Prop where
  sound : ∀ {cs a rest}, r.run cs = .ok (a, rest) →
    ∃ v : Value, decode v = some a ∧ Leads v.tokens cs rest
  complete : ∀ {v : Value} {a toks cs}, decode v = some a → Spells (v.tokens ++ toks) cs →
    ∃ rest, r.run cs = .ok (a, rest) ∧ Spells toks rest

namespace Value

def text? : Value → Option String
  | string us => (Json.text? us).map String.ofList
  | _ => none

/-- `null`, or what `decode` accepts. -/
def optional? (decode : Value → Option α) : Value → Option (Option α)
  | null => some none
  | v => (decode v).map some

def list? (decode : Value → Option α) : Value → Option (List α)
  | list items => items.mapM decode
  | _ => none

end Value

namespace Reader.Reads

variable {r : Reader α} {decode : Value → Option α}

theorem parse_eq_ok_iff (h : r.Reads decode) {text : List Char} {a : α} :
    r.parse text = .ok a ↔ ∃ v : Value, Spells v.tokens text ∧ decode v = some a := by
  constructor
  · intro hp
    unfold parse at hp
    split at hp
    · cases hp
    · rename_i hrun
      split at hp
      · rename_i hend
        cases hp
        obtain ⟨v, hv, hl⟩ := h.sound hrun
        exact ⟨v, by simpa using hl [] (Spells.nil_iff.2 hend), hv⟩
      · cases hp
  · rintro ⟨v, hs, hv⟩
    obtain ⟨rest, hrun, hend⟩ := h.complete hv ((List.append_nil v.tokens).symm ▸ hs)
    rw [Spells.nil_iff] at hend
    simp [parse, hrun, hend]

theorem map (h : r.Reads decode) (f : α → β) : (r.map f).Reads fun v => (decode v).map f where
  sound {cs b rest} hr := by
    unfold Reader.map mapRun at hr
    dsimp only at hr
    split at hr
    · cases hr
    · rename_i hrun
      cases hr
      obtain ⟨v, hv, hl⟩ := h.sound hrun
      exact ⟨v, by rw [hv, Option.map_some], hl⟩
  complete {v b toks cs} hv hs := by
    obtain ⟨a, ha, rfl⟩ := Option.map_eq_some_iff.1 hv
    obtain ⟨rest, hrun, hs⟩ := h.complete ha hs
    exact ⟨rest, by simp [Reader.map, mapRun, hrun], hs⟩

protected theorem text : Reader.text.Reads Value.text? where
  sound {cs s rest} hr := by
    unfold Reader.text textRun at hr
    dsimp only at hr
    split at hr
    · cases hr
    · rename_i heq
      split at hr
      · rename_i hc
        subst hc
        split at hr
        · cases hr
        · rename_i htail
          cases hr
          obtain ⟨us, body, hs, rfl, ht⟩ := stringTail_eq_ok_iff.1 htail
          refine ⟨.string us, by simp [Value.text?, ht], ?_⟩
          rw [Value.tokens_string]
          exact .string heq hs
      · cases hr
  complete {v s toks cs} hv hs := by
    cases v with
    | string us =>
      obtain ⟨ds, ht, rfl⟩ := Option.map_eq_some_iff.1 hv
      rw [Value.tokens_string] at hs
      obtain ⟨body, rest, heq, hb, hs⟩ := Spells.string_iff.1 hs
      have htail := stringTail_of_spelling hb ht rest
      exact ⟨rest, by simp [Reader.text, textRun, heq, htail], hs⟩
    | _ => cases hv

/-- A decoding that refuses `null` may be made optional. -/
theorem optional (h : r.Reads decode) (hnull : decode .null = none) :
    r.optional.Reads (Value.optional? decode) where
  sound {cs o rest} hr := by
    have hmap : ∀ {cs'}, skipBlanks cs = cs' → (r.map some).run cs' = .ok (o, rest) →
        ∃ v : Value, v.optional? decode = some o ∧ Leads v.tokens cs rest := by
      rintro cs' rfl hrun
      obtain ⟨v, hv, hl⟩ := (h.map some).sound hrun
      refine ⟨v, ?_, hl.of_skipBlanks⟩
      cases v with
      | null =>
        rw [hnull] at hv
        cases hv
      | _ => exact hv
    unfold Reader.optional optionalRun at hr
    dsimp only at hr
    split at hr
    · exact hmap ‹_› hr
    · rename_i c cs₁ heq
      split at hr
      · rename_i hc
        subst hc
        cases hw : takeWord ['u', 'l', 'l'] cs₁ with
        | error e =>
          rw [hw] at hr
          cases hr
        | ok rest₁ =>
          rw [hw] at hr
          cases hr
          obtain rfl := takeWord_eq_ok_iff.1 hw
          refine ⟨.null, rfl, ?_⟩
          rw [Value.tokens_null]
          exact .fixed rfl heq
      · exact hmap heq hr
  complete {v o toks cs} hv hs := by
    by_cases hn : v = .null
    · subst hn
      cases hv
      rw [Value.tokens_null] at hs
      obtain ⟨rest, heq, hs⟩ := (Spells.fixed_iff rfl _).1 hs
      have hw : takeWord ['u', 'l', 'l'] (['u', 'l', 'l'] ++ rest) = .ok rest :=
        takeWord_eq_ok_iff.2 rfl
      exact ⟨rest, by simp only [Reader.optional, optionalRun, heq, hw]; rfl, hs⟩
    · obtain ⟨c, cs₁, heq, hc⟩ := Value.exists_starts hs
      have hne : c ≠ 'n' := by
        rintro rfl
        exact hn hc.eq_null
      have hv' : (decode v).map some = some o := by
        cases v with
        | null => exact absurd rfl hn
        | _ => exact hv
      rw [← Spells.skipBlanks_iff, heq] at hs
      obtain ⟨rest, hrun, hs⟩ := (h.map some).complete hv' hs
      exact ⟨rest, by simp [Reader.optional, optionalRun, heq, hne, hrun], hs⟩

end Reader.Reads

/-! ### Items in a row -/

/-- What stands in front of an item: a comma, unless it is the first. -/
def leading (first : Bool) : List Token := if first then [] else [.fixed [',']]

/-- Items up to the closing bracket; `first` if the opening one is right in front. -/
def inRow (close : Char) (first : Bool) (items : List (List Token)) : List Token :=
  if first then enclosed close items else continued close items

@[simp] theorem inRow_nil (close : Char) (first : Bool) :
    inRow close first [] = [.fixed [close]] := by cases first <;> rfl

@[simp] theorem inRow_cons (close : Char) (first : Bool) (item : List Token)
    (items : List (List Token)) :
    inRow close first (item :: items) = leading first ++ (item ++ inRow close false items) := by
  cases first <;> rfl

theorem Ends.inRow (b : Bracket) (items : List (List Token)) (toks : List Token) :
    Ends (inRow b.closing false items ++ toks) :=
  .continued b items toks

theorem leads_of_nextItem {first more : Bool} {cs rest : List Char}
    (h : nextItem first cs = .ok (more, rest)) :
    (more = false → Leads [.fixed [']']] cs rest) ∧
      (more = true → Leads (leading first) cs rest) := by
  unfold nextItem at h
  split at h
  · cases h
  · rename_i heq
    split at h
    · rename_i hc
      cases h
      exact ⟨fun _ => .mark rfl (hc ▸ heq), fun h => absurd h (by decide)⟩
    · split at h
      · rename_i hf
        cases h
        rw [hf, ← heq]
        exact ⟨fun h => absurd h (by decide), fun _ => (Leads.nil _).of_skipBlanks⟩
      · rename_i hf
        rw [Bool.not_eq_true] at hf
        split at h
        · rename_i hc
          split at h
          · cases h
          · rename_i heq₂
            split at h
            · cases h
            · cases h
              rw [hf, ← heq₂]
              refine ⟨fun h => absurd h (by decide), fun _ => ?_⟩
              exact (Leads.mark rfl (hc ▸ heq)).trans (Leads.nil _).of_skipBlanks
        · cases h

theorem nextItem_close {cs rest : List Char} (first : Bool) (h : skipBlanks cs = ']' :: rest) :
    nextItem first cs = .ok (false, rest) := by
  simp [nextItem, h]

theorem Spells.nextItem {first : Bool} {toks : List Token} {cs : List Char}
    (hhead : ∀ {cs'}, Spells toks cs' → ∃ c rest, skipBlanks cs' = c :: rest ∧ c ≠ ']')
    (h : Spells (leading first ++ toks) cs) :
    ∃ rest, nextItem first cs = .ok (true, rest) ∧ Spells toks rest := by
  cases first with
  | true =>
    obtain ⟨c, rest, heq, hc⟩ := hhead h
    rw [← Spells.skipBlanks_iff, heq] at h
    exact ⟨c :: rest, by simp [Json.nextItem, heq, hc], h⟩
  | false =>
    obtain ⟨cs₁, heq, h⟩ := (Spells.fixed_iff rfl []).1 h
    obtain ⟨c, rest, heq₁, hc⟩ := hhead h
    rw [← Spells.skipBlanks_iff, heq₁] at h
    exact ⟨c :: rest, by simp [Json.nextItem, heq, heq₁, hc], h⟩

/-! ### Lists -/

section Lists

variable {item : Reader α} {decode : Value → Option α}

theorem readItems_close {first : Bool} {cs rest : List Char}
    (h : nextItem first cs = .ok (false, rest)) : readItems item first cs = .ok ([], rest) := by
  rw [readItems]
  grind

theorem readItems_item {first : Bool} {cs cs₁ cs₂ rest : List Char} {a : α} {as : List α}
    (h : nextItem first cs = .ok (true, cs₁)) (ha : item.run cs₁ = .ok (a, cs₂))
    (has : readItems item false cs₂ = .ok (as, rest)) :
    readItems item first cs = .ok (a :: as, rest) := by
  rw [readItems]
  grind

theorem exists_of_readItems (h : item.Reads decode) {first : Bool} {cs rest : List Char}
    {as : List α} (hr : readItems item first cs = .ok (as, rest)) :
    ∃ vs : List Value, vs.mapM decode = some as ∧
      Leads (inRow ']' first (vs.map Value.tokens)) cs rest := by
  fun_induction readItems item first cs generalizing as rest with
  | case1 => cases hr
  | case2 first cs rest hnext =>
    cases hr
    exact ⟨[], rfl, by simpa using (leads_of_nextItem hnext).1 rfl⟩
  | case3 => cases hr
  | case4 => cases hr
  | case5 first cs cs₁ hnext a cs₂ hitem _ _ as rest hrest ih =>
    cases hr
    obtain ⟨v, hv, hl⟩ := h.sound hitem
    obtain ⟨vs, hvs, hls⟩ := ih hrest
    refine ⟨v :: vs, by simp [hv, hvs], ?_⟩
    simpa using ((leads_of_nextItem hnext).2 rfl).trans (hl.trans hls)

theorem Spells.readItems (h : item.Reads decode) (first : Bool) {vs : List Value} {as : List α}
    {toks : List Token} {cs : List Char} (hvs : vs.mapM decode = some as)
    (hs : Spells (inRow ']' first (vs.map Value.tokens) ++ toks) cs) :
    ∃ rest, readItems item first cs = .ok (as, rest) ∧ Spells toks rest := by
  induction vs generalizing first as cs with
  | nil =>
    cases hvs
    rw [List.map_nil, inRow_nil] at hs
    obtain ⟨rest, heq, hs⟩ := (Spells.fixed_iff rfl []).1 hs
    exact ⟨rest, readItems_close (nextItem_close first heq), hs⟩
  | cons v vs ih =>
    simp only [List.mapM_cons, Option.bind_eq_bind, Option.bind_eq_some_iff, Option.pure_def] at hvs
    obtain ⟨a, ha, as', has, hcons⟩ := hvs
    cases hcons
    rw [List.map_cons, inRow_cons, List.append_assoc, List.append_assoc] at hs
    obtain ⟨cs₁, hnext, hs⟩ := Spells.nextItem Value.exists_head hs
    obtain ⟨cs₂, hitem, hs⟩ := h.complete ha hs
    obtain ⟨rest, hrest, hs⟩ := ih false has hs
    exact ⟨rest, readItems_item hnext hitem hrest, hs⟩

theorem Reader.Reads.list (h : item.Reads decode) : item.list.Reads (Value.list? decode) where
  sound {cs as rest} hr := by
    unfold Reader.list listRun at hr
    dsimp only at hr
    split at hr
    · cases hr
    · rename_i heq
      split at hr
      · rename_i hc
        obtain ⟨vs, hvs, hl⟩ := exists_of_readItems h hr
        refine ⟨.list vs, hvs, ?_⟩
        rw [Value.tokens_list]
        exact (Leads.mark rfl (hc ▸ heq)).trans hl
      · cases hr
  complete {v as toks cs} hv hs := by
    cases v with
    | list vs =>
      rw [Value.tokens_list] at hs
      obtain ⟨cs₁, heq, hs⟩ := (Spells.fixed_iff rfl []).1 hs
      obtain ⟨rest, hr, hs⟩ := Spells.readItems h true hv hs
      exact ⟨rest, by simpa [Reader.list, listRun, heq] using hr, hs⟩
    | _ => cases hv

end Lists

/-! ### Keys -/

theorem leads_of_nextKey {first more : Bool} {cs rest : List Char}
    (h : nextKey first cs = .ok (more, rest)) :
    (more = false → Leads [.fixed ['\x7d']] cs rest) ∧
      (more = true → ∃ cs', Leads (leading first) cs cs' ∧ skipBlanks cs' = '"' :: rest) := by
  unfold nextKey at h
  split at h
  · cases h
  · rename_i heq
    split at h
    · rename_i hc
      cases h
      exact ⟨fun _ => .mark rfl (hc ▸ heq), fun h => absurd h (by decide)⟩
    · split at h
      · rename_i hf
        split at h
        · rename_i hc
          cases h
          rw [hf]
          exact ⟨fun h => absurd h (by decide), fun _ => ⟨cs, .nil cs, hc ▸ heq⟩⟩
        · cases h
      · rename_i hf
        rw [Bool.not_eq_true] at hf
        split at h
        · rename_i hc
          split at h
          · cases h
          · rename_i heq₂
            split at h
            · rename_i hd
              cases h
              rw [hf]
              exact ⟨fun h => absurd h (by decide), fun _ => ⟨_, .mark rfl (hc ▸ heq), hd ▸ heq₂⟩⟩
            · split at h <;> cases h
        · cases h

theorem nextKey_close {cs rest : List Char} (first : Bool) (h : skipBlanks cs = '\x7d' :: rest) :
    nextKey first cs = .ok (false, rest) := by
  simp [nextKey, h]

theorem Spells.nextKey {first : Bool} {us : List Nat} {key : List Char} {toks : List Token}
    {cs : List Char} (hus : text? us = some key)
    (h : Spells (leading first ++ .string us :: toks) cs) :
    ∃ cs₁ rest, nextKey first cs = .ok (true, cs₁) ∧ stringTail cs₁ = .ok (key, rest) ∧
      Spells toks rest := by
  cases first with
  | true =>
    obtain ⟨body, rest, heq, hs, h⟩ := Spells.string_iff.1 h
    exact ⟨_, rest, by simp [Json.nextKey, heq], stringTail_of_spelling hs hus rest, h⟩
  | false =>
    obtain ⟨cs₁, heq, h⟩ := (Spells.fixed_iff rfl []).1 h
    obtain ⟨body, rest, heq₁, hs, h⟩ := Spells.string_iff.1 h
    exact ⟨_, rest, by simp [Json.nextKey, heq, heq₁], stringTail_of_spelling hs hus rest, h⟩

/-! ### Records -/

section Records

-- how the value of a member goes into a draft, by the key of the member
variable (decode : String → δ → Value → Option δ) (members : List (Member δ))

/-- A value under a key goes into the draft, once, if a member has the key. -/
def member? (d : δ) (key : String) (v : Value) : Option δ :=
  match members.find? (·.key == key) with
  | some m => if m.isSet d then none else decode m.key d v
  | none => some d

/-- The members of an object go into the draft one after another. -/
def members? (d : δ) : List (List Nat × Value) → Option δ
  | [] => some d
  | m :: ms =>
    (text? m.1).bind fun key =>
      (member? decode members d (String.ofList key) m.2).bind fun d' => members? d' ms

def placed? : List (Member δ) → δ → List Value → Option δ
  | _, d, [] => some d
  | [], _, _ :: _ => none
  | m :: members, d, v :: vs => (decode m.key d v).bind fun d' => placed? members d' vs

variable {decode members} (hreads : ∀ m ∈ members, ∀ d, (m.read d).Reads (decode m.key d))
include hreads

theorem exists_of_readMember {d d' : δ} {key : String} {cs rest : List Char}
    (h : readMember members d key cs = .ok (d', rest)) :
    ∃ v : Value, member? decode members d key v = some d' ∧
      Leads (.fixed [':'] :: v.tokens) cs rest := by
  unfold readMember at h
  split at h
  · rename_i m hm
    split at h
    · cases h
    · rename_i hset
      split at h
      · cases h
      · rename_i hcolon
        obtain ⟨v, hv, hl⟩ := (hreads m (List.mem_of_find?_eq_some hm) d).sound h
        exact ⟨v, by simp [member?, hm, hset, hv], (Leads.colon hcolon).trans hl⟩
  · rename_i hm
    split at h
    · cases h
    · rename_i hcolon
      split at h
      · cases h
      · rename_i hskip
        cases h
        obtain ⟨v, hl⟩ := exists_of_skip hskip
        exact ⟨v, by simp only [member?, hm], (Leads.colon hcolon).trans hl⟩

theorem Spells.readMember {d d' : δ} {key : String} {v : Value} {toks : List Token}
    {cs : List Char} (hv : member? decode members d key v = some d') (hends : Ends toks)
    (h : Spells (.fixed [':'] :: (v.tokens ++ toks)) cs) :
    ∃ rest, readMember members d key cs = .ok (d', rest) ∧ Spells toks rest := by
  obtain ⟨cs₁, hcolon, h⟩ := h.takeColon
  unfold member? at hv
  split at hv
  · rename_i m hm
    split at hv
    · cases hv
    · rename_i hset
      obtain ⟨rest, hr, h⟩ := (hreads m (List.mem_of_find?_eq_some hm) d).complete hv h
      exact ⟨rest, by simp [Json.readMember, hm, hset, hcolon, hr], h⟩
  · rename_i hm
    cases hv
    obtain ⟨rest, hr, h⟩ := Value.skip_eq_ok hends h
    exact ⟨rest, by simp only [Json.readMember, hm, hcolon, hr], h⟩

theorem exists_of_readMembers {first : Bool} {d d' : δ} {cs rest : List Char}
    (h : readMembers members first d cs = .ok (d', rest)) :
    ∃ ms, members? decode members d ms = some d' ∧
      Leads (inRow '\x7d' first (ms.map Value.memberTokens)) cs rest := by
  fun_induction readMembers members first d cs with
  | case1 => cases h
  | case2 first d cs rest hnext =>
    cases h
    exact ⟨[], rfl, by simpa using (leads_of_nextKey hnext).1 rfl⟩
  | case3 => cases h
  | case4 => cases h
  | case5 first d cs cs₁ hnext key cs₂ htail d₁ cs₃ hmember _ _ _ ih =>
    obtain ⟨cs', hlead, hquote⟩ := (leads_of_nextKey hnext).2 rfl
    -- a key that is read is text
    obtain ⟨us, body, hs, rfl, hus⟩ := stringTail_eq_ok_iff.1 htail
    obtain ⟨v, hv, hlv⟩ := exists_of_readMember hreads hmember
    obtain ⟨ms, hms, hls⟩ := ih h
    refine ⟨(us, v) :: ms, by simp [members?, hus, hv, hms], ?_⟩
    have hkey : Leads [.string us] cs' cs₂ := .string hquote hs
    simpa [Value.memberTokens] using hlead.trans (hkey.trans (hlv.trans hls))

omit hreads in
theorem readMembers_close {first : Bool} {d : δ} {cs rest : List Char}
    (h : nextKey first cs = .ok (false, rest)) :
    readMembers members first d cs = .ok (d, rest) := by
  rw [readMembers]
  grind

omit hreads in
theorem readMembers_member {first : Bool} {d d' : δ} {cs cs₁ cs₂ cs₃ key : List Char}
    (h : nextKey first cs = .ok (true, cs₁)) (hk : stringTail cs₁ = .ok (key, cs₂))
    (hm : readMember members d (String.ofList key) cs₂ = .ok (d', cs₃)) :
    readMembers members first d cs = readMembers members false d' cs₃ := by
  rw [readMembers]
  grind

theorem Spells.readMembers {ms : List (List Nat × Value)} (first : Bool) {d d' : δ}
    {toks : List Token} {cs : List Char} (hms : members? decode members d ms = some d')
    (h : Spells (inRow '\x7d' first (ms.map Value.memberTokens) ++ toks) cs) :
    ∃ rest, readMembers members first d cs = .ok (d', rest) ∧ Spells toks rest := by
  induction ms generalizing first d cs with
  | nil =>
    cases hms
    rw [List.map_nil, inRow_nil] at h
    obtain ⟨rest, heq, h⟩ := (Spells.fixed_iff rfl []).1 h
    exact ⟨rest, readMembers_close (nextKey_close first heq), h⟩
  | cons m ms ih =>
    obtain ⟨key, hus, hms⟩ := Option.bind_eq_some_iff.1 hms
    obtain ⟨d₁, hv, hms⟩ := Option.bind_eq_some_iff.1 hms
    rw [List.map_cons, inRow_cons, List.append_assoc, List.append_assoc] at h
    obtain ⟨cs₁, cs₂, hnext, htail, h⟩ := Spells.nextKey hus h
    obtain ⟨cs₃, hmember, h⟩ := Spells.readMember hreads hv (.inRow .object _ toks) h
    obtain ⟨rest, hr, h⟩ := ih false hms h
    exact ⟨rest, by rw [readMembers_member hnext htail hmember, hr], h⟩

omit hreads in
theorem closeList_eq_ok_iff {cs rest : List Char} :
    closeList cs = .ok rest ↔ skipBlanks cs = ']' :: rest := by
  unfold closeList
  constructor
  · intro h
    split at h
    · cases h
    · rename_i heq
      split at h
      · rename_i hc
        cases h
        rw [heq, hc]
      · split at h
        · split at h
          · cases h
          · split at h <;> cases h
        · cases h
  · intro h
    rw [h]
    simp

theorem exists_of_readPlaced {first : Bool} {d d' : δ} {cs rest : List Char}
    (h : readPlaced first members d cs = .ok (d', rest)) :
    ∃ vs, placed? decode members d vs = some d' ∧
      Leads (inRow ']' first (vs.map Value.tokens)) cs rest := by
  fun_induction readPlaced first members d cs with
  | case1 first d cs =>
    cases hc : closeList cs with
    | error e =>
      rw [hc] at h
      cases h
    | ok rest₁ =>
      rw [hc] at h
      cases h
      exact ⟨[], rfl, by simpa using .mark rfl (closeList_eq_ok_iff.1 hc)⟩
  | case2 => cases h
  | case3 first m members d cs rest hnext =>
    cases h
    exact ⟨[], rfl, by simpa using (leads_of_nextItem hnext).1 rfl⟩
  | case4 => cases h
  | case5 first m members d cs cs₁ hnext d₁ cs₂ hitem ih =>
    obtain ⟨hm, hreads⟩ := List.forall_mem_cons.1 hreads
    obtain ⟨v, hv, hl⟩ := (hm d).sound hitem
    obtain ⟨vs, hvs, hls⟩ := ih hreads h
    refine ⟨v :: vs, by simp [placed?, hv, hvs], ?_⟩
    simpa using ((leads_of_nextItem hnext).2 rfl).trans (hl.trans hls)

theorem Spells.readPlaced {vs : List Value} (first : Bool) {d d' : δ} {toks : List Token}
    {cs : List Char} (hvs : placed? decode members d vs = some d')
    (h : Spells (inRow ']' first (vs.map Value.tokens) ++ toks) cs) :
    ∃ rest, readPlaced first members d cs = .ok (d', rest) ∧ Spells toks rest := by
  induction vs generalizing members first d cs with
  | nil =>
    rw [List.map_nil, inRow_nil] at h
    obtain ⟨rest, heq, h⟩ := (Spells.fixed_iff rfl []).1 h
    cases members with
    | nil =>
      cases hvs
      refine ⟨rest, ?_, h⟩
      rw [Json.readPlaced, closeList_eq_ok_iff.2 heq]
      rfl
    | cons m members =>
      cases hvs
      exact ⟨rest, by simp only [Json.readPlaced, nextItem_close first heq, List.nil_append], h⟩
  | cons v vs ih =>
    cases members with
    | nil => cases hvs
    | cons m members =>
      obtain ⟨hm, hreads⟩ := List.forall_mem_cons.1 hreads
      obtain ⟨d₁, hv, hvs⟩ := Option.bind_eq_some_iff.1 hvs
      rw [List.map_cons, inRow_cons, List.append_assoc, List.append_assoc] at h
      obtain ⟨cs₁, hnext, h⟩ := Spells.nextItem Value.exists_head h
      obtain ⟨cs₂, hitem, h⟩ := (hm d).complete hv h
      obtain ⟨rest, hr, h⟩ := ih hreads false hvs h
      exact ⟨rest, by rw [Json.readPlaced]; simp only [hnext, hitem, hr], h⟩

end Records

namespace Shape

/-- The records of a shape, as an object or as a list. -/
def value? (s : Shape δ α) (decode : String → δ → Value → Option δ) : Value → Option α
  | .object ms => (members? decode s.members s.draft ms).bind fun d => (s.finish d).toOption
  | .list vs => (placed? decode s.members s.draft vs).bind fun d => (s.finish d).toOption
  | _ => none

variable {s : Shape δ α} {decode : String → δ → Value → Option δ}

theorem conclude_ok {lacking : String → Cause} {d : δ} {a : α} (h : (s.finish d).toOption = some a)
    (rest : List Char) : s.conclude lacking (.ok (d, rest)) = .ok (a, rest) := by
  cases hd : s.finish d with
  | error key =>
    rw [hd] at h
    cases h
  | ok a' =>
    rw [hd] at h
    cases h
    simp only [conclude, hd]

theorem reads (h : ∀ m ∈ s.members, ∀ d, (m.read d).Reads (decode m.key d)) :
    s.reader.Reads (s.value? decode) where
  sound {cs a rest} hr := by
    unfold reader run at hr
    dsimp only at hr
    split at hr
    · cases hr
    · rename_i heq
      split at hr
      · rename_i hc
        obtain ⟨d, hd, ha⟩ := exists_of_conclude hr
        obtain ⟨ms, hms, hl⟩ := exists_of_readMembers h hd
        refine ⟨.object ms, by simp [value?, hms, ha, Except.toOption], ?_⟩
        rw [Value.tokens_object]
        exact (Leads.mark rfl (hc ▸ heq)).trans hl
      · split at hr
        · rename_i hc
          obtain ⟨d, hd, ha⟩ := exists_of_conclude hr
          obtain ⟨vs, hvs, hl⟩ := exists_of_readPlaced h hd
          refine ⟨.list vs, by simp [value?, hvs, ha, Except.toOption], ?_⟩
          rw [Value.tokens_list]
          exact (Leads.mark rfl (hc ▸ heq)).trans hl
        · cases hr
  complete {v a toks cs} hv hs := by
    cases v with
    | object ms =>
      obtain ⟨d, hd, ha⟩ := Option.bind_eq_some_iff.1 hv
      rw [Value.tokens_object] at hs
      obtain ⟨cs₁, heq, hs⟩ := (Spells.fixed_iff rfl []).1 hs
      obtain ⟨rest, hr, hs⟩ := Spells.readMembers h true hd hs
      exact ⟨rest, by simp [reader, run, heq, hr, conclude_ok ha], hs⟩
    | list vs =>
      obtain ⟨d, hd, ha⟩ := Option.bind_eq_some_iff.1 hv
      rw [Value.tokens_list] at hs
      obtain ⟨cs₁, heq, hs⟩ := (Spells.fixed_iff rfl []).1 hs
      obtain ⟨rest, hr, hs⟩ := Spells.readPlaced h true hd hs
      exact ⟨rest, by simp [reader, run, heq, hr, conclude_ok ha], hs⟩
    | _ => cases hv

end Shape

end TileCatalog.Json
