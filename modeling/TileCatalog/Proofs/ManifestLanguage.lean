import TileCatalog.Manifest.Load
import TileCatalog.Proofs.Records

/-!
# The language of manifests

A manifest is an object, or a list of the members in their order. `Value.toManifest?` says what a
value is as a manifest, looking up the members of objects by their keys wherever they stand; so do
`Value.toTile?` and `Value.toGoal?`. Main statement: a text is read as a manifest if and only if it
is a rendering of a value that is this manifest.

Keys and decoded strings are to be text. A value under another key may hold any string of the
language, also half of a surrogate pair.
-/

namespace TileCatalog.Json

variable {α β δ : Type}

namespace Value

/-! ### Looking up members -/

/-- The members under their keys, all of which are to be text. -/
def keyed? (ms : List (List Nat × Value)) : Option (List (String × Value)) :=
  ms.mapM fun m => (Json.text? m.1).map fun key => (String.ofList key, m.2)

def held (key : String) (ms : List (String × Value)) : List Value :=
  (ms.filter (·.1 == key)).map (·.2)

/-- What a key holds that occurs at most once. -/
def once? (decode : Value → Option α) (absent : Option α) : List Value → Option α
  | [] => absent
  | [v] => decode v
  | _ :: _ :: _ => none

/-! ### Goals, tiles, manifests -/

def toGoal? : Value → Option GoalSpec
  | object ms => do
    let ms ← keyed? ms
    let url ← once? (optional? text?) (some none) (held "url" ms)
    some ⟨url⟩
  | list [] => some ⟨none⟩
  | list [url] => do some ⟨← url.optional? text?⟩
  | _ => none

def toTile? : Value → Option TileSpec
  | object ms => do
    let ms ← keyed? ms
    let name ← once? (optional? text?) (some none) (held "name" ms)
    let url ← once? text? none (held "url" ms)
    let goal ← once? (optional? toGoal?) (some none) (held "goal" ms)
    some ⟨name, url, goal⟩
  | list [name, url] => do some ⟨← name.optional? text?, ← url.text?, none⟩
  | list [name, url, goal] => do
    some ⟨← name.optional? text?, ← url.text?, ← goal.optional? toGoal?⟩
  | _ => none

def toManifest? : Value → Option Manifest
  | object ms => do
    let ms ← keyed? ms
    let tiles ← once? (list? toTile?) (some []) (held "tiles" ms)
    some ⟨tiles⟩
  | list [] => some ⟨[]⟩
  | list [tiles] => do some ⟨← tiles.list? toTile?⟩
  | _ => none

/-! ### Filling a draft -/

/-- What a slot of a draft holds once the values under its key have been read. -/
def fill? (decode : Value → Option α) : Option α → List Value → Option (Option α)
  | slot, [] => some slot
  | none, v :: vs => (decode v).bind fun a => fill? decode (some a) vs
  | some _, _ :: _ => none

theorem once?_eq (decode : Value → Option α) (absent : Option α) (vs : List Value) :
    once? decode absent vs = (fill? decode none vs).bind (·.or absent) := by
  match vs with
  | [] => rfl
  | [v] => cases h : decode v <;> simp [once?, fill?, h]
  | v :: w :: vs => cases h : decode v <;> simp [once?, fill?, h]

theorem keyed?_cons (m : List Nat × Value) (ms : List (List Nat × Value)) :
    keyed? (m :: ms) = (Json.text? m.1).bind fun key =>
      (keyed? ms).map ((String.ofList key, m.2) :: ·) := by
  rw [keyed?, List.mapM_cons, ← keyed?]
  cases Json.text? m.1 with
  | none => rfl
  | some key => cases keyed? ms <;> rfl

@[simp] theorem held_nil (key : String) : held key [] = [] := rfl

@[simp] theorem held_cons_self (key : String) (v : Value) (ms : List (String × Value)) :
    held key ((key, v) :: ms) = v :: held key ms := by
  simp [held]

theorem held_cons_of_ne {key key' : String} (h : key' ≠ key) (v : Value)
    (ms : List (String × Value)) : held key ((key', v) :: ms) = held key ms := by
  simp [held, h]

end Value

/-- Members may go into a draft by `fill`, if one more member makes the difference that it makes to
the draft. -/
theorem members?_eq {decode : String → δ → Value → Option δ} {members : List (Member δ)}
    {fill : δ → List (String × Value) → Option δ} (hnil : ∀ d, fill d [] = some d)
    (hcons : ∀ d key v ms,
      fill d ((key, v) :: ms) = (member? decode members d key v).bind (fill · ms))
    (d : δ) (ms : List (List Nat × Value)) :
    members? decode members d ms = (Value.keyed? ms).bind (fill d) := by
  induction ms generalizing d with
  | nil => exact (hnil d).symm
  | cons m ms ih =>
    rw [members?, Value.keyed?_cons]
    cases text? m.1 with
    | none => rfl
    | some key =>
      simp only [ih, Option.bind_some]
      cases Value.keyed? ms with
      | none => simp
      | some ms => simp [hcons]

end TileCatalog.Json

namespace TileCatalog

open Json

/-! ### Goals -/

namespace GoalSpec

/-- How the value of a member of a goal goes into a draft. -/
def decode (_ : String) (d : Draft) (v : Value) : Option Draft :=
  (v.optional? Value.text?).map fun url => { d with url := some url }

def fill? (d : Draft) (ms : List (String × Value)) : Option Draft :=
  (Value.fill? (Value.optional? Value.text?) d.url (Value.held "url" ms)).map (⟨·⟩)

theorem fill?_cons (d : Draft) (key : String) (v : Value) (ms : List (String × Value)) :
    fill? d ((key, v) :: ms) = (member? decode shape.members d key v).bind (fill? · ms) := by
  by_cases hurl : key = "url"
  · subst hurl
    cases hd : d.url with
    | none =>
      cases h : v.optional? Value.text? <;> simp [fill?, member?, shape, Value.fill?, hd, h, decode]
    | some url => simp [fill?, member?, shape, Value.fill?, hd]
  · simp [fill?, member?, shape, Ne.symm hurl, Value.held_cons_of_ne hurl]

theorem value?_eq_toGoal? (v : Value) : shape.value? decode v = v.toGoal? := by
  match v with
  | .object ms =>
    rw [Shape.value?, members?_eq (fun d => rfl) fill?_cons, Value.toGoal?]
    cases Value.keyed? ms with
    | none => rfl
    | some ms =>
      simp only [Value.once?_eq, Option.bind_some, Option.bind_eq_bind, fill?, shape]
      cases Value.fill? (Value.optional? Value.text?) none (Value.held "url" ms) with
      | none => rfl
      | some url => cases url <;> rfl
  | .list [] => rfl
  | .list [url] =>
    simp only [Shape.value?, shape, placed?, decode, Value.toGoal?]
    cases url.optional? Value.text? <;> rfl
  | .list (url :: _ :: _) =>
    simp only [Shape.value?, shape, placed?, decode, Value.toGoal?]
    cases url.optional? Value.text? <;> rfl
  | .null | .bool _ | .number _ | .string _ => rfl

theorem reads : shape.reader.Reads Value.toGoal? := by
  rw [← funext value?_eq_toGoal?]
  apply Shape.reads
  intro m hm d
  simp only [shape, List.mem_singleton] at hm
  subst hm
  exact (Reader.Reads.text.optional rfl).map _

end GoalSpec

/-! ### Tiles -/

namespace TileSpec

def decode (key : String) (d : Draft) (v : Value) : Option Draft :=
  if key = "name" then (v.optional? Value.text?).map fun name => { d with name := some name }
  else if key = "url" then v.text?.map fun url => { d with url := some url }
  else (v.optional? Value.toGoal?).map fun goal => { d with goal := some goal }

def fill? (d : Draft) (ms : List (String × Value)) : Option Draft :=
  (Value.fill? (Value.optional? Value.text?) d.name (Value.held "name" ms)).bind fun name =>
    (Value.fill? Value.text? d.url (Value.held "url" ms)).bind fun url =>
      (Value.fill? (Value.optional? Value.toGoal?) d.goal (Value.held "goal" ms)).map fun goal =>
        ⟨name, url, goal⟩

theorem fill?_cons (d : Draft) (key : String) (v : Value) (ms : List (String × Value)) :
    fill? d ((key, v) :: ms) = (member? decode shape.members d key v).bind (fill? · ms) := by
  by_cases hname : key = "name"
  · subst hname
    cases hd : d.name with
    | none =>
      cases h : v.optional? Value.text? <;>
        simp [fill?, member?, shape, Value.fill?, hd, h, decode, Value.held_cons_of_ne]
    | some name => simp [fill?, member?, shape, Value.fill?, hd]
  by_cases hurl : key = "url"
  · subst hurl
    cases hd : d.url with
    | none =>
      cases h : v.text? <;>
        simp [fill?, member?, shape, Value.fill?, hd, h, decode, Value.held_cons_of_ne]
    | some url => simp [fill?, member?, shape, Value.fill?, hd]
  by_cases hgoal : key = "goal"
  · subst hgoal
    cases hd : d.goal with
    | none =>
      cases h : v.optional? Value.toGoal? <;>
        simp [fill?, member?, shape, Value.fill?, hd, h, decode, Value.held_cons_of_ne]
    | some goal => simp [fill?, member?, shape, Value.fill?, hd]
  simp [fill?, member?, shape, Ne.symm hname, Ne.symm hurl, Ne.symm hgoal,
    Value.held_cons_of_ne, *]

theorem value?_eq_toTile? (v : Value) : shape.value? decode v = v.toTile? := by
  match v with
  | .object ms =>
    rw [Shape.value?, members?_eq (fun d => rfl) fill?_cons, Value.toTile?]
    cases Value.keyed? ms with
    | none => rfl
    | some ms =>
      simp only [Value.once?_eq, Option.bind_some, Option.bind_eq_bind, fill?, shape]
      cases Value.fill? (Value.optional? Value.text?) none (Value.held "name" ms) with
      | none => rfl
      | some name =>
      cases Value.fill? Value.text? none (Value.held "url" ms) with
      | none => cases name <;> rfl
      | some url =>
      cases Value.fill? (Value.optional? Value.toGoal?) none (Value.held "goal" ms) with
      | none => cases name <;> cases url <;> rfl
      | some goal => cases name <;> cases url <;> cases goal <;> rfl
  | .list [] => rfl
  | .list [name] =>
    simp only [Shape.value?, shape, placed?, decode, Value.toTile?]
    cases name.optional? Value.text? <;> rfl
  | .list [name, url] =>
    simp only [Shape.value?, shape, placed?, decode, Value.toTile?]
    cases name.optional? Value.text? <;> cases url.text? <;> rfl
  | .list [name, url, goal] =>
    simp only [Shape.value?, shape, placed?, decode, Value.toTile?]
    cases name.optional? Value.text? <;> cases url.text? <;>
      cases goal.optional? Value.toGoal? <;> rfl
  | .list (name :: url :: goal :: _ :: _) =>
    simp only [Shape.value?, shape, placed?, decode, Value.toTile?]
    cases name.optional? Value.text? <;> cases url.text? <;>
      cases goal.optional? Value.toGoal? <;> rfl
  | .null | .bool _ | .number _ | .string _ => rfl

theorem reads : shape.reader.Reads Value.toTile? := by
  rw [← funext value?_eq_toTile?]
  apply Shape.reads
  intro m hm d
  simp only [shape, List.mem_cons, List.not_mem_nil, or_false] at hm
  rcases hm with rfl | rfl | rfl
  · exact (Reader.Reads.text.optional rfl).map _
  · exact Reader.Reads.text.map _
  · exact (GoalSpec.reads.optional rfl).map _

end TileSpec

/-! ### Manifests -/

namespace Manifest

def decode (_ : String) (d : Draft) (v : Value) : Option Draft :=
  (v.list? Value.toTile?).map fun tiles => { d with tiles := some tiles }

def fill? (d : Draft) (ms : List (String × Value)) : Option Draft :=
  (Value.fill? (Value.list? Value.toTile?) d.tiles (Value.held "tiles" ms)).map (⟨·⟩)

theorem fill?_cons (d : Draft) (key : String) (v : Value) (ms : List (String × Value)) :
    fill? d ((key, v) :: ms) = (member? decode shape.members d key v).bind (fill? · ms) := by
  by_cases htiles : key = "tiles"
  · subst htiles
    cases hd : d.tiles with
    | none =>
      cases h : v.list? Value.toTile? <;> simp [fill?, member?, shape, Value.fill?, hd, h, decode]
    | some tiles => simp [fill?, member?, shape, Value.fill?, hd]
  · simp [fill?, member?, shape, Ne.symm htiles, Value.held_cons_of_ne htiles]

theorem value?_eq_toManifest? (v : Value) : shape.value? decode v = v.toManifest? := by
  match v with
  | .object ms =>
    rw [Shape.value?, members?_eq (fun d => rfl) fill?_cons, Value.toManifest?]
    cases Value.keyed? ms with
    | none => rfl
    | some ms =>
      simp only [Value.once?_eq, Option.bind_some, Option.bind_eq_bind, fill?, shape]
      cases Value.fill? (Value.list? Value.toTile?) none (Value.held "tiles" ms) with
      | none => rfl
      | some tiles => cases tiles <;> rfl
  | .list [] => rfl
  | .list [tiles] =>
    simp only [Shape.value?, shape, placed?, decode, Value.toManifest?]
    cases tiles.list? Value.toTile? <;> rfl
  | .list (tiles :: _ :: _) =>
    simp only [Shape.value?, shape, placed?, decode, Value.toManifest?]
    cases tiles.list? Value.toTile? <;> rfl
  | .null | .bool _ | .number _ | .string _ => rfl

theorem reads : shape.reader.Reads Value.toManifest? := by
  rw [← funext value?_eq_toManifest?]
  apply Shape.reads
  intro m hm d
  simp only [shape, List.mem_singleton] at hm
  subst hm
  exact TileSpec.reads.list.map _

end Manifest

/-! ### Order and other keys -/

namespace Json.Value

variable {α : Type}

/-- What an object is does not depend on the order of its members, nor on those with keys other than
`keys`, whatever they hold. -/
def LooksUp (keys : List String) (f : Value → Option α) : Prop :=
  (∀ ms ms' : List (List Nat × Value), ms.Perm ms' → f (object ms) = f (object ms')) ∧
    ∀ us key v ms, Json.text? us = some key → String.ofList key ∉ keys →
      f (object ((us, v) :: ms)) = f (object ms)

theorem held_perm (key : String) {ms ms' : List (String × Value)} (h : ms.Perm ms') :
    (held key ms).Perm (held key ms') :=
  (h.filter _).map _

theorem once?_perm (decode : Value → Option α) (absent : Option α) {vs vs' : List Value}
    (h : vs.Perm vs') : once? decode absent vs = once? decode absent vs' := by
  match vs, vs', h.length_eq with
  | [], [], _ => rfl
  | [v], [v'], _ =>
    obtain rfl := List.singleton_perm_singleton.1 h
    rfl
  | _ :: _ :: _, _ :: _ :: _, _ => rfl

theorem exists_keyed?_perm {ms ms' : List (List Nat × Value)} (h : ms.Perm ms')
    {ks : List (String × Value)} (hk : keyed? ms = some ks) :
    ∃ ks', keyed? ms' = some ks' ∧ ks.Perm ks' := by
  induction h generalizing ks with
  | nil => exact ⟨ks, hk, .refl _⟩
  | cons m _ ih =>
    rw [keyed?_cons] at hk ⊢
    obtain ⟨key, hkey, hk⟩ := Option.bind_eq_some_iff.1 hk
    obtain ⟨ks₁, hks, rfl⟩ := Option.map_eq_some_iff.1 hk
    obtain ⟨ks', hks', hp⟩ := ih hks
    exact ⟨(String.ofList key, m.2) :: ks', by simp [hkey, hks'], hp.cons _⟩
  | swap m m' ms =>
    simp only [keyed?_cons] at hk ⊢
    obtain ⟨key, hkey, hk⟩ := Option.bind_eq_some_iff.1 hk
    obtain ⟨ks₁, hks, rfl⟩ := Option.map_eq_some_iff.1 hk
    obtain ⟨key', hkey', hks⟩ := Option.bind_eq_some_iff.1 hks
    obtain ⟨ks₂, hks₂, rfl⟩ := Option.map_eq_some_iff.1 hks
    exact ⟨_, by simp only [hkey, hkey', hks₂, Option.bind_some, Option.map_some], .swap _ _ _⟩
  | trans _ _ ih ih' =>
    obtain ⟨ks₁, hks₁, hp⟩ := ih hk
    obtain ⟨ks₂, hks₂, hp'⟩ := ih' hks₁
    exact ⟨ks₂, hks₂, hp.trans hp'⟩

/-- An object that is seen only through what its keys hold. -/
theorem looksUp_of_held {keys : List String} {f : Value → Option α}
    {g : List (String × Value) → Option α} (hf : ∀ ms, f (object ms) = (keyed? ms).bind g)
    (hg : ∀ ms ms', (∀ key ∈ keys, (held key ms).Perm (held key ms')) → g ms = g ms') :
    LooksUp keys f := by
  constructor
  · intro ms ms' h
    rw [hf, hf]
    cases hk : keyed? ms with
    | some ks =>
      obtain ⟨ks', hk', hp⟩ := exists_keyed?_perm h hk
      rw [hk']
      exact hg ks ks' fun key _ => held_perm key hp
    | none =>
      cases hk' : keyed? ms' with
      | none => rfl
      | some ks' =>
        obtain ⟨ks, hks, -⟩ := exists_keyed?_perm h.symm hk'
        rw [hk] at hks
        cases hks
  · intro us key v ms hus hkey
    rw [hf, hf, keyed?_cons, hus, Option.bind_some]
    cases keyed? ms with
    | none => rfl
    | some ks =>
      refine hg _ _ fun key' hkey' => ?_
      rw [held_cons_of_ne]
      rintro rfl
      exact hkey hkey'

theorem looksUp_toGoal? : LooksUp ["url"] toGoal? := by
  refine looksUp_of_held (g := fun ms => do
    let url ← once? (optional? text?) (some none) (held "url" ms)
    some ⟨url⟩) (fun _ => rfl) fun ms ms' h => ?_
  rw [once?_perm _ _ (h "url" (by simp))]

theorem looksUp_toTile? : LooksUp ["name", "url", "goal"] toTile? := by
  refine looksUp_of_held (g := fun ms => do
    let name ← once? (optional? text?) (some none) (held "name" ms)
    let url ← once? text? none (held "url" ms)
    let goal ← once? (optional? toGoal?) (some none) (held "goal" ms)
    some ⟨name, url, goal⟩) (fun _ => rfl) fun ms ms' h => ?_
  rw [once?_perm _ _ (h "name" (by simp)), once?_perm _ _ (h "url" (by simp)),
    once?_perm _ _ (h "goal" (by simp))]

theorem looksUp_toManifest? : LooksUp ["tiles"] toManifest? := by
  refine looksUp_of_held (g := fun ms => do
    let tiles ← once? (list? toTile?) (some []) (held "tiles" ms)
    some ⟨tiles⟩) (fun _ => rfl) fun ms ms' h => ?_
  rw [once?_perm _ _ (h "tiles" (by simp))]

-- only the keys of members may not occur again
example : (object
    [(unitsOf "x", null), (unitsOf "tiles", list []), (unitsOf "x", null)]).toManifest? =
      some ⟨[]⟩ := by decide

example : (object [(unitsOf "tiles", list []), (unitsOf "tiles", list [])]).toManifest? = none := by
  decide

end Json.Value

/-! ### The language -/

theorem Manifest.ofText_eq_ok_iff {text : String} {m : Manifest} :
    Manifest.ofText text = .ok m ↔ ∃ v : Value, v.Renders text ∧ v.toManifest? = some m := by
  have hparse : Manifest.ofText text = .ok m ↔ Manifest.parse text = .ok m := by
    unfold Manifest.ofText
    cases Manifest.parse text <;> simp
  rw [hparse]
  exact Manifest.reads.parse_eq_ok_iff

/-- Manifests are read from the renderings of the values that are manifests, and from nothing else;
members are looked up wherever they stand, and others are ignored. -/
theorem Manifest.ofText_reads_language (text : String) (m : Manifest) :
    (Manifest.ofText text = .ok m ↔ ∃ v : Value, v.Renders text ∧ v.toManifest? = some m) ∧
      Value.LooksUp ["tiles"] Value.toManifest? ∧
      Value.LooksUp ["name", "url", "goal"] Value.toTile? ∧
      Value.LooksUp ["url"] Value.toGoal? :=
  ⟨Manifest.ofText_eq_ok_iff, Value.looksUp_toManifest?, Value.looksUp_toTile?,
    Value.looksUp_toGoal?⟩

/-! ### Unpaired surrogates -/

namespace Json

/-- A spelling with an escape that is not read is no text. -/
theorem text?_eq_none_of_escape {us : List Nat} {body rest cs : List Char}
    (hs : Spelling us body) (hcs : '\\' :: cs = body ++ '"' :: rest)
    (he : (escape cs).toOption = none) :
    text? us = none := by
  cases ht : text? us with
  | none => rfl
  | some ds =>
    have h := stringTail_of_spelling hs ht rest
    rw [← hcs, stringTail, if_neg (by decide), if_pos rfl] at h
    split at h
    · cases h
    · rename_i hok
      rw [hok] at he
      cases he

theorem Spelling.eq_nil {us : List Nat} {body rest cs : List Char} (hs : Spelling us body)
    (h : '"' :: cs = body ++ '"' :: rest) : rest = cs := by
  cases hs with
  | nil => exact (List.cons.inj h).2.symm
  | plain hq => exact absurd (List.cons.inj h).1.symm hq
  | escape => exact absurd (List.cons.inj h).1 (by decide)

theorem Value.Starts.exists_object {v : Value} (h : v.Starts '\x7b') : ∃ ms, v = .object ms := by
  match v with
  | .object ms => exact ⟨ms, rfl⟩
  | .null | .bool true | .bool false | .string _ | .list _ | .number _ =>
    simp [Value.Starts, isDigit] at h

theorem Value.Starts.exists_string {v : Value} (h : v.Starts '"') : ∃ us, v = .string us := by
  match v with
  | .string us => exact ⟨us, rfl⟩
  | .null | .bool true | .bool false | .object _ | .list _ | .number _ =>
    simp [Value.Starts, isDigit] at h

theorem Value.exists_of_spells_object {v : Value} {cs : List Char}
    (h : Spells v.tokens ('\x7b' :: '"' :: cs)) : ∃ us w ms body rest,
      v = .object ((us, w) :: ms) ∧ Spelling us body ∧ cs = body ++ '"' :: rest ∧
        Spells (.fixed [':'] :: (w.tokens ++ continued '\x7d' (ms.map memberTokens))) rest := by
  rw [← List.append_nil v.tokens] at h
  obtain ⟨c, rest, he, hc⟩ := Value.exists_starts h
  rw [skipBlanks_cons rfl] at he
  obtain ⟨rfl, rfl⟩ := List.cons.inj he
  obtain ⟨ms, rfl⟩ := hc.exists_object
  rw [List.append_nil, Value.tokens_object] at h
  obtain ⟨rest, he, h⟩ := (Spells.fixed_iff rfl []).1 h
  obtain ⟨-, rfl⟩ := List.cons.inj he
  cases ms with
  | nil =>
    obtain ⟨rest, he, -⟩ := (Spells.fixed_iff rfl []).1 h
    rw [skipBlanks_cons rfl] at he
    exact absurd (List.cons.inj he).1 (by decide)
  | cons m ms =>
    obtain ⟨body, rest, he, hs, h⟩ := Spells.string_iff.1 h
    rw [skipBlanks_cons rfl] at he
    exact ⟨m.1, m.2, ms, body, rest, rfl, hs, (List.cons.inj he).2, h⟩

def Numeral.zero : Numeral := ⟨false, ['0'], [], none⟩

theorem Numeral.spelled_zero : Numeral.zero.Spelled ['0'] :=
  .mk (q := []) ⟨⟨by simp, by simp [isDigit]⟩, fun _ => rfl⟩ .none .none

theorem spelling_unpaired : Spelling [0xD800] ['\\', 'u', 'd', '8', '0', '0'] := by
  have hvalue : hexValue? ['d', '8', '0', '0'] = some 0xD800 := by decide
  exact .escape (.unit hvalue) .nil

theorem toList_unpaired_key : "\x7b\"\\ud800\":0\x7d".toList =
    ['\x7b', '"', '\\', 'u', 'd', '8', '0', '0', '"', ':', '0', '\x7d'] := by decide

theorem toList_unpaired_value : "\x7b\"\":\"\\ud800\"\x7d".toList =
    ['\x7b', '"', '"', ':', '"', '\\', 'u', 'd', '8', '0', '0', '"', '\x7d'] := by decide

theorem spells_close : Spells (continued '\x7d' []) ['\x7d'] :=
  (Spells.fixed_iff rfl []).2 ⟨[], rfl, .nil (by simp [IsBlanks])⟩

theorem renders_unpaired_key :
    (Value.object [([0xD800], .number .zero)]).Renders "\x7b\"\\ud800\":0\x7d" := by
  unfold Value.Renders
  rw [Value.tokens_object, toList_unpaired_key]
  refine (Spells.fixed_iff rfl []).2 ⟨_, skipBlanks_cons rfl _, ?_⟩
  refine Spells.string_iff.2 ⟨_, [':', '0', '\x7d'], skipBlanks_cons rfl _, spelling_unpaired, ?_⟩
  refine (Spells.fixed_iff rfl []).2 ⟨_, skipBlanks_cons rfl _, ?_⟩
  rw [Value.tokens_number]
  exact Spells.number_iff.2 ⟨_, _, skipBlanks_cons rfl _, Numeral.spelled_zero, spells_close⟩

theorem renders_unpaired_value :
    (Value.object [([], .string [0xD800])]).Renders "\x7b\"\":\"\\ud800\"\x7d" := by
  unfold Value.Renders
  rw [Value.tokens_object, toList_unpaired_value]
  refine (Spells.fixed_iff rfl []).2 ⟨_, skipBlanks_cons rfl _, ?_⟩
  refine Spells.string_iff.2 ⟨[], _, skipBlanks_cons rfl _, .nil, ?_⟩
  refine (Spells.fixed_iff rfl []).2 ⟨_, skipBlanks_cons rfl _, ?_⟩
  rw [Value.tokens_string]
  exact Spells.string_iff.2 ⟨_, _, skipBlanks_cons rfl _, spelling_unpaired, spells_close⟩

end Json

/-- An unpaired surrogate is refused in a key of a manifest though no member has the key, but
accepted under such a key, in a rendering of no value all of whose strings are text. -/
theorem Manifest.ofText_unpaired :
    ((Value.object [([0xD800], .number .zero)]).Renders "\x7b\"\\ud800\":0\x7d" ∧
      [0xD800] ≠ unitsOf "tiles" ∧ ∀ m, Manifest.ofText "\x7b\"\\ud800\":0\x7d" ≠ .ok m) ∧
    Manifest.ofText "\x7b\"\":\"\\ud800\"\x7d" = .ok ⟨[]⟩ ∧
      ∀ v : Value, v.Renders "\x7b\"\":\"\\ud800\"\x7d" →
        ∃ us, Token.string us ∈ v.tokens ∧ text? us = none := by
  refine ⟨⟨renders_unpaired_key, by decide, ?_⟩, ?_, ?_⟩
  · intro m hm
    obtain ⟨v, hv, hm⟩ := Manifest.ofText_eq_ok_iff.1 hm
    unfold Value.Renders at hv
    rw [toList_unpaired_key] at hv
    obtain ⟨us, w, ms, body, rest, rfl, hs, hcs, -⟩ := Value.exists_of_spells_object hv
    have hus : text? us = none := text?_eq_none_of_escape hs hcs (by decide)
    rw [Value.toManifest?, Value.keyed?_cons, hus] at hm
    cases hm
  · exact Manifest.ofText_eq_ok_iff.2 ⟨_, renders_unpaired_value, by decide⟩
  · intro v hv
    unfold Value.Renders at hv
    rw [toList_unpaired_value] at hv
    obtain ⟨us, w, ms, body, rest, rfl, hs, hcs, h⟩ := Value.exists_of_spells_object hv
    obtain rfl := hs.eq_nil hcs
    obtain ⟨rest, he, h⟩ := (Spells.fixed_iff rfl []).1 h
    rw [skipBlanks_cons rfl] at he
    obtain ⟨-, rfl⟩ := List.cons.inj he
    obtain ⟨c, rest', he, hc⟩ := Value.exists_starts h
    rw [skipBlanks_cons rfl] at he
    obtain ⟨rfl, rfl⟩ := List.cons.inj he
    obtain ⟨us', rfl⟩ := hc.exists_string
    rw [Value.tokens_string] at h
    obtain ⟨body', rest, he, hs', -⟩ := Spells.string_iff.1 h
    rw [skipBlanks_cons rfl] at he
    refine ⟨us', ?_, text?_eq_none_of_escape hs' (List.cons.inj he).2 (by decide)⟩
    rw [Value.tokens_object]
    simp [enclosed, Value.memberTokens]

end TileCatalog
