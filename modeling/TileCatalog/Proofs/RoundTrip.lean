import TileCatalog.Manifest.Writer
import TileCatalog.Proofs.ManifestLanguage

/-!
# Reading what was written

The written forms of goals, tiles and manifests are renderings of values (`Value.Written`) that
decode to them again. Main statement: what is written is read back as it was.
-/

namespace TileCatalog.Json

variable {α : Type}

/-! ### Strings -/

theorem hexDigit?_hexChar (n : Nat) : hexDigit? (hexChar n) = some (n % 16) := by
  have h : ∀ k < 16, hexDigit? (Nat.digitChar k) = some k := by decide
  exact h _ (Nat.mod_lt n (by decide))

theorem hexValue?_control {n : Nat} (h : n < 0x20) :
    hexValue? ['0', '0', hexChar (n / 16), hexChar n] = some n := by
  have h0 : hexDigit? '0' = some 0 := rfl
  simp only [hexValue?, h0, hexDigit?_hexChar, Option.some.injEq]
  omega

theorem toNat_lt_of_lt_blank {c : Char} (h : c < ' ') : c.toNat < 0x20 :=
  UInt32.lt_iff_toNat_lt.1 h

/-- A character is written as a short escape, as an escape of its number, or as it is. -/
theorem writeChar_cases (c : Char) :
    (∃ e, (e, c) ∈ shortEscapes ∧ writeChar c = ['\\', e]) ∨
      (c < ' ' ∧
        writeChar c = ['\\', 'u', '0', '0', hexChar (c.toNat / 16), hexChar c.toNat]) ∨
      c ≠ '"' ∧ c ≠ '\\' ∧ isControl c = false ∧ writeChar c = [c] := by
  have hshort : ∀ {d e w}, c = d → (e, d) ∈ shortEscapes → w = ['\\', e] →
      ∃ e, (e, c) ∈ shortEscapes ∧ w = ['\\', e] := by
    rintro d e w rfl he rfl
    exact ⟨e, he, rfl⟩
  unfold writeChar
  split
  · exact .inl (hshort ‹_› (by decide) rfl)
  split
  · exact .inl (hshort ‹_› (by decide) rfl)
  split
  · exact .inl (hshort ‹_› (by decide) rfl)
  split
  · exact .inl (hshort ‹_› (by decide) rfl)
  split
  · exact .inl (hshort ‹_› (by decide) rfl)
  split
  · exact .inl (hshort ‹_› (by decide) rfl)
  split
  · exact .inl (hshort ‹_› (by decide) rfl)
  rename_i hquote hback _ _ _ _ _
  split
  · exact .inr (.inl ⟨‹_›, rfl⟩)
  · rename_i hc
    exact .inr (.inr ⟨hquote, hback, by simpa [isControl] using hc, rfl⟩)

theorem Spelling.writeChar (c : Char) {us : List Nat} {cs : List Char} (h : Spelling us cs) :
    Spelling (units c ++ us) (writeChar c ++ cs) := by
  rcases writeChar_cases c with ⟨e, he, hw⟩ | ⟨hc, hw⟩ | ⟨hquote, hback, hc, hw⟩
  · rw [hw]
    exact .escape (.short he) h
  · have hn := toNat_lt_of_lt_blank hc
    rw [hw, units, if_pos (by omega)]
    exact .escape (.unit (hexValue?_control hn)) h
  · rw [hw]
    exact .plain hquote hback hc h

theorem spelling_writeChar (cs : List Char) :
    Spelling (cs.flatMap units) (cs.flatMap writeChar) := by
  induction cs with
  | nil => exact .nil
  | cons c cs ih => exact .writeChar c ih

theorem text?_unitsOf (s : String) : text? (unitsOf s) = some s.toList :=
  text?_flatMap_units s.toList

/-! ### Written values -/

namespace Value

def ofText (s : String) : Value := .string (unitsOf s)

def ofOption (f : α → Value) : Option α → Value
  | none => .null
  | some a => f a

/-- The characters are a rendering of the value, whatever stands behind them. -/
def Written (v : Value) (w : List Char) : Prop := ∀ rest, Leads v.tokens (w ++ rest) rest

theorem leads_writeString (s : String) (rest : List Char) :
    Leads [.string (unitsOf s)] (writeString s ++ rest) rest := by
  refine .string ?_ (spelling_writeChar s.toList)
  rw [writeString, List.cons_append, List.cons_append, skipBlanks_cons rfl, List.append_assoc]
  rfl

theorem Written.text (s : String) : (ofText s).Written (writeString s) := fun rest => by
  rw [ofText, tokens_string]
  exact leads_writeString s rest

theorem Written.option {f : α → Value} {write : α → List Char} (h : ∀ a, (f a).Written (write a))
    (o : Option α) : (ofOption f o).Written (writeOption write o) := by
  cases o with
  | none =>
    intro rest
    rw [ofOption, tokens_null]
    exact .fixed rfl (skipBlanks_cons rfl _)
  | some a => exact h a

end Value

section Items

variable {toks : α → List Token} {write : α → List Char} {close : Char}

/-- Items with commas between them are followed by the closing bracket. -/
theorem leads_writeItems (hclose : isBlank close = false) {as : List α}
    (h : ∀ a ∈ as, ∀ rest, Leads (toks a) (write a ++ rest) rest) (rest : List Char) :
    Leads (enclosed close (as.map toks)) (writeItems write as ++ close :: rest) rest := by
  match as with
  | [] => exact .mark hclose (skipBlanks_cons hclose rest)
  | [a] =>
    exact (h a List.mem_cons_self _).trans (.mark hclose (skipBlanks_cons hclose rest))
  | a :: b :: as =>
    have ih := leads_writeItems hclose (List.forall_mem_cons.1 h).2 rest
    have hcomma : Leads [.fixed [',']] (',' :: (writeItems write (b :: as) ++ close :: rest))
        (writeItems write (b :: as) ++ close :: rest) := .mark rfl (skipBlanks_cons rfl _)
    have ha := h a List.mem_cons_self (',' :: (writeItems write (b :: as) ++ close :: rest))
    have hw : writeItems write (a :: b :: as) = write a ++ ',' :: writeItems write (b :: as) := rfl
    rw [hw, List.append_assoc, List.cons_append]
    exact ha.trans (hcomma.trans ih)

theorem writeItems_map {β : Type} (f : β → α) (write : α → List Char) (bs : List β) :
    writeItems write (bs.map f) = writeItems (fun b => write (f b)) bs := by
  match bs with
  | [] => rfl
  | [b] => rfl
  | b :: b' :: bs =>
    have ih := writeItems_map f write (b' :: bs)
    exact congrArg (fun cs => write (f b) ++ ',' :: cs) ih

end Items

namespace Value

theorem Written.list {f : α → Value} {write : α → List Char} {as : List α}
    (h : ∀ a ∈ as, (f a).Written (write a)) :
    (list (as.map f)).Written (writeList write as) := fun rest => by
  have hopen : Leads [.fixed ['[']] ('[' :: (writeItems write as ++ ']' :: rest))
      (writeItems write as ++ ']' :: rest) := .mark rfl (skipBlanks_cons rfl _)
  rw [tokens_list, List.map_map, writeList]
  simp only [List.cons_append, List.append_assoc, List.nil_append]
  exact hopen.trans (leads_writeItems rfl h rest)

/-- A member: its key, its value, and how the value is written. -/
structure WrittenMember where
  key : String
  value : Value
  written : List Char

namespace WrittenMember

def member (m : WrittenMember) : List Nat × Value := (unitsOf m.key, m.value)

theorem leads (m : WrittenMember) (h : m.value.Written m.written) (rest : List Char) :
    Leads (memberTokens m.member) (writeMember m.key m.written ++ rest) rest := by
  have hcolon : Leads [.fixed [':']] (':' :: (m.written ++ rest)) (m.written ++ rest) :=
    .mark rfl (skipBlanks_cons rfl _)
  rw [writeMember, List.append_assoc, List.cons_append]
  exact (leads_writeString m.key _).trans (hcolon.trans (h rest))

end WrittenMember

theorem Written.object (ms : List WrittenMember) (h : ∀ m ∈ ms, m.value.Written m.written) :
    (object (ms.map (·.member))).Written
      (writeObject (ms.map fun m => writeMember m.key m.written)) := fun rest => by
  have hopen : ∀ cs, Leads [.fixed ['\x7b']] ('\x7b' :: cs) cs :=
    fun cs => .mark rfl (skipBlanks_cons rfl _)
  rw [tokens_object, List.map_map, writeObject, writeItems_map]
  simp only [List.cons_append, List.append_assoc, List.nil_append]
  exact (hopen _).trans (leads_writeItems rfl (fun m hm rest => m.leads (h m hm) rest) rest)

/-! ### Decoding again -/

@[simp] theorem text?_ofText (s : String) : (ofText s).text? = some s := by
  rw [ofText, text?, text?_unitsOf, Option.map_some, String.ofList_toList]

theorem optional?_ofOption {f : α → Value} {decode : Value → Option α}
    (h : ∀ a, decode (f a) = some a) (hnull : decode null = none) (o : Option α) :
    (ofOption f o).optional? decode = some o := by
  cases o with
  | none => rfl
  | some a =>
    have hne : f a ≠ null := by
      intro hf
      have := h a
      rw [hf, hnull] at this
      cases this
    rw [ofOption, optional?.eq_def]
    split
    · exact absurd ‹_› hne
    · rw [h, Option.map_some]

theorem list?_map {f : α → Value} {decode : Value → Option α} (h : ∀ a, decode (f a) = some a)
    (as : List α) : (list (as.map f)).list? decode = some as := by
  rw [list?]
  induction as with
  | nil => rfl
  | cons a as ih => simp [h, ih]

@[simp] theorem keyed?_member_cons (m : WrittenMember) (ms : List (List Nat × Value)) :
    keyed? (m.member :: ms) = (keyed? ms).map ((m.key, m.value) :: ·) := by
  rw [keyed?_cons, WrittenMember.member, text?_unitsOf, Option.bind_some, String.ofList_toList]

@[simp] theorem keyed?_nil : keyed? [] = some [] := rfl

end Value

end TileCatalog.Json

namespace TileCatalog

open Json Value

namespace GoalSpec

def toMembers (g : GoalSpec) : List WrittenMember :=
  [⟨"url", ofOption ofText g.url, writeOption writeString g.url⟩]

def toValue (g : GoalSpec) : Value := .object (g.toMembers.map (·.member))

theorem written_toValue (g : GoalSpec) : g.toValue.Written g.written :=
  .object g.toMembers fun m hm => by
    rw [toMembers, List.mem_singleton] at hm
    subst hm
    exact Written.option Written.text g.url

theorem toGoal?_toValue (g : GoalSpec) : g.toValue.toGoal? = some g := by
  have hurl := optional?_ofOption text?_ofText rfl g.url
  simp [toValue, toMembers, toGoal?, once?, hurl]

end GoalSpec

namespace TileSpec

def toMembers (t : TileSpec) : List WrittenMember :=
  ⟨"name", ofOption ofText t.name, writeOption writeString t.name⟩ ::
    ⟨"url", ofText t.url, writeString t.url⟩ ::
      t.goal.toList.map fun g => ⟨"goal", g.toValue, g.written⟩

def toValue (t : TileSpec) : Value := .object (t.toMembers.map (·.member))

theorem written_toValue (t : TileSpec) : t.toValue.Written t.written := by
  have hwritten : t.written =
      writeObject (t.toMembers.map fun m => writeMember m.key m.written) := by
    simp only [written, toMembers, List.map_cons, List.map_map]
    rfl
  rw [hwritten]
  refine .object t.toMembers fun m hm => ?_
  simp only [toMembers, List.mem_cons, List.mem_map] at hm
  rcases hm with rfl | rfl | ⟨g, -, rfl⟩
  · exact Written.option Written.text t.name
  · exact Written.text t.url
  · exact g.written_toValue

theorem toTile?_toValue (t : TileSpec) : t.toValue.toTile? = some t := by
  obtain ⟨name, url, goal⟩ := t
  have hname := optional?_ofOption text?_ofText rfl name
  cases goal with
  | none => simp [toValue, toMembers, toTile?, once?, hname, held_cons_of_ne]
  | some g =>
    have hgoal : g.toValue.optional? toGoal? = some (some g) :=
      optional?_ofOption GoalSpec.toGoal?_toValue rfl (some g)
    simp [toValue, toMembers, toTile?, once?, hname, hgoal, held_cons_of_ne]

end TileSpec

namespace Manifest

def toMembers (m : Manifest) : List WrittenMember :=
  [⟨"tiles", .list (m.tiles.map TileSpec.toValue), writeList TileSpec.written m.tiles⟩]

def toValue (m : Manifest) : Value := .object (m.toMembers.map (·.member))

theorem written_toValue (m : Manifest) : m.toValue.Written m.written :=
  .object m.toMembers fun m' hm => by
    rw [toMembers, List.mem_singleton] at hm
    subst hm
    exact Written.list fun t _ => t.written_toValue

theorem toManifest?_toValue (m : Manifest) : m.toValue.toManifest? = some m := by
  have htiles := list?_map TileSpec.toTile?_toValue m.tiles
  simp [toValue, toMembers, toManifest?, once?, htiles]

end Manifest

/-! ### The round trip -/

theorem Json.Reader.Reads.parse_written {α : Type} {r : Reader α} {decode : Value → Option α}
    (h : r.Reads decode) {v : Value} {w : List Char} {a : α} (hw : v.Written w)
    (hv : decode v = some a) : r.parse (String.ofList w).toList = .ok a := by
  have hs : Spells (v.tokens ++ []) (w ++ []) := hw [] [] (Spells.nil (by simp [IsBlanks]))
  rw [List.append_nil, List.append_nil] at hs
  rw [String.toList_ofList]
  exact h.parse_eq_ok_iff.2 ⟨v, hs, hv⟩

/-- What is written is read back as it was: manifests, tiles and goals. -/
theorem parse_render :
    (∀ m : Manifest, Manifest.ofText m.render = .ok m) ∧
      (∀ t : TileSpec, TileSpec.parse t.render = .ok t) ∧
      ∀ g : GoalSpec, GoalSpec.parse g.render = .ok g := by
  refine ⟨fun m => ?_, fun t => ?_, fun g => ?_⟩
  · have hm : Manifest.parse m.render = .ok m :=
      Manifest.reads.parse_written m.written_toValue m.toManifest?_toValue
    rw [Manifest.ofText, hm]
  · exact TileSpec.reads.parse_written t.written_toValue t.toTile?_toValue
  · exact GoalSpec.reads.parse_written g.written_toValue g.toGoal?_toValue

end TileCatalog
