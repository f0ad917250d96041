import TileCatalog.Json.Skip
import TileCatalog.Json.Typed

/-!
# Records

A record is described by a `Shape` and read in two forms: as an object, its members under their keys
in any order and unknown keys skipped, or as a list of the members in their order. A member may be
absent; the shape then says whether the record can do without it.
-/

namespace TileCatalog.Json

variable {α δ : Type}

/-- A member of a record: its key, whether a draft of the record has it, and how its value is read
into a draft. -/
structure Member (δ : Type) where
  key : String
  isSet : δ → Bool
  read : δ → Reader δ

/-- How a record is read: its title in messages, its members in order, the draft to start from, and
what a draft amounts to, or the key that it lacks. -/
structure Shape (δ α : Type) where
  title : String
  members : List (Member δ)
  draft : δ
  finish : δ → Except String α

/-- Goes to the next key of an object, behind its opening quote: whether there is one. If not, the
closing brace is taken. -/
def nextKey (first : Bool) (cs : List Char) : Outcome Bool :=
  match skipBlanks cs with
  | [] => .error (.next .eofInObject [])
  | c :: rest =>
    if c = '\x7d' then .ok (false, rest)
    else if first then
      if c = '"' then .ok (true, rest) else .error (.next .keyNotString (c :: rest))
    else if c = ',' then
      match skipBlanks rest with
      | [] => .error (.next .eofInValue [])
      | d :: rest' =>
        if d = '"' then .ok (true, rest')
        else if d = '\x7d' then .error (.next .trailingComma (d :: rest'))
        else .error (.next .keyNotString (d :: rest'))
    else .error (.next .expectedCommaOrBrace (c :: rest))

theorem length_lt_of_nextKey {first more : Bool} {cs rest : List Char}
    (h : nextKey first cs = .ok (more, rest)) : rest.length < cs.length := by
  unfold nextKey at h
  split at h
  · simp at h
  · rename_i heq
    have h₁ := length_lt_of_skipBlanks_eq_cons heq
    split at h
    · cases h; exact h₁
    · split at h
      · split at h
        · cases h; exact h₁
        · simp at h
      · split at h
        · split at h
          · simp at h
          · rename_i heq₂
            have h₂ := length_lt_of_skipBlanks_eq_cons heq₂
            split at h
            · cases h; omega
            · split at h <;> simp at h
        · simp at h

/-- A key that occurs again is reported behind the blanks after it, and behind a brace that closes
the object there. -/
def repeated (key : String) (cs : List Char) : Fault :=
  match skipBlanks cs with
  | [] => .here (.duplicateField key) []
  | c :: rest =>
    .here (.duplicateField key) (if c = '\x7d' then rest else c :: rest)

def readMember (members : List (Member δ)) (d : δ) (key : String) (cs : List Char) : Outcome δ :=
  match members.find? (·.key == key) with
  | some m =>
    if m.isSet d then .error (repeated m.key cs)
    else
      match takeColon cs with
      | .error e => .error e
      | .ok cs₁ => (m.read d).run cs₁
  | none =>
    match takeColon cs with
    | .error e => .error e
    | .ok cs₁ =>
      match skip cs₁ with
      | .error e => .error e
      | .ok rest => .ok (d, rest)

theorem length_le_of_readMember {members : List (Member δ)} {d d' : δ} {key : String}
    {cs rest : List Char} (h : readMember members d key cs = .ok (d', rest)) :
    rest.length ≤ cs.length := by
  unfold readMember at h
  split at h
  · split at h
    · simp at h
    · split at h
      · simp at h
      · rename_i h₁
        have := length_lt_of_takeColon h₁
        have := Reader.shrinks _ h
        omega
  · split at h
    · simp at h
    · rename_i h₁
      have := length_lt_of_takeColon h₁
      split at h
      · simp at h
      · rename_i h₂
        have := length_le_of_skip h₂
        cases h
        omega

def readMembers (members : List (Member δ)) (first : Bool) (d : δ) (cs : List Char) : Outcome δ :=
  match h : nextKey first cs with
  | .error e => .error e
  | .ok (false, rest) => .ok (d, rest)
  | .ok (true, cs₁) =>
    match h₁ : stringTail cs₁ with
    | .error e => .error e
    | .ok (key, cs₂) =>
      match h₂ : readMember members d (String.ofList key) cs₂ with
      | .error e => .error e
      | .ok (d', cs₃) =>
        have := length_lt_of_nextKey h
        have := length_lt_of_stringTail h₁
        have := length_le_of_readMember h₂
        readMembers members false d' cs₃
termination_by cs.length
decreasing_by omega

theorem length_le_of_readMembers {members : List (Member δ)} {first : Bool} {d d' : δ}
    {cs rest : List Char} (h : readMembers members first d cs = .ok (d', rest)) :
    rest.length ≤ cs.length := by
  fun_induction readMembers members first d cs with
  | case1 => simp at h
  | case2 _ _ _ _ h₁ =>
    have := length_lt_of_nextKey h₁
    cases h
    omega
  | case3 => simp at h
  | case4 => simp at h
  | case5 _ _ _ _ _ _ _ _ _ _ _ _ _ _ ih =>
    have := ih h
    omega

/-- Takes the bracket behind the last member that a list can hold. -/
def closeList (cs : List Char) : Except Fault (List Char) :=
  match skipBlanks cs with
  | [] => .error (.next .eofInList [])
  | c :: rest =>
    if c = ']' then .ok rest
    else if c = ',' then
      match skipBlanks rest with
      | [] => .error (.next .trailingCharacters [])
      | d :: rest' =>
        if d = ']' then .error (.next .trailingComma (d :: rest'))
        else .error (.next .trailingCharacters (d :: rest'))
    else .error (.next .trailingCharacters (c :: rest))

theorem length_le_of_closeList {cs rest : List Char} (h : closeList cs = .ok rest) :
    rest.length ≤ cs.length := by
  unfold closeList at h
  split at h
  · simp at h
  · rename_i heq
    have := length_lt_of_skipBlanks_eq_cons heq
    split at h
    · cases h; omega
    · split at h
      · split at h
        · simp at h
        · split at h <;> simp at h
      · simp at h

/-- Reads members by their order up to the closing bracket, which is taken. The list may stop
early. -/
def readPlaced (first : Bool) : List (Member δ) → δ → List Char → Outcome δ
  | [], d, cs => (closeList cs).map (d, ·)
  | m :: members, d, cs =>
    match nextItem first cs with
    | .error e => .error e
    | .ok (false, rest) => .ok (d, rest)
    | .ok (true, cs₁) =>
      match (m.read d).run cs₁ with
      | .error e => .error e
      | .ok (d', cs₂) => readPlaced false members d' cs₂

theorem length_le_of_readPlaced {first : Bool} {members : List (Member δ)} {d d' : δ}
    {cs rest : List Char} (h : readPlaced first members d cs = .ok (d', rest)) :
    rest.length ≤ cs.length := by
  fun_induction readPlaced first members d cs with
  | case1 _ _ cs =>
    cases hc : closeList cs with
    | error e => simp [hc, Except.map] at h
    | ok rest₁ =>
      have := length_le_of_closeList hc
      simp only [hc, Except.map, Except.ok.injEq, Prod.mk.injEq] at h
      obtain ⟨-, rfl⟩ := h
      exact this
  | case2 => simp at h
  | case3 _ _ _ _ _ _ h₁ =>
    have := length_le_of_nextItem h₁
    cases h
    omega
  | case4 => simp at h
  | case5 _ _ _ _ _ _ h₁ _ _ h₂ ih =>
    have := length_le_of_nextItem h₁
    have := Reader.shrinks _ h₂
    have := ih h
    omega

namespace Shape

def absent (key : String) : Cause := .missingField key

/-- A record whose draft lacks `key`, read as a list: the list is as long as the key's place. -/
def tooShort (s : Shape δ α) (key : String) : Cause :=
  .wrongLength (s.members.findIdx (·.key == key)) s!"{s.title} with {s.members.length} elements"

def conclude (s : Shape δ α) (lacking : String → Cause) : Outcome δ → Outcome α
  | .error e => .error e
  | .ok (d, rest) =>
    match s.finish d with
    | .error key => .error (.here (lacking key) rest)
    | .ok a => .ok (a, rest)

def run (s : Shape δ α) (cs : List Char) : Outcome α :=
  match skipBlanks cs with
  | [] => .error (.next .eofInValue [])
  | c :: rest =>
    if c = '\x7b' then s.conclude absent (readMembers s.members true s.draft rest)
    else if c = '[' then s.conclude s.tooShort (readPlaced true s.members s.draft rest)
    else .error (mismatch s.title (c :: rest))

theorem exists_of_conclude {s : Shape δ α} {lacking : String → Cause} {o : Outcome δ} {a : α}
    {rest : List Char} (h : s.conclude lacking o = .ok (a, rest)) :
    ∃ d, o = .ok (d, rest) ∧ s.finish d = .ok a := by
  unfold conclude at h
  split at h
  · simp at h
  · split at h
    · simp at h
    · cases h
      exact ⟨_, rfl, ‹_›⟩

theorem length_le_of_run {s : Shape δ α} {cs rest : List Char} {a : α}
    (h : s.run cs = .ok (a, rest)) : rest.length ≤ cs.length := by
  unfold run at h
  split at h
  · simp at h
  · rename_i heq
    have := length_lt_of_skipBlanks_eq_cons heq
    split at h
    · obtain ⟨d, hd, -⟩ := exists_of_conclude h
      have := length_le_of_readMembers hd
      omega
    · split at h
      · obtain ⟨d, hd, -⟩ := exists_of_conclude h
        have := length_le_of_readPlaced hd
        omega
      · simp at h

def reader (s : Shape δ α) : Reader α := ⟨s.run, length_le_of_run⟩

end Shape

end TileCatalog.Json
