import TileCatalog.Json.Fault

/-!
# Readers

A reader takes a value from the front of a text and gives back what is left. It never gives back
more than it got (`Reader.shrinks`), so that loops over readers end.
-/

namespace TileCatalog.Json

abbrev Outcome (α : Type) := Except Fault (α × List Char)

structure Reader (α : Type) where
  run : List Char → Outcome α
  shrinks : ∀ {cs a rest}, run cs = .ok (a, rest) → rest.length ≤ cs.length

/-- The four characters that may stand between tokens. -/
def isBlank (c : Char) : Bool := c == ' ' || c == '\n' || c == '\t' || c == '\r'

def skipBlanks (cs : List Char) : List Char := cs.dropWhile isBlank

theorem length_skipBlanks_le (cs : List Char) : (skipBlanks cs).length ≤ cs.length :=
  (List.dropWhile_suffix isBlank).length_le

theorem length_lt_of_skipBlanks_eq_cons {cs rest : List Char} {c : Char}
    (h : skipBlanks cs = c :: rest) : rest.length < cs.length := by
  have := length_skipBlanks_le cs
  rw [h, List.length_cons] at this
  omega

def takeWord : List Char → List Char → Except Fault (List Char)
  | [], cs => .ok cs
  | _ :: _, [] => .error (.here .eofInValue [])
  | w :: word, c :: cs =>
    if c = w then takeWord word cs else .error (.next .expectedIdent (c :: cs))

theorem length_le_of_takeWord {word cs rest : List Char} (h : takeWord word cs = .ok rest) :
    rest.length ≤ cs.length := by
  fun_induction takeWord word cs with
  | case1 => simp_all
  | case2 => simp at h
  | case3 _ _ _ ih => have := ih h; simp; omega
  | case4 => simp at h

namespace Reader

variable {α β : Type}

def mapRun (f : α → β) (r : Reader α) (cs : List Char) : Outcome β :=
  match r.run cs with
  | .error e => .error e
  | .ok (a, rest) => .ok (f a, rest)

theorem length_le_of_mapRun {f : α → β} {r : Reader α} {cs rest : List Char} {b : β}
    (h : mapRun f r cs = .ok (b, rest)) : rest.length ≤ cs.length := by
  unfold mapRun at h
  split at h
  · simp at h
  · rename_i hr
    cases h
    exact r.shrinks hr

def map (f : α → β) (r : Reader α) : Reader β := ⟨mapRun f r, length_le_of_mapRun⟩

/-- Reads a whole text: one value, and nothing but blanks behind it. -/
def parse (r : Reader α) (text : List Char) : Except ParseError α :=
  match r.run text with
  | .error e => .error (.ofFault text e)
  | .ok (a, rest) =>
    match skipBlanks rest with
    | [] => .ok a
    | c :: rest' => .error (.ofFault text (.next .trailingCharacters (c :: rest')))

end Reader

end TileCatalog.Json
