import TileCatalog.Json.Mismatch

/-!
# Typed values

Readers for text, optional values and lists.
-/

namespace TileCatalog.Json

variable {α : Type}

/-! ### Text, optional values -/

namespace Reader

def textRun (cs : List Char) : Outcome String :=
  match skipBlanks cs with
  | [] => .error (.next .eofInValue [])
  | c :: rest =>
    if c = '"' then
      match stringTail rest with
      | .error e => .error e
      | .ok (text, rest') => .ok (String.ofList text, rest')
    else .error (mismatch "a string" (c :: rest))

theorem length_le_of_textRun {cs rest : List Char} {s : String}
    (h : textRun cs = .ok (s, rest)) : rest.length ≤ cs.length := by
  unfold textRun at h
  split at h
  · simp at h
  · rename_i heq
    have := length_lt_of_skipBlanks_eq_cons heq
    split at h
    · split at h
      · simp at h
      · rename_i hs
        have := length_lt_of_stringTail hs
        cases h
        omega
    · simp at h

def text : Reader String := ⟨textRun, length_le_of_textRun⟩

def optionalRun (r : Reader α) (cs : List Char) : Outcome (Option α) :=
  match skipBlanks cs with
  | [] => (r.map some).run []
  | c :: rest =>
    if c = 'n' then (takeWord ['u', 'l', 'l'] rest).map (none, ·)
    else (r.map some).run (c :: rest)

theorem length_le_of_optionalRun {r : Reader α} {cs rest : List Char} {a : Option α}
    (h : optionalRun r cs = .ok (a, rest)) : rest.length ≤ cs.length := by
  unfold optionalRun at h
  have hl := length_skipBlanks_le cs
  split at h
  · have := (r.map some).shrinks h
    simp only [List.length_nil] at this
    omega
  · rename_i c cs₁ heq
    rw [heq] at hl
    split at h
    · cases hw : takeWord ['u', 'l', 'l'] cs₁ with
      | error e => simp [hw, Except.map] at h
      | ok rest₁ =>
        have := length_le_of_takeWord hw
        simp only [hw, Except.map, Except.ok.injEq, Prod.mk.injEq] at h
        simp only [List.length_cons] at hl
        obtain ⟨-, rfl⟩ := h
        omega
    · have := (r.map some).shrinks h
      omega

def optional (r : Reader α) : Reader (Option α) := ⟨optionalRun r, length_le_of_optionalRun⟩

end Reader

/-! ### Lists -/

/-- Goes to the next item of a list: whether there is one. If not, the closing bracket is taken. -/
def nextItem (first : Bool) (cs : List Char) : Outcome Bool :=
  match skipBlanks cs with
  | [] => .error (.next .eofInList [])
  | c :: rest =>
    if c = ']' then .ok (false, rest)
    else if first then .ok (true, c :: rest)
    else if c = ',' then
      match skipBlanks rest with
      | [] => .error (.next .eofInValue [])
      | d :: rest' =>
        if d = ']' then .error (.next .trailingComma (d :: rest')) else .ok (true, d :: rest')
    else .error (.next .expectedCommaOrBracket (c :: rest))

theorem length_le_of_nextItem {first more : Bool} {cs rest : List Char}
    (h : nextItem first cs = .ok (more, rest)) :
    rest.length + (if first then 0 else 1) ≤ cs.length := by
  unfold nextItem at h
  split at h
  · simp at h
  · rename_i c cs₁ heq
    have h₁ := length_lt_of_skipBlanks_eq_cons heq
    split at h
    · cases h
      split <;> omega
    · split at h
      · rename_i hf
        cases h
        simp only [hf, if_true, List.length_cons]
        omega
      · rename_i hf
        split at h
        · split at h
          · simp at h
          · rename_i d cs₂ heq₂
            have h₂ := length_lt_of_skipBlanks_eq_cons heq₂
            split at h
            · simp at h
            · cases h
              simp only [hf, List.length_cons]
              split <;> omega
        · simp at h

def readItems (item : Reader α) (first : Bool) (cs : List Char) : Outcome (List α) :=
  match h : nextItem first cs with
  | .error e => .error e
  | .ok (false, rest) => .ok ([], rest)
  | .ok (true, cs₁) =>
    match h₁ : item.run cs₁ with
    | .error e => .error e
    | .ok (a, cs₂) =>
      have := length_le_of_nextItem h
      have := item.shrinks h₁
      match readItems item false cs₂ with
      | .error e => .error e
      | .ok (as, rest) => .ok (a :: as, rest)
termination_by cs.length + if first then 1 else 0
decreasing_by cases first <;> simp_all <;> omega

theorem length_le_of_readItems {item : Reader α} {first : Bool} {cs rest : List Char}
    {as : List α} (h : readItems item first cs = .ok (as, rest)) : rest.length ≤ cs.length := by
  fun_induction readItems item first cs generalizing as rest with
  | case1 => simp at h
  | case2 _ _ _ h₁ =>
    have := length_le_of_nextItem h₁
    cases h
    omega
  | case3 => simp at h
  | case4 => simp at h
  | case5 _ _ _ h₁ _ _ _ hle hshrink _ _ hrest ih =>
    have := ih hrest
    cases h
    omega

namespace Reader

def listRun (item : Reader α) (cs : List Char) : Outcome (List α) :=
  match skipBlanks cs with
  | [] => .error (.next .eofInValue [])
  | c :: rest =>
    if c = '[' then readItems item true rest else .error (mismatch "a sequence" (c :: rest))

theorem length_le_of_listRun {item : Reader α} {cs rest : List Char} {as : List α}
    (h : listRun item cs = .ok (as, rest)) : rest.length ≤ cs.length := by
  unfold listRun at h
  split at h
  · simp at h
  · rename_i heq
    have := length_lt_of_skipBlanks_eq_cons heq
    split at h
    · have := length_le_of_readItems h
      omega
    · simp at h

def list (item : Reader α) : Reader (List α) := ⟨listRun item, length_le_of_listRun⟩

end Reader

end TileCatalog.Json
