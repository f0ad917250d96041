import TileCatalog.Json.Number
import TileCatalog.Json.StringLiteral

/-!
# Skipping values

Members with unknown keys may hold any value. `skip` finds the end of a value without building it,
with the brackets still open on a stack, so that values may nest to any depth.
-/

namespace TileCatalog.Json

inductive Bracket where
  | list
  | object
deriving DecidableEq, Repr

namespace Bracket

def ofChar? (c : Char) : Option Bracket :=
  if c = '[' then some list else if c = '\x7b' then some object else none

def closing : Bracket → Char
  | list => ']'
  | object => '\x7d'

def unclosed : Bracket → Cause
  | list => .eofInList
  | object => .eofInObject

def unseparated : Bracket → Cause
  | list => .expectedCommaOrBracket
  | object => .expectedCommaOrBrace

end Bracket

def takeColon (cs : List Char) : Except Fault (List Char) :=
  match skipBlanks cs with
  | [] => .error (.next .eofInObject [])
  | c :: rest => if c = ':' then .ok rest else .error (.next .expectedColon (c :: rest))

theorem length_lt_of_takeColon {cs rest : List Char} (h : takeColon cs = .ok rest) :
    rest.length < cs.length := by
  unfold takeColon at h
  split at h
  · simp at h
  · rename_i heq
    split at h
    · cases h
      exact length_lt_of_skipBlanks_eq_cons heq
    · simp at h

/-- Skips what stands before the value of an item: in an object a key and a colon. -/
def skipKey (b : Bracket) (cs : List Char) : Except Fault (List Char) :=
  match b with
  | .list => .ok cs
  | .object =>
    match skipBlanks cs with
    | [] => .error (.next .eofInObject [])
    | c :: rest =>
      if c = '"' then
        match skipStringTail rest with
        | .error e => .error e
        | .ok rest' => takeColon rest'
      else .error (.next .keyNotString (c :: rest))

theorem length_le_of_skipKey {b : Bracket} {cs rest : List Char} (h : skipKey b cs = .ok rest) :
    rest.length ≤ cs.length := by
  unfold skipKey at h
  split at h
  · cases h; exact Nat.le_refl _
  · split at h
    · simp at h
    · rename_i heq
      have := length_lt_of_skipBlanks_eq_cons heq
      split at h
      · split at h
        · simp at h
        · rename_i hs
          have := length_lt_of_skipStringTail hs
          have := length_lt_of_takeColon h
          omega
      · simp at h

def skipScalar : List Char → Except Fault (List Char)
  | [] => .error (.next .eofInValue [])
  | c :: rest =>
    if c = 'n' then takeWord ['u', 'l', 'l'] rest
    else if c = 't' then takeWord ['r', 'u', 'e'] rest
    else if c = 'f' then takeWord ['a', 'l', 's', 'e'] rest
    else if c = '"' then skipStringTail rest
    else if c = '-' ∨ isDigit c then
      match Numeral.read .invalidNumber (c :: rest) with
      | .error e => .error e
      | .ok (_, rest') => .ok rest'
    else .error (.next .expectedValue (c :: rest))

theorem length_lt_of_skipScalar {cs rest : List Char} (h : skipScalar cs = .ok rest) :
    rest.length < cs.length := by
  unfold skipScalar at h
  split at h
  · simp at h
  · simp only [List.length_cons]
    split at h
    · have := length_le_of_takeWord h; omega
    split at h
    · have := length_le_of_takeWord h; omega
    split at h
    · have := length_le_of_takeWord h; omega
    split at h
    · have := length_lt_of_skipStringTail h; omega
    split at h
    · split at h
      · simp at h
      · rename_i hr
        have := Numeral.length_lt_of_read hr
        cases h
        simpa using this
    · simp at h

mutual

/-- Skips a value, and then what closes the brackets in `stack`, the innermost first. -/
def skipValue (stack : List Bracket) (cs : List Char) : Except Fault (List Char) :=
  match h : skipBlanks cs with
  | [] => .error (.next .eofInValue [])
  | c :: rest =>
    have := length_lt_of_skipBlanks_eq_cons h
    match Bracket.ofChar? c with
    | some b =>
      match h₁ : skipBlanks rest with
      | [] => .error (.next b.unclosed [])
      | d :: rest₁ =>
        have := length_lt_of_skipBlanks_eq_cons h₁
        if d = b.closing then skipRest stack rest₁
        else
          match h₂ : skipKey b (d :: rest₁) with
          | .error e => .error e
          | .ok rest₂ =>
            have := length_le_of_skipKey h₂
            skipValue (b :: stack) rest₂
    | none =>
      match h₁ : skipScalar (c :: rest) with
      | .error e => .error e
      | .ok rest₁ =>
        have := length_lt_of_skipScalar h₁
        skipRest stack rest₁
termination_by cs.length
decreasing_by all_goals grind

/-- Skips the further items of the brackets in `stack`, behind a value of the innermost. -/
def skipRest (stack : List Bracket) (cs : List Char) : Except Fault (List Char) :=
  match stack with
  | [] => .ok cs
  | b :: outer =>
    match h : skipBlanks cs with
    | [] => .error (.next b.unclosed [])
    | c :: rest =>
      have := length_lt_of_skipBlanks_eq_cons h
      if c = b.closing then skipRest outer rest
      else if c = ',' then
        match h₁ : skipKey b rest with
        | .error e => .error e
        | .ok rest₁ =>
          have := length_le_of_skipKey h₁
          skipValue (b :: outer) rest₁
      else .error (.next b.unseparated (c :: rest))
termination_by cs.length
decreasing_by all_goals grind

end

def skip (cs : List Char) : Except Fault (List Char) := skipValue [] cs

theorem length_le_of_skipValue_and_skipRest (n : Nat) :
    ∀ stack cs rest, cs.length ≤ n →
      (skipValue stack cs = .ok rest → rest.length ≤ cs.length) ∧
      (skipRest stack cs = .ok rest → rest.length ≤ cs.length) := by
  induction n using Nat.strongRecOn with
  | ind n ih =>
    intro stack cs rest hn
    have step : ∀ cs' : List Char, cs'.length < cs.length → ∀ stack',
        (skipValue stack' cs' = .ok rest → rest.length ≤ cs.length) ∧
        (skipRest stack' cs' = .ok rest → rest.length ≤ cs.length) := by
      intro cs' hlt stack'
      have := ih cs'.length (by omega) stack' cs' rest (Nat.le_refl _)
      exact ⟨fun h => by have := this.1 h; omega, fun h => by have := this.2 h; omega⟩
    constructor
    · intro h
      unfold skipValue at h
      split at h
      · simp at h
      · rename_i c cs₁ h₁
        have l₁ := length_lt_of_skipBlanks_eq_cons h₁
        split at h
        · split at h
          · simp at h
          · rename_i b _ _ d cs₂ h₂
            have l₂ := length_lt_of_skipBlanks_eq_cons h₂
            split at h
            · exact (step cs₂ (by omega) _).2 h
            · split at h
              · simp at h
              · rename_i cs₃ h₃
                have l₃ := length_le_of_skipKey h₃
                simp only [List.length_cons] at l₃
                exact (step cs₃ (by omega) _).1 h
        · split at h
          · simp at h
          · rename_i cs₂ h₂
            have l₂ := length_lt_of_skipScalar h₂
            simp only [List.length_cons] at l₂
            exact (step cs₂ (by omega) _).2 h
    · intro h
      unfold skipRest at h
      split at h
      · cases h; exact Nat.le_refl _
      · split at h
        · simp at h
        · rename_i c cs₁ h₁
          have l₁ := length_lt_of_skipBlanks_eq_cons h₁
          split at h
          · exact (step cs₁ l₁ _).2 h
          · split at h
            · split at h
              · simp at h
              · rename_i cs₂ h₂
                have l₂ := length_le_of_skipKey h₂
                exact (step cs₂ (by omega) _).1 h
            · simp at h

theorem length_le_of_skip {cs rest : List Char} (h : skip cs = .ok rest) :
    rest.length ≤ cs.length :=
  (length_le_of_skipValue_and_skipRest _ [] cs rest (Nat.le_refl _)).1 h

end TileCatalog.Json
