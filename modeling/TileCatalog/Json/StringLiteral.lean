import TileCatalog.Json.Reader

/-!
# String literals

`stringTail` reads a literal behind its opening quote and gives its characters; `skipStringTail`
only finds its end, and so lets any four hexadecimal digits pass.
-/

namespace TileCatalog.Json

def hexDigit? (c : Char) : Option Nat :=
  if '0' ≤ c ∧ c ≤ '9' then some (c.toNat - '0'.toNat)
  else if 'a' ≤ c ∧ c ≤ 'f' then some (c.toNat - 'a'.toNat + 10)
  else if 'A' ≤ c ∧ c ≤ 'F' then some (c.toNat - 'A'.toNat + 10)
  else none

/-- The value of four hexadecimal digits. Four bytes are taken, whatever they are. -/
def hexUnit (cs : List Char) : Outcome Nat :=
  if byteSize cs < 4 then .error (.past .eofInString 4 cs)
  else
    match cs with
    | a :: b :: c :: d :: rest =>
      match hexDigit? a, hexDigit? b, hexDigit? c, hexDigit? d with
      | some a, some b, some c, some d => .ok (((a * 16 + b) * 16 + c) * 16 + d, rest)
      | _, _, _, _ => .error (.past .invalidEscape 4 cs)
    | _ => .error (.past .invalidEscape 4 cs)

theorem length_le_of_hexUnit {cs rest : List Char} {n : Nat} (h : hexUnit cs = .ok (n, rest)) :
    rest.length ≤ cs.length := by
  unfold hexUnit at h
  split at h
  · simp at h
  · split at h
    · split at h
      · simp only [Except.ok.injEq, Prod.mk.injEq] at h
        obtain ⟨-, rfl⟩ := h
        simp only [List.length_cons]
        omega
      · simp at h
    · simp at h

def shortEscape? (c : Char) : Option Char :=
  if c = '"' ∨ c = '\\' ∨ c = '/' then some c
  else if c = 'b' then some '\x08'
  else if c = 'f' then some '\x0c'
  else if c = 'n' then some '\n'
  else if c = 'r' then some '\r'
  else if c = 't' then some '\t'
  else none

def isHighSurrogate (n : Nat) : Bool := 0xD800 ≤ n && n ≤ 0xDBFF

def isLowSurrogate (n : Nat) : Bool := 0xDC00 ≤ n && n ≤ 0xDFFF

/-- Takes `c`, which the escape of a high surrogate needs behind it. -/
def takeMark (c : Char) : List Char → Except Fault (List Char)
  | [] => .error (.here .eofInString [])
  | d :: rest => if d = c then .ok rest else .error (.next .unfinishedEscape (d :: rest))

theorem length_le_of_takeMark {c : Char} {cs rest : List Char} (h : takeMark c cs = .ok rest) :
    rest.length ≤ cs.length := by
  unfold takeMark at h
  split at h
  · simp at h
  · split at h
    · cases h; simp
    · simp at h

def lowSurrogate (cs : List Char) : Outcome Nat :=
  match takeMark '\\' cs with
  | .error e => .error e
  | .ok cs =>
    match takeMark 'u' cs with
    | .error e => .error e
    | .ok cs =>
      match hexUnit cs with
      | .error e => .error e
      | .ok (n, rest) =>
        if isLowSurrogate n then .ok (n, rest) else .error (.here .loneSurrogate rest)

theorem length_le_of_lowSurrogate {cs rest : List Char} {n : Nat}
    (h : lowSurrogate cs = .ok (n, rest)) : rest.length ≤ cs.length := by
  unfold lowSurrogate at h
  split at h
  · simp at h
  · rename_i cs₁ h₁
    split at h
    · simp at h
    · rename_i cs₂ h₂
      split at h
      · simp at h
      · rename_i m cs₃ h₃
        split at h
        · simp only [Except.ok.injEq, Prod.mk.injEq] at h
          obtain ⟨-, rfl⟩ := h
          have := length_le_of_takeMark h₁
          have := length_le_of_takeMark h₂
          have := length_le_of_hexUnit h₃
          omega
        · simp at h

/-- The character that four digits stand for, or eight if the first four are a high surrogate. -/
def unicodeEscape (cs : List Char) : Outcome Char :=
  match hexUnit cs with
  | .error e => .error e
  | .ok (n, rest) =>
    if isLowSurrogate n then .error (.here .loneSurrogate rest)
    else if isHighSurrogate n then
      match lowSurrogate rest with
      | .error e => .error e
      | .ok (m, rest) => .ok (Char.ofNat (0x10000 + (n - 0xD800) * 0x400 + (m - 0xDC00)), rest)
    else .ok (Char.ofNat n, rest)

theorem length_le_of_unicodeEscape {cs rest : List Char} {c : Char}
    (h : unicodeEscape cs = .ok (c, rest)) : rest.length ≤ cs.length := by
  unfold unicodeEscape at h
  split at h
  · simp at h
  · rename_i n cs₁ h₁
    have := length_le_of_hexUnit h₁
    split at h
    · simp at h
    · split at h
      · split at h
        · simp at h
        · rename_i m cs₂ h₂
          have := length_le_of_lowSurrogate h₂
          simp only [Except.ok.injEq, Prod.mk.injEq] at h
          obtain ⟨-, rfl⟩ := h
          omega
      · simp only [Except.ok.injEq, Prod.mk.injEq] at h
        obtain ⟨-, rfl⟩ := h
        omega

def escape (cs : List Char) : Outcome Char :=
  match cs with
  | [] => .error (.here .eofInString [])
  | c :: rest =>
    if c = 'u' then unicodeEscape rest
    else
      match shortEscape? c with
      | some d => .ok (d, rest)
      | none => .error (.next .invalidEscape (c :: rest))

theorem length_lt_of_escape {cs rest : List Char} {c : Char} (h : escape cs = .ok (c, rest)) :
    rest.length < cs.length := by
  unfold escape at h
  split at h
  · simp at h
  · split at h
    · have := length_le_of_unicodeEscape h
      simp only [List.length_cons]
      omega
    · split at h
      · cases h; simp
      · simp at h

def isControl (c : Char) : Bool := c < ' '

def stringTail (cs : List Char) : Outcome (List Char) :=
  match cs with
  | [] => .error (.here .eofInString [])
  | c :: rest =>
    if c = '"' then .ok ([], rest)
    else if c = '\\' then
      match h : escape rest with
      | .error e => .error e
      | .ok (d, rest') =>
        have := length_lt_of_escape h
        match stringTail rest' with
        | .error e => .error e
        | .ok (ds, rest') => .ok (d :: ds, rest')
    else if isControl c then .error (.next .controlCharacter (c :: rest))
    else
      match stringTail rest with
      | .error e => .error e
      | .ok (ds, rest') => .ok (c :: ds, rest')
termination_by cs.length
decreasing_by all_goals simp only [List.length_cons]; omega

theorem length_lt_of_stringTail {cs rest ds : List Char} (h : stringTail cs = .ok (ds, rest)) :
    rest.length < cs.length := by
  fun_induction stringTail cs generalizing ds rest with
  | case1 => simp at h
  | case2 => cases h; simp
  | case3 => simp at h
  | case4 => simp at h
  | case5 _ _ _ _ _ _ _ htail _ ih =>
    have := ih htail
    cases h
    simp only [List.length_cons]
    omega
  | case6 => simp at h
  | case7 => simp at h
  | case8 _ _ _ _ _ _ _ htail ih =>
    have := ih htail
    cases h
    simp only [List.length_cons]
    omega

def skipEscape (cs : List Char) : Except Fault (List Char) :=
  match cs with
  | [] => .error (.here .eofInString [])
  | c :: rest =>
    if c = 'u' then
      match hexUnit rest with
      | .error e => .error e
      | .ok (_, rest') => .ok rest'
    else if (shortEscape? c).isSome then .ok rest
    else .error (.next .invalidEscape (c :: rest))

theorem length_lt_of_skipEscape {cs rest : List Char} (h : skipEscape cs = .ok rest) :
    rest.length < cs.length := by
  unfold skipEscape at h
  split at h
  · simp at h
  · split at h
    · split at h
      · simp at h
      · rename_i h₁
        have := length_le_of_hexUnit h₁
        cases h
        simp only [List.length_cons]
        omega
    · split at h
      · cases h; simp
      · simp at h

/-- The text behind the closing quote. -/
def skipStringTail (cs : List Char) : Except Fault (List Char) :=
  match cs with
  | [] => .error (.here .eofInString [])
  | c :: rest =>
    if c = '"' then .ok rest
    else if c = '\\' then
      match h : skipEscape rest with
      | .error e => .error e
      | .ok rest' =>
        have := length_lt_of_skipEscape h
        skipStringTail rest'
    else if isControl c then .error (.here .controlCharacter (c :: rest))
    else skipStringTail rest
termination_by cs.length
decreasing_by all_goals simp only [List.length_cons]; omega

theorem length_lt_of_skipStringTail {cs rest : List Char} (h : skipStringTail cs = .ok rest) :
    rest.length < cs.length := by
  fun_induction skipStringTail cs <;> simp_all <;> grind

end TileCatalog.Json
