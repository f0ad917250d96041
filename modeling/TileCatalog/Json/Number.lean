import TileCatalog.Json.Reader

/-!
# Numbers

`Numeral.read` takes a number apart as it is written; `Numeral.value` says what it stands for. The
first digits that fit 64 bits make up the significand. Later whole digits only scale it, later
places are dropped, and the result is rounded once for the significand and once for the power of
ten. Nothing need follow a number.
-/

namespace TileCatalog.Json

/-- A number as written: the digits of its three parts. -/
structure Numeral where
  negative : Bool
  whole : List Char
  /-- No digits if there is no decimal point. -/
  places : List Char
  power : Option (Bool × List Char)
deriving DecidableEq, Repr

def isDigit (c : Char) : Bool := '0' ≤ c && c ≤ '9'

def spanDigits (cs : List Char) : List Char × List Char :=
  (cs.takeWhile isDigit, cs.dropWhile isDigit)

theorem length_spanDigits_le (cs : List Char) : (spanDigits cs).2.length ≤ cs.length :=
  (List.dropWhile_suffix isDigit).length_le

namespace Numeral

def takeMinus : List Char → Bool × List Char
  | [] => (false, [])
  | c :: rest => if c = '-' then (true, rest) else (false, c :: rest)

/-- The whole digits. A zero in front stands alone. -/
def takeWhole (atEnd : Cause) : List Char → Outcome (List Char)
  | [] => .error (.here atEnd [])
  | c :: rest =>
    if c = '0' then
      match rest with
      | [] => .ok (['0'], [])
      | d :: rest' =>
        if isDigit d then .error (.next .invalidNumber (d :: rest')) else .ok (['0'], d :: rest')
    else if isDigit c then .ok (spanDigits (c :: rest))
    else .error (.next .invalidNumber (c :: rest))

def takePlaces (atEnd : Cause) : List Char → Outcome (List Char)
  | [] => .ok ([], [])
  | c :: rest =>
    if c = '.' then
      match rest with
      | [] => .error (.next atEnd [])
      | d :: rest' =>
        if isDigit d then .ok (spanDigits (d :: rest'))
        else .error (.next .invalidNumber (d :: rest'))
    else .ok ([], c :: rest)

def takeSign : List Char → Bool × List Char
  | [] => (false, [])
  | c :: rest =>
    if c = '+' then (false, rest) else if c = '-' then (true, rest) else (false, c :: rest)

def takePower (atEnd : Cause) : List Char → Outcome (Option (Bool × List Char))
  | [] => .ok (none, [])
  | c :: rest =>
    if c = 'e' ∨ c = 'E' then
      match (takeSign rest).2 with
      | [] => .error (.here atEnd [])
      | d :: rest' =>
        if isDigit d then
          .ok (some ((takeSign rest).1, (spanDigits (d :: rest')).1), (spanDigits (d :: rest')).2)
        else .error (.next .invalidNumber (d :: rest'))
    else .ok (none, c :: rest)

/-- Reads a number; `atEnd` is the cause given when the text ends where a digit is due. -/
def read (atEnd : Cause) (cs : List Char) : Outcome Numeral :=
  match takeWhole atEnd (takeMinus cs).2 with
  | .error e => .error e
  | .ok (whole, cs₁) =>
    match takePlaces atEnd cs₁ with
    | .error e => .error e
    | .ok (places, cs₂) =>
      match takePower atEnd cs₂ with
      | .error e => .error e
      | .ok (power, rest) => .ok (⟨(takeMinus cs).1, whole, places, power⟩, rest)

theorem length_takeMinus_le (cs : List Char) : (takeMinus cs).2.length ≤ cs.length := by
  unfold takeMinus; split <;> (try split) <;> simp

theorem length_takeSign_le (cs : List Char) : (takeSign cs).2.length ≤ cs.length := by
  unfold takeSign; split <;> (try split) <;> (try split) <;> simp

theorem length_lt_of_takeWhole {atEnd : Cause} {cs ds rest : List Char}
    (h : takeWhole atEnd cs = .ok (ds, rest)) : rest.length < cs.length := by
  unfold takeWhole at h
  split at h
  · simp at h
  · rename_i c cs
    split at h
    · split at h
      · cases h; simp
      · split at h
        · simp at h
        · cases h; simp
    · split at h
      · rename_i hd
        cases h
        have := (List.dropWhile_suffix (l := cs) isDigit).length_le
        simp only [List.dropWhile_cons, hd, if_true, List.length_cons]
        omega
      · simp at h

theorem length_le_of_takePlaces {atEnd : Cause} {cs ds rest : List Char}
    (h : takePlaces atEnd cs = .ok (ds, rest)) : rest.length ≤ cs.length := by
  unfold takePlaces at h
  split at h
  · cases h; simp
  · split at h
    · split at h
      · simp at h
      · rename_i d cs
        split at h
        · have := length_spanDigits_le (d :: cs)
          cases h
          simp only [spanDigits, List.length_cons] at this ⊢
          omega
        · simp at h
    · cases h; simp

theorem length_le_of_takePower {atEnd : Cause} {cs rest : List Char}
    {power : Option (Bool × List Char)} (h : takePower atEnd cs = .ok (power, rest)) :
    rest.length ≤ cs.length := by
  unfold takePower at h
  split at h
  · cases h; simp
  · rename_i c cs
    split at h
    · have hs := length_takeSign_le cs
      split at h
      · simp at h
      · rename_i d cs' heq
        rw [heq] at hs
        split at h
        · have := length_spanDigits_le (d :: cs')
          cases h
          simp only [spanDigits, List.length_cons] at this hs ⊢
          omega
        · simp at h
    · cases h; simp

theorem length_lt_of_read {atEnd : Cause} {cs rest : List Char} {x : Numeral}
    (h : read atEnd cs = .ok (x, rest)) : rest.length < cs.length := by
  unfold read at h
  have := length_takeMinus_le cs
  split at h
  · simp at h
  · rename_i h₁
    have := length_lt_of_takeWhole h₁
    split at h
    · simp at h
    · rename_i h₂
      have := length_le_of_takePlaces h₂
      split at h
      · simp at h
      · rename_i h₃
        have := length_le_of_takePower h₃
        cases h
        omega

end Numeral

/-- Adds digits to `n` as long as it stays within `limit`; gives the digits left over. -/
def absorb (limit n : Nat) : List Char → Nat × List Char
  | [] => (n, [])
  | d :: ds =>
    let m := n * 10 + (d.toNat - '0'.toNat)
    if m ≤ limit then absorb limit m ds else (n, d :: ds)

def maxSignificand : Nat := Nat.pow 2 64 - 1

def maxPower : Nat := Nat.pow 2 31 - 1

namespace Numeral

/-- `significand * 10 ^ power`, rounded, or a fault before `rest` if it is too large. -/
def scale (negative : Bool) (significand : Nat) (power : Int) (rest : List Char) :
    Except Fault Found :=
  match (Decimal.Double.ofRatio? significand 1).bind (·.shift10? power) with
  | some x => .ok (.real negative x)
  | none => .error (.here .numberOutOfRange rest)

/-- What a number stands for, given the text behind it. A whole number is an integer if it fits 64
bits, with its sign; a negative zero is none. -/
def value (x : Numeral) (rest : List Char) : Except Fault Found :=
  let (whole, excess) := absorb maxSignificand 0 x.whole
  let (significand, dropped) := absorb maxSignificand whole x.places
  let shift : Int := excess.length - (x.places.length - dropped.length : Nat)
  match x.power with
  | none =>
    if x.places = [] ∧ excess = [] then
      if !x.negative then .ok (.integer whole)
      else if whole ≠ 0 ∧ whole ≤ Nat.pow 2 63 then .ok (.integer (-whole))
      else scale true whole 0 rest
    else scale x.negative significand shift rest
  | some (down, digits) =>
    let (power, left) := absorb maxPower 0 digits
    if left = [] then
      scale x.negative significand (if down then shift - power else shift + power) rest
    -- a power too large to count makes anything but zero too large, or else zero
    else if significand ≠ 0 ∧ !down then
      .error ⟨.numberOutOfRange, byteSize rest + (left.length - 1)⟩
    else .ok (.real x.negative .zero)

end Numeral

end TileCatalog.Json
