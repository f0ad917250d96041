import TileCatalog.Proofs.Settled

/-!
# The accounts of shared tallies

A chronicle follows the moves on a board and keeps no counts: it tells which holders belong to one
family, which signals are for one picture, and what was done to each family. On the board a family
shares a tally and the signals of a picture share a ticket (`Chronicle.Tells`), so that the past of
a family makes its tally and all that a board shows can be read off the chronicle: the counts of a
family, which of its pictures are complete, and which completion of a picture was the first. What is
done to one family is not part of the past of another, and so it cannot be seen there.
-/

namespace TileCatalog

open Strokes

/-- What the moves on a board tell. Families are numbered as they are founded, and the pictures of a
family as they are queued. -/
structure Chronicle where
  families : Nat := 1
  holders : List Nat := [0]
  signals : List Signal := []
  /-- What was done, and to which family, the earliest first. -/
  deeds : List (Nat × Stroke) := []
deriving DecidableEq, Repr

namespace Chronicle

open Board (Move)

def past (c : Chronicle) (family : Nat) : List Stroke :=
  (c.deeds.filter (·.1 = family)).map (·.2)

def nextPicture (c : Chronicle) (family : Nat) : Ticket := ⟨(queued (c.past family)).length⟩

def deed? (c : Chronicle) : Move → Option (Nat × Stroke)
  | .queue holder => c.holders[holder]?.map fun family => (family, .queued (c.nextPicture family))
  | .complete signal => c.signals[signal]?.map fun s => (s.tally, .completed s.ticket)
  | .reset holder => c.holders[holder]?.map fun family => (family, .zeroed)
  | .fresh | .share _ | .copy _ | .snapshot _ => none

/-- A fresh holder founds a family, and a shared one joins that of the other holder. -/
def newHolder? (c : Chronicle) : Move → Option Nat
  | .fresh => some c.families
  | .share holder => c.holders[holder]?
  | _ => none

/-- A queued picture has a signal of its own, and a copied signal is for the same picture. -/
def newSignal? (c : Chronicle) : Move → Option Signal
  | .queue holder => c.holders[holder]?.map fun family => ⟨family, c.nextPicture family⟩
  | .copy signal => c.signals[signal]?
  | _ => none

def step (c : Chronicle) (m : Move) : Chronicle where
  families := if m = .fresh then c.families + 1 else c.families
  holders := c.holders ++ (c.newHolder? m).toList
  signals := c.signals ++ (c.newSignal? m).toList
  deeds := c.deeds ++ (c.deed? m).toList

def run (c : Chronicle) (moves : List Move) : Chronicle := moves.foldl step c

/-- The pictures of a family first completed since its last reset, and those queued since then. -/
def counts (c : Chronicle) (family : Nat) : Progress where
  loaded := (queued (c.past family)).countP (Counted (c.past family) ·)
  toLoad := (queued (sinceReset (c.past family))).length

/-! ### One more move -/

theorem past_step (c : Chronicle) (m : Move) (family : Nat) :
    (c.step m).past family =
      c.past family ++ (((c.deed? m).toList.filter (·.1 = family)).map (·.2)) := by
  simp only [past, step, List.filter_append, List.map_append]

theorem past_step_of_ne {c : Chronicle} {m : Move} {family : Nat}
    (hm : ∀ s, c.deed? m ≠ some (family, s)) : (c.step m).past family = c.past family := by
  rw [past_step]
  cases hd : c.deed? m with
  | none => simp
  | some d =>
    obtain ⟨family', s⟩ := d
    have hne : family' ≠ family := fun h => hm s (h ▸ hd)
    simp [hne]

theorem length_deeds_run (c : Chronicle) (moves : List Move) :
    (c.run moves).deeds.length ≤ c.deeds.length + moves.length := by
  induction moves generalizing c with
  | nil => exact Nat.le_refl _
  | cons m moves ih =>
    have hstep : (c.step m).deeds.length ≤ c.deeds.length + 1 := by
      show (c.deeds ++ (c.deed? m).toList).length ≤ c.deeds.length + 1
      rw [List.length_append]
      have := Option.length_toList_le (o := c.deed? m)
      omega
    have hrun := ih (c.step m)
    rw [List.length_cons]
    exact Nat.le_trans hrun (by omega)

/-- The board has the holders and signals of the chronicle, and each of its tallies is made by the
past of its family. -/
structure Tells (c : Chronicle) (b : Board) : Prop where
  families : b.tallies.size = c.families
  holders : b.holders.toList = c.holders
  signals : b.signals.toList = c.signals
  told : b.Told c.past

namespace Tells

variable {c : Chronicle} {b : Board}

theorem start : Tells {} Board.start := ⟨rfl, rfl, rfl, Board.Told.start⟩

theorem getElem?_holders (H : Tells c b) (holder : Nat) :
    b.holders[holder]? = c.holders[holder]? := by
  rw [← H.holders, Array.getElem?_toList]

theorem getElem?_signals (H : Tells c b) (signal : Nat) :
    b.signals[signal]? = c.signals[signal]? := by
  rw [← H.signals, Array.getElem?_toList]

/-- The tally of a family numbers its tickets as the chronicle numbers the pictures. -/
theorem queue_fst (H : Tells c b) (family : Nat) :
    (b.tallies.getD family {}).queue.1 = c.nextPicture family := by
  have hq := (H.told.tallies family).queued_eq
  rw [Tally.queue_fst, nextPicture, hq, List.length_map, List.length_range]

theorem strokes_eq (H : Tells c b) (m : Move) (family : Nat) :
    b.strokes family m = (((c.deed? m).toList.filter (·.1 = family)).map (·.2)) := by
  cases m with
  | queue holder =>
    simp only [Board.strokes, deed?, H.getElem?_holders, H.queue_fst]
    cases c.holders[holder]? with
    | none => rfl
    | some f => by_cases hf : f = family <;> simp [hf]
  | complete signal =>
    simp only [Board.strokes, deed?, H.getElem?_signals]
    cases c.signals[signal]? with
    | none => rfl
    | some s => by_cases hs : s.tally = family <;> simp [hs]
  | reset holder =>
    simp only [Board.strokes, deed?, H.getElem?_holders]
    cases c.holders[holder]? with
    | none => rfl
    | some f => by_cases hf : f = family <;> simp [hf]
  | fresh | share _ | copy _ | snapshot _ => rfl

theorem told_step (H : Tells c b) (m : Move) : (b.step m).2.Told (c.step m).past := by
  refine (H.told.step m).congr fun family => ?_
  rw [past_step, H.strokes_eq]

theorem families_step (H : Tells c b) (m : Move) :
    (b.step m).2.tallies.size = (c.step m).families := by
  have hf := H.families
  cases m with
  | fresh => simp [Board.step, Chronicle.step, hf]
  | snapshot => exact hf
  -- these change a tally at most, and no tally is added
  | share | copy | queue | complete | reset =>
    simp only [Board.step]
    split <;> simp [Chronicle.step, hf]

theorem holders_step (H : Tells c b) (m : Move) :
    (b.step m).2.holders.toList = (c.step m).holders := by
  have hh := H.holders
  cases m with
  | fresh => simp [Board.step, Chronicle.step, newHolder?, hh, H.families]
  | share holder =>
    simp only [Board.step, Chronicle.step, newHolder?, H.getElem?_holders]
    cases c.holders[holder]? with
    | none => simp [hh]
    | some f => simp [hh]
  | snapshot => simpa [Board.step, Chronicle.step, newHolder?] using hh
  | copy | queue | complete | reset =>
    simp only [Board.step]
    split <;> simp [Chronicle.step, newHolder?, hh]

theorem signals_step (H : Tells c b) (m : Move) :
    (b.step m).2.signals.toList = (c.step m).signals := by
  have hs := H.signals
  cases m with
  | queue holder =>
    simp only [Board.step, Chronicle.step, newSignal?, H.getElem?_holders]
    cases c.holders[holder]? with
    | none => simp [hs]
    | some f =>
      show (b.signals.push ⟨f, (b.tallies.getD f {}).queue.1⟩).toList = _
      rw [H.queue_fst, Array.toList_push, hs]
      rfl
  | copy signal =>
    simp only [Board.step, Chronicle.step, newSignal?, H.getElem?_signals]
    cases c.signals[signal]? with
    | none => simp [hs]
    | some s => simp [hs]
  | fresh | snapshot => simpa [Board.step, Chronicle.step, newSignal?] using hs
  | share | complete | reset =>
    simp only [Board.step]
    split <;> simp [Chronicle.step, newSignal?, hs]

theorem step (H : Tells c b) (m : Move) : Tells (c.step m) (b.step m).2 :=
  ⟨H.families_step m, H.holders_step m, H.signals_step m, H.told_step m⟩

theorem run (H : Tells c b) (moves : List Move) : Tells (c.run moves) (b.run moves) := by
  induction moves generalizing c b with
  | nil => exact H
  | cons m moves ih => exact ih (H.step m)

/-! ### What the board shows -/

theorem progress_eq (H : Tells c b) (family : Nat) :
    (b.tallies.getD family {}).progress = c.counts family := by
  have A := H.told.tallies family
  rw [Tally.progress, A.loaded_eq, A.toLoad_eq]
  rfl

theorem counts_eq (H : Tells c b) : b.counts = c.holders.map c.counts := by
  -- a holder is shown the tally of its family, and nothing else about it is asked
  have hmap : b.counts = b.holders.toList.map fun i => (b.tallies.getD i {}).progress := by
    refine List.ext_getElem (by simp [Board.counts]) fun holder _ hlt => ?_
    have hlt : holder < b.holders.size := by simpa using hlt
    simp [Board.counts, Board.tallyOf, hlt, Array.getD_eq_getD_getElem?]
  rw [hmap, H.holders]
  exact List.map_congr_left fun family _ => H.progress_eq family

theorem isComplete_eq (H : Tells c b) (s : Signal) :
    (b.tallies.getD s.tally {}).isComplete s.ticket =
      decide (.completed s.ticket ∈ c.past s.tally) := by
  have A := H.told.tallies s.tally
  rw [Bool.eq_iff_iff, A.isComplete_iff, decide_eq_true_iff]

/-- The signals of a picture are complete if one of them was completed. -/
theorem completed_eq (H : Tells c b) :
    b.completed = c.signals.map fun s => decide (.completed s.ticket ∈ c.past s.tally) := by
  rw [Board.completed, H.signals]
  exact List.map_congr_left fun s _ => H.isComplete_eq s

theorem complete_fst (H : Tells c b) {signal : Nat} {s : Signal}
    (hs : c.signals[signal]? = some s) :
    (b.step (.complete signal)).1 =
      .completed (decide (.completed s.ticket ∉ c.past s.tally)) := by
  rw [← H.getElem?_signals] at hs
  obtain ⟨-, hticket⟩ := H.told.signals s (Array.mem_of_getElem? hs)
  have hfirst : ((b.tallies.getD s.tally {}).complete s.ticket).1 =
      decide (.completed s.ticket ∉ c.past s.tally) := by
    rw [Tally.complete_fst, H.isComplete_eq, decide_eq_true hticket, Bool.true_and, decide_not]
  simp only [Board.step, hs, hfirst]

/-- What is done to other families is not seen by the holders of a family. -/
theorem getElem?_counts_step (H : Tells c b) {m : Move} {family : Nat}
    (hm : ∀ s, c.deed? m ≠ some (family, s)) {holder : Nat}
    (hh : c.holders[holder]? = some family) :
    (b.step m).2.counts[holder]? = b.counts[holder]? := by
  obtain ⟨hlt, -⟩ := List.getElem?_eq_some_iff.1 hh
  have hh' : (c.step m).holders[holder]? = some family := by
    rw [← hh]
    exact List.getElem?_append_left hlt
  have hcounts : (c.step m).counts family = c.counts family := by
    rw [counts, counts, past_step_of_ne hm]
  rw [(H.step m).counts_eq, H.counts_eq, List.getElem?_map, List.getElem?_map, hh, hh',
    Option.map_some, Option.map_some, hcounts]

theorem getElem?_completed_step (H : Tells c b) {m : Move} {signal : Nat} {s : Signal}
    (hs : c.signals[signal]? = some s) (hm : ∀ d, c.deed? m ≠ some (s.tally, d)) :
    (b.step m).2.completed[signal]? = b.completed[signal]? := by
  obtain ⟨hlt, -⟩ := List.getElem?_eq_some_iff.1 hs
  have hs' : (c.step m).signals[signal]? = some s := by
    rw [← hs]
    exact List.getElem?_append_left hlt
  rw [(H.step m).completed_eq, H.completed_eq, List.getElem?_map, List.getElem?_map, hs, hs',
    Option.map_some, Option.map_some, past_step_of_ne hm]

end Tells

theorem counts_le (c : Chronicle) (family : Nat) :
    (c.counts family).loaded ≤ c.deeds.length ∧ (c.counts family).toLoad ≤ c.deeds.length := by
  have hpast : (c.past family).length ≤ c.deeds.length := by
    rw [past, List.length_map]
    exact List.length_filter_le _ _
  have hqueued : ∀ h : List Stroke, (queued h).length ≤ h.length := fun h =>
    List.length_filterMap_le _ h
  have hsince : (sinceReset (c.past family)).length ≤ (c.past family).length :=
    (List.rtakeWhile_suffix _ _).length_le
  constructor
  · exact (List.countP_le_length.trans (hqueued _)).trans hpast
  · exact ((hqueued _).trans hsince).trans hpast

end Chronicle

namespace Board

open Chronicle in
/-- For every run of moves, with its chronicle: each holder sees how many pictures its family queued
since its last reset, and how many were first completed since then; a signal is complete from the
first completion of its picture on, which is the only one that counts; and what is done to one
family is not seen by the holders and signals of another. No count exceeds the number of moves. -/
theorem run_keeps_accounts (moves : List Move) :
    let b := start.run moves
    let c := Chronicle.run {} moves
    b.counts = c.holders.map (fun family =>
      { loaded := (queued (c.past family)).countP (Counted (c.past family) ·)
        toLoad := (queued (sinceReset (c.past family))).length }) ∧
    b.completed = c.signals.map (fun s => decide (.completed s.ticket ∈ c.past s.tally)) ∧
    (∀ (signal : Nat) (s : Signal), c.signals[signal]? = some s → (b.step (.complete signal)).1 =
      .completed (decide (.completed s.ticket ∉ c.past s.tally))) ∧
    (∀ (m : Move) (family : Nat), (∀ s, c.deed? m ≠ some (family, s)) →
      (∀ holder : Nat, c.holders[holder]? = some family →
        (b.step m).2.counts[holder]? = b.counts[holder]?) ∧
      ∀ (signal : Nat) (s : Signal), c.signals[signal]? = some s → s.tally = family →
        (b.step m).2.completed[signal]? = b.completed[signal]?) ∧
    ∀ p ∈ b.counts, p.loaded ≤ moves.length ∧ p.toLoad ≤ moves.length := by
  intro b c
  have H : Tells c b := Tells.start.run moves
  refine ⟨H.counts_eq, H.completed_eq, fun signal s hs => H.complete_fst hs, ?_, ?_⟩
  · intro m family hm
    refine ⟨fun holder hh => H.getElem?_counts_step hm hh, ?_⟩
    rintro signal s hs rfl
    exact H.getElem?_completed_step hs hm
  · intro p hp
    have hlen : c.deeds.length ≤ moves.length := by
      simpa using length_deeds_run {} moves
    rw [H.counts_eq] at hp
    obtain ⟨family, -, rfl⟩ := List.mem_map.1 hp
    obtain ⟨hloaded, htoLoad⟩ := c.counts_le family
    exact ⟨hloaded.trans hlen, htoLoad.trans hlen⟩

open Chronicle in
/-- In a family of two holders a picture queued before a reset is completed after it, by a copy of
its signal: it is the one that counts, completing it again does not, and what follows in this family
is not seen in the other. -/
theorem run_keeps_accounts_shared :
    let moves : List Move :=
      [.fresh, .share 1, .queue 1, .queue 2, .copy 0, .reset 2, .queue 1, .complete 2]
    let b := start.run moves
    let c := Chronicle.run {} moves
    c.holders = [0, 1, 1] ∧ b.counts = [⟨0, 0⟩, ⟨1, 1⟩, ⟨1, 1⟩] ∧
      b.completed = [true, false, true, false] ∧
      (b.step (.complete 0)).1 = .completed false ∧ (b.step (.complete 3)).1 = .completed true ∧
      (∀ s, c.deed? (.complete 3) ≠ some (0, s)) ∧
      (b.step (.complete 3)).2.counts[0]? = b.counts[0]? := by
  intro moves b c
  obtain ⟨hcounts, hcompleted, hfirst, hother, -⟩ := run_keeps_accounts moves
  have hagain := hfirst 0 ⟨1, ⟨0⟩⟩ (by decide)
  have hnew := hfirst 3 ⟨1, ⟨2⟩⟩ (by decide)
  have hdeed : c.deed? (.complete 3) = some (1, .completed ⟨2⟩) := by decide
  have hne : ∀ s, c.deed? (.complete 3) ≠ some (0, s) := by
    intro s hs
    rw [hdeed] at hs
    cases hs
  exact ⟨by decide, hcounts.trans (by decide), hcompleted.trans (by decide),
    hagain.trans (by decide), hnew.trans (by decide), hne, (hother _ 0 hne).1 0 (by decide)⟩

end Board

end TileCatalog
