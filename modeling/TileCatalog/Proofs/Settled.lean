import Mathlib.Data.List.DropRight
import Mathlib.Data.List.Nodup
import TileCatalog.Tally.Board

/-!
# When a tally is settled

The strokes on a tally are what was done to it, the earliest first; `Tally.After` says which tally
they make. A reset parts them into those before it and those since (`beforeReset`, `sinceReset`).

A ticket from before the last reset still counts when it is completed, so that the counts of a tally
are settled as soon as the tickets that are outstanding are no more than those that came in late
(`Board.isSettled_run`). They say what they are meant to only while nothing comes in late.
-/

namespace TileCatalog

inductive Stroke where
  | queued (ticket : Ticket)
  | completed (ticket : Ticket)
  | zeroed
deriving DecidableEq, Repr

namespace Strokes

/-- What was done up to the last reset, the reset included. -/
def beforeReset (h : List Stroke) : List Stroke := h.rdropWhile (· ≠ .zeroed)

def sinceReset (h : List Stroke) : List Stroke := h.rtakeWhile (· ≠ .zeroed)

def queued (h : List Stroke) : List Ticket :=
  h.filterMap fun
    | .queued k => some k
    | _ => none

/-- The tickets queued since the last reset and not completed. -/
def pending (h : List Stroke) : List Ticket :=
  (queued (sinceReset h)).filter (.completed · ∉ h)

/-- The first completion of the ticket came after the last reset. -/
def Counted (h : List Stroke) (k : Ticket) : Prop :=
  .completed k ∈ sinceReset h ∧ .completed k ∉ beforeReset h

instance (h : List Stroke) (k : Ticket) : Decidable (Counted h k) := by
  unfold Counted
  infer_instance

/-- The tickets queued before the last reset and first completed after it. -/
def late (h : List Stroke) : List Ticket := (queued (beforeReset h)).filter (Counted h ·)

/-! ### One more stroke -/

theorem beforeReset_append_sinceReset (h : List Stroke) : beforeReset h ++ sinceReset h = h := by
  unfold beforeReset sinceReset
  rw [List.rdropWhile, List.rtakeWhile, ← List.reverse_append, List.takeWhile_append_dropWhile,
    List.reverse_reverse]

theorem mem_iff {h : List Stroke} {s : Stroke} :
    s ∈ h ↔ s ∈ beforeReset h ∨ s ∈ sinceReset h := by
  rw [← List.mem_append, beforeReset_append_sinceReset]

@[simp] theorem sinceReset_zeroed (h : List Stroke) : sinceReset (h ++ [.zeroed]) = [] := by
  simp [sinceReset]

theorem sinceReset_concat {s : Stroke} (hs : s ≠ .zeroed) (h : List Stroke) :
    sinceReset (h ++ [s]) = sinceReset h ++ [s] := by
  simp [sinceReset, hs]

theorem beforeReset_concat {s : Stroke} (hs : s ≠ .zeroed) (h : List Stroke) :
    beforeReset (h ++ [s]) = beforeReset h := by
  simp [beforeReset, hs]

@[simp] theorem queued_append (h h' : List Stroke) : queued (h ++ h') = queued h ++ queued h' :=
  List.filterMap_append

@[simp] theorem queued_nil : queued [] = [] := rfl

@[simp] theorem queued_queued (k : Ticket) : queued [.queued k] = [k] := rfl

@[simp] theorem queued_completed (k : Ticket) : queued [.completed k] = [] := rfl

@[simp] theorem queued_zeroed : queued [.zeroed] = [] := rfl

theorem mem_queued {h : List Stroke} {k : Ticket} : k ∈ queued h ↔ .queued k ∈ h := by
  simp only [queued, List.mem_filterMap]
  constructor
  · rintro ⟨s, hs, heq⟩
    cases s with
    | queued k' =>
      cases heq
      exact hs
    | completed => cases heq
    | zeroed => cases heq
  · intro hk
    exact ⟨_, hk, rfl⟩

theorem not_counted_zeroed (h : List Stroke) (k : Ticket) : ¬ Counted (h ++ [.zeroed]) k := by
  simp [Counted]

theorem counted_queued (h : List Stroke) (k l : Ticket) :
    Counted (h ++ [.queued k]) l ↔ Counted h l := by
  simp [Counted, sinceReset_concat, beforeReset_concat]

/-- A completion counts unless there was one before. -/
theorem counted_completed (h : List Stroke) (k l : Ticket) :
    Counted (h ++ [.completed k]) l ↔ Counted h l ∨ l = k ∧ .completed k ∉ h := by
  rw [Counted, Counted, sinceReset_concat (by simp), beforeReset_concat (by simp), List.mem_append,
    List.mem_singleton, Stroke.completed.injEq]
  constructor
  · rintro ⟨hl | rfl, hbefore⟩
    · exact .inl ⟨hl, hbefore⟩
    · by_cases hsince : .completed l ∈ sinceReset h
      · exact .inl ⟨hsince, hbefore⟩
      · exact .inr ⟨rfl, fun hl => (mem_iff.1 hl).elim hbefore hsince⟩
  · rintro (⟨hl, hbefore⟩ | ⟨rfl, hl⟩)
    · exact ⟨.inl hl, hbefore⟩
    · exact ⟨.inr rfl, fun hbefore => hl (mem_iff.2 (.inl hbefore))⟩

end Strokes

/-! ### One tally -/

namespace Tally

open Strokes

/-- What a stroke makes of a tally. Only issued tickets are completed. -/
inductive Strikes : Tally → Stroke → Tally → Prop
  | queue (t : Tally) : Strikes t (.queued t.queue.1) t.queue.2
  | complete (t : Tally) {k : Ticket} (hk : k.index < t.fired.size) :
      Strikes t (.completed k) (t.complete k).2
  | reset (t : Tally) : Strikes t .zeroed t.reset

inductive After : List Stroke → Tally → Prop
  | start : After [] {}
  | step {h : List Stroke} {s : Stroke} {t t' : Tally} (H : After h t) (S : Strikes t s t') :
      After (h ++ [s]) t'

namespace After

variable {h : List Stroke} {t : Tally}

theorem queued_eq (H : After h t) : queued h = (List.range t.fired.size).map Ticket.mk := by
  induction H with
  | start => rfl
  | step _ S ih =>
    rw [queued_append, ih]
    cases S with
    | queue => simp [List.range_succ]
    | complete => simp
    | reset => simp [Tally.reset]

theorem isComplete_iff (H : After h t) (k : Ticket) :
    t.isComplete k = true ↔ .completed k ∈ h := by
  induction H with
  | start => simp [isComplete]
  | step _ S ih =>
    rw [List.mem_append, List.mem_singleton, ← ih]
    cases S with
    | queue => simp
    | @complete l hl =>
      rw [isComplete_complete, Bool.or_eq_true, Bool.and_eq_true, decide_eq_true_iff,
        decide_eq_true_iff, Stroke.completed.injEq, and_iff_left hl, @eq_comm _ l]
    | reset => simp

theorem index_lt_of_completed (H : After h t) {k : Ticket} (hk : .completed k ∈ h) :
    k.index < t.fired.size := by
  have hc := (H.isComplete_iff k).2 hk
  by_contra hlt
  rw [isComplete, Array.getD_eq_getD_getElem?, Array.getElem?_eq_none (Nat.le_of_not_lt hlt)] at hc
  cases hc

/-- A ticket queued since the last reset was not completed before it. -/
theorem not_completed_before (H : After h t) {k : Ticket} (hk : k ∈ queued (sinceReset h)) :
    .completed k ∉ beforeReset h := by
  induction H with
  | start => exact List.not_mem_nil
  | @step h s t t' H S ih =>
    cases S with
    | queue =>
      rw [sinceReset_concat (by simp), queued_append, List.mem_append] at hk
      rw [beforeReset_concat (by simp)]
      rcases hk with hk | hk
      · exact ih hk
      · intro hbefore
        have hlt := H.index_lt_of_completed (mem_iff.2 (.inl hbefore))
        rw [queued_queued, List.mem_singleton] at hk
        subst hk
        exact absurd hlt (Nat.lt_irrefl _)
    | complete =>
      rw [sinceReset_concat (by simp), queued_append, List.mem_append] at hk
      rw [beforeReset_concat (by simp)]
      exact ih (hk.resolve_right (by simp))
    | reset =>
      rw [sinceReset_zeroed] at hk
      cases hk

theorem toLoad_eq (H : After h t) : t.toLoad = (queued (sinceReset h)).length := by
  induction H with
  | start => rfl
  | step _ S ih =>
    cases S with
    | queue => simp [sinceReset_concat, ih]
    | complete => simp [sinceReset_concat, ih]
    | reset => simp [Tally.reset]

theorem nodup_queued (H : After h t) : (queued h).Nodup := by
  rw [H.queued_eq]
  exact List.Nodup.map (fun _ _ hij => congrArg Ticket.index hij) List.nodup_range

theorem mem_queued_of_lt (H : After h t) {k : Ticket} (hk : k.index < t.fired.size) :
    k ∈ queued h := by
  rw [H.queued_eq]
  exact List.mem_map.2 ⟨k.index, List.mem_range.2 hk, rfl⟩

end After

theorem countP_eq_succ {l : List Ticket} (hl : l.Nodup) {k : Ticket} (hk : k ∈ l)
    {p q : Ticket → Bool} (hp : p k = false) (hq : ∀ x, q x = (p x || decide (x = k))) :
    l.countP q = l.countP p + 1 := by
  obtain ⟨l₁, l₂, rfl⟩ := List.append_of_mem hk
  obtain ⟨hk₁, hk₂⟩ : k ∉ l₁ ∧ k ∉ l₂ := by simpa using (List.nodup_middle.1 hl).notMem
  have hcongr : ∀ l' : List Ticket, k ∉ l' → l'.countP q = l'.countP p := by
    intro l' hk'
    refine List.countP_congr fun x hx => ?_
    have hne : x ≠ k := fun h => hk' (h ▸ hx)
    simp [hq, hne]
  have hqk : q k = true := by simp [hq]
  rw [List.countP_append, List.countP_append, List.countP_cons_of_pos hqk,
    List.countP_cons_of_neg (by simp [hp]), hcongr l₁ hk₁, hcongr l₂ hk₂]
  omega

namespace After

variable {h : List Stroke} {t : Tally}

/-- A tally counts the tickets that were first completed since its last reset. -/
theorem loaded_eq (H : After h t) : t.loaded = (queued h).countP (Counted h ·) := by
  induction H with
  | start => rfl
  | @step h s t t' H S ih =>
    cases S with
    | queue =>
      have hnew : ¬ Counted h ⟨t.fired.size⟩ := fun hc =>
        absurd (H.index_lt_of_completed (mem_iff.2 (.inr hc.1))) (Nat.lt_irrefl _)
      simp only [counted_queued, queued_append, queued_queued, List.countP_append, loaded_queue, ih]
      simp [hnew]
    | @complete k hk =>
      rw [queued_append, queued_completed, List.append_nil, loaded_complete, complete_fst, ih]
      by_cases hfirst : .completed k ∈ h
      · have hdone := (H.isComplete_iff k).2 hfirst
        simp [counted_completed, hfirst, hdone]
      · have hopen : t.isComplete k = false := by
          rw [← Bool.not_eq_true, H.isComplete_iff k]
          exact hfirst
        have hcount : ¬ Counted h k := fun hc => hfirst (mem_iff.2 (.inr hc.1))
        have hsucc : (queued h).countP (Counted (h ++ [.completed k]) ·) =
            (queued h).countP (Counted h ·) + 1 := by
          refine countP_eq_succ H.nodup_queued (H.mem_queued_of_lt hk) (by simpa using hcount) ?_
          intro x
          simp [counted_completed, hfirst]
        simp [hsucc, hopen, hk]
    | reset =>
      simp [not_counted_zeroed, Tally.reset]

/-- What is loaded and what is outstanding make up what is to be loaded and what came in late. -/
theorem loaded_add_pending (H : After h t) :
    t.loaded + (pending h).length = t.toLoad + (late h).length := by
  have hparts : queued h = queued (beforeReset h) ++ queued (sinceReset h) := by
    rw [← queued_append, beforeReset_append_sinceReset]
  -- of the tickets queued since the reset, those completed at all are counted
  have hsince : (queued (sinceReset h)).countP (Counted h ·) =
      (queued (sinceReset h)).countP (.completed · ∈ h) := by
    refine List.countP_congr fun k hk => ?_
    have hbefore := H.not_completed_before hk
    simp [Counted, hbefore, mem_iff (h := h)]
  have hsplit : (queued (sinceReset h)).length =
      (queued (sinceReset h)).countP (.completed · ∈ h) + (pending h).length := by
    rw [List.length_eq_countP_add_countP (.completed · ∈ h), pending,
      ← List.countP_eq_length_filter]
    simp
  have hloaded := H.loaded_eq
  rw [hparts, List.countP_append, hsince, List.countP_eq_length_filter, ← late] at hloaded
  have htoLoad := H.toLoad_eq
  omega

theorem isSettled_iff (H : After h t) :
    t.progress.isSettled = true ↔ (pending h).length ≤ (late h).length := by
  have hsum := H.loaded_add_pending
  rw [Progress.isSettled, decide_eq_true_iff]
  simp only [progress]
  omega

theorem pending_eq_nil_iff {h : List Stroke} :
    pending h = [] ↔ ∀ k, .queued k ∈ sinceReset h → .completed k ∈ h := by
  simp [pending, List.filter_eq_nil_iff, mem_queued]

end After

theorem Strikes.size_le {t t' : Tally} {s : Stroke} (S : Strikes t s t') :
    t.fired.size ≤ t'.fired.size := by
  cases S with
  | queue => simp
  | complete => simp
  | reset => exact Nat.le_refl _

end Tally

/-! ### Shared tallies -/

namespace Board

/-- The board after the moves, the first of which is made first. -/
def run (b : Board) : List Move → Board
  | [] => b
  | m :: moves => (b.step m).2.run moves

/-- What a move does to tally `i`. -/
def strokes (b : Board) (i : Nat) : Move → List Stroke
  | .queue holder =>
    match b.holders[holder]? with
    | some j => if j = i then [.queued (b.tallies.getD j {}).queue.1] else []
    | none => []
  | .complete signal =>
    match b.signals[signal]? with
    | some s => if s.tally = i then [.completed s.ticket] else []
    | none => []
  | .reset holder =>
    match b.holders[holder]? with
    | some j => if j = i then [.zeroed] else []
    | none => []
  | _ => []

def strokesOf (b : Board) (i : Nat) : List Move → List Stroke
  | [] => []
  | m :: moves => b.strokes i m ++ (b.step m).2.strokesOf i moves

/-- The strokes `h i` make tally `i`; holders and signals are of tallies that are there, and signals
of tickets that were issued. -/
structure Told (b : Board) (h : Nat → List Stroke) : Prop where
  holders : ∀ i ∈ b.holders, i < b.tallies.size
  signals : ∀ s ∈ b.signals, s.tally < b.tallies.size ∧
    s.ticket.index < (b.tallies.getD s.tally {}).fired.size
  tallies : ∀ i, Tally.After (h i) (b.tallies.getD i {})

theorem getD_push (ts : Array Tally) (i : Nat) : (ts.push {}).getD i {} = ts.getD i {} := by
  simp only [Array.getD_eq_getD_getElem?, Array.getElem?_push]
  split
  · simp [*]
  · rfl

theorem getD_setIfInBounds {ts : Array Tally} {i : Nat} (hi : i < ts.size) (t : Tally) (j : Nat) :
    (ts.setIfInBounds i t).getD j {} = if i = j then t else ts.getD j {} := by
  simp only [Array.getD_eq_getD_getElem?, Array.getElem?_setIfInBounds]
  split
  · simp [*]
  · rfl

theorem modify_eq_setIfInBounds {ts : Array Tally} {i : Nat} (hi : i < ts.size)
    (f : Tally → Tally) : ts.modify i f = ts.setIfInBounds i (f (ts.getD i {})) := by
  apply Array.ext_getElem?
  intro j
  simp only [Array.getElem?_modify, Array.getElem?_setIfInBounds, Array.getD_eq_getD_getElem?]
  by_cases h : i = j
  · subst h
    simp [hi]
  · simp [h]

namespace Told

variable {b : Board} {h : Nat → List Stroke}

theorem start : Told start fun _ => [] where
  holders i hi := by
    simp only [Board.start, List.mem_toArray, List.mem_singleton] at hi
    subst hi
    exact Nat.zero_lt_one
  signals s hs := by simp [Board.start] at hs
  tallies i := by
    cases i with
    | zero => exact .start
    | succ i => exact .start

theorem holder_lt (H : Told b h) {holder i : Nat} (hi : b.holders[holder]? = some i) :
    i < b.tallies.size :=
  H.holders i (Array.mem_of_getElem? hi)

theorem strike (H : Told b h) {i : Nat} {s : Stroke} {t : Tally} (hi : i < b.tallies.size)
    (S : Tally.Strikes (b.tallies.getD i {}) s t) :
    Told { b with tallies := b.tallies.setIfInBounds i t }
      fun j => h j ++ if i = j then [s] else [] where
  holders j hj := by simpa using H.holders j hj
  signals s hs := by
    obtain ⟨htally, hticket⟩ := H.signals s hs
    rw [Array.size_setIfInBounds, getD_setIfInBounds hi]
    refine ⟨htally, ?_⟩
    by_cases heq : i = s.tally
    · subst heq
      rw [if_pos rfl]
      exact Nat.lt_of_lt_of_le hticket S.size_le
    · rw [if_neg heq]
      exact hticket
  tallies j := by
    rw [getD_setIfInBounds hi]
    by_cases heq : i = j
    · subst heq
      simpa using (H.tallies i).step S
    · simpa [heq] using H.tallies j

theorem congr {h' : Nat → List Stroke} (H : Told b h) (hh : ∀ i, h' i = h i) : Told b h' := by
  rwa [funext hh]

theorem signal {s : Signal} (H : Told b h) (htally : s.tally < b.tallies.size)
    (hticket : s.ticket.index < (b.tallies.getD s.tally {}).fired.size) :
    Told { b with signals := b.signals.push s } h where
  holders := H.holders
  signals s' hs := by
    rcases Array.mem_push.1 hs with hs | rfl
    · exact H.signals s' hs
    · exact ⟨htally, hticket⟩
  tallies := H.tallies

theorem step (H : Told b h) (m : Move) :
    Told (b.step m).2 fun i => h i ++ b.strokes i m := by
  cases m with
  | fresh =>
    refine ⟨fun i hi => ?_, fun s hs => ?_, fun i => ?_⟩
    · rcases Array.mem_push.1 hi with hi | rfl
      · simpa [Board.step] using Nat.lt_succ_of_lt (H.holders i hi)
      · simp [Board.step]
    · obtain ⟨htally, hticket⟩ := H.signals s hs
      refine ⟨by simpa [Board.step] using Nat.lt_succ_of_lt htally, ?_⟩
      simp only [Board.step, getD_push]
      exact hticket
    · simpa only [Board.step, getD_push, strokes, List.append_nil] using H.tallies i
  | share holder =>
    simp only [Board.step, strokes, List.append_nil]
    split
    · rename_i i hi
      refine ⟨fun j hj => ?_, H.signals, H.tallies⟩
      rcases Array.mem_push.1 hj with hj | rfl
      · exact H.holders j hj
      · exact H.holder_lt hi
    · exact H
  | queue holder =>
    cases hi : b.holders[holder]? with
    | none => simpa [Board.step, strokes, hi] using H
    | some i =>
      have hlt := H.holder_lt hi
      simp only [Board.step, strokes, hi]
      refine (H.strike hlt (.queue _)).signal (s := ⟨i, _⟩) ?_ ?_
      · simpa using hlt
      · simp [getD_setIfInBounds hlt]
  | copy signal =>
    cases hs : b.signals[signal]? with
    | none => simpa [Board.step, strokes, hs] using H
    | some s =>
      obtain ⟨htally, hticket⟩ := H.signals s (Array.mem_of_getElem? hs)
      simpa [Board.step, strokes, hs] using H.signal htally hticket
  | complete signal =>
    cases hs : b.signals[signal]? with
    | none => simpa [Board.step, strokes, hs] using H
    | some s =>
      obtain ⟨htally, hticket⟩ := H.signals s (Array.mem_of_getElem? hs)
      simp only [Board.step, strokes, hs]
      exact H.strike htally (.complete _ hticket)
  | reset holder =>
    cases hi : b.holders[holder]? with
    | none => simpa [Board.step, strokes, hi] using H
    | some i =>
      have hlt := H.holder_lt hi
      simp only [Board.step, strokes, hi, modify_eq_setIfInBounds hlt]
      exact H.strike hlt (.reset _)
  | snapshot holder =>
    simp only [Board.step, strokes, List.append_nil]
    exact ⟨H.holders, H.signals, H.tallies⟩

theorem run (H : Told b h) (moves : List Move) :
    Told (b.run moves) fun i => h i ++ b.strokesOf i moves := by
  induction moves generalizing b h with
  | nil => simpa [Board.run, strokesOf] using H
  | cons m moves ih =>
    exact (ih (H.step m)).congr fun i => by rw [strokesOf, List.append_assoc]

end Told

theorem after_tallyOf (moves : List Move) {holder i : Nat}
    (hi : (start.run moves).holders[holder]? = some i) :
    Tally.After (start.strokesOf i moves) ((start.run moves).tallyOf holder) := by
  have H := (Told.start.run moves).tallies i
  rw [tallyOf, hi, Option.bind_some, ← Array.getD_eq_getD_getElem?]
  simpa using H

open Strokes in
/-- The counts are settled as soon as no more tickets are outstanding than came in late. While none
came in late they say that every ticket queued since the last reset is complete, and no more is
loaded than was to be loaded. -/
theorem isSettled_run (moves : List Move) {holder i : Nat}
    (hi : (start.run moves).holders[holder]? = some i) :
    let past := start.strokesOf i moves
    let p := ((start.run moves).tallyOf holder).progress
    p.loaded + (pending past).length = p.toLoad + (late past).length ∧
      (p.isSettled = true ↔ (pending past).length ≤ (late past).length) ∧
      (late past = [] →
        (p.isSettled = true ↔ ∀ k, .queued k ∈ sinceReset past → .completed k ∈ past) ∧
          p.loaded ≤ p.toLoad) := by
  intro past p
  have H := after_tallyOf moves hi
  have hsum : p.loaded + (pending past).length = p.toLoad + (late past).length :=
    H.loaded_add_pending
  refine ⟨hsum, H.isSettled_iff, fun hlate => ⟨?_, ?_⟩⟩
  · have hiff : p.isSettled = true ↔ (pending past).length ≤ (late past).length := H.isSettled_iff
    rw [hiff, hlate, ← Tally.After.pending_eq_nil_iff, List.length_nil, Nat.le_zero,
      List.length_eq_zero_iff]
  · rw [hlate, List.length_nil] at hsum
    omega

open Strokes in
/-- Two pictures of one tally, the first completed after a reset and the second not yet. -/
theorem isSettled_run_late :
    (start.run [.queue 0, .share 0, .reset 1, .queue 1, .complete 0]).holders[1]? = some 0 ∧
      pending (start.strokesOf 0 [.queue 0, .share 0, .reset 1, .queue 1, .complete 0]) = [⟨1⟩] ∧
      late (start.strokesOf 0 [.queue 0, .share 0, .reset 1, .queue 1, .complete 0]) = [⟨0⟩] ∧
      ((start.run [.queue 0, .share 0, .reset 1, .queue 1, .complete 0]).tallyOf
        1).progress.isSettled = true := by
  have hi : (start.run [.queue 0, .share 0, .reset 1, .queue 1, .complete 0]).holders[1]? =
      some 0 := by decide
  exact ⟨hi, by decide, by decide, (isSettled_run _ hi).2.1.2 (by decide)⟩

open Strokes in
/-- A ticket completed late settles the counts before the ticket queued since the reset is complete,
and without such a ticket more is loaded than was to be loaded. -/
theorem settled_before_complete :
    (((start.run [.queue 0, .reset 0, .queue 0, .complete 0]).tallyOf 0).progress.isSettled = true ∧
      .queued ⟨1⟩ ∈ sinceReset (start.strokesOf 0 [.queue 0, .reset 0, .queue 0, .complete 0]) ∧
      .completed ⟨1⟩ ∉ start.strokesOf 0 [.queue 0, .reset 0, .queue 0, .complete 0]) ∧
    ((start.run [.queue 0, .reset 0, .complete 0]).tallyOf 0).progress = ⟨1, 0⟩ := by
  decide

end Board

end TileCatalog
