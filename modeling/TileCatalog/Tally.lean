/-!
# Tallies

A tally counts pictures to load and pictures loaded. Each picture gets a ticket, and a ticket counts
the first time it is completed and never again. A reset zeroes the counts and leaves the tickets
alone, so that one issued earlier still counts when it is completed later.

`queue` and `complete` are put together from single accesses to one count or one ticket.
-/

namespace TileCatalog

structure Progress where
  loaded : Nat := 0
  toLoad : Nat := 0
deriving DecidableEq, Repr, Inhabited

namespace Progress

def isSettled (p : Progress) : Bool := p.toLoad ≤ p.loaded

def text (p : Progress) : String := s!"{p.loaded}/{p.toLoad}"

end Progress

structure Ticket where
  index : Nat
deriving DecidableEq, Repr, Inhabited

/-- The two counts, and for each ticket issued whether it was completed. -/
structure Tally where
  toLoad : Nat := 0
  loaded : Nat := 0
  fired : Array Bool := #[]
deriving DecidableEq, Repr, Inhabited

namespace Tally

/-! ### Single accesses -/

def countQueued (t : Tally) : Tally := { t with toLoad := t.toLoad + 1 }

def countLoaded (t : Tally) : Tally := { t with loaded := t.loaded + 1 }

def issue (t : Tally) : Ticket × Tally := (⟨t.fired.size⟩, { t with fired := t.fired.push false })

def isComplete (t : Tally) (k : Ticket) : Bool := t.fired.getD k.index false

/-- Marks a ticket; whether it was issued and not marked before. -/
def fire (t : Tally) (k : Ticket) : Bool × Tally :=
  (k.index < t.fired.size && !t.isComplete k,
    { t with fired := t.fired.setIfInBounds k.index true })

/-! ### Operations -/

/-- Counts one more picture to load and issues its ticket. -/
def queue (t : Tally) : Ticket × Tally := t.countQueued.issue

/-- Counts the picture of a ticket as loaded, the first time only; whether this was the first. -/
def complete (t : Tally) (k : Ticket) : Bool × Tally :=
  match t.fire k with
  | (true, t') => (true, t'.countLoaded)
  | (false, t') => (false, t')

def progress (t : Tally) : Progress := ⟨t.loaded, t.toLoad⟩

def reset (t : Tally) : Tally := { t with toLoad := 0, loaded := 0 }

/-! ### Counts and tickets under the operations -/

attribute [ext] Tally

/-- A tally is known by its counts and by which of its tickets are complete. -/
theorem eq_of_isComplete {t t' : Tally} (hto : t.toLoad = t'.toLoad) (hl : t.loaded = t'.loaded)
    (hs : t.fired.size = t'.fired.size) (hc : ∀ k, t.isComplete k = t'.isComplete k) : t = t' := by
  refine Tally.ext hto hl (Array.ext hs fun i hi hi' => ?_)
  simpa [isComplete, hi, hi'] using hc ⟨i⟩

@[simp] theorem toLoad_queue (t : Tally) : t.queue.2.toLoad = t.toLoad + 1 := rfl

@[simp] theorem loaded_queue (t : Tally) : t.queue.2.loaded = t.loaded := rfl

@[simp] theorem size_queue (t : Tally) : t.queue.2.fired.size = t.fired.size + 1 :=
  Array.size_push false

/-- Tickets are numbered in the order in which they are issued. -/
@[simp] theorem queue_fst (t : Tally) : t.queue.1 = ⟨t.fired.size⟩ := rfl

@[simp] theorem isComplete_reset (t : Tally) (k : Ticket) : t.reset.isComplete k = t.isComplete k :=
  rfl

@[simp] theorem isComplete_queue (t : Tally) (k : Ticket) :
    t.queue.2.isComplete k = t.isComplete k := by
  simp only [queue, issue, countQueued, isComplete, Array.getD_eq_getD_getElem?,
    Array.getElem?_push]
  split
  · simp [*]
  · rfl

theorem isComplete_queue_fst (t : Tally) : t.queue.2.isComplete t.queue.1 = false := by
  simp [queue, issue, countQueued, isComplete]

/-- The first completion of a ticket counts. -/
theorem complete_fst (t : Tally) (k : Ticket) :
    (t.complete k).1 = (decide (k.index < t.fired.size) && !t.isComplete k) := by
  unfold complete
  split
  · rename_i h
    exact (congrArg Prod.fst h).symm
  · rename_i h
    exact (congrArg Prod.fst h).symm

theorem fired_complete (t : Tally) (k : Ticket) :
    (t.complete k).2.fired = t.fired.setIfInBounds k.index true := by
  unfold complete
  split
  · rename_i h
    exact congrArg (fun p => p.2.fired) h.symm
  · rename_i h
    exact congrArg (fun p => p.2.fired) h.symm

@[simp] theorem size_complete (t : Tally) (k : Ticket) :
    (t.complete k).2.fired.size = t.fired.size := by
  rw [fired_complete, Array.size_setIfInBounds]

theorem loaded_complete (t : Tally) (k : Ticket) :
    (t.complete k).2.loaded = t.loaded + if (t.complete k).1 then 1 else 0 := by
  unfold complete
  split
  · rename_i h
    exact congrArg (fun p => p.2.loaded + 1) h.symm
  · rename_i h
    exact congrArg (fun p => p.2.loaded) h.symm

@[simp] theorem toLoad_complete (t : Tally) (k : Ticket) : (t.complete k).2.toLoad = t.toLoad := by
  unfold complete
  split
  · rename_i h
    exact congrArg (fun p => p.2.toLoad) h.symm
  · rename_i h
    exact congrArg (fun p => p.2.toLoad) h.symm

theorem isComplete_complete (t : Tally) (k l : Ticket) :
    (t.complete k).2.isComplete l =
      (t.isComplete l || (decide (k = l) && decide (k.index < t.fired.size))) := by
  simp only [isComplete, fired_complete, Array.getD_eq_getD_getElem?, Array.getElem?_setIfInBounds]
  by_cases h : k = l
  · subst h
    by_cases hk : k.index < t.fired.size <;> simp [hk]
  · have : k.index ≠ l.index := fun e => h (by cases k; cases l; exact congrArg _ e)
    simp [h, this]

theorem complete_of_isComplete {t : Tally} {k : Ticket} (h : t.isComplete k = true) :
    t.complete k = (false, t) := by
  have hfirst : (t.complete k).1 = false := by simp [complete_fst, h]
  refine Prod.ext hfirst (eq_of_isComplete (by simp) ?_ (by simp) fun l => ?_)
  · simp [loaded_complete, hfirst]
  · by_cases hkl : k = l
    · subst hkl
      simp [isComplete_complete, h]
    · simp [isComplete_complete, hkl]

end Tally

end TileCatalog
