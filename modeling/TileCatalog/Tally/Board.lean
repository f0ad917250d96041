import TileCatalog.Tally

/-!
# Shared tallies

Several holders may share one tally, and several signals one ticket. A `Board` keeps them all: each
holder knows its tally, each signal its tally and ticket.
-/

namespace TileCatalog

structure Signal where
  tally : Nat
  ticket : Ticket
deriving DecidableEq, Repr

structure Board where
  tallies : Array Tally := #[]
  /-- The tally of each holder. -/
  holders : Array Nat := #[]
  signals : Array Signal := #[]
  snapshots : Array Progress := #[]
deriving Repr

namespace Board

inductive Move where
  | fresh
  | share (holder : Nat)
  | queue (holder : Nat)
  | copy (signal : Nat)
  | complete (signal : Nat)
  | reset (holder : Nat)
  | snapshot (holder : Nat)
deriving DecidableEq, Repr

inductive Reply where
  | nothing
  | completed (first : Bool)
  /-- The counts, and the earlier snapshots that show the same. -/
  | snapshot (progress : Progress) (equalTo : List Nat)
deriving DecidableEq, Repr

def start : Board := { tallies := #[{}], holders := #[0] }

def tallyOf (b : Board) (holder : Nat) : Tally :=
  (b.holders[holder]?.bind (b.tallies[·]?)).getD {}

/-- A move that names a holder or signal that is not there does nothing. -/
def step (b : Board) : Move → Reply × Board
  | .fresh =>
    (.nothing, { b with tallies := b.tallies.push {}, holders := b.holders.push b.tallies.size })
  | .share holder =>
    match b.holders[holder]? with
    | some i => (.nothing, { b with holders := b.holders.push i })
    | none => (.nothing, b)
  | .queue holder =>
    match b.holders[holder]? with
    | some i =>
      let (ticket, tally) := (b.tallies.getD i {}).queue
      (.nothing,
        { b with
          tallies := b.tallies.setIfInBounds i tally
          signals := b.signals.push ⟨i, ticket⟩ })
    | none => (.nothing, b)
  | .copy signal =>
    match b.signals[signal]? with
    | some s => (.nothing, { b with signals := b.signals.push s })
    | none => (.nothing, b)
  | .complete signal =>
    match b.signals[signal]? with
    | some s =>
      let (first, tally) := (b.tallies.getD s.tally {}).complete s.ticket
      (.completed first, { b with tallies := b.tallies.setIfInBounds s.tally tally })
    | none => (.nothing, b)
  | .reset holder =>
    match b.holders[holder]? with
    | some i => (.nothing, { b with tallies := b.tallies.modify i Tally.reset })
    | none => (.nothing, b)
  | .snapshot holder =>
    let p := (b.tallyOf holder).progress
    let equalTo := (List.range b.snapshots.size).filter fun i => b.snapshots[i]? == some p
    (.snapshot p equalTo, { b with snapshots := b.snapshots.push p })

def counts (b : Board) : List Progress :=
  (List.range b.holders.size).map fun holder => (b.tallyOf holder).progress

def completed (b : Board) : List Bool :=
  b.signals.toList.map fun s => (b.tallies.getD s.tally {}).isComplete s.ticket

end Board

end TileCatalog
