import TileCatalog.Tally

/-!
# Teams

Agents that work on one tally at the same time. An operation is made of single accesses, and
between two accesses of one agent there may be any of the others'. Who makes the next access is
told by a schedule.
-/

namespace TileCatalog

/-- What an agent can begin. Any agent may complete any ticket that was issued. -/
inductive Job where
  | queue
  | complete (ticket : Ticket)
  | progress
deriving DecidableEq, Repr

/-- What an agent is in the middle of. A picture is counted before its ticket is issued, a ticket is
fired before it is counted as loaded, and of a snapshot the pictures loaded are read first. -/
inductive Task where
  | idle
  | queueing
  | completing (ticket : Ticket)
  | reading (loaded : Nat)
deriving DecidableEq, Repr

/-- A single access and what it gives: `fire` tells whether the ticket was not fired before, and
`readToLoad`, which ends a snapshot, the progress. -/
inductive Access where
  | countQueued
  | issue (ticket : Ticket)
  | fire (ticket : Ticket) (first : Bool)
  | countLoaded (ticket : Ticket)
  | readLoaded (loaded : Nat)
  | readToLoad (progress : Progress)
deriving DecidableEq, Repr

namespace Access

def isIssue : Access → Bool
  | issue _ => true
  | _ => false

/-- What a completion answers, at the access that ends it. -/
def completed? : Access → Option (Ticket × Bool)
  | fire k false => some (k, false)
  | countLoaded k => some (k, true)
  | _ => none

end Access

namespace Task

def isCompleting : Task → Bool
  | completing _ => true
  | _ => false

/-- The next access of an agent, which begins a job if it is idle. -/
def step (t : Tally) (job : Job) : Task → Option (Access × Tally × Task)
  | idle =>
    match job with
    | .queue => some (.countQueued, t.countQueued, queueing)
    | .complete k =>
      if k.index < t.fired.size then
        let (first, t) := t.fire k
        some (.fire k first, t, if first then completing k else idle)
      else none
    | .progress => some (.readLoaded t.loaded, t, reading t.loaded)
  | queueing =>
    let (k, t) := t.issue
    some (.issue k, t, idle)
  | completing k => some (.countLoaded k, t.countLoaded, idle)
  | reading n => some (.readToLoad ⟨n, t.toLoad⟩, t, idle)

end Task

/-- A tally, what each agent is in the middle of, and all accesses that were made, with the agents
that made them. -/
structure Team where
  tally : Tally := {}
  tasks : List Task
  log : List (Nat × Access) := []
deriving DecidableEq, Repr

namespace Team

def start (agents : Nat) : Team := { tasks := List.replicate agents .idle }

def step (team : Team) (agent : Nat) (job : Job) : Team :=
  match team.tasks[agent]?.bind (Task.step team.tally job) with
  | some (access, tally, task) =>
    { tally, tasks := team.tasks.set agent task, log := team.log ++ [(agent, access)] }
  | none => team

def run (team : Team) (schedule : List (Nat × Job)) : Team :=
  schedule.foldl (fun team (agent, job) => team.step agent job) team

end Team

end TileCatalog
