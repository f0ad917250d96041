import Mathlib.Data.List.Induction
import TileCatalog.Tally.Team

/-!
# Snapshots of a shared tally

An agent that takes a snapshot reads the number of pictures loaded first and that of pictures to
load last, and others may work on the tally between. `Acts` says all that one access can do, and
`Team.Balanced` what holds between any two accesses: a picture is counted to load before it has a
ticket, and counted as loaded after its ticket is fired. As the counts only grow, the first number
read is never ahead of the second, and the two are equal only if nothing was outstanding when the
first was read (`Team.Coherent`).
-/

namespace TileCatalog

theorem countP_set_add {α : Type} {l : List α} {i : Nat} {x : α} (hx : l[i]? = some x)
    (p : α → Bool) (y : α) :
    (l.set i y).countP p + (p x).toNat = l.countP p + (p y).toNat := by
  obtain ⟨hi, rfl⟩ := List.getElem?_eq_some_iff.1 hx
  have hle := List.boole_getElem_le_countP (p := p) hi
  rw [List.countP_set hi]
  cases h : p l[i] <;> cases p y <;> simp_all

namespace Tally

def firedCount (t : Tally) : Nat := t.fired.toList.countP id

theorem firedCount_le (t : Tally) : t.firedCount ≤ t.fired.size :=
  Nat.le_trans List.countP_le_length (Nat.le_of_eq Array.length_toList)

theorem isComplete_fire (t : Tally) (k l : Ticket) :
    (t.fire k).2.isComplete l =
      (t.isComplete l || (decide (k = l) && decide (k.index < t.fired.size))) := by
  rw [← isComplete_complete, isComplete, isComplete, fired_complete]
  rfl

theorem firedCount_fire {t : Tally} {k : Ticket} (hk : k.index < t.fired.size) :
    (t.fire k).2.firedCount + (t.isComplete k).toNat = t.firedCount + 1 := by
  have hget : t.fired.toList[k.index]? = some (t.isComplete k) := by
    simp [isComplete, hk]
  have h := countP_set_add hget id true
  rwa [← Array.toList_setIfInBounds] at h

theorem isComplete_of_firedCount {t : Tally} (ht : t.firedCount = t.fired.size) {k : Ticket}
    (hk : k.index < t.fired.size) : t.isComplete k = true := by
  have hall : ∀ b ∈ t.fired.toList, id b = true := by
    rw [← List.countP_eq_length, Array.length_toList]
    exact ht
  have hmem : t.isComplete k ∈ t.fired.toList := by simp [isComplete, hk]
  exact hall _ hmem

end Tally

/-! ### Single accesses -/

/-- What an access does to the tally, and what it leaves its agent in the middle of. -/
inductive Acts : Tally → Task → Access → Tally → Task → Prop
  | countQueued (t : Tally) : Acts t .idle .countQueued t.countQueued .queueing
  | issue (t : Tally) : Acts t .queueing (.issue t.issue.1) t.issue.2 .idle
  | fire {t : Tally} {k : Ticket} (hk : k.index < t.fired.size) (hf : t.isComplete k = false) :
      Acts t .idle (.fire k true) (t.fire k).2 (.completing k)
  | fireAgain {t : Tally} {k : Ticket} (hk : k.index < t.fired.size)
      (hf : t.isComplete k = true) : Acts t .idle (.fire k false) (t.fire k).2 .idle
  | countLoaded (t : Tally) (k : Ticket) :
      Acts t (.completing k) (.countLoaded k) t.countLoaded .idle
  | readLoaded (t : Tally) : Acts t .idle (.readLoaded t.loaded) t (.reading t.loaded)
  | readToLoad (t : Tally) (n : Nat) : Acts t (.reading n) (.readToLoad ⟨n, t.toLoad⟩) t .idle

theorem Task.acts_of_step {t t' : Tally} {job : Job} {task task' : Task} {access : Access}
    (h : task.step t job = some (access, t', task')) : Acts t task access t' task' := by
  cases task with
  | idle =>
    cases job with
    | queue =>
      cases h
      exact .countQueued t
    | complete k =>
      simp only [step] at h
      split at h
      · rename_i hk
        cases hf : t.isComplete k with
        | false =>
          have hfirst : (t.fire k).1 = true := by simp [Tally.fire, hk, hf]
          simp only [hfirst, if_true, Option.some.injEq, Prod.mk.injEq] at h
          obtain ⟨rfl, rfl, rfl⟩ := h
          exact .fire hk hf
        | true =>
          have hfirst : (t.fire k).1 = false := by simp [Tally.fire, hf]
          simp only [hfirst, Bool.false_eq_true, if_false, Option.some.injEq, Prod.mk.injEq] at h
          obtain ⟨rfl, rfl, rfl⟩ := h
          exact .fireAgain hk hf
      · cases h
    | progress =>
      cases h
      exact .readLoaded t
  | queueing =>
    cases h
    exact .issue t
  | completing k =>
    cases h
    exact .countLoaded t k
  | reading n =>
    cases h
    exact .readToLoad t n

namespace Acts

variable {t t' : Tally} {task task' : Task} {access : Access}

theorem toLoad_eq (A : Acts t task access t' task') :
    t'.toLoad = t.toLoad + (decide (access = .countQueued)).toNat := by
  cases A <;> simp [Tally.countQueued, Tally.issue, Tally.fire, Tally.countLoaded]

theorem size_eq (A : Acts t task access t' task') :
    t'.fired.size = t.fired.size + access.isIssue.toNat := by
  cases A <;>
    simp [Tally.countQueued, Tally.issue, Tally.fire, Tally.countLoaded, Access.isIssue]

theorem queueing_eq (A : Acts t task access t' task') :
    (decide (task' = .queueing)).toNat + access.isIssue.toNat =
      (decide (task = .queueing)).toNat + (decide (access = .countQueued)).toNat := by
  cases A <;> simp [Access.isIssue]

theorem completing_eq (A : Acts t task access t' task') (k : Ticket) :
    (decide (task' = .completing k)).toNat + (decide (access.completed? = some (k, true))).toNat =
      (decide (task = .completing k)).toNat + (decide (access = .fire k true)).toNat := by
  cases A <;> simp [Access.completed?]

theorem loaded_add (A : Acts t task access t' task') :
    t'.loaded + task'.isCompleting.toNat + t.firedCount =
      t.loaded + task.isCompleting.toNat + t'.firedCount := by
  cases A with
  | fire hk hf =>
    have h := Tally.firedCount_fire hk
    rw [hf] at h
    simp only [Task.isCompleting, Tally.fire, Bool.toNat_false, Bool.toNat_true] at h ⊢
    omega
  | fireAgain hk hf =>
    have h := Tally.firedCount_fire hk
    rw [hf] at h
    simp only [Task.isCompleting, Tally.fire, Bool.toNat_true] at h ⊢
    omega
  | issue =>
    simp [Tally.issue, Tally.firedCount, Task.isCompleting]
  | countLoaded =>
    simp [Tally.countLoaded, Tally.firedCount, Task.isCompleting]
  | countQueued | readLoaded | readToLoad => simp [Tally.countQueued, Tally.firedCount,
      Task.isCompleting]

theorem isIssued_iff (A : Acts t task access t' task') (k : Ticket) :
    k.index < t'.fired.size ↔ k.index < t.fired.size ∨ access = .issue k := by
  cases A with
  | issue =>
    obtain ⟨i⟩ := k
    simp [Tally.issue]
    omega
  | _ => simp [Tally.countQueued, Tally.fire, Tally.countLoaded]

theorem isComplete_eq (A : Acts t task access t' task') (k : Ticket) :
    (t'.isComplete k).toNat = (t.isComplete k).toNat + (decide (access = .fire k true)).toNat := by
  cases A with
  | @fire k' hk hf =>
    rw [Tally.isComplete_fire]
    by_cases hkk : k' = k
    · subst hkk
      simp [hk, hf]
    · simp [hkk]
  | @fireAgain k' hk hf =>
    rw [Tally.isComplete_fire]
    by_cases hkk : k' = k
    · subst hkk
      simp [hf]
    · simp [hkk]
  | issue =>
    have h : t.issue.2.isComplete k = t.isComplete k := t.isComplete_queue k
    simp [h]
  | countQueued | countLoaded | readLoaded | readToLoad =>
    simp [Tally.countQueued, Tally.countLoaded, Tally.isComplete]

end Acts

/-! ### Teams -/

namespace Team

def after (T : Team) (agent : Nat) (access : Access) (t : Tally) (task : Task) : Team :=
  ⟨t, T.tasks.set agent task, T.log ++ [(agent, access)]⟩

section after

variable {T : Team} {agent : Nat} {task : Task} (h : T.tasks[agent]? = some task)
include h

theorem step_eq_after {job : Job} {access : Access} {t : Tally} {task' : Task}
    (hstep : task.step T.tally job = some (access, t, task')) :
    T.step agent job = T.after agent access t task' := by
  rw [step, h, Option.bind_some, hstep]
  rfl

theorem getElem?_after (access : Access) (t : Tally) (task' : Task) :
    (T.after agent access t task').tasks[agent]? = some task' := by
  obtain ⟨hlt, -⟩ := List.getElem?_eq_some_iff.1 h
  exact List.getElem?_set_self hlt

end after

/-- The teams that so many agents can come to, whoever makes the next access. -/
inductive Reached (agents : Nat) : Team → Prop
  | start : Reached agents (start agents)
  | act {T : Team} {agent : Nat} {task task' : Task} {access : Access} {t : Tally}
      (R : Reached agents T) (htask : T.tasks[agent]? = some task)
      (A : Acts T.tally task access t task') : Reached agents (T.after agent access t task')

variable {agents : Nat} {T : Team}

theorem Reached.step (R : Reached agents T) (agent : Nat) (job : Job) :
    Reached agents (T.step agent job) := by
  unfold Team.step
  split
  · rename_i hstep
    obtain ⟨task, htask, hstep⟩ := Option.bind_eq_some_iff.1 hstep
    exact R.act htask (Task.acts_of_step hstep)
  · exact R

theorem Reached.run (R : Reached agents T) (schedule : List (Nat × Job)) :
    Reached agents (T.run schedule) := by
  induction schedule generalizing T with
  | nil => exact R
  | cons turn schedule ih => exact ih (R.step turn.1 turn.2)

/-- What holds between two accesses. -/
structure Balanced (T : Team) : Prop where
  toLoad_eq : T.tally.toLoad = T.log.countP (·.2 = .countQueued)
  size_eq : T.tally.fired.size = T.log.countP (·.2.isIssue)
  /-- The pictures without a ticket are those that an agent is just queueing. -/
  size_add : T.tally.fired.size + T.tasks.countP (· = .queueing) = T.tally.toLoad
  /-- The tickets fired and not counted are those that an agent is just completing. -/
  loaded_add : T.tally.loaded + T.tasks.countP Task.isCompleting = T.tally.firedCount
  isIssued_iff : ∀ k : Ticket,
    k.index < T.tally.fired.size ↔ ∃ agent, (agent, .issue k) ∈ T.log
  isComplete_eq : ∀ k, (T.tally.isComplete k).toNat = T.log.countP (·.2 = .fire k true)
  completing_add : ∀ k,
    T.log.countP (·.2.completed? = some (k, true)) + T.tasks.countP (· = .completing k) =
      (T.tally.isComplete k).toNat

theorem balanced_start (agents : Nat) : (start agents).Balanced where
  toLoad_eq := rfl
  size_eq := rfl
  size_add := by simp [start, List.countP_replicate]
  loaded_add := by simp [start, List.countP_replicate, Task.isCompleting, Tally.firedCount]
  isIssued_iff := by simp [start]
  isComplete_eq := by simp [start, Tally.isComplete]
  completing_add := by simp [start, List.countP_replicate, Tally.isComplete]

theorem Balanced.act (B : T.Balanced) {agent : Nat} {task task' : Task} {access : Access}
    {t : Tally} (htask : T.tasks[agent]? = some task) (A : Acts T.tally task access t task') :
    (T.after agent access t task').Balanced := by
  have hset := fun p => countP_set_add htask p task'
  have hlog : ∀ p : Nat × Access → Bool,
      (T.log ++ [(agent, access)]).countP p = T.log.countP p + (p (agent, access)).toNat := by
    intro p
    rw [List.countP_append, List.countP_singleton]
    cases p (agent, access) <;> rfl
  refine ⟨?_, ?_, ?_, ?_, fun k => ?_, fun k => ?_, fun k => ?_⟩
  · simp only [after, hlog, A.toLoad_eq, B.toLoad_eq]
  · simp only [after, hlog, A.size_eq, B.size_eq]
  · have h := hset (· = .queueing)
    have hq := A.queueing_eq
    have ht := A.toLoad_eq
    have hs := A.size_eq
    have hb := B.size_add
    simp only [after]
    omega
  · have h := hset Task.isCompleting
    have hl := A.loaded_add
    have hb := B.loaded_add
    simp only [after]
    omega
  · rw [after, A.isIssued_iff, B.isIssued_iff]
    simp [exists_or, eq_comm]
  · simp only [after, hlog, A.isComplete_eq, B.isComplete_eq]
  · have h := hset (· = .completing k)
    have hc := A.completing_eq k
    have hf := A.isComplete_eq k
    have hb := B.completing_add k
    simp only [after, hlog]
    omega

theorem Reached.balanced (R : Reached agents T) : T.Balanced := by
  induction R with
  | start => exact balanced_start agents
  | act _ htask A ih => exact ih.act htask A

/-! ### Operations that nobody disturbs -/

section Undisturbed

variable {agent : Nat} (h : T.tasks[agent]? = some .idle) (job : Job)
include h

omit h in
theorem run_pair (T : Team) (agent : Nat) (job job' : Job) :
    T.run [(agent, job), (agent, job')] = (T.step agent job).step agent job' := rfl

theorem after_after_idle (access access' : Access) (t t' : Tally) (task : Task) :
    (T.after agent access t task).after agent access' t' .idle =
      ⟨t', T.tasks, T.log ++ [(agent, access), (agent, access')]⟩ := by
  obtain ⟨hlt, hidle⟩ := List.getElem?_eq_some_iff.1 h
  simp [after, ← hidle]

theorem run_queue :
    T.run [(agent, .queue), (agent, job)] =
      { T with
        tally := T.tally.queue.2
        log := T.log ++ [(agent, .countQueued), (agent, .issue T.tally.queue.1)] } := by
  have hfirst : T.step agent .queue = T.after agent .countQueued T.tally.countQueued .queueing :=
    step_eq_after h rfl
  have hnext := getElem?_after h .countQueued T.tally.countQueued .queueing
  rw [run_pair, hfirst, step_eq_after hnext rfl, after_after_idle h]
  rfl

theorem run_progress :
    T.run [(agent, .progress), (agent, job)] =
      { T with
        log := T.log ++
          [(agent, .readLoaded T.tally.loaded), (agent, .readToLoad T.tally.progress)] } := by
  have hfirst : T.step agent .progress =
      T.after agent (.readLoaded T.tally.loaded) T.tally (.reading T.tally.loaded) :=
    step_eq_after h rfl
  have hnext := getElem?_after h (.readLoaded T.tally.loaded) T.tally (.reading T.tally.loaded)
  rw [run_pair, hfirst, step_eq_after hnext rfl, after_after_idle h]
  rfl

/-- A completion that counts takes two accesses and ends with the second. -/
theorem run_complete_first {k : Ticket} (hk : (T.tally.complete k).1 = true) :
    T.run [(agent, .complete k), (agent, job)] =
      { T with
        tally := (T.tally.complete k).2
        log := T.log ++ [(agent, .fire k true), (agent, .countLoaded k)] } := by
  have hissued : k.index < T.tally.fired.size := by
    rw [Tally.complete_fst, Bool.and_eq_true, decide_eq_true_eq] at hk
    exact hk.1
  have hfire : T.tally.fire k = (true, (T.tally.fire k).2) :=
    Prod.ext ((T.tally.complete_fst k).symm.trans hk) rfl
  have hcomplete : (T.tally.complete k).2 = (T.tally.fire k).2.countLoaded := by
    rw [Tally.complete, hfire]
  have hfirst : T.step agent (.complete k) =
      T.after agent (.fire k true) (T.tally.fire k).2 (.completing k) := by
    refine step_eq_after h ?_
    rw [Task.step, if_pos hissued, hfire]
    rfl
  have hnext := getElem?_after h (.fire k true) (T.tally.fire k).2 (.completing k)
  rw [run_pair, hfirst, step_eq_after hnext rfl, after_after_idle h, hcomplete]
  rfl

/-- A completion that does not count ends with its first access. -/
theorem run_complete_again {k : Ticket} (hissued : k.index < T.tally.fired.size)
    (hk : (T.tally.complete k).1 = false) :
    T.run [(agent, .complete k)] =
      { T with
        tally := (T.tally.complete k).2
        log := T.log ++ [(agent, .fire k false)] } := by
  have hfire : T.tally.fire k = (false, (T.tally.fire k).2) :=
    Prod.ext ((T.tally.complete_fst k).symm.trans hk) rfl
  have hcomplete : (T.tally.complete k).2 = (T.tally.fire k).2 := by
    rw [Tally.complete, hfire]
  have hstep : T.run [(agent, .complete k)] =
      T.after agent (.fire k false) (T.tally.fire k).2 .idle := by
    refine step_eq_after h ?_
    rw [Task.step, if_pos hissued, hfire]
    rfl
  obtain ⟨hlt, hidle⟩ := List.getElem?_eq_some_iff.1 h
  rw [hstep, hcomplete, after, ← hidle, List.set_getElem_self]

end Undisturbed

/-! ### The accesses one by one -/

/-- Every access in the log was made by a team that had come there. -/
theorem Reached.exists_of_log (R : Reached agents T) {g rest : List (Nat × Access)} {agent : Nat}
    {access : Access} (h : T.log = g ++ (agent, access) :: rest) :
    ∃ T₀ task t task', Reached agents T₀ ∧ T₀.log = g ∧ T₀.tasks[agent]? = some task ∧
      Acts T₀.tally task access t task' := by
  induction R generalizing rest with
  | start => simp [Team.start] at h
  | @act T agent' task task' access' t R htask A ih =>
    replace h : T.log ++ [(agent', access')] = g ++ (agent, access) :: rest := h
    rcases List.eq_nil_or_concat rest with rfl | ⟨rest, last, rfl⟩
    · obtain ⟨hlog, hlast⟩ := List.append_inj' h rfl
      obtain ⟨rfl, rfl⟩ : agent' = agent ∧ access' = access := by simpa using hlast
      exact ⟨T, task, t, task', R, hlog, htask, A⟩
    · rw [List.concat_eq_append, ← List.cons_append, ← List.append_assoc] at h
      exact ih (List.append_inj' h rfl).1

/-- An agent in the middle of a snapshot read the number of pictures loaded, and made no access
since. -/
theorem Reached.exists_of_reading (R : Reached agents T) {agent n : Nat}
    (h : T.tasks[agent]? = some (.reading n)) :
    ∃ T₀ between, Reached agents T₀ ∧ T.log = T₀.log ++ (agent, .readLoaded n) :: between ∧
      (∀ access, (agent, access) ∉ between) ∧ n = T₀.tally.loaded := by
  induction R with
  | start =>
    have htask := List.mem_of_getElem? h
    cases List.eq_of_mem_replicate htask
  | @act T agent' task task' access' t R htask A ih =>
    obtain ⟨hlt, -⟩ := List.getElem?_eq_some_iff.1 htask
    by_cases hagent : agent' = agent
    · subst hagent
      obtain rfl : task' = .reading n := by simpa [after, hlt] using h
      cases A
      exact ⟨T, [], R, rfl, by simp, rfl⟩
    · rw [after, List.getElem?_set_ne hagent] at h
      obtain ⟨T₀, between, R₀, hlog, hnone, hn⟩ := ih h
      refine ⟨T₀, between ++ [(agent', access')], R₀, ?_, fun access hmem => ?_, hn⟩
      · simp [after, hlog]
      · rcases List.mem_append.1 hmem with hmem | hmem
        · exact hnone access hmem
        · exact hagent (by simpa using (congrArg Prod.fst (List.mem_singleton.1 hmem)).symm)

/-- Everything that was queued is fired, and no agent is just queueing. -/
def IsDone (log : List (Nat × Access)) : Prop :=
  (∀ k, (∃ agent, (agent, .issue k) ∈ log) → ∃ agent, (agent, .fire k true) ∈ log) ∧
    log.countP (·.2.isIssue) = log.countP (·.2 = .countQueued)

theorem Balanced.loaded_le (B : T.Balanced) :
    T.tally.loaded ≤ T.tally.firedCount ∧ T.tally.firedCount ≤ T.tally.fired.size ∧
      T.tally.fired.size ≤ T.tally.toLoad := by
  have hfired := T.tally.firedCount_le
  have hloaded := B.loaded_add
  have hsize := B.size_add
  omega

theorem Balanced.isComplete_iff (B : T.Balanced) (k : Ticket) :
    T.tally.isComplete k = true ↔ ∃ agent, (agent, .fire k true) ∈ T.log := by
  have h := B.isComplete_eq k
  constructor
  · intro hk
    have hpos : 0 < T.log.countP (·.2 = .fire k true) := by
      rw [← h, hk]
      decide
    obtain ⟨⟨agent, access⟩, hmem, haccess⟩ := List.countP_pos_iff.1 hpos
    obtain rfl : access = .fire k true := of_decide_eq_true haccess
    exact ⟨agent, hmem⟩
  · rintro ⟨agent, hmem⟩
    have hpos : 0 < T.log.countP (·.2 = .fire k true) :=
      List.countP_pos_iff.2 ⟨_, hmem, decide_eq_true rfl⟩
    cases hk : T.tally.isComplete k with
    | true => rfl
    | false =>
      rw [hk, Bool.toNat_false] at h
      omega

/-- While as many pictures are counted as loaded as are to load, everything is fired. -/
theorem Balanced.isDone (B : T.Balanced) (h : T.tally.toLoad ≤ T.tally.loaded) :
    IsDone T.log := by
  obtain ⟨hloaded, hfired, hsize⟩ := B.loaded_le
  refine ⟨fun k hk => ?_, ?_⟩
  · have hall : T.tally.firedCount = T.tally.fired.size := by omega
    exact (B.isComplete_iff k).1 (Tally.isComplete_of_firedCount hall ((B.isIssued_iff k).2 hk))
  · rw [← B.size_eq, ← B.toLoad_eq]
    omega

/-- What the snapshots and the completions in the log of a team say is true of its tally. -/
structure Coherent (T : Team) : Prop where
  /-- A snapshot begins with a read of the pictures loaded, by the same agent, which makes no other
  access before it reads the pictures to load. It never shows more pictures loaded than to load, and
  if it is settled, everything queued when it began was fired by then. -/
  snapshot : ∀ g agent p rest, T.log = g ++ (agent, .readToLoad p) :: rest →
    ∃ before between, g = before ++ (agent, .readLoaded p.loaded) :: between ∧
      (∀ access, (agent, access) ∉ between) ∧ p.loaded ≤ p.toLoad ∧
        (p.isSettled = true → IsDone before)
  /-- Of all completions of a ticket at most one counts. -/
  once : ∀ k, T.log.countP (·.2.completed? = some (k, true)) ≤ 1
  /-- While no agent is just completing, there are as many pictures loaded as tickets fired. -/
  loaded_eq : (∀ task ∈ T.tasks, task.isCompleting = false) → T.tally.loaded = T.tally.firedCount
  /-- The tickets fired are those that some agent fired first. -/
  isComplete_iff : ∀ k,
    T.tally.isComplete k = true ↔ ∃ agent, (agent, .fire k true) ∈ T.log

theorem Reached.coherent (R : Reached agents T) : T.Coherent where
  snapshot g agent p rest h := by
    obtain ⟨T₂, task, t, task', R₂, rfl, htask, A⟩ := R.exists_of_log h
    cases A with
    | readToLoad n =>
      obtain ⟨T₁, between, R₁, hlog, hnone, rfl⟩ := R₂.exists_of_reading htask
      obtain ⟨hloaded, hfired, hsize⟩ := R₁.balanced.loaded_le
      -- pictures may have been queued since, but none is taken back
      have hgrow : T₁.tally.toLoad ≤ T₂.tally.toLoad := by
        rw [R₁.balanced.toLoad_eq, R₂.balanced.toLoad_eq, hlog, List.countP_append]
        exact Nat.le_add_right _ _
      refine ⟨T₁.log, between, hlog, hnone, ?_, fun hsettled => R₁.balanced.isDone ?_⟩
      · show T₁.tally.loaded ≤ T₂.tally.toLoad
        omega
      · have hle : T₂.tally.toLoad ≤ T₁.tally.loaded := of_decide_eq_true hsettled
        omega
  once k := by
    have h := R.balanced.completing_add k
    have hone := Bool.toNat_le (T.tally.isComplete k)
    omega
  loaded_eq hidle := by
    have hnone : T.tasks.countP Task.isCompleting = 0 := by
      rw [List.countP_eq_zero]
      intro task htask
      simp [hidle task htask]
    have h := R.balanced.loaded_add
    omega
  isComplete_iff := R.balanced.isComplete_iff

/-- For every number of agents and every schedule: what the snapshots and the completions in the log
say is true of the tally. -/
theorem run_coherent (agents : Nat) (schedule : List (Nat × Job)) :
    ((start agents).run schedule).Coherent :=
  (Reached.start.run schedule).coherent

/-- One agent takes a snapshot while the other queues a picture and completes it, and both complete
it once more. The snapshot shows no picture loaded, but it is not settled. -/
theorem run_coherent_between :
    let schedule : List (Nat × Job) :=
      [(0, .progress), (1, .queue), (1, .queue), (1, .complete ⟨0⟩), (1, .queue), (0, .progress),
        (0, .complete ⟨0⟩), (1, .complete ⟨0⟩), (0, .progress), (0, .progress)]
    let T := (start 2).run schedule
    T.log.filterMap (fun s => s.2.completed?) =
        [(⟨0⟩, true), (⟨0⟩, false), (⟨0⟩, false)] ∧
      T.log.countP (·.2.completed? = some (⟨0⟩, true)) ≤ 1 ∧
      (0, .readToLoad ⟨0, 1⟩) ∈ T.log ∧
      T.log.getLast? = some (0, .readToLoad ⟨1, 1⟩) ∧
      (∃ before between, T.log.dropLast = before ++ (0, .readLoaded 1) :: between ∧
        IsDone before) ∧
      T.tally.loaded = T.tally.firedCount := by
  intro schedule T
  have C : T.Coherent := run_coherent 2 schedule
  have hlog : T.log = T.log.dropLast ++ (0, .readToLoad ⟨1, 1⟩) :: [] := by decide +kernel
  obtain ⟨before, between, hlast, -, -, hdone⟩ := C.snapshot _ _ _ _ hlog
  have hloaded := C.loaded_eq (by decide +kernel)
  refine ⟨by decide +kernel, C.once ⟨0⟩, by decide +kernel, by decide +kernel, ?_, hloaded⟩
  exact ⟨before, between, hlast, hdone rfl⟩

end Team

end TileCatalog
