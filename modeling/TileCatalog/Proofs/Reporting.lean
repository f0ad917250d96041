import Mathlib.Data.List.Chain
import Mathlib.Order.Basic
import TileCatalog.Proofs.Conservation

/-!
# Progress reports

An application remembers the progress that it reported last, and reports only while that is wanted.
What it remembers is what the last report in its log shows (`App.Reports`): nothing but a report
changes either, however long reporting is off and whatever becomes of the catalog meanwhile. So each
report differs from the one before it, and between resets the reports increase, as the counts do
(`App.Climbs`).

What a report says rests on the past of the catalog alone, and not on its source
(`Past.progress_le`, `Past.text_progress`).

A `Game` is an application whose catalog is also worked on from a console, so that every operation
on the catalog may come between two updates.
-/

namespace TileCatalog

/-! ### Progress -/

/-- Progress is compared count by count. -/
instance : PartialOrder Progress where
  le p q := p.loaded ≤ q.loaded ∧ p.toLoad ≤ q.toLoad
  le_refl _ := ⟨Nat.le_refl _, Nat.le_refl _⟩
  le_trans _ _ _ h h' := ⟨Nat.le_trans h.1 h'.1, Nat.le_trans h.2 h'.2⟩
  le_antisymm p q h h' := by
    cases p
    cases q
    exact congrArg₂ Progress.mk (Nat.le_antisymm h.1 h'.1) (Nat.le_antisymm h.2 h'.2)

theorem Catalog.progress_le_iff {c c' : Catalog} :
    c.progress ≤ c'.progress ↔
      c.tally.loaded ≤ c'.tally.loaded ∧ c.tally.toLoad ≤ c'.tally.toLoad :=
  .rfl

theorem Enqueues.progress_le {c c' : Catalog} {q : List (Image × Bool)} (hq : Enqueues c q c') :
    c.progress ≤ c'.progress := by
  induction hq with
  | nil => exact le_rfl
  | @cons c _ _ src asset ready _ ih =>
    have hl := c.loaded_enqueue src asset ready
    have ht := c.toLoad_enqueue src asset ready
    refine le_trans (Catalog.progress_le_iff.2 ?_) ih
    omega

/-- The counts grow with every deed but a reset of the catalog or of the counts. -/
theorem Does.progress_le {c c' : Catalog} {d : Deed} (D : Does c d c') (hc : d ≠ .cleared)
    (hz : d ≠ .zeroed) : c.progress ≤ c'.progress := by
  cases D with
  | @register c' t e ready _ _ hq =>
    have h := hq.progress_le
    rwa [Catalog.progress, Catalog.tally_receive] at h
  | hear event =>
    have hl : (c.notify event).2.tally.loaded = c.tally.loaded + (c.notify event).1 :=
      Catalog.loaded_announce event c.awaiting c.tally
    have ht : (c.notify event).2.tally.toLoad = c.tally.toLoad :=
      Catalog.toLoad_announce event c.awaiting c.tally
    rw [Catalog.progress_le_iff]
    omega
  | complete k =>
    have hl : (c.complete k).2.tally.loaded =
        c.tally.loaded + if (c.complete k).1 then 1 else 0 := c.tally.loaded_complete k
    have ht : (c.complete k).2.tally.toLoad = c.tally.toLoad := c.tally.toLoad_complete k
    rw [Catalog.progress_le_iff]
    omega
  | issue => exact Catalog.progress_le_iff.2 ⟨Nat.le_refl _, Nat.le_succ _⟩
  | zero => exact absurd rfl hz
  | clear => exact absurd rfl hc

/-- Neither the catalog nor its counts are reset. -/
def History.IsSteady (h : History) : Prop := ∀ d ∈ h, d ≠ .cleared ∧ d ≠ .zeroed

theorem Past.progress_le {h k : History} {c c' : Catalog} (H : Past h c) (H' : Past (h ++ k) c')
    (hk : k.IsSteady) : c.progress ≤ c'.progress := by
  induction k using List.reverseRecOn generalizing c' with
  | nil =>
    rw [List.append_nil] at H'
    rw [H.unique H']
  | append_singleton k d ih =>
    rw [← List.append_assoc] at H'
    generalize hall : h ++ k ++ [d] = l at H'
    cases H' with
    | start => simp at hall
    | step H' D =>
      obtain ⟨rfl, hd⟩ := List.append_inj' hall rfl
      obtain rfl := List.singleton_inj.1 hd
      obtain ⟨hc, hz⟩ := hk d (by simp)
      exact (ih H' fun d' hd' => hk d' (List.mem_append_left _ hd')).trans (D.progress_le hc hz)

/-! ### The reports in a log -/

@[simp] def LogLine.progress? : LogLine → Option Progress
  | progress p => some p
  | _ => none

/-- For any catalog with an orderly past, over any source: a report of its progress says that all is
loaded if and only if no load is pending. -/
theorem Past.text_progress {h : History} {c : Catalog} (H : Past h c) (O : h.Orderly) :
    (LogLine.progress c.progress).text =
      if c.pendingLoads = 0 then s!"All tile images loaded ({c.progress.text})"
      else s!"Tile images loaded: {c.progress.text}" :=
  ite_congr (propext (H.conserved O).settled_iff) (fun _ => rfl) fun _ => rfl

namespace Session

variable {σ : Type}

def shown (s : Session σ) : List Progress := s.log.filterMap LogLine.progress?

@[simp] theorem shown_note (s : Session σ) (line : LogLine) :
    (s.note line).shown = s.shown ++ line.progress?.toList := by
  simp only [shown, note, List.filterMap_append]
  cases line <;> rfl

@[simp] theorem shown_hear (s : Session σ) (event : AssetEvent) :
    (s.hear event).shown = s.shown := by
  unfold hear
  dsimp only
  split
  · rfl
  · rw [shown_note]
    exact List.append_nil _

@[simp] theorem shown_hearAll (s : Session σ) (events : List AssetEvent) :
    (s.hearAll events).shown = s.shown := by
  induction events generalizing s with
  | nil => rfl
  | cons event events ih =>
    unfold hearAll
    split
    · exact ih s
    · rw [ih, shown_hear]

variable [ImageSource σ]

@[simp] theorem shown_register (s : Session σ) (t : TileSpec) :
    (s.register t).2.shown = s.shown := by
  cases ht : t.validName with
  | none => rw [register_nameless s ht]
  | some name =>
    rw [register_named s ht, shown, log_registerAs]
    cases s.catalog.contains name <;> simp [shown]

@[simp] theorem shown_registerAll (s : Session σ) (ts : List TileSpec) :
    (s.registerAll ts).2.shown = s.shown := by
  induction ts generalizing s with
  | nil => rfl
  | cons t ts ih =>
    cases ht : t.validName with
    | none => rw [registerAll_nameless s ht]
    | some name => rw [registerAll_named s ht, ih, shown_register]

@[simp] theorem shown_registerText (s : Session σ) (text : String) :
    (s.registerText text).2.shown = s.shown := by
  unfold registerText
  cases Manifest.ofText text with
  | error e => rfl
  | ok m => simp

@[simp] theorem shown_loadManifest (s : Session σ) (files : Files) (path : String) :
    (s.loadManifest files path).shown = s.shown := by
  unfold loadManifest
  split
  · simp
  · cases Manifest.load files path with
    | error e => simp
    | ok m =>
      have h : (s.registerManifest m).2.shown = s.shown := by simp
      dsimp only
      split <;> rename_i he <;> simpa [he] using h

end Session

theorem Console.shown_step {σ : Type} [ImageSource σ] (c : Console σ) (command : Command σ) :
    (c.step command).2.session.shown = c.session.shown := by
  cases command with
  | register t => exact c.session.shown_register t
  | registerAll ts => exact c.session.shown_registerAll ts
  | registerText text => exact c.session.shown_registerText text
  | complete name n =>
    simp only [step]
    split
    · rfl
    · split <;> rfl
  | hold name n =>
    simp only [step]
    split
    · rfl
    · split
      · rfl
      · split <;> rfl
  | completeHeld slot | showHeld slot =>
    simp only [step]
    split <;> rfl
  | _ => rfl

/-! ### Applications -/

namespace App

variable {a a' a'' : App}

def lastShown (a : App) : Progress := a.session.shown.getLastD {}

@[simp] theorem catalog_arrive (a : App) (src : String) : (a.arrive src).catalog = a.catalog := by
  unfold arrive
  split
  · rfl
  · split <;> rfl

/-- After the messages are read, an update leaves the catalog as it is. -/
@[simp] theorem catalog_update (a : App) : a.update.catalog = a.readInbox.catalog := by
  have hreport : a.readInbox.report.catalog = a.readInbox.catalog := by
    unfold report
    split <;> rfl
  exact hreport

theorem isSteady_updateDeeds (a : App) : a.updateDeeds.IsSteady := by
  intro d hd
  obtain ⟨event, -, rfl⟩ := Session.exists_of_mem_hearAllDeeds hd
  exact ⟨by simp, by simp⟩

/-- From one application to the other nothing is reported. -/
structure Quiet (a a' : App) : Prop where
  shown : a'.session.shown = a.session.shown
  reported : a'.reported = a.reported

theorem Quiet.trans (Q : a.Quiet a') (Q' : a'.Quiet a'') : a.Quiet a'' :=
  ⟨Q'.shown.trans Q.shown, Q'.reported.trans Q.reported⟩

theorem quiet_loadManifest (a : App) : a.Quiet a.loadManifest :=
  ⟨a.session.shown_loadManifest a.files a.config.manifestPath, rfl⟩

theorem quiet_spawnPalette (a : App) : a.Quiet a.spawnPalette := by
  have hnote : (a.session.note (.palette a.catalog.names.length)).shown = a.session.shown := by simp
  exact ⟨hnote, rfl⟩

theorem quiet_arrive (a : App) (src : String) : a.Quiet (a.arrive src) := by
  unfold arrive
  split
  · exact ⟨rfl, rfl⟩
  · split <;> exact ⟨rfl, rfl⟩

theorem quiet_perform {action : Action} (hu : action ≠ .update) (hl : ∀ src, action ≠ .load src) :
    a.Quiet (a.perform action).2 := by
  cases action with
  | update => exact absurd rfl hu
  | load src => exact absurd rfl (hl src)
  | startUp =>
    simp only [perform, startUp]
    exact a.quiet_loadManifest.trans a.loadManifest.quiet_spawnPalette
  | register t => exact ⟨a.session.shown_register t, rfl⟩
  | complete name n =>
    simp only [perform]
    split <;> exact ⟨rfl, rfl⟩
  | reload path content =>
    have hreplace : a.Quiet (a.replaceManifest path content) := ⟨rfl, rfl⟩
    simp only [perform]
    exact hreplace.trans (quiet_loadManifest _)
  | palette =>
    simp only [perform]
    exact a.quiet_spawnPalette
  | arrive src =>
    simp only [perform]
    exact a.quiet_arrive src
  | reset | post _ | setReporting _ => exact ⟨rfl, rfl⟩

theorem quiet_update (hoff : a.config.reportProgress = false) : a.Quiet a.update := by
  have hoff' : a.readInbox.config.reportProgress = false := hoff
  have hreport : a.readInbox.report = a.readInbox := by simp [report, hoff']
  have hshown : a.readInbox.report.session.shown = a.session.shown := by
    rw [hreport]
    exact a.session.shown_hearAll a.inbox
  have hkept : a.readInbox.report.reported = a.reported := by
    rw [hreport]
    rfl
  exact ⟨hshown, hkept⟩

/-- While reporting is on, an update reports the progress unless it is what is remembered. -/
theorem shown_update (hon : a.config.reportProgress = true) :
    a.update.session.shown =
        a.session.shown ++ (if a.readInbox.catalog.progress = a.reported then []
          else [a.readInbox.catalog.progress]) ∧
      a.update.reported = a.readInbox.catalog.progress := by
  have hread : a.readInbox.session.shown = a.session.shown := a.session.shown_hearAll a.inbox
  have hon' : a.readInbox.config.reportProgress = true := hon
  have hreported : a.readInbox.reported = a.reported := rfl
  have hshown : a.update.session.shown = a.readInbox.report.session.shown := rfl
  have hkept : a.update.reported = a.readInbox.report.reported := rfl
  rw [hshown, hkept, ← hread, ← hreported]
  by_cases hp : a.readInbox.catalog.progress = a.readInbox.reported
  · have hreport : a.readInbox.report = a.readInbox := by simp [report, hp]
    rw [hreport, if_pos hp, List.append_nil]
    exact ⟨rfl, hp.symm⟩
  · have hreport : a.readInbox.report =
        { a.readInbox with
          reported := a.readInbox.catalog.progress
          session := a.readInbox.session.note (.progress a.readInbox.catalog.progress) } := by
      simp [report, hp, hon']
    rw [hreport, if_neg hp]
    exact ⟨Session.shown_note _ _, rfl⟩

/-- What is remembered is what the last report shows, and no report repeats the one before it. -/
structure Reports (a : App) : Prop where
  reported_eq : a.reported = a.lastShown
  distinct : ({} :: a.session.shown).IsChain (· ≠ ·)

namespace Reports

theorem quiet (R : a.Reports) (Q : a.Quiet a') : a'.Reports := by
  obtain ⟨hr, hd⟩ := R
  refine ⟨?_, ?_⟩
  · rw [Q.reported, hr, lastShown, lastShown, Q.shown]
  · rw [Q.shown]
    exact hd

theorem update (R : a.Reports) : a.update.Reports := by
  cases hon : a.config.reportProgress with
  | false => exact R.quiet (quiet_update hon)
  | true =>
    obtain ⟨hshown, hkept⟩ := shown_update hon
    by_cases hp : a.readInbox.catalog.progress = a.reported
    · rw [if_pos hp, List.append_nil] at hshown
      exact R.quiet ⟨hshown, hkept.trans hp⟩
    · rw [if_neg hp] at hshown
      refine ⟨?_, ?_⟩
      · rw [hkept, lastShown, hshown, List.getLastD_concat]
      · rw [hshown, ← List.cons_append, List.isChain_append]
        refine ⟨R.distinct, .singleton _, ?_⟩
        rintro p hlast q hq rfl
        rw [List.getLast?_cons, Option.mem_some_iff] at hlast
        rw [List.head?_cons, Option.mem_some_iff] at hq
        have hkept : a.reported = a.session.shown.getLast?.getD {} :=
          R.reported_eq.trans (List.getLastD_eq_getLast? ..)
        exact hp (hq.trans (hlast.symm.trans hkept.symm))

end Reports

/-- After `old`, the reports in the log increase, and none of them is ahead of the catalog. -/
structure Climbs (a : App) (old new : List Progress) : Prop where
  shown_eq : a.session.shown = old ++ new
  increasing : new.Pairwise (· < ·)
  le_progress : ∀ p ∈ new, p ≤ a.catalog.progress

namespace Climbs

variable {old new : List Progress}

theorem quiet (C : a.Climbs old new) (Q : a.Quiet a')
    (hle : a.catalog.progress ≤ a'.catalog.progress) : a'.Climbs old new :=
  ⟨Q.shown.trans C.shown_eq, C.increasing, fun p hp => (C.le_progress p hp).trans hle⟩

theorem le_lastShown (C : a.Climbs old new) {p : Progress} (hp : p ∈ new) :
    p ≤ a.lastShown ∧ a.lastShown ≤ a.catalog.progress := by
  rcases List.eq_nil_or_concat new with rfl | ⟨init, last, rfl⟩
  · cases hp
  · have hlast : a.lastShown = last := by
      rw [lastShown, C.shown_eq, List.concat_eq_append, ← List.append_assoc, List.getLastD_concat]
    have hinc := C.increasing
    rw [List.concat_eq_append] at hinc hp
    rw [hlast]
    refine ⟨?_, C.le_progress last (by simp)⟩
    rcases List.mem_append.1 hp with hp | hp
    · exact le_of_lt ((List.pairwise_append.1 hinc).2.2 p hp last (List.mem_singleton_self _))
    · exact le_of_eq (List.mem_singleton.1 hp)

theorem update (C : a.Climbs old new) (R : a.Reports) {h : History} (H : Past h a.catalog) :
    ∃ new', a.update.Climbs old new' := by
  have hle : a.catalog.progress ≤ a.update.catalog.progress :=
    H.progress_le (a.proceeds_update.past H) a.isSteady_updateDeeds
  cases hon : a.config.reportProgress with
  | false => exact ⟨new, C.quiet (quiet_update hon) hle⟩
  | true =>
    obtain ⟨hshown, hkept⟩ := shown_update hon
    rw [catalog_update] at hle
    by_cases hp : a.readInbox.catalog.progress = a.reported
    · rw [if_pos hp, List.append_nil] at hshown
      exact ⟨new, C.quiet ⟨hshown, hkept.trans hp⟩ (by rwa [catalog_update])⟩
    · rw [if_neg hp, C.shown_eq, List.append_assoc] at hshown
      refine ⟨new ++ [a.readInbox.catalog.progress], hshown, ?_, ?_⟩
      · refine List.pairwise_append.2 ⟨C.increasing, List.pairwise_singleton _ _, ?_⟩
        rintro p hpn q hq
        obtain ⟨hplast, hlast⟩ := C.le_lastShown hpn
        rw [List.mem_singleton.1 hq]
        refine lt_of_le_of_lt hplast (lt_of_le_of_ne (hlast.trans hle) fun h => ?_)
        exact hp (h.symm.trans R.reported_eq.symm)
      · intro p hpn
        rw [catalog_update]
        rcases List.mem_append.1 hpn with hpn | hpn
        · exact (C.le_progress p hpn).trans hle
        · exact le_of_eq (List.mem_singleton.1 hpn)

end Climbs

end App

/-! ### Games -/

/-- An application, and what the rest of the game keeps of its catalog, on which it works as a
console does. -/
structure Game where
  app : App
  kept : List Held := []

namespace Game

inductive Turn where
  | act (action : App.Action)
  | command (command : Console.Command Depot)

def start (config : Config) (files : Files) (pictures : List String) : Game :=
  { app := App.idle config files pictures }

def console (g : Game) : Console Depot := { session := g.app.session, slots := g.kept }

def step (g : Game) : Turn → Game
  | .act action => { g with app := (g.app.perform action).2 }
  | .command command =>
    let c := (g.console.step command).2
    { app := { g.app with session := c.session }, kept := c.slots }

def run (g : Game) (turns : List Turn) : Game := turns.foldl step g

def deeds (g : Game) : Turn → History
  | .act action => g.app.deeds action
  | .command command => g.console.deeds command

def history (g : Game) : List Turn → History
  | [] => []
  | turn :: turns => g.deeds turn ++ (g.step turn).history turns

variable {g : Game} {h : History}

theorem past_step (H : Past h g.app.catalog) (turn : Turn) :
    Past (h ++ g.deeds turn) (g.step turn).app.catalog := by
  cases turn with
  | act action => exact (g.app.proceeds_perform action).past H
  | command command => exact Console.past_step (c := g.console) H command

theorem past_run (H : Past h g.app.catalog) (turns : List Turn) :
    Past (h ++ g.history turns) (g.run turns).app.catalog := by
  induction turns generalizing g h with
  | nil => simpa [history, run] using H
  | cons turn turns ih =>
    rw [history, ← List.append_assoc]
    exact ih (past_step H turn)

theorem step_load (g : Game) (src : String) :
    g.step (.act (.load src)) = g.run [.act .update, .act (.arrive src), .act .update] := by
  simp only [run, List.foldl_cons, List.foldl_nil, step, App.perform, App.load]

theorem quiet_step {turn : Turn} (hu : turn ≠ .act .update) (hl : ∀ src, turn ≠ .act (.load src)) :
    g.app.Quiet (g.step turn).app := by
  cases turn with
  | act action => exact App.quiet_perform (fun h => hu (h ▸ rfl)) fun src h => hl src (h ▸ rfl)
  | command command => exact ⟨g.console.shown_step command, rfl⟩

theorem reports_step (R : g.app.Reports) (turn : Turn) : (g.step turn).app.Reports := by
  by_cases hu : turn = .act .update
  · subst hu
    exact R.update
  · by_cases hl : ∃ src, turn = .act (.load src)
    · obtain ⟨src, rfl⟩ := hl
      exact (R.update.quiet (App.quiet_arrive _ src)).update
    · exact R.quiet (quiet_step hu fun src h => hl ⟨src, h⟩)

theorem reports_run (R : g.app.Reports) (turns : List Turn) : (g.run turns).app.Reports := by
  induction turns generalizing g with
  | nil => exact R
  | cons turn turns ih => exact ih (reports_step R turn)

theorem climbs_step {old new : List Progress} (C : g.app.Climbs old new) (R : g.app.Reports)
    (H : Past h g.app.catalog) {turn : Turn} (hs : (g.deeds turn).IsSteady) :
    ∃ new', (g.step turn).app.Climbs old new' := by
  by_cases hu : turn = .act .update
  · subst hu
    exact C.update R H
  · by_cases hl : ∃ src, turn = .act (.load src)
    · obtain ⟨src, rfl⟩ := hl
      obtain ⟨new', C'⟩ := C.update R H
      have Q := g.app.update.quiet_arrive src
      have hsame := g.app.update.catalog_arrive src
      have H' : Past (h ++ g.app.updateDeeds) (g.app.update.arrive src).catalog :=
        (g.app.proceeds_update.idle (g.app.update.proceeds_arrive src)).past H
      exact (C'.quiet Q (by rw [hsame])).update (R.update.quiet Q) H'
    · exact ⟨new, C.quiet (quiet_step hu fun src h => hl ⟨src, h⟩)
        (H.progress_le (past_step H turn) hs)⟩

theorem climbs_run {old new : List Progress} (C : g.app.Climbs old new) (R : g.app.Reports)
    (H : Past h g.app.catalog) {turns : List Turn} (hs : (g.history turns).IsSteady) :
    ∃ new', (g.run turns).app.Climbs old new' := by
  induction turns generalizing g h new with
  | nil => exact ⟨new, C⟩
  | cons turn turns ih =>
    have hsteady : (g.deeds turn).IsSteady := fun d hd => hs d (List.mem_append_left _ hd)
    obtain ⟨new', C'⟩ := climbs_step C R H hsteady
    exact ih C' (reports_step R turn) (past_step H turn) fun d hd =>
      hs d (List.mem_append_right _ hd)

/-- The turn leaves the counts to the catalog, and completes nothing that was kept. -/
def Turn.IsPlain : Turn → Prop
  | .command .queue | .command .resetTally | .command (.completeHeld _) => False
  | _ => True

theorem orderly_step (H : Past h g.app.catalog) (O : h.Orderly) {turn : Turn} (hp : turn.IsPlain) :
    History.Orderly (h ++ g.deeds turn) := by
  cases turn with
  | act action => exact (g.app.proceeds_perform action).orderly H O
  | command command =>
    -- as if a reset had just been made
    have C : g.console.Careful g.kept.length [command] := by
      cases command with
      | queue | resetTally | completeHeld => exact hp.elim
      | _ => trivial
    have K : g.console.Current g.kept.length h := by
      intro slot held hle hslot
      rw [List.getElem?_eq_none (l := g.console.slots) hle] at hslot
      cases hslot
    obtain ⟨_, O', -⟩ := C.step H O K
    exact O'

theorem orderly_history (H : Past h g.app.catalog) (O : h.Orderly) {turns : List Turn}
    (hp : ∀ turn ∈ turns, turn.IsPlain) : History.Orderly (h ++ g.history turns) := by
  induction turns generalizing g h with
  | nil => simpa [history] using O
  | cons turn turns ih =>
    rw [history, ← List.append_assoc]
    exact ih (past_step H turn) (orderly_step H O (hp turn List.mem_cons_self)) fun turn' ht =>
      hp turn' (List.mem_cons_of_mem _ ht)

/-- What the reports in the log of a game tell of its catalog, which has the past `h`. -/
structure Accurate (g : Game) (h : History) : Prop where
  /-- While reporting is off, an update reports nothing. -/
  off : g.app.config.reportProgress = false → g.app.update.session.shown = g.app.session.shown
  /-- While reporting is on, an update reports the progress that it finds when the messages are
  read, once, and only if the last report does not show it already. -/
  on : g.app.config.reportProgress = true →
    g.app.update.session.shown = g.app.session.shown ++
      if g.app.readInbox.catalog.progress = g.app.lastShown then []
      else [g.app.readInbox.catalog.progress]
  /-- While reporting is on, the last report shows the progress as it is after an update. -/
  current : g.app.config.reportProgress = true →
    g.app.update.lastShown = g.app.update.catalog.progress
  /-- To load a picture is to let it arrive between two updates. -/
  load : ∀ src, g.step (.act (.load src)) =
    g.run [.act .update, .act (.arrive src), .act .update]
  /-- A turn that neither updates nor loads a picture reports nothing. -/
  quiet : ∀ turn, turn ≠ .act .update → (∀ src, turn ≠ .act (.load src)) →
    (g.step turn).app.session.shown = g.app.session.shown
  /-- No report repeats the one before it, and the first does not show the start. -/
  distinct : ({} :: g.app.session.shown).IsChain (· ≠ ·)
  /-- While neither the catalog nor its counts are reset, the reports increase. -/
  increasing : ∀ turns, (g.history turns).IsSteady →
    ∃ new, (g.run turns).app.session.shown = g.app.session.shown ++ new ∧ new.Pairwise (· < ·)
  /-- The report says that all is loaded if and only if no load is pending. -/
  wording : h.Orderly →
    (LogLine.progress g.app.readInbox.catalog.progress).text =
      if g.app.readInbox.catalog.pendingLoads = 0 then
        s!"All tile images loaded ({g.app.readInbox.catalog.progress.text})"
      else s!"Tile images loaded: {g.app.readInbox.catalog.progress.text}"

/-- The reports are accurate whatever the files and the source hold, as long as the catalog has a
past and what is remembered is what the last report shows. -/
theorem Accurate.of_reports (H : Past h g.app.catalog) (R : g.app.Reports) : g.Accurate h where
  off hoff := (App.quiet_update hoff).shown
  on hon := by
    rw [← R.reported_eq]
    exact (App.shown_update hon).1
  current hon := by
    rw [← R.update.reported_eq, (App.shown_update hon).2, App.catalog_update]
  load := g.step_load
  quiet turn hu hl := (quiet_step hu hl).shown
  distinct := R.distinct
  increasing turns hs := by
    have C : g.app.Climbs g.app.session.shown [] := ⟨(List.append_nil _).symm, .nil, by simp⟩
    obtain ⟨new, C'⟩ := climbs_run C R H hs
    exact ⟨new, C'.shown_eq, C'.increasing⟩
  wording O := Past.text_progress (g.app.proceeds_readInbox.past H)
    (g.app.proceeds_readInbox.orderly H O)

/-- For every run of a game, with any operation on the catalog between two updates: the reports in
the log are accurate. The wording supposes that the counts are left to the catalog and that nothing
kept from before a reset is completed after it, which is so if nothing kept is completed at all. -/
theorem progress_reported (config : Config) (files : Files) (pictures : List String)
    (turns : List Turn) :
    ((start config files pictures).run turns).Accurate
        ((start config files pictures).history turns) ∧
      ((∀ turn ∈ turns, turn.IsPlain) → ((start config files pictures).history turns).Orderly) := by
  have hstart : Past [] (start config files pictures).app.catalog := .start
  have H : Past ((start config files pictures).history turns)
      ((start config files pictures).run turns).app.catalog := by
    simpa using past_run hstart turns
  have R : ((start config files pictures).run turns).app.Reports :=
    reports_run ⟨rfl, .singleton _⟩ turns
  refine ⟨.of_reports H R, fun hp => ?_⟩
  simpa using orderly_history hstart History.orderly_nil hp

/-- A picture arrives and its message is read while reporting is off. The next update after it is on
again reports it, although it is not that update which loads it. -/
theorem progress_reported_toggled :
    let wall : TileSpec := .named "wall" "wall.png"
    let turns : List Turn :=
      [.command (.register wall), .act .update, .act (.setReporting false),
        .act (.arrive "wall.png"), .act .update, .act (.setReporting true)]
    let g := (start {} {} ["wall.png"]).run turns
    (∀ turn ∈ turns, turn.IsPlain) ∧ g.app.config.reportProgress = true ∧
      g.app.session.shown = [⟨0, 1⟩] ∧ g.app.update.session.shown = [⟨0, 1⟩, ⟨1, 1⟩] ∧
      (LogLine.progress g.app.readInbox.catalog.progress).text =
        "All tile images loaded (1/1)" := by
  intro wall turns g
  have hplain : ∀ turn ∈ turns, turn.IsPlain := by simp [turns, Turn.IsPlain]
  have hon : g.app.config.reportProgress = true := by decide +kernel
  have hshown : g.app.session.shown = [⟨0, 1⟩] := by decide +kernel
  obtain ⟨A, O⟩ := progress_reported {} {} ["wall.png"] turns
  have hreport : g.app.update.session.shown = [⟨0, 1⟩, ⟨1, 1⟩] := by
    rw [A.on hon]
    decide +kernel
  have htext : (LogLine.progress g.app.readInbox.catalog.progress).text =
      "All tile images loaded (1/1)" := by
    rw [A.wording (O hplain)]
    decide +kernel
  exact ⟨hplain, hon, hshown, hreport, htext⟩

end Game

end TileCatalog
