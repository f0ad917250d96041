import TileCatalog.Asset.Gallery
import TileCatalog.Proofs.Outstanding
import TileCatalog.Proofs.Runs

/-!
# Events in any order

Each event of a batch shortens the waiting list that the next one is matched with, but only by loads
that are complete. So a batch completes the waiting loads that any of its events announces, each
once (`Keeps.isComplete_notifyAll_iff`, `Keeps.notifyAll_fst`), and neither the order of the events
nor their repetitions can be told afterwards.
-/

namespace TileCatalog

attribute [ext] Catalog

namespace Catalog

/-- Takes note of events in order; how many pictures were newly counted as loaded. -/
def notifyAll (c : Catalog) : List AssetEvent → Nat × Catalog
  | [] => (0, c)
  | event :: events =>
    let (n, c) := c.notify event
    let (m, c) := c.notifyAll events
    (n + m, c)

section notifyAll

variable (c : Catalog) (event : AssetEvent) (events : List AssetEvent)

theorem notifyAll_cons_fst :
    (c.notifyAll (event :: events)).1 =
      (c.notify event).1 + ((c.notify event).2.notifyAll events).1 := rfl

theorem notifyAll_cons_snd :
    (c.notifyAll (event :: events)).2 = ((c.notify event).2.notifyAll events).2 := rfl

@[simp] theorem names_notifyAll : (c.notifyAll events).2.names = c.names := by
  induction events generalizing c with
  | nil => rfl
  | cons event events ih => exact ih (c.notify event).2

@[simp] theorem records_notifyAll : (c.notifyAll events).2.records = c.records := by
  induction events generalizing c with
  | nil => rfl
  | cons event events ih => exact ih (c.notify event).2

@[simp] theorem size_fired_notifyAll :
    (c.notifyAll events).2.tally.fired.size = c.tally.fired.size := by
  induction events generalizing c with
  | nil => rfl
  | cons event events ih =>
    exact (ih (c.notify event).2).trans (size_fired_announce event c.awaiting c.tally)

@[simp] theorem toLoad_notifyAll : (c.notifyAll events).2.tally.toLoad = c.tally.toLoad := by
  induction events generalizing c with
  | nil => rfl
  | cons event events ih =>
    exact (ih (c.notify event).2).trans (toLoad_announce event c.awaiting c.tally)

theorem loaded_notifyAll :
    (c.notifyAll events).2.tally.loaded = c.tally.loaded + (c.notifyAll events).1 := by
  induction events generalizing c with
  | nil => rfl
  | cons event events ih =>
    have h : (c.notify event).2.tally.loaded = c.tally.loaded + (c.notify event).1 :=
      loaded_announce event c.awaiting c.tally
    rw [notifyAll_cons_fst, notifyAll_cons_snd, ih, h, Nat.add_assoc]

theorem isComplete_notify (k : Ticket) :
    (c.notify event).2.tally.isComplete k =
      (c.tally.isComplete k || (decide (k.index < c.tally.fired.size) &&
        c.awaiting.any fun w => event.announces w.1 && decide (w.2 = k))) :=
  isComplete_announce event c.awaiting c.tally k

theorem isComplete_notifyAll_of_isComplete {k : Ticket} (hk : c.tally.isComplete k = true) :
    (c.notifyAll events).2.tally.isComplete k = true := by
  induction events generalizing c with
  | nil => exact hk
  | cons event events ih =>
    refine ih (c.notify event).2 ?_
    rw [isComplete_notify, hk, Bool.true_or]

/-- However many events there are, the waiting list is pruned once. -/
theorem awaiting_notifyAll (hne : events ≠ []) :
    (c.notifyAll events).2.awaiting =
      c.awaiting.filter fun w => !(c.notifyAll events).2.tally.isComplete w.2 := by
  induction events generalizing c with
  | nil => exact absurd rfl hne
  | cons event events ih =>
    rw [notifyAll_cons_snd]
    by_cases hev : events = []
    · subst hev
      exact awaiting_notify c event
    · -- what the first event prunes is complete after the others
      rw [ih _ hev, awaiting_notify]
      exact Tally.filter_filter_of_mono
        (fun k hk => isComplete_notifyAll_of_isComplete _ events hk) (·.2) c.awaiting

end notifyAll

namespace Keeps

variable {c : Catalog} {all current : List Image} {events events' : List AssetEvent}

theorem isComplete_notify_iff (H : c.Keeps all current) (event : AssetEvent) (k : Ticket) :
    (c.notify event).2.tally.isComplete k = true ↔
      c.tally.isComplete k = true ∨ ∃ w ∈ c.awaiting, w.2 = k ∧ event.announces w.1 = true := by
  rw [isComplete_notify, Bool.or_eq_true, Bool.and_eq_true, List.any_eq_true, decide_eq_true_eq]
  refine or_congr_right ⟨?_, ?_⟩
  · rintro ⟨-, w, hw, h⟩
    rw [Bool.and_eq_true, decide_eq_true_eq] at h
    exact ⟨w, hw, h.2, h.1⟩
  · rintro ⟨w, hw, rfl, hann⟩
    exact ⟨H.ticket_lt hw, w, hw, by simp [hann]⟩

theorem isComplete_notifyAll_iff (H : c.Keeps all current) (events : List AssetEvent)
    (k : Ticket) :
    (c.notifyAll events).2.tally.isComplete k = true ↔
      c.tally.isComplete k = true ∨
        ∃ w ∈ c.awaiting, w.2 = k ∧ events.any (·.announces w.1) = true := by
  induction events generalizing c with
  | nil => simp [Catalog.notifyAll]
  | cons event events ih =>
    rw [notifyAll_cons_snd, ih (H.notify event), H.isComplete_notify_iff, awaiting_notify]
    constructor
    · rintro ((h | ⟨w, hw, hk, hann⟩) | ⟨w, hw, hk, hann⟩)
      · exact .inl h
      · exact .inr ⟨w, hw, hk, by simp [hann]⟩
      · exact .inr ⟨w, List.mem_of_mem_filter hw, hk, by simp [hann]⟩
    · rintro (h | ⟨w, hw, hk, hann⟩)
      · exact .inl (.inl h)
      · rw [List.any_cons, Bool.or_eq_true] at hann
        rcases hann with hann | hann
        · exact .inl (.inr ⟨w, hw, hk, hann⟩)
        · -- a load that no longer waits was completed by the first event
          by_cases hc : (c.notify event).2.tally.isComplete w.2 = true
          · rw [hk] at hc
            exact .inl ((H.isComplete_notify_iff event k).1 hc)
          · exact .inr ⟨w, List.mem_filter.2 ⟨hw, by simpa using hc⟩, hk, hann⟩

theorem isComplete_notifyAll_of_mem (H : c.Keeps all current) (events : List AssetEvent)
    {w : AssetId × Ticket} (hw : w ∈ c.awaiting) :
    (c.notifyAll events).2.tally.isComplete w.2 =
      (c.tally.isComplete w.2 || events.any (·.announces w.1)) := by
  rw [Bool.eq_iff_iff, H.isComplete_notifyAll_iff, Bool.or_eq_true]
  refine or_congr_right ⟨?_, fun h => ⟨w, hw, rfl, h⟩⟩
  rintro ⟨v, hv, hk, hann⟩
  rwa [List.inj_on_of_nodup_map H.nodup_tickets hv hw hk] at hann

/-- A batch loads the current pictures whose assets it announces, and no others. -/
theorem isImageLoaded_notifyAll (H : c.Keeps all current) (events : List AssetEvent) {i : Image}
    (hi : i ∈ all) :
    (c.notifyAll events).2.isImageLoaded i = true ↔
      c.isImageLoaded i = true ∨ i ∈ current ∧ events.any (·.announces i.asset) = true := by
  rw [isImageLoaded, H.isComplete_notifyAll_iff]
  constructor
  · rintro (h | ⟨w, hw, hk, hann⟩)
    · exact .inl h
    · obtain ⟨hc, rfl⟩ := H.mem_current_of_mem_awaiting hi hw hk
      exact .inr ⟨hc, hann⟩
  · rintro (h | ⟨hc, hann⟩)
    · exact .inl h
    · cases hl : c.isImageLoaded i with
      | true => exact .inl hl
      | false => exact .inr ⟨i.wait, H.wait_mem_awaiting hc hl, rfl, hann⟩

theorem pendingLoads_notifyAll (H : c.Keeps all current) (events : List AssetEvent) :
    (c.notifyAll events).2.pendingLoads + (c.notifyAll events).1 = c.pendingLoads := by
  induction events generalizing c with
  | nil => rfl
  | cons event events ih =>
    have h := H.pendingLoads_notify event
    have hrest := ih (H.notify event)
    rw [notifyAll_cons_fst, notifyAll_cons_snd]
    omega

theorem outstanding_notifyAll (H : c.Keeps all current) (events : List AssetEvent) :
    (c.notifyAll events).2.outstanding =
      c.outstanding.filter fun w => !events.any (·.announces w.1) := by
  have hout : (c.notifyAll events).2.outstanding =
      c.awaiting.filter fun w => !(c.notifyAll events).2.tally.isComplete w.2 := by
    by_cases hne : events = []
    · subst hne
      rfl
    · rw [outstanding, awaiting_notifyAll c events hne]
      exact Tally.filter_filter_of_mono (fun _ => id) (·.2) c.awaiting
  rw [hout, outstanding, List.filter_filter]
  refine List.filter_congr fun w hw => ?_
  rw [H.isComplete_notifyAll_of_mem events hw, Bool.not_or, Bool.and_comm]

/-- A batch counts each outstanding load that it announces, and counts it once. -/
theorem notifyAll_fst (H : c.Keeps all current) (events : List AssetEvent) :
    (c.notifyAll events).1 = c.outstanding.countP fun w => events.any (·.announces w.1) := by
  have hsum := H.pendingLoads_notifyAll events
  rw [pendingLoads_eq_length, pendingLoads_eq_length, H.outstanding_notifyAll,
    ← List.countP_eq_length_filter] at hsum
  have hsplit := List.length_eq_countP_add_countP (l := c.outstanding)
    (fun w => events.any (·.announces w.1))
  simp only [decide_not, Bool.decide_eq_true] at hsplit
  omega

/-- What a batch does depends on the assets that it announces and on whether it is empty, and on
nothing else. -/
theorem notifyAll_eq (H : c.Keeps all current) (hne : events = [] ↔ events' = [])
    (hany : ∀ asset, events.any (·.announces asset) = events'.any (·.announces asset)) :
    c.notifyAll events = c.notifyAll events' := by
  have hfst : (c.notifyAll events).1 = (c.notifyAll events').1 := by
    simp only [H.notifyAll_fst, hany]
  have hcomplete : ∀ k, (c.notifyAll events).2.tally.isComplete k =
      (c.notifyAll events').2.tally.isComplete k := by
    intro k
    rw [Bool.eq_iff_iff, H.isComplete_notifyAll_iff, H.isComplete_notifyAll_iff]
    simp only [hany]
  have htally : (c.notifyAll events).2.tally = (c.notifyAll events').2.tally :=
    Tally.eq_of_isComplete (by simp) (by rw [loaded_notifyAll, loaded_notifyAll, hfst]) (by simp)
      hcomplete
  have hawaiting : (c.notifyAll events).2.awaiting = (c.notifyAll events').2.awaiting := by
    by_cases hnil : events = []
    · rw [hnil, hne.1 hnil]
    · rw [awaiting_notifyAll c events hnil, awaiting_notifyAll c events' fun h => hnil (hne.2 h),
        htally]
  refine Prod.ext hfst (Catalog.ext ?_ ?_ htally hawaiting)
  · rw [names_notifyAll, names_notifyAll]
  · rw [records_notifyAll, records_notifyAll]

theorem notifyAll_fst_pictures (H : c.Keeps all current) (events : List AssetEvent) :
    (c.notifyAll events).1 =
      current.countP fun i => !c.isImageLoaded i && events.any (·.announces i.asset) := by
  rw [H.notifyAll_fst, H.outstanding_eq, List.countP_map, List.countP_filter]
  refine List.countP_congr fun i _ => ?_
  simp [Image.wait, and_comm]

end Keeps

end Catalog

namespace Console

variable {σ : Type} [ImageSource σ]

/-- For every run of a console, over a source that may change at any time: events told in any order
leave the same catalog and are answered by the same number in all. That is the number of loads that
were waiting, not complete and are announced by one of the events, which are as many pictures queued
since the last reset. It is what is counted as loaded and what is no longer pending. Exactly these
pictures are newly loaded, and after any event the loads that wait are those before that are not
complete now. -/
theorem notifyAll_perm (source : σ) (commands : List (Command σ))
    {events events' : List AssetEvent} (hp : events.Perm events') :
    let c := ((start source).run commands).catalog
    let h := (start source).history commands
    let n := (c.notifyAll events).1
    let c' := (c.notifyAll events).2
    c.notifyAll events' = c.notifyAll events ∧
    n = (c.awaiting.countP fun w =>
      !c.tally.isComplete w.2 && events.any (·.announces w.1)) ∧
    n = (h.pictures.countP fun i =>
      !c.isImageLoaded i && events.any (·.announces i.asset)) ∧
    c'.progress = ⟨c.progress.loaded + n, c.progress.toLoad⟩ ∧
    c'.pendingLoads + n = c.pendingLoads ∧
    c'.names = c.names ∧ c'.records = c.records ∧
    (∀ i ∈ h.images, c'.isImageLoaded i =
      (c.isImageLoaded i || decide (i ∈ h.pictures) && events.any (·.announces i.asset))) ∧
    (events ≠ [] → c'.awaiting = c.awaiting.filter fun w => !c'.tally.isComplete w.2) := by
  intro c h n c'
  have H : c.Keeps h.images h.pictures := (past_start source commands).keeps
  have hperm : c.notifyAll events' = c.notifyAll events := by
    refine H.notifyAll_eq ?_ fun asset => hp.symm.any_eq
    rw [← List.length_eq_zero_iff, ← List.length_eq_zero_iff, hp.length_eq]
  have hwaits : n = c.awaiting.countP fun w =>
      !c.tally.isComplete w.2 && events.any (·.announces w.1) := by
    refine (H.notifyAll_fst events).trans ?_
    rw [Catalog.outstanding, List.countP_filter]
    exact List.countP_congr fun w _ => by rw [Bool.and_comm]
  refine ⟨hperm, hwaits, H.notifyAll_fst_pictures events, ?_, H.pendingLoads_notifyAll events,
    c.names_notifyAll events, c.records_notifyAll events, fun i hi => ?_,
    c.awaiting_notifyAll events⟩
  · exact congrArg₂ Progress.mk (c.loaded_notifyAll events) (c.toLoad_notifyAll events)
  · rw [Bool.eq_iff_iff, H.isImageLoaded_notifyAll events hi]
    simp

/-- Two tiles share a picture, which one of them has had completed by hand, and wait for two more:
told twice and among other events, the first event counts once and for the other tile only. -/
theorem notifyAll_perm_shared :
    let box : TileSpec := .withGoal (.named "box" "box.png") "goal.png"
    let commands : List (Command Gallery) :=
      [.register box, .register { box with name := some "crate" }, .complete "box" 0]
    let loaded (n : Nat) : AssetEvent := ⟨.loadedWithDependencies, .number n⟩
    let events : List AssetEvent := [loaded 0, ⟨.removed, .number 1⟩, loaded 7, loaded 0]
    let events' : List AssetEvent := [loaded 7, loaded 0, loaded 0, ⟨.removed, .number 1⟩]
    let c := ((start ({} : Gallery)).run commands).catalog
    events.Perm events' ∧ c.notifyAll events' = c.notifyAll events ∧
      (c.notifyAll events).2.pendingLoads + (c.notifyAll events).1 = c.pendingLoads ∧
      (c.notifyAll events).1 = 1 ∧ c.pendingLoads = 3 := by
  intro box commands loaded events events' c
  have hp : events.Perm events' := by decide
  have h := notifyAll_perm ({} : Gallery) commands hp
  exact ⟨hp, h.1, h.2.2.2.2.1, by decide +kernel, by decide +kernel⟩

end Console

end TileCatalog
