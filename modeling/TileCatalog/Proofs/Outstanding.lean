import Mathlib.Data.List.Nodup
import TileCatalog.Proofs.Past

/-!
# The loads outstanding

`Keeps all current`: every picture ever queued has a ticket of its own, the waiting list holds only
pictures queued since the last reset, and those of them that are not loaded wait, in the order in
which they were queued. Completed loads may stay on the list until the next event; `outstanding` is
the list without them, so that its length is the number of loads pending and nothing depends on when
the list is tidied up.

Completing tickets only shortens `outstanding` (`Keeps.of_mono`), which is why completions from
outside, events and resets of the counts need no more than that.
-/

namespace TileCatalog

/-- How a picture stands on the waiting list. -/
def Image.wait (i : Image) : AssetId × Ticket := (i.asset, i.ticket)

/-- Once more tickets are complete, it makes no difference whether what was complete before has been
dropped already. -/
theorem Tally.filter_filter_of_mono {t t' : Tally}
    (hmono : ∀ k, t.isComplete k = true → t'.isComplete k = true) {α : Type} (ticket : α → Ticket)
    (l : List α) :
    ((l.filter fun x => !t.isComplete (ticket x)).filter fun x => !t'.isComplete (ticket x)) =
      l.filter fun x => !t'.isComplete (ticket x) := by
  rw [List.filter_filter]
  refine List.filter_congr fun x _ => ?_
  cases hk : t.isComplete (ticket x)
  · simp
  · simp [hmono _ hk]

namespace Catalog

/-- The loads on the waiting list that are not complete. -/
def outstanding (c : Catalog) : List (AssetId × Ticket) :=
  c.awaiting.filter fun w => !c.tally.isComplete w.2

theorem pendingLoads_eq_length (c : Catalog) : c.pendingLoads = c.outstanding.length :=
  List.countP_eq_length_filter

/-- The pictures ever queued, and those queued since the last reset, are accounted for. -/
structure Keeps (c : Catalog) (all current : List Image) : Prop where
  issued : ∀ i ∈ all, i.ticket.index < c.tally.fired.size
  distinct : (all.map (·.ticket)).Nodup
  current_sub : current.Sublist all
  awaiting_sub : c.awaiting.Sublist (current.map Image.wait)
  outstanding_eq : c.outstanding = (current.filter (!c.isImageLoaded ·)).map Image.wait

namespace Keeps

variable {c c' : Catalog} {all current : List Image} {i : Image}

theorem empty : Keeps {} [] [] :=
  ⟨by simp, by simp, .slnil, .slnil, rfl⟩

theorem congr (H : c.Keeps all current) (ht : c'.tally = c.tally) (ha : c'.awaiting = c.awaiting) :
    c'.Keeps all current := by
  refine ⟨?_, H.distinct, H.current_sub, ?_, ?_⟩
  · rw [ht]
    exact H.issued
  · rw [ha]
    exact H.awaiting_sub
  · have h := H.outstanding_eq
    simp only [outstanding, isImageLoaded, ht, ha] at h ⊢
    exact h

/-! ### One picture, one ticket -/

theorem eq_of_ticket_eq (H : c.Keeps all current) {j : Image} (hi : i ∈ all) (hj : j ∈ all)
    (h : i.ticket = j.ticket) : i = j :=
  List.inj_on_of_nodup_map H.distinct hi hj h

/-- What waits is a picture queued since the last reset. -/
theorem exists_of_mem_awaiting (H : c.Keeps all current) {w : AssetId × Ticket}
    (hw : w ∈ c.awaiting) : ∃ j ∈ current, j.wait = w :=
  List.mem_map.1 (H.awaiting_sub.subset hw)

theorem mem_current_of_mem_awaiting (H : c.Keeps all current) (hi : i ∈ all)
    {w : AssetId × Ticket} (hw : w ∈ c.awaiting) (h : w.2 = i.ticket) :
    i ∈ current ∧ w = i.wait := by
  obtain ⟨j, hj, rfl⟩ := H.exists_of_mem_awaiting hw
  obtain rfl := H.eq_of_ticket_eq (H.current_sub.subset hj) hi h
  exact ⟨hj, rfl⟩

theorem nodup_tickets (H : c.Keeps all current) : (c.awaiting.map (·.2)).Nodup := by
  have h : (current.map Image.wait).map (·.2) = current.map (·.ticket) := by simp [Image.wait]
  refine List.Nodup.sublist (H.awaiting_sub.map _) ?_
  rw [h]
  exact H.distinct.sublist (H.current_sub.map _)

theorem ticket_lt (H : c.Keeps all current) {w : AssetId × Ticket} (hw : w ∈ c.awaiting) :
    w.2.index < c.tally.fired.size := by
  obtain ⟨j, hj, rfl⟩ := H.exists_of_mem_awaiting hw
  exact H.issued j (H.current_sub.subset hj)

/-- A picture that is not loaded waits for its event. -/
theorem wait_mem_awaiting (H : c.Keeps all current) (hi : i ∈ current)
    (h : c.isImageLoaded i = false) : i.wait ∈ c.awaiting := by
  have hm : i.wait ∈ c.outstanding := by
    rw [H.outstanding_eq]
    exact List.mem_map_of_mem (List.mem_filter.2 ⟨hi, by simp [h]⟩)
  exact List.mem_of_mem_filter hm

/-- The loads pending are the pictures queued since the last reset that are not loaded. -/
theorem pendingLoads_eq (H : c.Keeps all current) :
    c.pendingLoads = current.countP (!c.isImageLoaded ·) := by
  rw [pendingLoads_eq_length, H.outstanding_eq, List.length_map, List.countP_eq_length_filter]

theorem isImageLoaded_of_pendingLoads (H : c.Keeps all current) (hp : c.pendingLoads = 0)
    (hi : i ∈ current) : c.isImageLoaded i = true := by
  rw [H.pendingLoads_eq, List.countP_eq_zero] at hp
  simpa using hp i hi

/-! ### Deeds -/

/-- Tickets are completed and nothing else happens to the waiting list than that complete loads may
leave it. -/
theorem of_mono (H : c.Keeps all current) (hsize : c.tally.fired.size ≤ c'.tally.fired.size)
    (hmono : ∀ k, c.tally.isComplete k = true → c'.tally.isComplete k = true)
    (hsub : c'.awaiting.Sublist c.awaiting)
    (hout : c'.outstanding = c.awaiting.filter fun w => !c'.tally.isComplete w.2) :
    c'.Keeps all current := by
  refine ⟨fun i hi => Nat.lt_of_lt_of_le (H.issued i hi) hsize, H.distinct, H.current_sub,
    hsub.trans H.awaiting_sub, ?_⟩
  calc c'.outstanding
      = c.outstanding.filter fun w => !c'.tally.isComplete w.2 :=
        hout.trans (Tally.filter_filter_of_mono hmono (·.2) c.awaiting).symm
    _ = ((current.filter (!c.isImageLoaded ·)).filter (!c'.isImageLoaded ·)).map Image.wait := by
        rw [H.outstanding_eq, List.filter_map]
        rfl
    _ = (current.filter (!c'.isImageLoaded ·)).map Image.wait :=
        congrArg _ (Tally.filter_filter_of_mono hmono Image.ticket current)

theorem enqueue (H : c.Keeps all current) (src : String) (asset : AssetId) (ready : Bool) :
    (c.enqueue src asset ready).2.Keeps (all ++ [(c.enqueue src asset ready).1])
      (current ++ [(c.enqueue src asset ready).1]) := by
  refine ⟨?_, ?_, H.current_sub.append (.refl _), ?_, ?_⟩
  · intro i hi
    rw [size_fired_enqueue]
    rcases List.mem_append.1 hi with hi | hi
    · exact Nat.lt_succ_of_lt (H.issued i hi)
    · rw [List.mem_singleton.1 hi]
      exact Nat.lt_succ_self _
  · rw [List.map_append, List.nodup_append]
    refine ⟨H.distinct, by simp, ?_⟩
    rintro _ hk k' hk' rfl
    obtain ⟨i, hi, rfl⟩ := List.mem_map.1 hk
    simp only [enqueue_fst, List.map_cons, List.map_nil, List.mem_singleton] at hk'
    exact absurd (H.issued i hi) (by rw [hk']; exact Nat.lt_irrefl _)
  · rw [awaiting_enqueue, List.map_append]
    cases ready
    · exact H.awaiting_sub.append (.refl _)
    · exact H.awaiting_sub.trans (List.sublist_append_left _ _)
  · have hcur : current.filter (!(c.enqueue src asset ready).2.isImageLoaded ·) =
        current.filter (!c.isImageLoaded ·) :=
      List.filter_congr fun i hi => by
        rw [isImageLoaded, isImageLoaded,
          isComplete_enqueue_of_lt src asset ready (H.issued i (H.current_sub.subset hi))]
    have hwait : c.awaiting.filter (fun w => !(c.enqueue src asset ready).2.tally.isComplete w.2) =
        c.outstanding :=
      List.filter_congr fun w hw => by
        rw [isComplete_enqueue_of_lt src asset ready (H.ticket_lt hw)]
    rw [List.filter_append, hcur, List.map_append, ← H.outstanding_eq, ← hwait]
    simp only [outstanding, awaiting_enqueue]
    cases ready <;> simp [isImageLoaded, isComplete_enqueue_self, Image.wait]

theorem complete (H : c.Keeps all current) (k : Ticket) : (c.complete k).2.Keeps all current := by
  refine H.of_mono (Nat.le_of_eq (Tally.size_complete c.tally k).symm) (fun l hl => ?_) (.refl _)
    rfl
  simp [Catalog.complete, Tally.isComplete_complete, hl]

theorem notify (H : c.Keeps all current) (event : AssetEvent) :
    (c.notify event).2.Keeps all current := by
  refine H.of_mono (Nat.le_of_eq (size_fired_announce event c.awaiting c.tally).symm)
    (fun k hk => ?_) List.filter_sublist ?_
  · simp [Catalog.notify, isComplete_announce, hk]
  · simp [Catalog.notify, outstanding, List.filter_filter]

theorem queueTicket (H : c.Keeps all current) : c.queueTicket.2.Keeps all current := by
  have hk : ∀ k, c.queueTicket.2.tally.isComplete k = c.tally.isComplete k :=
    Tally.isComplete_queue c.tally
  refine H.of_mono ?_ (fun k h => (hk k).trans h) (.refl _) rfl
  exact Nat.le_trans (Nat.le_succ _) (Nat.le_of_eq (Tally.size_queue c.tally).symm)

theorem resetTally (H : c.Keeps all current) : c.resetTally.Keeps all current :=
  H.of_mono (Nat.le_refl _) (fun _ h => h) (.refl _) rfl

theorem reset (H : c.Keeps all current) : c.reset.Keeps all [] :=
  ⟨H.issued, H.distinct, List.nil_sublist _, .slnil, rfl⟩

theorem enqueues (H : c.Keeps all current) {q : List (Image × Bool)} (hq : Enqueues c q c') :
    c'.Keeps (all ++ q.map (·.1)) (current ++ q.map (·.1)) := by
  induction hq generalizing all current with
  | nil => simpa using H
  | cons src asset ready _ ih => simpa using ih (H.enqueue src asset ready)

/-! ### What an event does -/

theorem isImageLoaded_notify (H : c.Keeps all current) (hi : i ∈ all) (event : AssetEvent) :
    (c.notify event).2.isImageLoaded i = true ↔
      c.isImageLoaded i = true ∨ i ∈ current ∧ event.announces i.asset = true := by
  have hlt := H.issued i hi
  simp only [isImageLoaded, Catalog.notify, isComplete_announce, hlt, decide_true, Bool.true_and,
    Bool.or_eq_true, List.any_eq_true, Bool.and_eq_true, decide_eq_true_eq]
  constructor
  · rintro (h | ⟨w, hw, hann, hk⟩)
    · exact .inl h
    · obtain ⟨hc, rfl⟩ := H.mem_current_of_mem_awaiting hi hw hk
      exact .inr ⟨hc, hann⟩
  · rintro (h | ⟨hc, hann⟩)
    · exact .inl h
    · cases hl : c.isImageLoaded i with
      | true => exact .inl hl
      | false => exact .inr ⟨i.wait, H.wait_mem_awaiting hc hl, hann, rfl⟩

end Keeps

theorem awaiting_notify (c : Catalog) (event : AssetEvent) :
    (c.notify event).2.awaiting =
      c.awaiting.filter fun w => !(c.notify event).2.tally.isComplete w.2 := rfl

/-- An event counts the loads it announces that are not complete. -/
theorem announce_fst (event : AssetEvent) {waits : List (AssetId × Ticket)} {t : Tally}
    (hd : (waits.map (·.2)).Nodup) (hlt : ∀ w ∈ waits, w.2.index < t.fired.size) :
    (announce event waits t).1 =
      waits.countP fun w => event.announces w.1 && !t.isComplete w.2 := by
  induction waits generalizing t with
  | nil => rfl
  | cons w rest ih =>
    obtain ⟨hw, hd⟩ := List.nodup_cons.1 hd
    rw [announce]
    split
    · rename_i hann
      have hsame : ∀ v ∈ rest, (t.complete w.2).2.isComplete v.2 = t.isComplete v.2 := by
        intro v hv
        have hne : w.2 ≠ v.2 := fun h => hw (List.mem_map.2 ⟨v, hv, h.symm⟩)
        simp [Tally.isComplete_complete, hne]
      have hrest := ih hd (t := (t.complete w.2).2) fun v hv => by
        simpa using hlt v (List.mem_cons_of_mem _ hv)
      have hcount :
          (rest.countP fun v => event.announces v.1 && !(t.complete w.2).2.isComplete v.2) =
            rest.countP fun v => event.announces v.1 && !t.isComplete v.2 :=
        List.countP_congr fun v hv => by rw [hsame v hv]
      simp only [hrest, hcount, Tally.complete_fst, hlt w List.mem_cons_self, List.countP_cons,
        hann, decide_true, Bool.true_and]
      split <;> rfl
    · rename_i hann
      rw [ih hd fun v hv => hlt v (List.mem_cons_of_mem _ hv)]
      simp [hann]

theorem Keeps.pendingLoads_notify {c : Catalog} {all current : List Image}
    (H : c.Keeps all current) (event : AssetEvent) :
    (c.notify event).2.pendingLoads + (c.notify event).1 = c.pendingLoads := by
  have hn : (c.notify event).1 =
      c.awaiting.countP fun w => event.announces w.1 && !c.tally.isComplete w.2 :=
    announce_fst event H.nodup_tickets fun _ => H.ticket_lt
  -- a waiting load is complete afterwards if it was before or if the event announces it
  have hafter : ∀ w ∈ c.awaiting, (!(c.notify event).2.tally.isComplete w.2) =
      (!event.announces w.1 && !c.tally.isComplete w.2) := by
    intro w hw
    obtain ⟨j, hj, rfl⟩ := H.exists_of_mem_awaiting hw
    have h := H.isImageLoaded_notify (H.current_sub.subset hj) event
    rw [Bool.eq_iff_iff]
    simp only [isImageLoaded, hj, true_and] at h
    simp only [Image.wait, Bool.not_eq_true', Bool.and_eq_true, ← Bool.not_eq_true, h, not_or,
      and_comm]
  have hp : (c.notify event).2.pendingLoads =
      c.awaiting.countP fun w => !event.announces w.1 && !c.tally.isComplete w.2 := by
    simp only [pendingLoads]
    rw [awaiting_notify, List.countP_filter]
    exact List.countP_congr fun w hw => by rw [Bool.and_self, hafter w hw]
  rw [hn, hp, pendingLoads]
  induction c.awaiting with
  | nil => rfl
  | cons w rest ih =>
    simp only [List.countP_cons] at ih ⊢
    cases event.announces w.1 <;> cases c.tally.isComplete w.2 <;> simp <;> omega

end Catalog

theorem Does.keeps {h : History} {c c' : Catalog} {d : Deed} (D : Does c d c')
    (H : c.Keeps h.images h.pictures) :
    c'.Keeps (History.images (h ++ [d])) (History.pictures (h ++ [d])) := by
  cases D with
  | @register c' t e ready _ _ hq =>
    have H₀ : (c.receive e.name).Keeps h.images h.pictures :=
      H.congr (c.tally_receive e.name) (c.awaiting_receive e.name)
    have H' : (c'.put e).Keeps (h.images ++ (Deed.registered t e ready).images)
        (h.pictures ++ (Deed.registered t e ready).images) := (H₀.enqueues hq).congr rfl rfl
    simpa using H'
  | hear event => simpa using H.notify event
  | complete k => simpa using H.complete k
  | issue => simpa using H.queueTicket
  | zero => simpa using H.resetTally
  | clear => simpa using H.reset

theorem Past.keeps {h : History} {c : Catalog} (H : Past h c) : c.Keeps h.images h.pictures := by
  induction H with
  | start => exact .empty
  | step _ D ih => exact D.keeps ih

end TileCatalog
