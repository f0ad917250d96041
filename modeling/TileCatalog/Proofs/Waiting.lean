import Mathlib.Data.List.Lattice
import Mathlib.Data.List.Pairwise
import TileCatalog.Asset.Gallery
import TileCatalog.Proofs.Loaded

/-!
# What waits

The waiting list is tidied up only by events, so it may hold loads that were completed otherwise.
Those on it that are not complete are the pictures queued since the last reset that are not loaded,
one load for each, in the order of queueing (`Catalog.Tracks`). A load that belongs to no picture
never waits: its ticket was issued by a deed of its own.
-/

namespace TileCatalog

theorem Deed.ticket_mem_tickets {d : Deed} {i : Image} (hi : i ∈ d.images) :
    i.ticket ∈ d.tickets := by
  obtain ⟨⟨i, ready⟩, hq, rfl⟩ := List.mem_map.1 hi
  cases d with
  | registered t e _ => exact List.mem_map_of_mem (List.of_mem_zip hq).1
  | _ => cases hq

theorem History.eq_of_mem_tickets {h : History} (hd : h.tickets.Nodup) {d d' : Deed} (hmem : d ∈ h)
    (hmem' : d' ∈ h) {k : Ticket} (hk : k ∈ d.tickets) (hk' : k ∈ d'.tickets) : d = d' := by
  have hsymm : Std.Symm (Function.onFun List.Disjoint Deed.tickets) := ⟨fun _ _ h => h.symm⟩
  by_contra hne
  exact (List.nodup_flatMap.1 hd).2.forall hmem hmem' hne hk hk'

namespace Catalog

/-- The waiting list tracks the pictures queued since the last reset that are not loaded. -/
structure Tracks (c : Catalog) (h : History) : Prop where
  /-- The loads that wait and are not complete are those of current pictures that are not loaded, in
  the order in which they were queued. -/
  outstanding_eq : (c.awaiting.filter fun w => !c.tally.isComplete w.2) =
    (h.pictures.filter fun i => !c.isImageLoaded i).map Image.wait
  pendingLoads_eq : c.pendingLoads = h.pictures.countP fun i => !c.isImageLoaded i
  /-- A current picture that is not loaded waits once, with its own asset. -/
  wait_once : ∀ i ∈ h.pictures, c.isImageLoaded i = false →
    (c.awaiting.filter fun w => w.2 = i.ticket) = [(i.asset, i.ticket)]
  nodup : (c.awaiting.map (·.2)).Nodup
  /-- Only current pictures wait, also among the complete loads. -/
  awaiting_sub : c.awaiting.Sublist (h.pictures.map Image.wait)
  not_earlier : ∀ i ∈ h.images, i ∉ h.pictures → ∀ w ∈ c.awaiting, w.2 ≠ i.ticket
  not_issued : ∀ k, .issued k ∈ h → ∀ w ∈ c.awaiting, w.2 ≠ k

namespace Keeps

variable {c : Catalog} {all current : List Image}

theorem filter_awaiting_ticket (H : c.Keeps all current) {i : Image} (hi : i ∈ current)
    (hl : c.isImageLoaded i = false) :
    (c.awaiting.filter fun w => w.2 = i.ticket) = [(i.asset, i.ticket)] := by
  have hmem : i.wait ∈ c.awaiting := H.wait_mem_awaiting hi hl
  have hsame : (c.awaiting.filter fun w => w.2 = i.ticket) = c.awaiting.filter (· == i.wait) := by
    refine List.filter_congr fun w hw => ?_
    rw [Bool.eq_iff_iff, decide_eq_true_eq, beq_iff_eq]
    exact ⟨fun h => (H.mem_current_of_mem_awaiting (H.current_sub.subset hi) hw h).2,
      fun h => h ▸ rfl⟩
  rw [hsame, List.filter_beq, List.count_eq_one_of_mem (.of_map _ H.nodup_tickets) hmem]
  rfl

end Keeps

end Catalog

theorem Past.tracks {h : History} {c : Catalog} (H : Past h c) : c.Tracks h := by
  have K := H.keeps
  refine ⟨K.outstanding_eq, K.pendingLoads_eq, fun i hi hl => K.filter_awaiting_ticket hi hl,
    K.nodup_tickets, K.awaiting_sub, fun i hi hnot w hw hk => ?_, fun k hk w hw he => ?_⟩
  · exact hnot (K.mem_current_of_mem_awaiting hi hw hk).1
  · -- the load would be a picture's, so that a registration would have issued its ticket as well
    obtain ⟨i, hi, rfl⟩ := K.exists_of_mem_awaiting hw
    obtain ⟨d, hd, hid⟩ := List.mem_flatMap.1 (h.pictures_sublist.subset hi)
    have hself : i.ticket ∈ (Deed.issued k).tickets := List.mem_singleton.2 he
    rw [History.eq_of_mem_tickets H.nodup_tickets hd hk (Deed.ticket_mem_tickets hid) hself] at hid
    cases hid

namespace Console

variable {σ : Type} [ImageSource σ]

/-- For every run of a console, over a source that may change at any time: the waiting list tracks
the pictures queued since the last reset that are not loaded, those of replaced entries included.
No two pictures, and no picture and load without a picture, have the same ticket. -/
theorem awaiting_tracks (source : σ) (commands : List (Command σ)) :
    ((start source).run commands).catalog.Tracks ((start source).history commands) ∧
      ((start source).history commands).tickets.Nodup :=
  have H := past_start source commands
  ⟨H.tracks, H.nodup_tickets⟩

/-- The picture of an entry that was replaced waits once. The one that replaced it was completed by
hand and is on the list as well, but not pending. A load without a picture is not on the list. -/
theorem awaiting_tracks_replaced :
    let wall : TileSpec := .named "wall" "old.png"
    let old : Image := ⟨"old.png", .number 0, ⟨0⟩⟩
    let commands : List (Command Gallery) :=
      [.register wall, .queue, .register { wall with url := "new.png" }, .complete "wall" 0,
        .resetTally]
    let c := ((start {}).run commands).catalog
    c.isImageLoaded old = false ∧
      (c.awaiting.filter fun w => w.2 = old.ticket) = [(old.asset, old.ticket)] ∧
      (∀ w ∈ c.awaiting, w.2 ≠ ⟨1⟩) ∧ c.awaiting.length = 2 ∧ c.pendingLoads = 1 := by
  intro wall old commands c
  have T := (awaiting_tracks ({} : Gallery) commands).1
  have hl : c.isImageLoaded old = false := by decide +kernel
  exact ⟨hl, T.wait_once old (by decide +kernel) hl, T.not_issued ⟨1⟩ (by decide +kernel),
    by decide +kernel, by decide +kernel⟩

end Console

end TileCatalog
