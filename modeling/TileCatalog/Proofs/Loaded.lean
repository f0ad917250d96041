import TileCatalog.Asset.Gallery
import TileCatalog.Proofs.Outstanding
import TileCatalog.Proofs.Runs

/-!
# When a picture is loaded

A picture is loaded if its source had it when it was queued, if an event announced its asset after
that and before the next reset, or if its own ticket was completed; and for no other reason
(`Past.isImageLoaded_iff`). Tickets are numbered in the order of issue, so that a ticket stands for
one picture and its copies, or for a load that belongs to no picture.
-/

namespace TileCatalog

/-! ### Tickets -/

namespace Enqueues

variable {c c' : Catalog} {q : List (Image × Bool)}

theorem size_fired (hq : Enqueues c q c') :
    c'.tally.fired.size = c.tally.fired.size + q.length := by
  induction hq with
  | nil => rfl
  | cons src asset ready _ ih =>
    rw [ih, Catalog.size_fired_enqueue, List.length_cons]
    omega

theorem tickets_eq (hq : Enqueues c q c') :
    q.map (·.1.ticket.index) = List.range' c.tally.fired.size q.length := by
  induction hq with
  | nil => rfl
  | cons src asset ready _ ih =>
    rw [Catalog.size_fired_enqueue] at ih
    simp [ih, List.range'_succ]

theorem isComplete_of_lt (hq : Enqueues c q c') {k : Ticket} (hk : k.index < c.tally.fired.size) :
    c'.tally.isComplete k = c.tally.isComplete k := by
  induction hq with
  | nil => rfl
  | cons src asset ready _ ih =>
    rw [ih (by rw [Catalog.size_fired_enqueue]; exact Nat.lt_succ_of_lt hk),
      Catalog.isComplete_enqueue_of_lt src asset ready hk]

theorem isImageLoaded (hq : Enqueues c q c') {i : Image} {ready : Bool} (hi : (i, ready) ∈ q) :
    c'.isImageLoaded i = ready := by
  induction hq with
  | nil => simp at hi
  | @cons c _ _ src asset b hq ih =>
    rcases List.mem_cons.1 hi with hi | hi
    · obtain ⟨rfl, rfl⟩ := Prod.mk.inj hi
      have hlt : c.tally.fired.size < (c.enqueue src asset ready).2.tally.fired.size := by simp
      exact (hq.isComplete_of_lt hlt).trans (c.isComplete_enqueue_self src asset ready)
    · exact ih hi

end Enqueues

theorem Does.tickets_eq {c c' : Catalog} {d : Deed} (D : Does c d c') :
    d.tickets.map (·.index) = List.range' c.tally.fired.size d.tickets.length ∧
      c'.tally.fired.size = c.tally.fired.size + d.tickets.length := by
  cases D with
  | @register c' t e ready _ hlen hq =>
    have hfst : (e.images.zip ready).map (·.1) = e.images :=
      List.map_fst_zip (Nat.le_of_eq hlen.symm)
    have htic : (Deed.registered t e ready).tickets = (e.images.zip ready).map (·.1.ticket) := by
      rw [Deed.tickets, ← hfst, List.map_map]
      simp only [hfst, Function.comp_def]
    have hs := hq.size_fired
    have ht := hq.tickets_eq
    rw [Catalog.tally_receive] at hs ht
    rw [htic, List.map_map, List.length_map]
    exact ⟨ht, hs⟩
  | hear event => exact ⟨rfl, Catalog.size_fired_announce event c.awaiting c.tally⟩
  | complete k => exact ⟨rfl, Tally.size_complete c.tally k⟩
  | issue => exact ⟨rfl, Tally.size_queue c.tally⟩
  | zero => exact ⟨rfl, rfl⟩
  | clear => exact ⟨rfl, rfl⟩

namespace Past

variable {h : History} {c : Catalog}

/-- Tickets are numbered in the order of issue, for pictures and without them. -/
theorem tickets_eq (H : Past h c) :
    h.tickets.map (·.index) = List.range c.tally.fired.size := by
  induction H with
  | start => rfl
  | @step h c c' d _ D ih =>
    obtain ⟨ht, hs⟩ := D.tickets_eq
    have happ : History.tickets (h ++ [d]) = h.tickets ++ d.tickets := by simp [History.tickets]
    rw [happ, List.map_append, ih, ht, hs, List.range_eq_range', List.range_eq_range',
      List.range'_append_1.symm, Nat.zero_add]

theorem nodup_tickets (H : Past h c) : h.tickets.Nodup := by
  refine List.Nodup.of_map (·.index) ?_
  rw [H.tickets_eq]
  exact List.nodup_range

/-- A picture queued by a deed is current as long as there was no reset since. -/
theorem mem_pictures_iff (H : Past h c) {p q : History} {d : Deed} {i : Image}
    (hh : h = p ++ d :: q) (hi : i ∈ d.images) : i ∈ h.pictures ↔ .cleared ∉ q := by
  have hd : d ≠ .cleared := by
    rintro rfl
    simp at hi
  have hsplit : h = p ++ [d] ++ q := by simp [hh]
  rw [History.pictures, hsplit, History.sinceReset_append, History.sinceReset_concat hd]
  by_cases hq : .cleared ∈ q
  · -- the picture would have been queued twice
    have hdis := H.keeps.distinct
    simp only [hsplit, History.images_append, History.images_cons, History.images_nil,
      List.append_nil, List.map_append] at hdis
    have hnot : i ∉ History.images q := fun hiq =>
      (List.nodup_append.1 hdis).2.2 i.ticket
        (List.mem_append_right _ (List.mem_map_of_mem hi)) i.ticket (List.mem_map_of_mem hiq) rfl
    have hsub : i ∉ History.images (History.sinceReset q) := fun h =>
      hnot ((History.pictures_sublist q).subset h)
    simp [hq, hsub]
  · simp [hq, hi]

end Past

/-! ### Pictures -/

/-- A deed loads a picture by completing its ticket, or by an event for its asset if the picture is
current; no other deed touches it. -/
theorem Does.isImageLoaded_iff {h : History} {c c' : Catalog} {d : Deed} (D : Does c d c')
    (H : c.Keeps h.images h.pictures) {i : Image} (hi : i ∈ h.images) :
    c'.isImageLoaded i = true ↔ c.isImageLoaded i = true ∨ d = .completed i.ticket ∨
      i ∈ h.pictures ∧ ∃ event, d = .heard event ∧ event.announces i.asset = true := by
  have hlt := H.issued i hi
  cases D with
  | @register c' t e ready _ _ hq =>
    have hk := hq.isComplete_of_lt (k := i.ticket) (by rwa [Catalog.tally_receive])
    rw [Catalog.tally_receive] at hk
    simp only [Catalog.isImageLoaded, Catalog.put, hk, reduceCtorEq, false_and, exists_false,
      and_false, or_false]
  | hear event =>
    rw [H.isImageLoaded_notify hi]
    simp
  | complete k =>
    have hk : k = i.ticket ∧ k.index < c.tally.fired.size ↔ k = i.ticket :=
      and_iff_left_of_imp fun h => h ▸ hlt
    simp [Catalog.isImageLoaded, Catalog.complete, Tally.isComplete_complete, hk]
  | issue => simp [Catalog.isImageLoaded, Catalog.queueTicket]
  | zero => simp [Catalog.isImageLoaded, Catalog.resetTally]
  | clear => simp [Catalog.isImageLoaded, Catalog.reset]

/-- A picture queued by one deed of a history is loaded by its source then, or by a later deed. -/
theorem Past.isImageLoaded_iff {h : History} {c : Catalog} (H : Past h c) {p q : History} {d : Deed}
    (hh : h = p ++ d :: q) {i : Image} {ready : Bool} (hi : (i, ready) ∈ d.queued) :
    c.isImageLoaded i = true ↔ ready = true ∨
      (∃ event, .heard event ∈ q.untilReset ∧ event.announces i.asset = true) ∨
      .completed i.ticket ∈ q := by
  have hi' : i ∈ d.images := List.mem_map.2 ⟨_, hi, rfl⟩
  induction H generalizing q with
  | start => simp at hh
  | @step h c c' d' H D ih =>
    rcases History.concat_eq_append_cons.1 hh with ⟨rfl, rfl, rfl⟩ | ⟨q, rfl, rfl⟩
    · -- the picture was queued just now, so `D` is a registration
      cases D with
      | register _ _ hq =>
        have hl := hq.isImageLoaded hi
        simp only [Catalog.isImageLoaded, Catalog.put] at hl ⊢
        simp [hl, History.untilReset]
      | hear | complete | issue | zero | clear => simp [Deed.queued] at hi
    · have himg : i ∈ History.images (p ++ d :: q) := by simp [hi']
      rw [D.isImageLoaded_iff H.keeps himg, H.mem_pictures_iff rfl hi', iff_iff_eq.1 (ih rfl)]
      simp only [History.heard_mem_untilReset_concat, List.mem_append,
        List.mem_singleton]
      grind

theorem Past.isImageLoaded_append {h k : History} {c c' : Catalog} (H : Past h c)
    (H' : Past (h ++ k) c') {i : Image} (hi : i ∈ h.images) (hl : c.isImageLoaded i = true) :
    c'.isImageLoaded i = true := by
  obtain ⟨d, hd, hid⟩ := List.mem_flatMap.1 hi
  obtain ⟨⟨i, ready⟩, hq, rfl⟩ := List.mem_map.1 hid
  obtain ⟨p, q, rfl⟩ := List.append_of_mem hd
  rw [H'.isImageLoaded_iff (p := p) (q := q ++ k) (by simp) hq]
  rcases (H.isImageLoaded_iff rfl hq).1 hl with hr | ⟨event, he, hann⟩ | hk
  · exact .inl hr
  · exact .inr (.inl ⟨event, History.mem_untilReset_append_left he _, hann⟩)
  · exact .inr (.inr (List.mem_append_left _ hk))

/-! ### Consoles -/

namespace Console

variable {σ : Type} [ImageSource σ]

/-- For every run of a console, over a source that may change at any time, and every picture queued
in it: the picture is loaded if and only if the source had it when it was queued, or an event
announced its asset after that and before the next reset, or its ticket was completed after that.
No two pictures or loads without a picture share a ticket. Whatever follows, the picture stays
loaded, and unless it is announced or its ticket completed it also stays as it was. -/
theorem isImageLoaded_run (source : σ) (commands : List (Command σ)) {before after : History}
    {d : Deed} {i : Image} {ready : Bool}
    (hh : (start source).history commands = before ++ d :: after) (hi : (i, ready) ∈ d.queued) :
    (((start source).run commands).catalog.isImageLoaded i = true ↔ ready = true ∨
      (∃ event, .heard event ∈ after.untilReset ∧ event.announces i.asset = true) ∨
      .completed i.ticket ∈ after) ∧
    ((start source).history commands).tickets.Nodup ∧
    ∀ more : List (Command σ),
      (((start source).run commands).catalog.isImageLoaded i = true →
        ((start source).run (commands ++ more)).catalog.isImageLoaded i = true) ∧
      ((∀ event, .notify event ∈ more → event.announces i.asset = false) →
        .completed i.ticket ∉ ((start source).run commands).history more →
        ((start source).run (commands ++ more)).catalog.isImageLoaded i =
          ((start source).run commands).catalog.isImageLoaded i) := by
  have H := past_start source commands
  have hiff := H.isImageLoaded_iff hh hi
  refine ⟨hiff, H.nodup_tickets, fun more => ?_⟩
  have hh' : (start source).history (commands ++ more) =
      before ++ d :: (after ++ ((start source).run commands).history more) := by
    simp [history_append, hh]
  have H' := past_start source (commands ++ more)
  have hiff' := H'.isImageLoaded_iff hh' hi
  have hstay : ((start source).run commands).catalog.isImageLoaded i = true →
      ((start source).run (commands ++ more)).catalog.isImageLoaded i = true := by
    rw [history_append] at H'
    refine H.isImageLoaded_append H' ?_
    rw [hh, History.images_append, History.images_cons]
    exact List.mem_append_right _ (List.mem_append_left _ (List.mem_map_of_mem hi))
  refine ⟨hstay, fun hquiet hkept => ?_⟩
  rw [Bool.eq_iff_iff]
  refine ⟨?_, hstay⟩
  rw [hiff, hiff']
  rintro (hr | ⟨event, he, hann⟩ | hk)
  · exact .inl hr
  · rcases History.mem_of_mem_untilReset_append he with he | he
    · exact .inr (.inl ⟨event, he, hann⟩)
    · simp [hquiet event (notify_mem_of_heard_mem_history he)] at hann
  · exact .inr (.inr ((List.mem_append.1 hk).resolve_right hkept))

/-- The picture of an entry that was replaced is loaded by its event, also if the counts were zeroed
in between, and stays so when the catalog is cleared and other pictures are announced. -/
theorem isImageLoaded_run_replaced :
    let wall : TileSpec := .named "wall" "old.png"
    let old : Image := ⟨"old.png", .number 0, ⟨0⟩⟩
    let commands : List (Command Gallery) :=
      [.register wall, .register { wall with url := "new.png" }, .resetTally,
        .notify ⟨.loadedWithDependencies, .number 0⟩]
    let more : List (Command Gallery) :=
      [.notify ⟨.loadedWithDependencies, .number 1⟩, .notify ⟨.removed, .number 0⟩, .reset]
    ((start {}).run commands).catalog.isImageLoaded old = true ∧
      ((start {}).run (commands ++ more)).catalog.isImageLoaded old = true := by
  intro wall old commands more
  have hh : (start ({} : Gallery)).history commands =
      [] ++ .registered wall ⟨"wall", old, none⟩ [false] ::
        [.registered { wall with url := "new.png" } ⟨"wall", ⟨"new.png", .number 1, ⟨1⟩⟩, none⟩
            [false],
          .zeroed, .heard ⟨.loadedWithDependencies, .number 0⟩] := by decide +kernel
  have hi : (old, false) ∈ Deed.queued (.registered wall ⟨"wall", old, none⟩ [false]) := by decide
  obtain ⟨hiff, -, hmore⟩ := isImageLoaded_run ({} : Gallery) commands hh hi
  have hold := hiff.2 (.inr (.inl ⟨⟨.loadedWithDependencies, .number 0⟩, by decide, by decide⟩))
  refine ⟨hold, ?_⟩
  rw [(hmore more).2 (by simp [more, AssetEvent.announces, old]) (by decide +kernel)]
  exact hold

end Console

end TileCatalog
