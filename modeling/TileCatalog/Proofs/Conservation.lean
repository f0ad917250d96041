import TileCatalog.Asset.Gallery
import TileCatalog.Proofs.Interleaving
import TileCatalog.Proofs.LastWrite
import TileCatalog.Proofs.Outstanding

/-!
# Every picture counts once

As long as the counts are left to the catalog, and no ticket from before a reset is completed after
it, the pictures to load are those loaded and those pending (`Balanced`): a picture is counted as
loaded exactly when it ceases to be pending. So the counts show that all is loaded exactly when
nothing is pending, and then all pictures of all entries are loaded (`Conserved`).

`History.Orderly` says which histories are meant. Consoles have them that keep nothing across a
reset to complete it later (`Console.Careful`), and applications have no others.
-/

namespace TileCatalog

/-- The deed leaves the counts to the catalog, and completes no ticket but that of a picture queued
since the last reset. -/
def Deed.IsOrderly (past : History) : Deed → Prop
  | .issued _ | .zeroed => False
  | .completed k => ∃ i ∈ past.pictures, i.ticket = k
  | _ => True

def History.Orderly (h : History) : Prop := ∀ p d q, h = p ++ d :: q → d.IsOrderly p

namespace History

theorem orderly_nil : Orderly [] := by simp [Orderly]

theorem orderly_concat {h : History} {d : Deed} :
    Orderly (h ++ [d]) ↔ h.Orderly ∧ d.IsOrderly h := by
  constructor
  · intro O
    exact ⟨fun p d' q hh => O p d' (q ++ [d]) (by simp [hh]), O h d [] rfl⟩
  · rintro ⟨O, hd⟩ p d' q hh
    rcases concat_eq_append_cons.1 hh with ⟨rfl, rfl, rfl⟩ | ⟨q, rfl, rfl⟩
    · exact hd
    · exact O p d' q rfl

end History

namespace Catalog

/-- The pictures queued since the last reset are those to load, and each of them is loaded or
pending. -/
structure Balanced (c : Catalog) (current : List Image) : Prop where
  toLoad_eq : c.tally.toLoad = current.length
  loaded_add : c.tally.loaded + c.pendingLoads = c.tally.toLoad

variable {c c' : Catalog} {all current : List Image}

theorem Keeps.pendingLoads_enqueue (H : c.Keeps all current) (src : String) (asset : AssetId)
    (ready : Bool) :
    (c.enqueue src asset ready).2.pendingLoads = c.pendingLoads + if ready then 0 else 1 := by
  rw [(H.enqueue src asset ready).pendingLoads_eq, H.pendingLoads_eq, List.countP_append]
  have hold : (current.countP fun i => !(c.enqueue src asset ready).2.isImageLoaded i) =
      current.countP fun i => !c.isImageLoaded i :=
    List.countP_congr fun i hi => by
      rw [isImageLoaded, isImageLoaded,
        isComplete_enqueue_of_lt src asset ready (H.issued i (H.current_sub.subset hi))]
  rw [hold]
  cases ready <;> simp [isImageLoaded, isComplete_enqueue_self]

/-- Completing the ticket of a picture makes one load less pending if it counts. -/
theorem Keeps.pendingLoads_complete (H : c.Keeps all current) {i : Image} (hi : i ∈ current) :
    (c.complete i.ticket).2.pendingLoads + (if (c.complete i.ticket).1 then 1 else 0) =
      c.pendingLoads := by
  have hlt := H.issued i (H.current_sub.subset hi)
  have hfirst : (c.complete i.ticket).1 = !c.isImageLoaded i := by
    simp [Catalog.complete, Tally.complete_fst, hlt, isImageLoaded]
  obtain ⟨l, r, rfl⟩ := List.append_of_mem hi
  -- no other picture has the ticket
  have hother : ∀ j ∈ l ++ r, (c.complete i.ticket).2.isImageLoaded j = c.isImageLoaded j := by
    intro j hj
    have hd := H.distinct.sublist (H.current_sub.map (·.ticket))
    rw [List.map_append, List.map_cons, List.nodup_middle, ← List.map_append] at hd
    have hne : i.ticket ≠ j.ticket := fun h =>
      (List.nodup_cons.1 hd).1 (h ▸ List.mem_map_of_mem hj)
    simp [isImageLoaded, Catalog.complete, Tally.isComplete_complete, hne]
  have hself : (c.complete i.ticket).2.isImageLoaded i = true := by
    simp [isImageLoaded, Catalog.complete, Tally.isComplete_complete, hlt]
  rw [(H.complete i.ticket).pendingLoads_eq, H.pendingLoads_eq, hfirst]
  have hl : (l.countP fun j => !(c.complete i.ticket).2.isImageLoaded j) =
      l.countP fun j => !c.isImageLoaded j :=
    List.countP_congr fun j hj => by rw [hother j (List.mem_append_left _ hj)]
  have hr : (r.countP fun j => !(c.complete i.ticket).2.isImageLoaded j) =
      r.countP fun j => !c.isImageLoaded j :=
    List.countP_congr fun j hj => by rw [hother j (List.mem_append_right _ hj)]
  simp only [List.countP_append, List.countP_cons, hl, hr, hself]
  cases c.isImageLoaded i
  · simp
    omega
  · simp

namespace Balanced

theorem congr (B : c.Balanced current) (ht : c'.tally = c.tally) (ha : c'.awaiting = c.awaiting) :
    c'.Balanced current := by
  obtain ⟨h1, h2⟩ := B
  refine ⟨?_, ?_⟩
  · rw [ht, h1]
  · simp only [pendingLoads, ht, ha] at h2 ⊢
    exact h2

theorem enqueue (B : c.Balanced current) (H : c.Keeps all current) (src : String) (asset : AssetId)
    (ready : Bool) :
    (c.enqueue src asset ready).2.Balanced (current ++ [(c.enqueue src asset ready).1]) := by
  have hsum := B.loaded_add
  refine ⟨?_, ?_⟩
  · rw [toLoad_enqueue, B.toLoad_eq, List.length_append, List.length_singleton]
  · rw [toLoad_enqueue, loaded_enqueue, H.pendingLoads_enqueue]
    cases ready <;> simp <;> omega

theorem enqueues (B : c.Balanced current) (H : c.Keeps all current) {q : List (Image × Bool)}
    (hq : Enqueues c q c') : c'.Balanced (current ++ q.map (·.1)) := by
  induction hq generalizing all current with
  | nil => simpa using B
  | cons src asset ready _ ih =>
    simpa using ih (B.enqueue H src asset ready) (H.enqueue src asset ready)

theorem notify (B : c.Balanced current) (H : c.Keeps all current) (event : AssetEvent) :
    (c.notify event).2.Balanced current := by
  have hp := H.pendingLoads_notify event
  have hl : (c.notify event).2.tally.loaded = c.tally.loaded + (c.notify event).1 :=
    loaded_announce event c.awaiting c.tally
  have ht : (c.notify event).2.tally.toLoad = c.tally.toLoad :=
    toLoad_announce event c.awaiting c.tally
  have hsum := B.loaded_add
  exact ⟨ht.trans B.toLoad_eq, by omega⟩

theorem complete (B : c.Balanced current) (H : c.Keeps all current) {i : Image} (hi : i ∈ current) :
    (c.complete i.ticket).2.Balanced current := by
  have hp := H.pendingLoads_complete hi
  have hl : (c.complete i.ticket).2.tally.loaded =
      c.tally.loaded + if (c.complete i.ticket).1 then 1 else 0 := c.tally.loaded_complete i.ticket
  have ht : (c.complete i.ticket).2.tally.toLoad = c.tally.toLoad :=
    c.tally.toLoad_complete i.ticket
  have hsum := B.loaded_add
  exact ⟨ht.trans B.toLoad_eq, by omega⟩

end Balanced

end Catalog

theorem Does.balanced {h : History} {c c' : Catalog} {d : Deed} (D : Does c d c')
    (hd : d.IsOrderly h) (H : c.Keeps h.images h.pictures) (B : c.Balanced h.pictures) :
    c'.Balanced (History.pictures (h ++ [d])) := by
  cases D with
  | @register c' t e ready _ _ hq =>
    have ht := c.tally_receive e.name
    have ha := c.awaiting_receive e.name
    have B' : (c'.put e).Balanced (h.pictures ++ (Deed.registered t e ready).images) :=
      ((B.congr ht ha).enqueues (H.congr ht ha) hq).congr rfl rfl
    simpa using B'
  | hear event => simpa using B.notify H event
  | complete k =>
    obtain ⟨i, hi, rfl⟩ := hd
    simpa using B.complete H hi
  | issue => exact hd.elim
  | zero => exact hd.elim
  | clear => simpa using ⟨rfl, rfl⟩

namespace Past

variable {h : History} {c : Catalog}

theorem balanced (H : Past h c) (O : h.Orderly) : c.Balanced h.pictures := by
  induction H with
  | start => exact ⟨rfl, rfl⟩
  | step H D ih =>
    obtain ⟨O, hd⟩ := History.orderly_concat.1 O
    exact D.balanced hd H.keeps (ih O)

/-- The pictures of entries are queued since the last reset. -/
theorem mem_pictures_of_get? (H : Past h c) {name : String} {e : Entry}
    (he : c.get? name = some e) {i : Image} (hi : i ∈ e.images) : i ∈ h.pictures := by
  induction H generalizing name e with
  | start => cases he
  | @step h c c' d _ D ih =>
    cases D with
    | @register c' t f ready _ hlen hq =>
      rw [History.pictures_concat (by simp), Deed.images_registered t hlen]
      by_cases hn : name = f.name
      · rw [hn, Catalog.get?_put_self] at he
        cases he
        exact List.mem_append_right _ hi
      · rw [Catalog.get?_put_of_ne _ hn, Catalog.get?, hq.records, Catalog.records_receive] at he
        exact List.mem_append_left _ (ih he hi)
    | clear => cases he
    | hear | complete | issue | zero => simpa using ih he hi

theorem mem_pictures_of_image? (H : Past h c) {name : String} {n : Nat} {i : Image}
    (hi : c.image? name n = some i) : i ∈ h.pictures := by
  obtain ⟨e, he, hi⟩ := Option.bind_eq_some_iff.1 hi
  exact H.mem_pictures_of_get? he (List.mem_of_getElem? hi)

theorem length_pictures (H : Past h c) :
    h.pictures.length = h.tiles.length + h.tiles.countP (·.goalUrl.isSome) := by
  induction H with
  | start => rfl
  | @step h c c' d _ D ih =>
    cases D with
    | @register c' t e ready hs hlen _ =>
      rw [History.pictures_concat (by simp), History.tiles_concat (by simp),
        Deed.images_registered t hlen]
      have hgoal : t.goalUrl.isSome = e.goal.isSome := by rw [← hs.goal, Option.isSome_map]
      cases hg : e.goal <;> simp [Entry.images, hg, hgoal, ih] <;> omega
    | clear => simp
    | hear | complete | issue | zero => simpa using ih

end Past

/-- What the counts of a catalog say of its history. -/
structure Catalog.Conserved (c : Catalog) (h : History) : Prop where
  toLoad_eq : c.tally.toLoad = c.tally.loaded + c.pendingLoads
  toLoad_pictures : c.tally.toLoad = h.pictures.length
  pictures_tiles : h.pictures.length = h.tiles.length + h.tiles.countP (·.goalUrl.isSome)
  settled_iff : c.progress.isSettled = true ↔ c.pendingLoads = 0
  loaded_of_settled : c.progress.isSettled = true → ∀ e ∈ c.entries, c.isEntryLoaded e = true

theorem Past.conserved {h : History} {c : Catalog} (H : Past h c) (O : h.Orderly) :
    c.Conserved h := by
  have B := H.balanced O
  have hsum := B.loaded_add
  have hsettled : c.progress.isSettled = true ↔ c.pendingLoads = 0 := by
    have : c.progress.isSettled = true ↔ c.tally.toLoad ≤ c.tally.loaded := decide_eq_true_iff
    rw [this]
    omega
  refine ⟨hsum.symm, B.toLoad_eq, H.length_pictures, hsettled, fun hs e he => ?_⟩
  obtain ⟨name, -, hget⟩ := List.mem_filterMap.1 he
  exact List.all_eq_true.2 fun i hi =>
    H.keeps.isImageLoaded_of_pendingLoads (hsettled.1 hs) (H.mem_pictures_of_get? hget hi)

/-! ### Consoles -/

/-- Deeds that are orderly whatever was done before. -/
def Deed.IsPlain : Deed → Prop
  | .registered .. | .heard _ | .cleared => True
  | _ => False

theorem History.Orderly.append_plain {h k : History} (O : h.Orderly) (hk : ∀ d ∈ k, d.IsPlain) :
    Orderly (h ++ k) := by
  induction k generalizing h with
  | nil => simpa using O
  | cons d k ih =>
    have hd : d.IsOrderly h := by
      have := hk d List.mem_cons_self
      cases d <;> simp_all [Deed.IsPlain, Deed.IsOrderly]
    rw [List.append_cons]
    exact ih (orderly_concat.2 ⟨O, hd⟩) fun d' hd' => hk d' (List.mem_cons_of_mem _ hd')

theorem History.Orderly.append_registered {h k : History} (O : h.Orderly)
    (hk : ∀ d ∈ k, ∃ t e ready, d = .registered t e ready) : Orderly (h ++ k) :=
  O.append_plain fun d hd => by
    obtain ⟨t, e, ready, rfl⟩ := hk d hd
    trivial

theorem History.Orderly.append_completed {h : History} (O : h.Orderly) {ks : List Ticket}
    (hk : ∀ k ∈ ks, ∃ i ∈ h.pictures, i.ticket = k) : Orderly (h ++ ks.map .completed) := by
  induction ks generalizing h with
  | nil => simpa using O
  | cons k ks ih =>
    rw [List.map_cons, List.append_cons]
    refine ih (orderly_concat.2 ⟨O, hk k List.mem_cons_self⟩) fun k' hk' => ?_
    simpa using hk k' (List.mem_cons_of_mem _ hk')

namespace Console

variable {σ : Type} [ImageSource σ]

/-- The commands leave the counts alone, and complete nothing after a reset that was kept before it.
At the start the first `old` slots were filled before the last reset. -/
def Careful (c : Console σ) (old : Nat) : List (Command σ) → Prop
  | [] => True
  | .queue :: _ | .resetTally :: _ => False
  | .reset :: commands => (c.step .reset).2.Careful c.slots.length commands
  | .completeHeld slot :: commands =>
    old ≤ slot ∧ (c.step (.completeHeld slot)).2.Careful old commands
  | command :: commands => (c.step command).2.Careful old commands

/-- The slots after the first `old` ones keep tickets of pictures queued since the last reset. -/
def Current (c : Console σ) (old : Nat) (h : History) : Prop :=
  ∀ slot held, old ≤ slot → c.slots[slot]? = some held →
    ∀ k ∈ held.tickets, ∃ i ∈ h.pictures, i.ticket = k

variable {c c' : Console σ} {old : Nat} {h k : History}

omit [ImageSource σ] in
theorem Current.append (K : c.Current old h) (hs : c'.slots = c.slots) (hk : .cleared ∉ k) :
    c'.Current old (h ++ k) := by
  intro slot held hle hslot t ht
  rw [hs] at hslot
  obtain ⟨i, hi, hit⟩ := K slot held hle hslot t ht
  refine ⟨i, ?_, hit⟩
  rw [History.pictures_append hk]
  exact List.mem_append_left _ hi

omit [ImageSource σ] in
theorem Current.keep (K : c.Current old h) {held : Held}
    (hh : ∀ k ∈ held.tickets, ∃ i ∈ h.pictures, i.ticket = k) : (c.keep held).2.Current old h := by
  intro slot held' hle hslot
  simp only [Console.keep, List.getElem?_append] at hslot
  split at hslot
  · exact K slot held' hle hslot
  · rw [List.getElem?_singleton] at hslot
    split at hslot
    · cases hslot
      exact hh
    · cases hslot

theorem Current.hold (K : c.Current old h) (H : Past h c.catalog) (name : String) (n : Option Nat) :
    (c.step (.hold name n)).2.Current old h := by
  simp only [Console.step]
  split
  · exact K
  · rename_i e he
    split
    · refine K.keep fun k hk => ?_
      obtain ⟨i, hi, rfl⟩ := List.mem_map.1 hk
      exact ⟨i, H.mem_pictures_of_get? he hi, rfl⟩
    · split
      · exact K
      · rename_i i hi
        refine K.keep fun k hk => ⟨i, H.mem_pictures_of_get? he (List.mem_of_getElem? hi), ?_⟩
        exact (List.mem_singleton.1 hk).symm

/-- Only `hold` and `queue` fill slots. -/
theorem slots_step (c : Console σ) {command : Command σ} (hq : command ≠ .queue)
    (hh : ∀ name n, command ≠ .hold name n) : (c.step command).2.slots = c.slots := by
  cases command with
  | queue => exact absurd rfl hq
  | hold name n => exact absurd rfl (hh name n)
  | complete name n =>
    simp only [Console.step]
    split
    · rfl
    · split <;> rfl
  | completeHeld slot | showHeld slot =>
    simp only [Console.step]
    split <;> rfl
  | _ => rfl

/-- Commands that keep nothing and do not clear the catalog leave what is kept current. -/
theorem Current.step (K : c.Current old h) {command : Command σ} (hq : command ≠ .queue)
    (hh : ∀ name n, command ≠ .hold name n) (hr : command ≠ .reset) :
    (c.step command).2.Current old (h ++ c.deeds command) :=
  K.append (slots_step c hq hh) fun hd => hr (eq_reset_of_cleared_mem_deeds hd)

/-- Every careful command is orderly, and what it keeps is current. -/
theorem Careful.step {command : Command σ} {commands : List (Command σ)}
    (C : c.Careful old (command :: commands)) (H : Past h c.catalog) (O : h.Orderly)
    (K : c.Current old h) :
    ∃ old', History.Orderly (h ++ c.deeds command) ∧
      (c.step command).2.Current old' (h ++ c.deeds command) ∧
      (c.step command).2.Careful old' commands := by
  cases command with
  | register t =>
    refine ⟨old, ?_, K.step (by simp) (by simp) (by simp), C⟩
    exact O.append_registered fun d hd => ⟨t, Session.exists_of_mem_registerDeeds hd⟩
  | registerAll ts =>
    refine ⟨old, ?_, K.step (by simp) (by simp) (by simp), C⟩
    exact O.append_registered fun d hd => Session.exists_of_mem_registerAllDeeds hd
  | registerText text =>
    refine ⟨old, ?_, K.step (by simp) (by simp) (by simp), C⟩
    exact O.append_registered fun d hd => Session.exists_of_mem_registerTextDeeds hd
  | notify event =>
    refine ⟨old, ?_, K.step (by simp) (by simp) (by simp), C⟩
    exact O.append_plain (by simp [deeds, Deed.IsPlain])
  | complete name n =>
    refine ⟨old, ?_, K.step (by simp) (by simp) (by simp), C⟩
    have hmap : c.deeds (.complete name n) =
        ((c.catalog.image? name n).toList.map (·.ticket)).map .completed := by simp [deeds]
    rw [hmap]
    refine O.append_completed fun k hk => ?_
    obtain ⟨i, hi, rfl⟩ := List.mem_map.1 hk
    exact ⟨i, H.mem_pictures_of_image? (Option.mem_toList.1 hi), rfl⟩
  | hold name n =>
    rw [deeds, List.append_nil]
    exact ⟨old, O, K.hold H name n, C⟩
  | completeHeld slot =>
    obtain ⟨hle, C⟩ := C
    refine ⟨old, ?_, K.step (by simp) (by simp) (by simp), C⟩
    simp only [deeds]
    cases hs : c.slots[slot]? with
    | none => simpa using O
    | some held => exact O.append_completed (K slot held hle hs)
  | reset =>
    refine ⟨c.slots.length, O.append_plain (by simp [deeds, Deed.IsPlain]), ?_, C⟩
    intro slot held hle hslot
    have hnone : (c.step .reset).2.slots[slot]? = none := List.getElem?_eq_none hle
    rw [hnone] at hslot
    cases hslot
  | queue => exact C.elim
  | resetTally => exact C.elim
  | advance _ | get _ | contains _ | counts | showHeld _ =>
    exact ⟨old, by simpa [deeds] using O, K.step (by simp) (by simp) (by simp), C⟩

theorem Careful.orderly_history {commands : List (Command σ)} (C : c.Careful old commands)
    (H : Past h c.catalog) (O : h.Orderly) (K : c.Current old h) :
    History.Orderly (h ++ c.history commands) := by
  induction commands generalizing c old h with
  | nil => simpa [history] using O
  | cons command commands ih =>
    obtain ⟨old', O', K', C'⟩ := C.step H O K
    rw [history, ← List.append_assoc]
    exact ih C' (past_step H command) O' K'

theorem Careful.orderly {source : σ} {commands : List (Command σ)}
    (C : (start source).Careful 0 commands) : ((start source).history commands).Orderly :=
  C.orderly_history (h := []) .start History.orderly_nil fun _ _ _ h => by cases h

end Console

/-! ### Interleavings -/

section Interleaving

variable {σ : Type} [ImageSource σ] {h k : History} {s s' : Session σ}
  {inbox inbox' : List AssetEvent}

theorem Happens.orderly (S : Happens s inbox k s' inbox') (H : Past h s.catalog) (O : h.Orderly) :
    History.Orderly (h ++ k) := by
  cases S with
  | register t => exact O.append_registered fun d hd => ⟨t, s.exists_of_mem_registerDeeds hd⟩
  | loadManifest => exact O.append_registered fun d hd => s.exists_of_mem_loadManifestDeeds hd
  | complete hi => exact History.orderly_concat.2 ⟨O, _, H.mem_pictures_of_image? hi, rfl⟩
  | reset => exact History.orderly_concat.2 ⟨O, trivial⟩
  | read =>
    refine O.append_plain fun d hd => ?_
    obtain ⟨event, -, rfl⟩ := s.exists_of_mem_hearAllDeeds hd
    trivial
  | change | note => simpa using O

theorem Proceeds.orderly (P : Proceeds s inbox k s' inbox') (H : Past h s.catalog)
    (O : h.Orderly) : History.Orderly (h ++ k) := by
  induction P with
  | refl =>
    rw [List.append_nil]
    exact O
  | step P S ih =>
    rw [← List.append_assoc]
    exact S.orderly (P.past H) ih

theorem Interleaving.orderly (I : Interleaving h s inbox) : h.Orderly := by
  induction I with
  | start => exact History.orderly_nil
  | step I S ih => exact S.orderly I.past ih

end Interleaving

/-- For every careful run of a console, over a source that may change at any time, and for every run
of an application, the counts are conserved: no run of an application touches the counts or
completes what was queued before a reset. -/
theorem counts_conserved :
    (∀ {σ : Type} [ImageSource σ] (source : σ) (commands : List (Console.Command σ)),
      (Console.start source).Careful 0 commands →
        ((Console.start source).run commands).catalog.Conserved
          ((Console.start source).history commands)) ∧
    ∀ (config : Config) (files : Files) (pictures : List String) (actions : List App.Action),
      ((App.idle config files pictures).history actions).Orderly ∧
        ((App.idle config files pictures).run actions).catalog.Conserved
          ((App.idle config files pictures).history actions) := by
  refine ⟨fun source commands C => ?_, fun config files pictures actions => ?_⟩
  · exact (Console.past_start source commands).conserved C.orderly
  · have I := App.interleaving_idle config files pictures actions
    exact ⟨I.orderly, I.past.conserved I.orderly⟩

/-- A picture is completed by hand, by a kept copy and by its event, its entry is replaced, and
after a reset what was kept since then is completed: one picture of two is loaded, and one is
pending. -/
theorem counts_conserved_kept :
    let wall := (TileSpec.named "wall" "wall.png").withGoal "goal.png"
    let commands : List (Console.Command Gallery) :=
      [.register wall, .hold "wall" (some 0), .complete "wall" 0, .completeHeld 0,
        .notify ⟨.loadedWithDependencies, .number 0⟩, .register wall, .reset, .register wall,
        .hold "wall" (some 1), .completeHeld 1]
    let c := ((Console.start ({} : Gallery)).run commands).catalog
    (Console.start ({} : Gallery)).Careful 0 commands ∧
      c.tally.toLoad = c.tally.loaded + c.pendingLoads ∧ c.tally.loaded = 1 ∧
      c.pendingLoads = 1 := by
  intro wall commands c
  have C : (Console.start ({} : Gallery)).Careful 0 commands := by
    simp only [commands, Console.Careful, and_true]
    decide +kernel
  have K : c.Conserved ((Console.start ({} : Gallery)).history commands) := counts_conserved.1 _ _ C
  exact ⟨C, K.toLoad_eq, by decide +kernel, by decide +kernel⟩

end TileCatalog
