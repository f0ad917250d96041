import TileCatalog.Proofs.Interleaving
import TileCatalog.Proofs.Loaded

/-!
# No load is lost

A picture may be queued before its asset is loaded, between that and the reading of the message that
says so, or later. In each case the picture is loaded or the message is still to be read
(`Delivers`), whatever happens in between: a picture of a loaded asset is loaded from the start, a
picture queued earlier waits for the message, and messages are read in vain only while no picture
waits. So once all messages are read, only pictures whose assets are not loaded are pending.
-/

namespace TileCatalog

/-- Neither a request nor a notice of what is held loads anything at once. -/
class ImageSource.Deferred (σ : Type) [ImageSource σ] : Prop where
  of_load {source : σ} {src : String} {asset : AssetId}
      (h : isLoaded (load source src).2 asset = true) : isLoaded source asset = true
  of_retain {source : σ} {assets : List AssetId} {asset : AssetId}
      (h : isLoaded (retain source assets) asset = true) : isLoaded source asset = true

namespace Depot

theorem loaded_ask_subset (d : Depot) (place : Place) (path : String) :
    (d.ask place path).loaded ⊆ d.loaded := by
  unfold ask reread
  dsimp only
  split
  · exact List.Subset.refl _
  · split
    · exact List.filter_subset_self _
    · exact List.Subset.refl _

instance : ImageSource.Deferred Depot where
  of_load {d src asset} h := by
    cases asset with
    | stored place =>
      simp only [ImageSource.isLoaded, isLoaded, ImageSource.load, load,
        List.contains_iff_mem] at h ⊢
      split at h
      · exact loaded_ask_subset _ _ _ h
      · exact h
    | number | nowhere => cases h
  of_retain h := h

end Depot

namespace Session

open ImageSource (isLoaded)

variable {σ : Type} [ImageSource σ]

/-- Every current picture whose asset is loaded is loaded itself, or a message that announces it is
not read yet. -/
def Delivers (s : Session σ) (inbox : List AssetEvent) (h : History) : Prop :=
  ∀ i ∈ h.pictures, isLoaded s.source i.asset = true →
    s.catalog.isImageLoaded i = true ∨ ∃ e ∈ inbox, e.announces i.asset = true

variable {s s' : Session σ} {inbox inbox' : List AssetEvent} {h k : History}

/-- No picture is queued, and all that is newly loaded is announced. -/
theorem Delivers.mono (V : s.Delivers inbox h) (H : Past h s.catalog)
    (H' : Past (h ++ k) s'.catalog) (hk : History.pictures (h ++ k) = h.pictures)
    (hloaded : ∀ asset, isLoaded s'.source asset = true →
      isLoaded s.source asset = true ∨ ∃ e ∈ inbox', e.announces asset = true)
    (hinbox : inbox ⊆ inbox') : s'.Delivers inbox' (h ++ k) := by
  intro i hi hl
  rw [hk] at hi
  rcases hloaded _ hl with hl | hann
  · rcases V i hi hl with hl | ⟨e, he, hann⟩
    · exact .inl (H.isImageLoaded_append H' (h.pictures_sublist.subset hi) hl)
    · exact .inr ⟨e, hinbox he, hann⟩
  · exact .inr hann

/-! ### Registering -/

section Deferred

variable [ImageSource.Deferred σ]

theorem isLoaded_of_queueEntry {name : String} {t : TileSpec} {asset : AssetId}
    (hl : isLoaded (s.queueEntry name t).2.source asset = true) :
    isLoaded s.source asset = true := by
  cases hg : t.goalUrl with
  | none =>
    simp only [queueEntry, queueImage?, hg] at hl
    exact ImageSource.Deferred.of_load hl
  | some url =>
    simp only [queueEntry, queueImage?, hg] at hl
    exact ImageSource.Deferred.of_load (ImageSource.Deferred.of_load hl)

/-- A picture whose asset is loaded when all pictures of its tile are queued was so when it was
queued itself. -/
theorem ready_of_isLoaded {name : String} {t : TileSpec} {i : Image} {ready : Bool}
    (hi : (i, ready) ∈ (s.queueEntry name t).1.images.zip (s.readiness t))
    (hl : isLoaded (s.queueEntry name t).2.source i.asset = true) : ready = true := by
  cases hg : t.goalUrl with
  | none =>
    simp only [queueEntry, queueImage?, readiness, hg] at hi hl
    obtain ⟨rfl, rfl⟩ := Prod.mk.inj (List.mem_singleton.1 hi)
    exact hl
  | some url =>
    simp only [queueEntry, queueImage?, readiness, hg] at hi hl
    rcases List.mem_cons.1 hi with hi | hi
    · obtain ⟨rfl, rfl⟩ := Prod.mk.inj hi
      exact ImageSource.Deferred.of_load hl
    · obtain ⟨rfl, rfl⟩ := Prod.mk.inj (List.mem_singleton.1 hi)
      exact hl

theorem isLoaded_of_register {t : TileSpec} {asset : AssetId}
    (hl : isLoaded (s.register t).2.source asset = true) : isLoaded s.source asset = true := by
  cases ht : t.validName with
  | none => rwa [register_nameless s ht] at hl
  | some name =>
    rw [register_named s ht] at hl
    have hqueue : isLoaded ((s.receive name).shareHeld.queueEntry name t).2.source asset = true :=
      hl
    have hreceive := ImageSource.Deferred.of_retain (isLoaded_of_queueEntry hqueue)
    rwa [source_receive] at hreceive

theorem Delivers.register (V : s.Delivers inbox h) (H : Past h s.catalog) (t : TileSpec) :
    (s.register t).2.Delivers inbox (h ++ s.registerDeeds t) := by
  have H' := past_register H t
  cases ht : t.validName with
  | none =>
    have hd : s.registerDeeds t = [] := by rw [registerDeeds, ht]
    rw [hd, register_nameless s ht, List.append_nil]
    exact V
  | some name =>
    have hd : s.registerDeeds t =
        [.registered t ((s.receive name).shareHeld.queueEntry name t).1
          ((s.receive name).shareHeld.readiness t)] := by rw [registerDeeds, ht]
    intro i hi hl
    rw [hd] at H' hi
    rw [History.pictures_concat (by simp)] at hi
    rcases List.mem_append.1 hi with hi | hi
    · -- queued before
      refine (V i hi (isLoaded_of_register hl)).imp_left fun hl => ?_
      exact H.isImageLoaded_append H' (h.pictures_sublist.subset hi) hl
    · -- queued just now, so that it is loaded if its source had it
      obtain ⟨⟨i, ready⟩, hq, rfl⟩ := List.mem_map.1 hi
      refine .inl ((H'.isImageLoaded_iff rfl hq).2 (.inl ?_))
      rw [register_named s ht] at hl
      exact ready_of_isLoaded hq hl

theorem Delivers.registerAll (V : s.Delivers inbox h) (H : Past h s.catalog) (ts : List TileSpec) :
    (s.registerAll ts).2.Delivers inbox (h ++ s.registerAllDeeds ts) := by
  induction ts generalizing s h with
  | nil => simpa [registerAllDeeds, Session.registerAll] using V
  | cons t ts ih =>
    cases ht : t.validName with
    | none =>
      rw [registerAllDeeds_nameless s ht, registerAll_nameless s ht, List.append_nil]
      exact V
    | some name =>
      rw [registerAllDeeds_named s ht, registerAll_named s ht, ← List.append_assoc]
      exact ih (V.register H t) (past_register H t)

theorem Delivers.loadManifest (V : s.Delivers inbox h) (H : Past h s.catalog) (files : Files)
    (path : String) :
    (s.loadManifest files path).Delivers inbox (h ++ s.loadManifestDeeds files path) := by
  unfold loadManifestDeeds Session.loadManifest
  split
  · rw [List.append_nil]
    exact V
  · cases Manifest.load files path with
    | error e =>
      rw [List.append_nil]
      exact V
    | ok m =>
      have V' := V.registerAll H m.tiles
      rw [← registerManifest_snd] at V'
      dsimp only
      split <;> rename_i he <;> rw [he] at V' <;> exact V'

end Deferred

/-! ### Reading messages -/

omit [ImageSource σ] in
@[simp] theorem source_hear (s : Session σ) (event : AssetEvent) :
    (s.hear event).source = s.source := by
  unfold hear
  dsimp only
  split <;> rfl

omit [ImageSource σ] in
@[simp] theorem source_hearAll (s : Session σ) (events : List AssetEvent) :
    (s.hearAll events).source = s.source := by
  induction events generalizing s with
  | nil => rfl
  | cons event events ih =>
    unfold hearAll
    split
    · exact ih s
    · rw [ih, source_hear]

omit [ImageSource σ] in
theorem pictures_hearAllDeeds (s : Session σ) (events : List AssetEvent) (h : History) :
    History.pictures (h ++ s.hearAllDeeds events) = h.pictures := by
  have hnone : History.images (s.hearAllDeeds events) = [] := by
    refine List.flatMap_eq_nil_iff.2 fun d hd => ?_
    obtain ⟨event, -, rfl⟩ := exists_of_mem_hearAllDeeds hd
    rfl
  have hclear : .cleared ∉ s.hearAllDeeds events := fun hd => by
    obtain ⟨event, -, h⟩ := exists_of_mem_hearAllDeeds hd
    cases h
  rw [History.pictures_append hclear, hnone, List.append_nil]

omit [ImageSource σ] in
/-- Reading messages loads all current pictures that they announce. A message passes unheard only
if all current pictures are loaded. -/
theorem isImageLoaded_hearAll (H : Past h s.catalog) {i : Image} (hi : i ∈ h.pictures)
    {events : List AssetEvent}
    (hl : s.catalog.isImageLoaded i = true ∨ ∃ e ∈ events, e.announces i.asset = true) :
    (s.hearAll events).catalog.isImageLoaded i = true := by
  induction events generalizing s h with
  | nil => simpa [hearAll] using hl
  | cons event events ih =>
    unfold hearAll
    split
    · rename_i hp
      exact ih H hi (.inl (H.keeps.isImageLoaded_of_pendingLoads hp hi))
    · have H' : Past (h ++ [.heard event]) (s.hear event).catalog := by
        rw [catalog_hear]
        exact H.step (.hear _ event)
      refine ih H' (by simpa using hi) ?_
      rw [catalog_hear, H.keeps.isImageLoaded_notify (h.pictures_sublist.subset hi)]
      rcases hl with hl | ⟨e, he, hann⟩
      · exact .inl (.inl hl)
      · rcases List.mem_cons.1 he with rfl | he
        · exact .inl (.inr ⟨hi, hann⟩)
        · exact .inr ⟨e, he, hann⟩

theorem Delivers.hearAll (V : s.Delivers inbox h) (H : Past h s.catalog) :
    (s.hearAll inbox).Delivers [] (h ++ s.hearAllDeeds inbox) := by
  intro i hi hl
  rw [pictures_hearAllDeeds] at hi
  rw [source_hearAll] at hl
  exact .inl (isImageLoaded_hearAll H hi (V i hi hl))

end Session

section Interleaving

variable {σ : Type} [ImageSource σ] [ImageSource.Deferred σ] {h k : History} {s s' : Session σ}
  {inbox inbox' : List AssetEvent}

theorem Happens.delivers (S : Happens s inbox k s' inbox') (H : Past h s.catalog)
    (V : s.Delivers inbox h) : s'.Delivers inbox' (h ++ k) := by
  have H' := S.past H
  cases S with
  | register t => exact V.register H t
  | loadManifest files path => exact V.loadManifest H files path
  | complete hi => exact V.mono H H' (by simp) (fun _ => .inl) (List.Subset.refl _)
  | reset => exact fun i hi => by simp at hi
  | change source news hnews =>
    refine V.mono H H' (by simp) (fun asset hl => ?_) (List.subset_append_left _ _)
    refine (hnews asset hl).imp_right fun ⟨e, he, hann⟩ => ?_
    exact ⟨e, List.mem_append_right _ he, hann⟩
  | read => exact V.hearAll H
  | note => exact V.mono H H' (by simp) (fun _ => .inl) (List.Subset.refl _)

theorem Interleaving.delivers (I : Interleaving h s inbox) : s.Delivers inbox h := by
  induction I with
  | start => exact fun i hi => by cases hi
  | step I S ih => exact S.delivers I.past ih

/-- Once all messages are read, the pictures of loaded assets are loaded. -/
theorem Interleaving.isImageLoaded (I : Interleaving h s []) {i : Image} (hi : i ∈ h.pictures)
    (hl : ImageSource.isLoaded s.source i.asset = true) : s.catalog.isImageLoaded i = true :=
  (I.delivers i hi hl).resolve_right (by simp)

/-- Once all messages are read, no picture of a loaded asset is pending. -/
theorem Interleaving.pendingLoads_eq (I : Interleaving h s []) :
    s.catalog.pendingLoads = h.pictures.countP fun i =>
      !s.catalog.isImageLoaded i && !ImageSource.isLoaded s.source i.asset := by
  rw [I.past.keeps.pendingLoads_eq]
  refine List.countP_congr fun i hi => ?_
  cases hl : ImageSource.isLoaded s.source i.asset with
  | false => simp
  | true => simp [I.isImageLoaded hi hl]

end Interleaving

open ImageSource (isLoaded) in
/-- However the steps follow each other, over a source that loads nothing at once: a current picture
whose asset is loaded is loaded, or a message that announces it is not read yet. So when all
messages are read, every such picture is loaded, and only pictures whose assets are not loaded are
pending. Every run of an application is such an interleaving. -/
theorem no_load_lost :
    (∀ {σ : Type} [ImageSource σ] [ImageSource.Deferred σ] {h : History} {s : Session σ}
      {inbox : List AssetEvent}, Interleaving h s inbox →
        s.Delivers inbox h ∧
        (inbox = [] →
          (∀ i ∈ h.pictures, isLoaded s.source i.asset = true → s.catalog.isImageLoaded i = true) ∧
          s.catalog.pendingLoads = h.pictures.countP fun i =>
            !s.catalog.isImageLoaded i && !isLoaded s.source i.asset)) ∧
    ∀ (config : Config) (files : Files) (pictures : List String) (actions : List App.Action),
      Interleaving ((App.idle config files pictures).history actions)
        ((App.idle config files pictures).run actions).session
        ((App.idle config files pictures).run actions).inbox := by
  refine ⟨fun I => ⟨I.delivers, ?_⟩, App.interleaving_idle⟩
  rintro rfl
  exact ⟨fun _ hi hl => I.isImageLoaded hi hl, I.pendingLoads_eq⟩

/-- A tile is registered before its picture arrives, and again before the message that tells so is
read: the replaced entry's picture waits for the message, which loads it. -/
theorem no_load_lost_replaced :
    let wall : TileSpec := .named "wall" "wall.png"
    let old : Image := ⟨"wall.png", .stored ⟨none, ["wall.png"], none⟩, ⟨0⟩⟩
    let actions : List App.Action :=
      [.register wall, .arrive "wall.png", .register wall, .post ⟨.removed, old.asset⟩]
    let a := (App.idle {} {} ["wall.png"]).run actions
    let a' := (App.idle {} {} ["wall.png"]).run (actions ++ [.update])
    (a.session.catalog.isImageLoaded old = false ∧ ∃ e ∈ a.inbox, e.announces old.asset = true) ∧
      a'.session.catalog.isImageLoaded old = true := by
  intro wall old actions a a'
  have V : a.session.Delivers a.inbox _ := (no_load_lost.1 (no_load_lost.2 _ _ _ actions)).1
  have V' := (no_load_lost.1 (no_load_lost.2 {} {} ["wall.png"] (actions ++ [.update]))).2
  have hwait : a.session.catalog.isImageLoaded old = false := by decide +kernel
  have hann : ∃ e ∈ a.inbox, e.announces old.asset = true := by
    refine (V old ?_ ?_).resolve_left ?_
    · decide +kernel
    · decide +kernel
    · rw [hwait]
      decide
  have hloaded : a'.session.catalog.isImageLoaded old = true := by
    refine (V' ?_).1 old ?_ ?_
    · decide +kernel
    · decide +kernel
    · decide +kernel
  exact ⟨⟨hwait, hann⟩, hloaded⟩

end TileCatalog
