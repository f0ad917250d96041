import TileCatalog.App
import TileCatalog.Proofs.Runs

/-!
# Interleavings

A session whose source posts messages, which the session reads now and then. `Happens` lists the
steps, with what each does to the catalog: tiles are registered, pictures of entries are completed,
the catalog is cleared, the source changes, the messages are read. They may follow each other in any
order (`Interleaving`). The source may change in any way and post any messages, as long as it
announces what it newly says is loaded.

Whatever an application does, it does by such steps (`App.proceeds_perform`), so its runs are
interleavings (`App.interleaving_idle`). What each step keeps, they keep: the catalog has the past
that the steps tell (`Proceeds.past`, `Interleaving.past`).
-/

namespace TileCatalog

variable {σ : Type} [ImageSource σ]

/-- A step of a session and the messages it has not read, and what the step does to the catalog. -/
inductive Happens : Session σ → List AssetEvent → History → Session σ → List AssetEvent → Prop
  | register (s : Session σ) (inbox : List AssetEvent) (t : TileSpec) :
      Happens s inbox (s.registerDeeds t) (s.register t).2 inbox
  | loadManifest (s : Session σ) (inbox : List AssetEvent) (files : Files) (path : String) :
      Happens s inbox (s.loadManifestDeeds files path) (s.loadManifest files path) inbox
  | complete (s : Session σ) (inbox : List AssetEvent) {name : String} {n : Nat} {i : Image}
      (hi : s.catalog.image? name n = some i) :
      Happens s inbox [.completed i.ticket]
        { s with catalog := (s.catalog.complete i.ticket).2 } inbox
  | reset (s : Session σ) (inbox : List AssetEvent) :
      Happens s inbox [.cleared] { s with catalog := s.catalog.reset } inbox
  /-- The source posts `news`, which announce all that it did not say was loaded before. -/
  | change (s : Session σ) (inbox : List AssetEvent) (source : σ) (news : List AssetEvent)
      (hnews : ∀ asset, ImageSource.isLoaded source asset = true →
        ImageSource.isLoaded s.source asset = true ∨ ∃ e ∈ news, e.announces asset = true) :
      Happens s inbox [] { s with source } (inbox ++ news)
  | read (s : Session σ) (inbox : List AssetEvent) :
      Happens s inbox (s.hearAllDeeds inbox) (s.hearAll inbox) []
  | note (s : Session σ) (inbox : List AssetEvent) (line : LogLine) :
      Happens s inbox [] (s.note line) inbox

/-- Steps in any order, from an empty catalog over any source. -/
inductive Interleaving : History → Session σ → List AssetEvent → Prop
  | start (source : σ) : Interleaving [] { source } []
  | step {h k : History} {s s' : Session σ} {inbox inbox' : List AssetEvent}
      (I : Interleaving h s inbox) (S : Happens s inbox k s' inbox') :
      Interleaving (h ++ k) s' inbox'

variable {h k : History} {s s' : Session σ} {inbox inbox' : List AssetEvent}

theorem Happens.past (S : Happens s inbox k s' inbox') (H : Past h s.catalog) :
    Past (h ++ k) s'.catalog := by
  cases S with
  | register t => exact s.past_register H t
  | loadManifest files path => exact s.past_loadManifest H files path
  | complete hi => exact H.step (.complete _ _)
  | reset => exact H.step (.clear _)
  | read => exact s.past_hearAll H inbox
  | change | note =>
    rw [List.append_nil]
    exact H

theorem Interleaving.past (I : Interleaving h s inbox) : Past h s.catalog := by
  induction I with
  | start => exact .start
  | step _ S ih => exact S.past ih

/-- Steps one after the other, and what they do to the catalog together. -/
inductive Proceeds (s : Session σ) (inbox : List AssetEvent) :
    History → Session σ → List AssetEvent → Prop
  | refl : Proceeds s inbox [] s inbox
  | step {k k' : History} {s' s'' : Session σ} {inbox' inbox'' : List AssetEvent}
      (P : Proceeds s inbox k s' inbox') (S : Happens s' inbox' k' s'' inbox'') :
      Proceeds s inbox (k ++ k') s'' inbox''

namespace Proceeds

variable {k' : History} {s'' : Session σ} {inbox'' : List AssetEvent}

theorem single (S : Happens s inbox k s' inbox') : Proceeds s inbox k s' inbox' :=
  refl.step S

theorem trans (P : Proceeds s inbox k s' inbox') (P' : Proceeds s' inbox' k' s'' inbox'') :
    Proceeds s inbox (k ++ k') s'' inbox'' := by
  induction P' with
  | refl =>
    rw [List.append_nil]
    exact P
  | step _ S ih =>
    rw [← List.append_assoc]
    exact ih.step S

theorem idle (P : Proceeds s inbox k s' inbox') (P' : Proceeds s' inbox' [] s'' inbox'') :
    Proceeds s inbox k s'' inbox'' := by
  rw [← k.append_nil]
  exact P.trans P'

theorem past (P : Proceeds s inbox k s' inbox') (H : Past h s.catalog) :
    Past (h ++ k) s'.catalog := by
  induction P with
  | refl =>
    rw [List.append_nil]
    exact H
  | step _ S ih =>
    rw [← List.append_assoc]
    exact S.past ih

end Proceeds

theorem Interleaving.proceeds (I : Interleaving h s inbox) (P : Proceeds s inbox k s' inbox') :
    Interleaving (h ++ k) s' inbox' := by
  induction P with
  | refl =>
    rw [List.append_nil]
    exact I
  | step _ S ih =>
    rw [← List.append_assoc]
    exact ih.step S

namespace Depot

@[simp] theorem loaded_pin (d : Depot) (asset : AssetId) : (d.pin asset).loaded = d.loaded := by
  unfold pin
  split <;> rfl

@[simp] theorem loaded_pinAll (swatches : List Swatch) (d : Depot) :
    (swatches.foldl (fun d s => d.pin s.asset) d).loaded = d.loaded := by
  induction swatches generalizing d with
  | nil => rfl
  | cons s swatches ih => rw [List.foldl_cons, ih, loaded_pin]

theorem isLoaded_congr {d d' : Depot} (hd : d'.loaded = d.loaded) (asset : AssetId) :
    ImageSource.isLoaded d' asset = ImageSource.isLoaded d asset := by
  cases asset with
  | stored place => exact congrArg (·.contains place) hd
  | number | nowhere => rfl

theorem announced_of_isLoaded_arrive {d : Depot} {place : Place} {asset : AssetId}
    (ha : ImageSource.isLoaded (d.arrive place) asset = true) :
    ImageSource.isLoaded d asset = true ∨ asset = .stored place := by
  cases asset with
  | stored place' => simpa [ImageSource.isLoaded, isLoaded, arrive] using ha
  | number | nowhere => cases ha

/-- The source may change without posting anything as long as it loads nothing. -/
theorem proceeds_change (s : Session Depot) (inbox : List AssetEvent) {d : Depot}
    (hd : d.loaded = s.source.loaded) : Proceeds s inbox [] { s with source := d } inbox := by
  have S := Happens.change s inbox d [] fun asset ha =>
    .inl ((isLoaded_congr hd asset).symm.trans ha)
  rw [List.append_nil] at S
  exact .single S

end Depot

/-! ### Applications -/

namespace App

def updateDeeds (a : App) : History := a.session.hearAllDeeds a.inbox

def loadManifestDeeds (a : App) : History :=
  a.session.loadManifestDeeds a.files a.config.manifestPath

/-- What an action does to the catalog. -/
def deeds (a : App) : Action → History
  | .startUp => a.loadManifestDeeds
  | .update => a.updateDeeds
  | .load src => a.updateDeeds ++ (a.update.arrive src).updateDeeds
  | .register t => a.session.registerDeeds t
  | .complete name n => (a.catalog.image? name n).toList.map fun i => .completed i.ticket
  | .reset => [.cleared]
  | .reload path content => (a.replaceManifest path content).loadManifestDeeds
  | .arrive _ | .post _ | .setReporting _ | .palette => []

def run (a : App) (actions : List Action) : App :=
  actions.foldl (fun a action => (a.perform action).2) a

/-- What the actions of a run do to the catalog, one after the other. -/
def history (a : App) : List Action → History
  | [] => []
  | action :: actions => a.deeds action ++ (a.perform action).2.history actions

theorem proceeds_loadManifest (a : App) :
    Proceeds a.session a.inbox a.loadManifestDeeds a.loadManifest.session a.loadManifest.inbox :=
  .single (.loadManifest a.session a.inbox a.files a.config.manifestPath)

theorem proceeds_spawnPalette (a : App) :
    Proceeds a.session a.inbox [] a.spawnPalette.session a.spawnPalette.inbox := by
  have P := Proceeds.single (.note a.session a.inbox (.palette a.catalog.names.length))
  exact P.idle (Depot.proceeds_change _ _ (Depot.loaded_pinAll _ _))

theorem proceeds_report (a : App) :
    Proceeds a.session a.inbox [] a.report.session a.report.inbox := by
  unfold report
  split
  · exact .refl
  · exact .single (.note a.session a.inbox _)

theorem proceeds_readInbox (a : App) :
    Proceeds a.session a.inbox a.updateDeeds a.readInbox.session a.readInbox.inbox :=
  .single (.read a.session a.inbox)

theorem proceeds_update (a : App) :
    Proceeds a.session a.inbox a.updateDeeds a.update.session a.update.inbox := by
  have P := a.proceeds_readInbox.idle a.readInbox.proceeds_report
  -- sharing what is held and forgetting what is not leave the loaded places as they are
  exact P.idle (Depot.proceeds_change _ _ rfl)

theorem proceeds_post (a : App) (event : AssetEvent) :
    Proceeds a.session a.inbox [] (a.post event).session (a.post event).inbox :=
  .single (.change a.session a.inbox a.session.source [event] fun _ => .inl)

theorem proceeds_arrive (a : App) (src : String) :
    Proceeds a.session a.inbox [] (a.arrive src).session (a.arrive src).inbox := by
  unfold arrive
  split
  · exact .refl
  · rename_i place _
    split
    · refine .single (.change a.session a.inbox (a.session.source.arrive place)
        [⟨.loadedWithDependencies, .stored place⟩] fun asset ha => ?_)
      refine (Depot.announced_of_isLoaded_arrive ha).imp_right fun h => ?_
      simp [h, AssetEvent.announces]
    · exact .refl

/-- Every action goes by steps of the session, and does to the catalog what they do. -/
theorem proceeds_perform (a : App) (action : Action) :
    Proceeds a.session a.inbox (a.deeds action) (a.perform action).2.session
      (a.perform action).2.inbox := by
  cases action with
  | startUp => exact a.proceeds_loadManifest.idle a.loadManifest.proceeds_spawnPalette
  | update => exact a.proceeds_update
  | load src =>
    exact (a.proceeds_update.idle (a.update.proceeds_arrive src)).trans (proceeds_update _)
  | arrive src => exact a.proceeds_arrive src
  | post event => exact a.proceeds_post event
  | register t => exact .single (.register a.session a.inbox t)
  | complete name n =>
    simp only [deeds, perform]
    cases hi : a.catalog.image? name n with
    | none => exact .refl
    | some i => exact .single (.complete a.session a.inbox hi)
  | reset => exact .single (.reset a.session a.inbox)
  | setReporting value => exact .refl
  | reload path content => exact proceeds_loadManifest (a.replaceManifest path content)
  | palette => exact a.proceeds_spawnPalette

theorem proceeds_run (a : App) (actions : List Action) :
    Proceeds a.session a.inbox (a.history actions) (a.run actions).session
      (a.run actions).inbox := by
  induction actions generalizing a with
  | nil => exact .refl
  | cons action actions ih => exact (a.proceeds_perform action).trans (ih _)

theorem interleaving_idle (config : Config) (files : Files) (pictures : List String)
    (actions : List Action) :
    Interleaving ((idle config files pictures).history actions)
      ((idle config files pictures).run actions).session
      ((idle config files pictures).run actions).inbox := by
  have I : Interleaving [] (idle config files pictures).session
      (idle config files pictures).inbox := .start (Depot.ofPaths pictures)
  simpa using I.proceeds (proceeds_run _ actions)

end App

end TileCatalog
