import TileCatalog.Proofs.Batches
import TileCatalog.Proofs.Conservation
import TileCatalog.Proofs.Keyed
import TileCatalog.Proofs.Loaded
import TileCatalog.Proofs.Prefixes

/-!
# Tiles in another order

Registered in another order, tiles get other assets and tickets, and wait in another order. What can
be seen by name and by path stays the same if the source is keyed and tiles of one name keep their
order. The catalog is then known up to the order of the names (`Catalog.Reflects`): an entry shows
the last tile of its name, and a picture is loaded according to its path (`isDone`), whichever tile
it was first loaded for.
-/

namespace TileCatalog

open ImageSource TileSpec

/-! ### What the source was asked and answered -/

def History.queued (h : History) : List (Image × Bool) := h.flatMap Deed.queued

theorem History.images_eq (h : History) : images h = h.queued.map (·.1) := by
  rw [queued, List.map_flatMap]
  rfl

def ImageSource.Answer.of (q : Image × Bool) : Answer := ⟨q.1.src, q.1.asset, q.2⟩

namespace Session

variable {σ : Type} [ImageSource σ]

theorem answers_queueEntry (s : Session σ) (name : String) (t : TileSpec) :
    answers s.source (t.urls.map .load) =
        ((s.queueEntry name t).1.images.zip (s.readiness t)).map .of ∧
      serve s.source (t.urls.map .load) = (s.queueEntry name t).2.source := by
  unfold queueEntry readiness urls Entry.images
  cases t.goalUrl with
  | none => exact ⟨rfl, rfl⟩
  | some url => exact ⟨rfl, rfl⟩

theorem exists_requests_register (s : Session σ) (t : TileSpec) :
    ∃ requests, answers s.source requests = (History.queued (s.registerDeeds t)).map .of ∧
      serve s.source requests = (s.register t).2.source := by
  cases ht : t.validName with
  | none =>
    rw [registerDeeds, register_nameless s ht, ht]
    exact ⟨[], rfl, rfl⟩
  | some name =>
    obtain ⟨hanswers, hserve⟩ := answers_queueEntry (s.receive name).shareHeld name t
    have hsource : (s.receive name).shareHeld.source =
        retain s.source (s.receive name).catalog.assets := by
      rw [shareHeld, source_receive]
    rw [hsource] at hanswers hserve
    rw [registerDeeds, register_named s ht, ht]
    refine ⟨.retain (s.receive name).catalog.assets :: t.urls.map .load, ?_, hserve⟩
    simpa [History.queued, Deed.queued, answers] using hanswers

theorem exists_requests_registerAll (s : Session σ) (ts : List TileSpec) :
    ∃ requests, answers s.source requests = (History.queued (s.registerAllDeeds ts)).map .of ∧
      serve s.source requests = (s.registerAll ts).2.source := by
  induction ts generalizing s with
  | nil => exact ⟨[], rfl, rfl⟩
  | cons t ts ih =>
    cases ht : t.validName with
    | none =>
      rw [registerAllDeeds_nameless s ht, registerAll_nameless s ht]
      exact ⟨[], rfl, rfl⟩
    | some name =>
      obtain ⟨first, hanswers, hserve⟩ := s.exists_requests_register t
      obtain ⟨rest, hanswers', hserve'⟩ := ih (s.register t).2
      rw [registerAllDeeds_named s ht, registerAll_named s ht]
      refine ⟨first ++ rest, ?_, ?_⟩
      · rw [answers_append, hanswers, hserve, hanswers', ← List.map_append, History.queued,
          History.queued, History.queued, List.flatMap_append]
      · rw [serve_append, hserve, hserve']

theorem tiles_registerAllDeeds (s : Session σ) {ts : List TileSpec}
    (hts : ∀ t ∈ ts, t.isNamed = true) : (s.registerAllDeeds ts).filterMap Deed.tile? = ts := by
  induction ts generalizing s with
  | nil => rfl
  | cons t ts ih =>
    obtain ⟨name, ht⟩ := exists_validName (hts t List.mem_cons_self)
    have hfirst : (s.registerDeeds t).filterMap Deed.tile? = [t] := by
      rw [registerDeeds, ht]
      rfl
    rw [registerAllDeeds_named s ht, List.filterMap_append, hfirst,
      ih _ fun t ht => hts t (List.mem_cons_of_mem _ ht)]
    rfl

end Session

/-! ### Registrations alone -/

namespace History

def IsRegistering (h : History) : Prop := ∀ d ∈ h, ∃ t e ready, d = .registered t e ready

theorem sinceReset_of_not_mem {h : History} (hh : .cleared ∉ h) : h.sinceReset = h := by
  have happend := sinceReset_append [] h
  rwa [if_neg hh] at happend

theorem IsRegistering.cleared_not_mem {h : History} (hh : h.IsRegistering)
    (events : List AssetEvent) : .cleared ∉ h ++ events.map .heard := by
  intro hmem
  rcases List.mem_append.1 hmem with hmem | hmem
  · obtain ⟨t, e, ready, hd⟩ := hh _ hmem
    cases hd
  · obtain ⟨event, -, hd⟩ := List.mem_map.1 hmem
    cases hd

theorem IsRegistering.orderly {h : History} (hh : h.IsRegistering) (events : List AssetEvent) :
    Orderly (h ++ events.map .heard) := by
  have O : Orderly ([] ++ h) := orderly_nil.append_registered hh
  refine Orderly.append_plain O fun d hd => ?_
  obtain ⟨event, -, rfl⟩ := List.mem_map.1 hd
  trivial

theorem tiles_heard {h : History} (hh : h.IsRegistering) (events : List AssetEvent) :
    tiles (h ++ events.map .heard) = h.filterMap Deed.tile? := by
  rw [tiles, sinceReset_of_not_mem (hh.cleared_not_mem events), List.filterMap_append,
    List.filterMap_map]
  simp [Function.comp_def]

theorem pictures_heard {h : History} (hh : h.IsRegistering) (events : List AssetEvent) :
    pictures (h ++ events.map .heard) = h.queued.map (·.1) := by
  rw [pictures, sinceReset_of_not_mem (hh.cleared_not_mem events), images_append, ← images_eq]
  simp [images, List.flatMap_map]

end History

/-- As long as tiles are registered and nothing else is done, a picture is loaded if its source had
it. -/
theorem Past.isImageLoaded_of_queued {h : History} {c : Catalog} (H : Past h c)
    (hh : h.IsRegistering) {q : Image × Bool} (hq : q ∈ h.queued) :
    c.isImageLoaded q.1 = q.2 := by
  obtain ⟨d, hd, hqd⟩ := List.mem_flatMap.1 hq
  obtain ⟨before, after, rfl⟩ := List.append_of_mem hd
  have hafter : ∀ d' ∈ after, ∃ t e ready, d' = .registered t e ready := fun d' hd' =>
    hh d' (List.mem_append_right _ (List.mem_cons_of_mem _ hd'))
  rw [Bool.eq_iff_iff, H.isImageLoaded_iff rfl hqd]
  constructor
  · rintro (hready | ⟨event, hmem, -⟩ | hmem)
    · exact hready
    · obtain ⟨t, e, ready, he⟩ := hafter _ (List.takeWhile_subset _ hmem)
      cases he
    · obtain ⟨t, e, ready, he⟩ := hafter _ hmem
      cases he
  · intro hready
    exact .inl hready

/-! ### What can be seen of a catalog -/

theorem Past.map_src_pictures {h : History} {c : Catalog} (H : Past h c) :
    h.pictures.map (·.src) = h.tiles.flatMap urls := by
  induction H with
  | start => rfl
  | @step h c c' d _ D ih =>
    cases D with
    | @register c' t e ready hs hlen _ =>
      have hurls : e.images.map (·.src) = t.urls := by
        rw [Entry.images, urls, List.map_cons, hs.src, ← hs.goal]
        cases e.goal <;> rfl
      rw [History.pictures_concat (by simp), History.tiles_concat (by simp),
        Deed.images_registered t hlen, List.map_append, ih, hurls]
      simp
    | clear => simp
    | hear | complete | issue | zero => simpa using ih

theorem Past.notifyAll {h : History} {c : Catalog} (H : Past h c) (events : List AssetEvent) :
    Past (h ++ events.map .heard) (c.notifyAll events).2 := by
  induction events generalizing h c with
  | nil => simpa [Catalog.notifyAll] using H
  | cons event events ih =>
    have H' := ih (H.step (.hear c event))
    rwa [List.append_assoc] at H'

namespace Catalog

/-- A picture and whether it is loaded, or an entry with its pictures, as can be told by a reader
who does not look at assets and tickets. -/
def shown (c : Catalog) (i : Image) : String × Bool := (i.src, c.isImageLoaded i)

def shownEntry (c : Catalog) (e : Entry) : String × (String × Bool) × Option (String × Bool) :=
  (e.name, c.shown e.image, e.goal.map c.shown)

/-- The catalog is that of the tiles, with those pictures loaded whose paths are done. -/
structure Reflects (c : Catalog) (ts : List TileSpec) (done : String → Bool) : Prop where
  names_eq : c.names = firstNames ts
  get?_eq : ∀ name, (c.get? name).map c.shownEntry = (last? ts name).map fun t =>
    (name, (t.url, done t.url), t.goalUrl.map fun url => (url, done url))
  toLoad_eq : c.tally.toLoad = (ts.flatMap urls).length
  loaded_add : c.tally.loaded + c.pendingLoads = c.tally.toLoad
  pendingLoads_eq : c.pendingLoads = (ts.flatMap urls).countP (!done ·)

theorem shownEntry_eq {c : Catalog} {e : Entry} {t : TileSpec} (hs : e.Shows t)
    {done : String → Bool} (hdone : ∀ i ∈ e.images, c.isImageLoaded i = done i.src) :
    c.shownEntry e = (e.name, (t.url, done t.url), t.goalUrl.map fun url => (url, done url)) := by
  have himage : c.shown e.image = (t.url, done t.url) := by
    rw [shown, hdone e.image List.mem_cons_self, hs.src]
  have hgoal : e.goal.map c.shown = t.goalUrl.map fun url => (url, done url) := by
    rw [← hs.goal, Option.map_map]
    refine Option.map_congr fun g hg => ?_
    have hmem : g ∈ e.images := List.mem_cons_of_mem _ (Option.mem_toList.2 hg)
    rw [shown, hdone g hmem]
    rfl
  rw [shownEntry, himage, hgoal]

end Catalog

theorem Past.reflects {h : History} {c : Catalog} (H : Past h c) (O : h.Orderly)
    {done : String → Bool} (hdone : ∀ i ∈ h.pictures, c.isImageLoaded i = done i.src) :
    c.Reflects h.tiles done := by
  have M := H.mirrors
  have B := H.balanced O
  refine ⟨M.names_eq, fun name => ?_, ?_, B.loaded_add, ?_⟩
  · have hrel := M.get?_rel name
    generalize he : c.get? name = e? at hrel ⊢
    generalize last? h.tiles name = t? at hrel ⊢
    cases hrel with
    | none => rfl
    | some hs =>
      rw [Option.map_some, Option.map_some, Catalog.shownEntry_eq hs fun i hi =>
        hdone i (H.mem_pictures_of_get? he hi), M.name_of_get? he]
  · rw [B.toLoad_eq, ← H.map_src_pictures, List.length_map]
  · rw [H.keeps.pendingLoads_eq, ← H.map_src_pictures, List.countP_map]
    refine List.countP_congr fun i hi => ?_
    rw [hdone i hi]
    rfl

/-! ### Runs over keyed sources -/

section Keyed

variable {σ κ : Type} [ImageSource σ] [DecidableEq κ]

def Session.assetOf (s : Session σ) (src : String) : AssetId := (load s.source src).1

/-- Events told by paths, as the session gets them. -/
def Session.addressed (s : Session σ) (events : List (EventKind × String)) : List AssetEvent :=
  events.map fun e => ⟨e.1, s.assetOf e.2⟩

/-- A path is done if it was finished from the start or an event tells so. -/
def isDone (key : String → κ) (finished : String → Bool) (events : List (EventKind × String))
    (src : String) : Bool :=
  finished src ||
    events.any fun e => e.1 == .loadedWithDependencies && decide (key e.2 = key src)

variable {source : σ} {key : String → κ} {finished : String → Bool} {ts : List TileSpec}

omit [DecidableEq κ] in
/-- A picture was loaded when it was queued if its path is finished, and later it is announced by
the events for the paths with its key. -/
theorem ImageSource.IsKeyed.queued (K : IsKeyed source key finished)
    {q : Image × Bool} (hq : q ∈ History.queued (Session.registerAllDeeds { source } ts)) :
    q.2 = finished q.1.src ∧ ∀ src,
      (Session.registerAll { source } ts).2.assetOf src = q.1.asset ↔ key src = key q.1.src := by
  obtain ⟨requests, hanswers, hserve⟩ := Session.exists_requests_registerAll { source } ts
  have hmem : .of q ∈ answers source requests := by
    rw [hanswers]
    exact List.mem_map_of_mem hq
  refine ⟨K.ready_eq requests _ hmem, fun src => ?_⟩
  -- the source is asked for `src` in the end
  have happend := answers_append source requests [.load src]
  have hlast : answer (serve source requests) src ∈ answers source (requests ++ [.load src]) := by
    rw [happend]
    exact List.mem_append_right _ (List.mem_singleton_self _)
  have hfirst : .of q ∈ answers source (requests ++ [.load src]) := by
    rw [happend]
    exact List.mem_append_left _ hmem
  have hiff := K.asset_eq_iff _ _ hlast _ hfirst
  rw [hserve] at hiff
  exact hiff

/-- Registered over a keyed source, and after any events, a catalog is known by its tiles. -/
theorem ImageSource.IsKeyed.reflects (K : IsKeyed source key finished)
    (hts : ∀ t ∈ ts, t.isNamed = true) (events : List (EventKind × String)) :
    let s := (Session.registerAll { source } ts).2
    (s.catalog.notifyAll (s.addressed events)).2.Reflects ts (isDone key finished events) := by
  intro s
  let h := Session.registerAllDeeds { source } ts
  have hh : h.IsRegistering := fun d hd => Session.exists_of_mem_registerAllDeeds hd
  have H : Past h s.catalog := by
    simpa using Session.past_registerAll (s := { source }) .start ts
  have hdone : ∀ i ∈ History.pictures (h ++ (s.addressed events).map .heard),
      (s.catalog.notifyAll (s.addressed events)).2.isImageLoaded i =
        isDone key finished events i.src := by
    intro i hi
    rw [History.pictures_heard hh] at hi
    obtain ⟨q, hq, rfl⟩ := List.mem_map.1 hi
    obtain ⟨hready, hasset⟩ := K.queued hq
    have hall : q.1 ∈ h.images := by rwa [History.images_eq]
    have hcurrent : q.1 ∈ h.pictures := by
      have hnone := History.pictures_heard hh []
      rw [List.map_nil, List.append_nil] at hnone
      rwa [hnone]
    have hevents : (s.addressed events).any (·.announces q.1.asset) =
        events.any fun e => e.1 == .loadedWithDependencies && decide (key e.2 = key q.1.src) := by
      rw [Session.addressed, List.any_map]
      refine List.any_congr rfl fun e => ?_
      have hsame : (s.assetOf e.2 == q.1.asset) = decide (key e.2 = key q.1.src) := by
        rw [Bool.eq_iff_iff, beq_iff_eq, decide_eq_true_eq]
        exact hasset e.2
      rw [Function.comp_apply, AssetEvent.announces, hsame]
    rw [Bool.eq_iff_iff, H.keeps.isImageLoaded_notifyAll _ hall, H.isImageLoaded_of_queued hh hq,
      hready, hevents, isDone, Bool.or_eq_true]
    exact or_congr_right (and_iff_right hcurrent)
  have R := (H.notifyAll (s.addressed events)).reflects (hh.orderly _) hdone
  rwa [History.tiles_heard hh, Session.tiles_registerAllDeeds _ hts] at R

end Keyed

/-! ### Two runs -/

/-- Readers cannot tell the catalogs apart, unless they look at the order of the names. -/
structure Catalog.Agrees (c c' : Catalog) : Prop where
  names_perm : c.names.Perm c'.names
  get?_eq : ∀ name, (c.get? name).map c.shownEntry = (c'.get? name).map c'.shownEntry
  progress_eq : c.progress = c'.progress
  pendingLoads_eq : c.pendingLoads = c'.pendingLoads

namespace Catalog.Reflects

variable {c c' : Catalog} {ts ts' : List TileSpec} {done : String → Bool}

theorem pendingLoads_congr (R : c.Reflects ts done) (R' : c'.Reflects ts' done)
    (hp : ts.Perm ts') : c.pendingLoads = c'.pendingLoads := by
  rw [R.pendingLoads_eq, R'.pendingLoads_eq]
  exact (hp.flatMap_right urls).countP_eq _

/-- Tiles of one name may not change places. -/
theorem agrees (R : c.Reflects ts done) (R' : c'.Reflects ts' done) (hp : ts.Perm ts')
    (horder : ∀ name, last? ts name = last? ts' name) : c.Agrees c' := by
  have hpending := R.pendingLoads_congr R' hp
  have htoLoad : c.tally.toLoad = c'.tally.toLoad := by
    rw [R.toLoad_eq, R'.toLoad_eq]
    exact (hp.flatMap_right urls).length_eq
  have hloaded : c.tally.loaded = c'.tally.loaded := by
    have h := R.loaded_add
    have h' := R'.loaded_add
    omega
  refine ⟨?_, fun name => ?_, congrArg₂ Progress.mk hloaded htoLoad, hpending⟩
  · rw [R.names_eq, R'.names_eq,
      List.perm_ext_iff_of_nodup (nodup_firstNames ts) (nodup_firstNames ts')]
    intro name
    rw [mem_firstNames, mem_firstNames]
    exact exists_congr fun t => and_congr_left' hp.mem_iff
  · rw [R.get?_eq, R'.get?_eq, horder]

end Catalog.Reflects

theorem Catalog.notifyAll_concat (c : Catalog) (events : List AssetEvent) (event : AssetEvent) :
    (c.notifyAll (events ++ [event])).2 = ((c.notifyAll events).2.notify event).2 := by
  induction events generalizing c with
  | nil => rfl
  | cons e events ih => exact ih (c.notify e).2

theorem Session.pendingLoads_addressed_concat {σ : Type} [ImageSource σ] {h : History}
    {s : Session σ} (H : Past h s.catalog) (events : List (EventKind × String)) (kind : EventKind)
    (src : String) :
    let c := (s.catalog.notifyAll (s.addressed events)).2
    (s.catalog.notifyAll (s.addressed (events ++ [(kind, src)]))).2.pendingLoads +
      (c.notify ⟨kind, s.assetOf src⟩).1 = c.pendingLoads := by
  intro c
  have hlast : s.addressed (events ++ [(kind, src)]) =
      s.addressed events ++ [⟨kind, s.assetOf src⟩] := by
    simp [addressed]
  rw [hlast, Catalog.notifyAll_concat]
  exact (H.notifyAll (s.addressed events)).keeps.pendingLoads_notify ⟨kind, s.assetOf src⟩

theorem Session.registerAll_fst_of_named {σ : Type} [ImageSource σ] (s : Session σ)
    {ts : List TileSpec} (hts : ∀ t ∈ ts, t.isNamed = true) :
    (s.registerAll ts).1 = .ok ts.length := by
  rw [registerAll_eq, if_pos (takeWhile_isNamed.2 hts)]

theorem TileSpec.last?_eq_of_named {ts : List TileSpec} (hts : ∀ t ∈ ts, t.isNamed = true)
    (name : String) : last? ts name = (ts.filter (·.name = some name)).getLast? := by
  have hfilter : ts.filter (·.validName = some name) = ts.filter (·.name = some name) := by
    refine List.filter_congr fun t ht => ?_
    obtain ⟨n, hn⟩ := exists_validName (hts t ht)
    rw [hn, (validName_eq_some.1 hn).1]
  rw [last?, hfilter]

section TwoRuns

variable {σ σ' κ : Type} [ImageSource σ] [ImageSource σ'] {source : σ} {source' : σ'}
  {key : String → κ} {finished : String → Bool} {ts ts' : List TileSpec}

/-- Tiles with names are registered in two orders, which agree on the tiles of each name, over
sources that are keyed in the same way and have the same paths finished. Then readers cannot tell
the two catalogs apart, unless they look at the order of the names. This remains so after any
events, told by the paths of their pictures, and the next event counts as many pictures in one as in
the other. -/
theorem registerAll_perm (K : IsKeyed source key finished) (K' : IsKeyed source' key finished)
    (hts : ∀ t ∈ ts, t.isNamed = true) (hp : ts.Perm ts')
    (horder : ∀ name, ts.filter (·.name = some name) = ts'.filter (·.name = some name)) :
    let r := Session.registerAll { source } ts
    let r' := Session.registerAll { source := source' } ts'
    r.1 = .ok ts.length ∧ r'.1 = .ok ts'.length ∧ r.2.catalog.Agrees r'.2.catalog ∧
    ∀ events : List (EventKind × String),
      let c := (r.2.catalog.notifyAll (r.2.addressed events)).2
      let c' := (r'.2.catalog.notifyAll (r'.2.addressed events)).2
      c.Agrees c' ∧ ∀ kind src,
        (c.notify ⟨kind, r.2.assetOf src⟩).1 = (c'.notify ⟨kind, r'.2.assetOf src⟩).1 := by
  classical
  intro r r'
  have hts' : ∀ t ∈ ts', t.isNamed = true := fun t ht => hts t (hp.mem_iff.2 ht)
  have hlast : ∀ name, last? ts name = last? ts' name := fun name => by
    rw [last?_eq_of_named hts, last?_eq_of_named hts', horder]
  have H : Past _ r.2.catalog := Session.past_registerAll (s := { source }) .start ts
  have H' : Past _ r'.2.catalog := Session.past_registerAll (s := { source := source' }) .start ts'
  refine ⟨Session.registerAll_fst_of_named _ hts, Session.registerAll_fst_of_named _ hts',
    (K.reflects hts []).agrees (K'.reflects hts' []) hp hlast, ?_⟩
  intro events c c'
  refine ⟨(K.reflects hts events).agrees (K'.reflects hts' events) hp hlast, fun kind src => ?_⟩
  -- the catalogs agree before and after the next event
  have hbefore : c.pendingLoads = c'.pendingLoads :=
    (K.reflects hts events).pendingLoads_congr (K'.reflects hts' events) hp
  have hafter := (K.reflects hts (events ++ [(kind, src)])).pendingLoads_congr
    (K'.reflects hts' (events ++ [(kind, src)])) hp
  have hcount := Session.pendingLoads_addressed_concat H events kind src
  have hcount' := Session.pendingLoads_addressed_concat H' events kind src
  refine Nat.add_left_cancel (hcount.trans (hbefore.trans (hcount'.symm.trans ?_)))
  exact congrArg (· + _) hafter.symm

/-- Two tiles share a picture, for which there is another asset in the other order. One of them
replaces a tile that showed it too, and this still counts. -/
theorem registerAll_perm_shared :
    let g : Gallery := { sources := ["floor.png"], finished := [.number 0] }
    let old : TileSpec := .named "wall" "stone.png"
    let new : TileSpec := .withGoal (.named "wall" "floor.png") "stone.png"
    let crate : TileSpec := .withGoal (.named "crate" "crate.png") "stone.png"
    let s := (Session.registerAll { source := g } [old, new, crate]).2
    let s' := (Session.registerAll { source := g } [crate, old, new]).2
    let events : List (EventKind × String) :=
      [(.removed, "stone.png"), (.loadedWithDependencies, "stone.png")]
    let c := (s.catalog.notifyAll (s.addressed events)).2
    let c' := (s'.catalog.notifyAll (s'.addressed events)).2
    s.assetOf "stone.png" ≠ s'.assetOf "stone.png" ∧ s.catalog.Agrees s'.catalog ∧
      c.Agrees c' ∧
      (c.notify ⟨.loadedWithDependencies, s.assetOf "crate.png"⟩).1 =
        (c'.notify ⟨.loadedWithDependencies, s'.assetOf "crate.png"⟩).1 ∧
      s.catalog.pendingLoads = 4 ∧ c.pendingLoads = 1 := by
  intro g old new crate s s' events c c'
  have K : IsKeyed g id fun src => g.finished.contains (g.named src) :=
    Gallery.isKeyed rfl (by decide)
  have horder : ∀ name, [old, new, crate].filter (·.name = some name) =
      [crate, old, new].filter (·.name = some name) := by
    intro name
    by_cases hc : "crate" = name
    · subst hc
      decide
    · by_cases hw : "wall" = name
      · subst hw
        decide
      · simp [old, new, crate, TileSpec.named, TileSpec.withGoal, hc, hw]
  have hts : ∀ t ∈ [old, new, crate], t.isNamed = true := by decide
  have hp : [old, new, crate].Perm [crate, old, new] := by decide
  obtain ⟨-, -, hstart, hagree⟩ := registerAll_perm K K hts hp horder
  obtain ⟨hafter, hnext⟩ := hagree events
  have hassets : s.assetOf "stone.png" ≠ s'.assetOf "stone.png" := by decide +kernel
  have hpending : s.catalog.pendingLoads = 4 := by decide +kernel
  have hleft : c.pendingLoads = 1 := by decide +kernel
  exact ⟨hassets, hstart, hafter, hnext .loadedWithDependencies "crate.png", hpending, hleft⟩

end TwoRuns

end TileCatalog
