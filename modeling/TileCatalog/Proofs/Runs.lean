import TileCatalog.Catalog.Console
import TileCatalog.Proofs.Past

/-!
# Histories of runs

What a session or a console does to its catalog, operation by operation. A history is read off the
operations and the answers of the source; the catalog that the operations leave is the one that the
history makes (`Console.past_run`).
-/

namespace TileCatalog

namespace Session

variable {σ : Type} [ImageSource σ]

/-- Whether the source, asked for the picture at `src`, says that it is loaded. -/
def isReady (s : Session σ) (src : String) : Bool :=
  ImageSource.isLoaded (ImageSource.load s.source src).2 (ImageSource.load s.source src).1

/-- What the source says of the pictures of a tile as they are queued. -/
def readiness (s : Session σ) (t : TileSpec) : List Bool :=
  s.isReady t.url :: (t.goalUrl.map (s.queueImage t.url).2.isReady).toList

def registerDeeds (s : Session σ) (t : TileSpec) : History :=
  match t.validName with
  | none => []
  | some name =>
    let s := (s.receive name).shareHeld
    [.registered t (s.queueEntry name t).1 (s.readiness t)]

def registerAllDeeds (s : Session σ) : List TileSpec → History
  | [] => []
  | t :: ts =>
    match s.register t with
    | (.error _, _) => []
    | (.ok _, s') => s.registerDeeds t ++ s'.registerAllDeeds ts

def registerTextDeeds (s : Session σ) (text : String) : History :=
  match Manifest.ofText text with
  | .error _ => []
  | .ok m => s.registerAllDeeds m.tiles

def loadManifestDeeds (s : Session σ) (files : Files) (path : String) : History :=
  if !files.has path then []
  else
    match Manifest.load files path with
    | .error _ => []
    | .ok m => s.registerAllDeeds m.tiles

/-- Events that pass unheard are no deeds. -/
def hearAllDeeds (s : Session σ) : List AssetEvent → History
  | [] => []
  | event :: events =>
    if s.catalog.pendingLoads = 0 then s.hearAllDeeds events
    else .heard event :: (s.hear event).hearAllDeeds events

/-! ### Catalogs under the operations -/

@[simp] theorem catalog_note {σ : Type} (s : Session σ) (line : LogLine) :
    (s.note line).catalog = s.catalog := rfl

@[simp] theorem catalog_shareHeld (s : Session σ) : s.shareHeld.catalog = s.catalog := rfl

@[simp] theorem catalog_receive {σ : Type} (s : Session σ) (name : String) :
    (s.receive name).catalog = s.catalog.receive name := by
  unfold receive Catalog.receive
  split <;> rfl

@[simp] theorem source_receive {σ : Type} (s : Session σ) (name : String) :
    (s.receive name).source = s.source := by
  unfold receive
  split <;> rfl

@[simp] theorem catalog_hear {σ : Type} (s : Session σ) (event : AssetEvent) :
    (s.hear event).catalog = (s.catalog.notify event).2 := by
  unfold hear
  dsimp only
  split <;> rfl

theorem enqueues_queueEntry (s : Session σ) (name : String) (t : TileSpec) :
    Enqueues s.catalog ((s.queueEntry name t).1.images.zip (s.readiness t))
      (s.queueEntry name t).2.catalog := by
  cases hg : t.goalUrl with
  | none =>
    simp only [queueEntry, queueImage?, readiness, hg]
    exact .cons _ _ _ (.nil _)
  | some url =>
    simp only [queueEntry, queueImage?, readiness, hg]
    exact .cons _ _ _ (.cons _ _ _ (.nil _))

theorem length_readiness (s : Session σ) (name : String) (t : TileSpec) :
    (s.readiness t).length = (s.queueEntry name t).1.images.length := by
  cases hg : t.goalUrl <;> simp [readiness, queueEntry, queueImage?, Entry.images, hg]

theorem shows_queueEntry (s : Session σ) {name : String} {t : TileSpec}
    (h : t.validName = some name) : (s.queueEntry name t).1.Shows t := by
  refine ⟨h, rfl, ?_⟩
  cases hg : t.goalUrl <;> simp [queueEntry, queueImage?, hg, queueImage]

variable {s : Session σ} {h : History}

theorem register_nameless (s : Session σ) {t : TileSpec} (ht : t.validName = none) :
    s.register t = (.error {}, s) := by
  unfold register
  rw [ht]

theorem register_named (s : Session σ) {t : TileSpec} {name : String}
    (ht : t.validName = some name) :
    s.register t = (.ok (s.registerAs name t).1, (s.registerAs name t).2) := by
  unfold register
  rw [ht]

theorem past_register (H : Past h s.catalog) (t : TileSpec) :
    Past (h ++ s.registerDeeds t) (s.register t).2.catalog := by
  unfold registerDeeds
  cases ht : t.validName with
  | none =>
    rw [register_nameless s ht]
    simpa using H
  | some name =>
    rw [register_named s ht]
    have hq := enqueues_queueEntry (s.receive name).shareHeld name t
    rw [catalog_shareHeld, catalog_receive] at hq
    exact H.step (.register (shows_queueEntry _ ht) (length_readiness _ _ _) hq)

theorem registerAll_nameless (s : Session σ) {t : TileSpec} (ht : t.validName = none)
    (ts : List TileSpec) : s.registerAll (t :: ts) = (.error {}, s) := by
  rw [registerAll, register_nameless s ht]

theorem registerAll_named (s : Session σ) {t : TileSpec} {name : String}
    (ht : t.validName = some name) (ts : List TileSpec) :
    s.registerAll (t :: ts) =
      (((s.register t).2.registerAll ts).1.map (· + 1), ((s.register t).2.registerAll ts).2) := by
  rw [registerAll, register_named s ht]
  dsimp only
  split <;> rename_i he <;> rw [he] <;> rfl

theorem registerAllDeeds_nameless (s : Session σ) {t : TileSpec} (ht : t.validName = none)
    (ts : List TileSpec) : s.registerAllDeeds (t :: ts) = [] := by
  rw [registerAllDeeds, register_nameless s ht]

theorem registerAllDeeds_named (s : Session σ) {t : TileSpec} {name : String}
    (ht : t.validName = some name) (ts : List TileSpec) :
    s.registerAllDeeds (t :: ts) = s.registerDeeds t ++ (s.register t).2.registerAllDeeds ts := by
  rw [registerAllDeeds, register_named s ht]

/-- Registering does nothing else. -/
theorem exists_of_mem_registerDeeds {t : TileSpec} {d : Deed} (hd : d ∈ s.registerDeeds t) :
    ∃ e ready, d = .registered t e ready := by
  unfold registerDeeds at hd
  split at hd
  · simp at hd
  · exact ⟨_, _, List.mem_singleton.1 hd⟩

theorem exists_of_mem_registerAllDeeds {ts : List TileSpec} {d : Deed}
    (hd : d ∈ s.registerAllDeeds ts) : ∃ t e ready, d = .registered t e ready := by
  induction ts generalizing s with
  | nil => simp [registerAllDeeds] at hd
  | cons t ts ih =>
    unfold registerAllDeeds at hd
    split at hd
    · simp at hd
    · rcases List.mem_append.1 hd with hd | hd
      · exact ⟨t, exists_of_mem_registerDeeds hd⟩
      · exact ih hd

theorem exists_of_mem_registerTextDeeds {text : String} {d : Deed}
    (hd : d ∈ s.registerTextDeeds text) : ∃ t e ready, d = .registered t e ready := by
  unfold registerTextDeeds at hd
  split at hd
  · simp at hd
  · exact exists_of_mem_registerAllDeeds hd

theorem exists_of_mem_loadManifestDeeds {files : Files} {path : String} {d : Deed}
    (hd : d ∈ s.loadManifestDeeds files path) : ∃ t e ready, d = .registered t e ready := by
  unfold loadManifestDeeds at hd
  split at hd
  · simp at hd
  · split at hd
    · simp at hd
    · exact exists_of_mem_registerAllDeeds hd

omit [ImageSource σ] in
theorem exists_of_mem_hearAllDeeds {events : List AssetEvent} {d : Deed}
    (hd : d ∈ s.hearAllDeeds events) : ∃ event ∈ events, d = .heard event := by
  induction events generalizing s with
  | nil => simp [hearAllDeeds] at hd
  | cons event events ih =>
    have hrest : ∀ {s : Session σ}, d ∈ s.hearAllDeeds events →
        ∃ e ∈ event :: events, d = .heard e := fun hd =>
      (ih hd).imp fun _ h => ⟨List.mem_cons_of_mem _ h.1, h.2⟩
    unfold hearAllDeeds at hd
    split at hd
    · exact hrest hd
    · rcases List.mem_cons.1 hd with rfl | hd
      · exact ⟨event, List.mem_cons_self, rfl⟩
      · exact hrest hd

theorem past_registerAll (H : Past h s.catalog) (ts : List TileSpec) :
    Past (h ++ s.registerAllDeeds ts) (s.registerAll ts).2.catalog := by
  induction ts generalizing s h with
  | nil => simpa [registerAllDeeds, registerAll] using H
  | cons t ts ih =>
    cases ht : t.validName with
    | none =>
      rw [registerAllDeeds_nameless s ht, registerAll_nameless s ht]
      simpa using H
    | some name =>
      rw [registerAllDeeds_named s ht, registerAll_named s ht, ← List.append_assoc]
      exact ih (past_register H t)

theorem registerManifest_fst (s : Session σ) (m : Manifest) :
    (s.registerManifest m).1 = (s.registerAll m.tiles).1.mapError .registration := by
  unfold registerManifest
  split <;> rename_i he <;> rw [he] <;> rfl

/-- Whatever becomes of the result, the tiles of a manifest are registered as a list of tiles is. -/
@[simp] theorem registerManifest_snd (s : Session σ) (m : Manifest) :
    (s.registerManifest m).2 = (s.registerAll m.tiles).2 := by
  unfold registerManifest
  split <;> rename_i he <;> rw [he]

theorem past_registerText (H : Past h s.catalog) (text : String) :
    Past (h ++ s.registerTextDeeds text) (s.registerText text).2.catalog := by
  unfold registerTextDeeds registerText
  cases Manifest.ofText text with
  | error e => simpa using H
  | ok m => simpa using past_registerAll H m.tiles

theorem past_loadManifest (H : Past h s.catalog) (files : Files) (path : String) :
    Past (h ++ s.loadManifestDeeds files path) (s.loadManifest files path).catalog := by
  unfold loadManifestDeeds loadManifest
  split
  · simpa using H
  · cases Manifest.load files path with
    | error e => simpa using H
    | ok m =>
      have H' := past_registerAll H m.tiles
      rw [← registerManifest_snd] at H'
      dsimp only
      split <;> rename_i he <;> simpa [he] using H'

omit [ImageSource σ] in
theorem past_hearAll (H : Past h s.catalog) (events : List AssetEvent) :
    Past (h ++ s.hearAllDeeds events) (s.hearAll events).catalog := by
  induction events generalizing s h with
  | nil => simpa [hearAllDeeds, hearAll] using H
  | cons event events ih =>
    unfold hearAllDeeds hearAll
    split
    · exact ih H
    · have H' : Past (h ++ [.heard event]) (s.hear event).catalog := by
        rw [catalog_hear]
        exact H.step (.hear _ event)
      simpa using ih H'

end Session

namespace Console

variable {σ : Type} [ImageSource σ]

def start (source : σ) : Console σ := { session := { source } }

def deeds (c : Console σ) : Command σ → History
  | .register t => c.session.registerDeeds t
  | .registerAll ts => c.session.registerAllDeeds ts
  | .registerText text => c.session.registerTextDeeds text
  | .notify event => [.heard event]
  | .complete name n => (c.catalog.image? name n).toList.map fun i => .completed i.ticket
  | .queue => [.issued c.catalog.queueTicket.1]
  | .completeHeld slot => (c.slots[slot]?.elim [] Held.tickets).map .completed
  | .reset => [.cleared]
  | .resetTally => [.zeroed]
  | .advance _ | .get _ | .contains _ | .hold .. | .showHeld _ | .counts => []

def run (c : Console σ) (commands : List (Command σ)) : Console σ :=
  commands.foldl (fun c command => (c.step command).2) c

def history (c : Console σ) : List (Command σ) → History
  | [] => []
  | command :: commands => c.deeds command ++ (c.step command).2.history commands

theorem history_append (c : Console σ) (first rest : List (Command σ)) :
    c.history (first ++ rest) = c.history first ++ (c.run first).history rest := by
  induction first generalizing c with
  | nil => rfl
  | cons command commands ih => simp [history, run, ih]

@[simp] theorem catalog_withCatalog {σ : Type} (c : Console σ) (catalog : Catalog) :
    (c.withCatalog catalog).catalog = catalog := rfl

@[simp] theorem catalog_keep {σ : Type} (c : Console σ) (held : Held) :
    (c.keep held).2.catalog = c.catalog := rfl

theorem past_completeAll {h : History} {c : Catalog} (H : Past h c) (ks : List Ticket) :
    Past (h ++ ks.map .completed) (completeAll c ks).2 := by
  induction ks generalizing h c with
  | nil => simpa [completeAll] using H
  | cons k ks ih => simpa [completeAll] using ih (H.step (.complete c k))

theorem past_step {h : History} {c : Console σ} (H : Past h c.catalog) (command : Command σ) :
    Past (h ++ c.deeds command) (c.step command).2.catalog := by
  cases command with
  | register t => exact c.session.past_register H t
  | registerAll ts => exact c.session.past_registerAll H ts
  | registerText text => exact c.session.past_registerText H text
  | notify event => exact H.step (.hear _ event)
  | complete name n =>
    simp only [deeds, step, Catalog.image?]
    cases c.catalog.get? name with
    | none => simpa using H
    | some e =>
      cases hi : e.images[n]? with
      | none => simpa [hi] using H
      | some i => simpa [hi] using H.step (.complete _ i.ticket)
  | hold name n =>
    simp only [deeds, step, List.append_nil]
    cases c.catalog.get? name with
    | none => exact H
    | some e =>
      cases n with
      | none => exact H
      | some n => cases hi : e.images[n]? <;> simpa [hi] using H
  | queue => exact H.step (.issue _)
  | completeHeld slot =>
    simp only [deeds, step]
    cases c.slots[slot]? with
    | none => simpa using H
    | some held => exact past_completeAll H held.tickets
  | showHeld slot =>
    simp only [deeds, step, List.append_nil]
    split <;> exact H
  | reset => exact H.step (.clear _)
  | resetTally => exact H.step (.zero _)
  | advance _ | get _ | contains _ | counts =>
    rw [deeds, List.append_nil]
    exact H

/-- Events are heard only as they are told. -/
theorem eq_notify_of_heard_mem_deeds {c : Console σ} {command : Command σ} {event : AssetEvent}
    (hd : .heard event ∈ c.deeds command) : command = .notify event := by
  cases command with
  | register t =>
    obtain ⟨_, _, h⟩ := Session.exists_of_mem_registerDeeds hd
    cases h
  | registerAll ts =>
    obtain ⟨_, _, _, h⟩ := Session.exists_of_mem_registerAllDeeds hd
    cases h
  | registerText text =>
    obtain ⟨_, _, _, h⟩ := Session.exists_of_mem_registerTextDeeds hd
    cases h
  | notify e => simp_all [deeds]
  | _ => simp [deeds] at hd

theorem notify_mem_of_heard_mem_history {c : Console σ} {commands : List (Command σ)}
    {event : AssetEvent} (hd : .heard event ∈ c.history commands) :
    .notify event ∈ commands := by
  induction commands generalizing c with
  | nil => simp [history] at hd
  | cons command commands ih =>
    rcases List.mem_append.1 hd with hd | hd
    · exact List.mem_cons.2 (.inl (eq_notify_of_heard_mem_deeds hd).symm)
    · exact List.mem_cons_of_mem _ (ih hd)

theorem past_run {h : History} {c : Console σ} (H : Past h c.catalog)
    (commands : List (Command σ)) :
    Past (h ++ c.history commands) (c.run commands).catalog := by
  induction commands generalizing h c with
  | nil => simpa [history, run] using H
  | cons command commands ih =>
    rw [history, ← List.append_assoc]
    exact ih (past_step H command)

/-- The catalog of a console has the past that its commands tell. -/
theorem past_start (source : σ) (commands : List (Command σ)) :
    Past ((start source).history commands) ((start source).run commands).catalog := by
  have H : Past [] (start source).catalog := .start
  simpa using past_run H commands

end Console

end TileCatalog
