import TileCatalog.Proofs.Runs

/-!
# A catalog is new after a reset

A reset leaves the tickets issued before it in the tally, the lines in the log and what is held in
the slots of a console. So a catalog that was reset is a new one behind a `Remnant`: its tickets are
numbered from those issued before. Every operation keeps this (`step_behind`), and nothing that can
be seen of a catalog shows the numbers. Main statement: commands that use only slots filled after
the reset are answered, logged and followed by the same as from a new catalog.
-/

namespace TileCatalog

/-! ### Tickets and tallies -/

def Ticket.behind (n : Nat) (k : Ticket) : Ticket := ⟨n + k.index⟩

namespace Tally

variable (old : Array Bool) (t : Tally)

/-- The tally with its tickets behind those of `old`. -/
def behind : Tally := { t with fired := old ++ t.fired }

@[simp] theorem progress_behind : (t.behind old).progress = t.progress := rfl

@[simp] theorem reset_behind : (t.behind old).reset = t.reset.behind old := rfl

@[simp] theorem queue_behind :
    (t.behind old).queue = (t.queue.1.behind old.size, t.queue.2.behind old) := by
  simp [queue, issue, countQueued, behind, Ticket.behind, Array.push_append]

@[simp] theorem isComplete_behind (k : Ticket) :
    (t.behind old).isComplete (k.behind old.size) = t.isComplete k := by
  simp [isComplete, behind, Ticket.behind, Array.getElem?_append_right]

theorem fire_behind (k : Ticket) :
    (t.behind old).fire (k.behind old.size) = ((t.fire k).1, (t.fire k).2.behind old) := by
  have hset : (old ++ t.fired).setIfInBounds (old.size + k.index) true =
      old ++ t.fired.setIfInBounds k.index true := by
    rw [Array.setIfInBounds_append_right (Nat.le_add_right _ _), Nat.add_sub_cancel_left]
  simp only [fire, isComplete_behind]
  simp only [behind, Ticket.behind, hset]
  simp

@[simp] theorem complete_behind (k : Ticket) :
    (t.behind old).complete (k.behind old.size) =
      ((t.complete k).1, (t.complete k).2.behind old) := by
  unfold complete
  rw [fire_behind]
  rcases t.fire k with ⟨_ | _, t'⟩ <;> rfl

end Tally

/-! ### Entries and catalogs -/

def Image.behind (n : Nat) (i : Image) : Image := { i with ticket := i.ticket.behind n }

namespace Entry

def behind (n : Nat) (e : Entry) : Entry :=
  { e with image := e.image.behind n, goal := e.goal.map (·.behind n) }

@[simp] theorem images_behind (n : Nat) (e : Entry) :
    (e.behind n).images = e.images.map (·.behind n) := by
  cases h : e.goal <;> simp [images, behind, h]

end Entry

def Records.behind (n : Nat) (r : Records) : Records := r.map fun p => (p.1, p.2.behind n)

namespace Records

variable (n : Nat)

@[simp] theorem lookup_behind (r : Records) (name : String) :
    (r.behind n).lookup name = (r.lookup name).map (·.behind n) := by
  induction r with
  | nil => rfl
  | cons p rest ih =>
    rw [behind, List.map_cons, List.lookup_cons, List.lookup_cons, ← behind, ih]
    cases name == p.1 <;> rfl

@[simp] theorem put_behind (name : String) (e : Entry) (r : Records) :
    (r.behind n).put name (e.behind n) = (r.put name e).behind n := by
  induction r with
  | nil => rfl
  | cons p rest ih =>
    rw [behind, List.map_cons, ← behind, put, put, ih]
    split <;> rfl

end Records

namespace Catalog

variable (old : Array Bool) (c : Catalog)

def behind : Catalog where
  names := c.names
  records := c.records.behind old.size
  tally := c.tally.behind old
  awaiting := c.awaiting.map fun w => (w.1, w.2.behind old.size)

@[simp] theorem names_behind : (c.behind old).names = c.names := rfl

@[simp] theorem tally_behind : (c.behind old).tally = c.tally.behind old := rfl

@[simp] theorem get?_behind (name : String) :
    (c.behind old).get? name = (c.get? name).map (·.behind old.size) :=
  Records.lookup_behind _ _ _

@[simp] theorem contains_behind (name : String) :
    (c.behind old).contains name = c.contains name := by simp [contains]

@[simp] theorem size_behind : (c.behind old).size = c.size := by simp [size, behind, Records.behind]

@[simp] theorem isEmpty_behind : (c.behind old).isEmpty = c.isEmpty := by
  simp [isEmpty, behind, Records.behind]

@[simp] theorem assets_behind : (c.behind old).assets = c.assets := by
  simp only [assets, behind, Records.behind, List.flatMap_map, Entry.images_behind, List.map_map]
  rfl

@[simp] theorem progress_behind : (c.behind old).progress = c.progress := rfl

@[simp] theorem entries_behind :
    (c.behind old).entries = c.entries.map (·.behind old.size) := by
  rw [entries, entries, names_behind, List.map_filterMap]
  exact congrArg (List.filterMap · c.names) (funext (c.get?_behind old))

@[simp] theorem isImageLoaded_behind (i : Image) :
    (c.behind old).isImageLoaded (i.behind old.size) = c.isImageLoaded i := by
  simp [isImageLoaded, Image.behind]

@[simp] theorem isEntryLoaded_behind (e : Entry) :
    (c.behind old).isEntryLoaded (e.behind old.size) = c.isEntryLoaded e := by
  simp [isEntryLoaded, List.all_map, Function.comp_def]

@[simp] theorem pendingLoads_behind : (c.behind old).pendingLoads = c.pendingLoads := by
  simp only [pendingLoads, behind, List.countP_map]
  congr 1
  funext w
  simp

@[simp] theorem enlist_behind (name : String) :
    (c.behind old).enlist name = (c.enlist name).behind old := by
  rw [enlist, enlist, names_behind]
  split <;> rfl

@[simp] theorem put_behind (e : Entry) :
    (c.behind old).put (e.behind old.size) = (c.put e).behind old := by
  simp [put, behind, Entry.behind, ← Records.put_behind]

@[simp] theorem enqueue_behind (src : String) (asset : AssetId) (isLoaded : Bool) :
    (c.behind old).enqueue src asset isLoaded =
      ((c.enqueue src asset isLoaded).1.behind old.size,
        (c.enqueue src asset isLoaded).2.behind old) := by
  cases isLoaded <;> simp [enqueue, behind, Image.behind]

@[simp] theorem complete_behind (k : Ticket) :
    (c.behind old).complete (k.behind old.size) =
      ((c.complete k).1, (c.complete k).2.behind old) := by
  simp [complete, behind]

omit c in
theorem announce_behind (event : AssetEvent) (waits : List (AssetId × Ticket)) (t : Tally) :
    announce event (waits.map fun w => (w.1, w.2.behind old.size)) (t.behind old) =
      ((announce event waits t).1, (announce event waits t).2.behind old) := by
  induction waits generalizing t with
  | nil => rfl
  | cons w rest ih =>
    rw [List.map_cons, announce, announce]
    split
    · simp [ih]
    · exact ih t

@[simp] theorem notify_behind (event : AssetEvent) :
    (c.behind old).notify event = ((c.notify event).1, (c.notify event).2.behind old) := by
  have hannounce := announce_behind old event c.awaiting c.tally
  simp only [notify, behind, hannounce, List.filter_map, Function.comp_def,
    Tally.isComplete_behind]

@[simp] theorem queueTicket_behind :
    (c.behind old).queueTicket = (c.queueTicket.1.behind old.size, c.queueTicket.2.behind old) := by
  simp [queueTicket, behind]

@[simp] theorem resetTally_behind : (c.behind old).resetTally = c.resetTally.behind old := rfl

@[simp] theorem reset_behind : (c.behind old).reset = c.reset.behind old := rfl

/-- A catalog that was reset is a new one behind the tickets issued before. -/
theorem reset_eq_behind : c.reset = ({} : Catalog).behind c.tally.fired := by
  simp [reset, behind, Tally.reset, Tally.behind, Records.behind]

end Catalog

/-! ### Sessions -/

namespace Session

variable {σ : Type} (old : Array Bool) (lines : List LogLine) (s : Session σ)

/-- The session with its log behind `lines`, and its tickets behind those of `old`. -/
def behind : Session σ where
  catalog := s.catalog.behind old
  source := s.source
  log := lines ++ s.log

@[simp] theorem catalog_behind : (s.behind old lines).catalog = s.catalog.behind old := rfl

@[simp] theorem source_behind : (s.behind old lines).source = s.source := rfl

@[simp] theorem note_behind (line : LogLine) :
    (s.behind old lines).note line = (s.note line).behind old lines := by
  simp [note, behind]

variable [ImageSource σ]

@[simp] theorem queueImage_behind (src : String) :
    (s.behind old lines).queueImage src =
      ((s.queueImage src).1.behind old.size, (s.queueImage src).2.behind old lines) := by
  simp [queueImage, behind]

@[simp] theorem queueImage?_behind (src : Option String) :
    (s.behind old lines).queueImage? src =
      ((s.queueImage? src).1.map (·.behind old.size), (s.queueImage? src).2.behind old lines) := by
  cases src <;> simp [queueImage?]

@[simp] theorem shareHeld_behind :
    (s.behind old lines).shareHeld = s.shareHeld.behind old lines := by
  simp [shareHeld, behind]

omit [ImageSource σ] in
@[simp] theorem receive_behind (name : String) :
    (s.behind old lines).receive name = (s.receive name).behind old lines := by
  simp only [receive, catalog_behind, Catalog.contains_behind, note_behind, Catalog.enlist_behind]
  split <;> rfl

@[simp] theorem queueEntry_behind (name : String) (t : TileSpec) :
    (s.behind old lines).queueEntry name t =
      ((s.queueEntry name t).1.behind old.size, (s.queueEntry name t).2.behind old lines) := by
  simp [queueEntry, Entry.behind]

theorem registerAs_behind (name : String) (t : TileSpec) :
    (s.behind old lines).registerAs name t =
      ((s.registerAs name t).1, (s.registerAs name t).2.behind old lines) := by
  simp only [registerAs, receive_behind, shareHeld_behind, queueEntry_behind, catalog_behind,
    Catalog.contains_behind, Catalog.progress_behind, Entry.images_behind, List.length_map,
    note_behind, Catalog.put_behind]
  rfl

theorem register_behind (t : TileSpec) :
    (s.behind old lines).register t =
      ((s.register t).1, (s.register t).2.behind old lines) := by
  unfold register
  cases t.validName with
  | none => rfl
  | some name => simp [registerAs_behind]

theorem registerAll_behind (ts : List TileSpec) :
    (s.behind old lines).registerAll ts =
      ((s.registerAll ts).1, (s.registerAll ts).2.behind old lines) := by
  induction ts generalizing s with
  | nil => rfl
  | cons t ts ih =>
    rw [registerAll, registerAll, register_behind]
    rcases s.register t with ⟨_ | _, s₁⟩
    · rfl
    · simp only [ih]
      rcases s₁.registerAll ts with ⟨_ | _, s₂⟩ <;> rfl

theorem registerText_behind (text : String) :
    (s.behind old lines).registerText text =
      ((s.registerText text).1, (s.registerText text).2.behind old lines) := by
  unfold registerText
  cases Manifest.ofText text with
  | error e => rfl
  | ok m =>
    simp only [registerManifest, registerAll_behind]
    rcases s.registerAll m.tiles with ⟨_ | _, s₁⟩ <;> rfl

end Session

/-! ### Consoles -/

/-- What a reset leaves behind. -/
structure Remnant where
  fired : Array Bool
  log : List LogLine
  slots : List Held

def Held.behind (n : Nat) : Held → Held
  | entry e => .entry (e.behind n)
  | image i => .image (i.behind n)
  | ticket k => .ticket (k.behind n)

@[simp] theorem Held.tickets_behind (n : Nat) (held : Held) :
    (held.behind n).tickets = held.tickets.map (·.behind n) := by
  cases held with
  | entry e => simp [behind, tickets, Image.behind, Function.comp_def]
  | image i => rfl
  | ticket k => rfl

namespace Console

/-- The command for slots that stand behind `n` others. -/
def Command.behind {σ : Type} (n : Nat) : Command σ → Command σ
  | .completeHeld slot => .completeHeld (n + slot)
  | .showHeld slot => .showHeld (n + slot)
  | command => command

def Reply.behind (p : Remnant) : Reply → Reply
  | .entry e => .entry (e.map (·.behind p.fired.size))
  | .held h => .held (h.behind p.fired.size)
  | .slot n => .slot (p.slots.length + n)
  | reply => reply

@[simp] theorem Reply.behind_ofCompletion (p : Remnant) (held : Held) (firsts : List Bool) :
    (ofCompletion held firsts).behind p = ofCompletion (held.behind p.fired.size) firsts := by
  cases held <;> rfl

theorem completeAll_behind (old : Array Bool) (c : Catalog) (ks : List Ticket) :
    completeAll (c.behind old) (ks.map (·.behind old.size)) =
      ((completeAll c ks).1, (completeAll c ks).2.behind old) := by
  induction ks generalizing c with
  | nil => rfl
  | cons k ks ih => simp [completeAll, ih]

variable {σ : Type} (p : Remnant) (c : Console σ)

/-- The console with everything behind what a reset left. -/
def behind : Console σ where
  session := c.session.behind p.fired p.log
  slots := p.slots ++ c.slots.map (·.behind p.fired.size)

@[simp] theorem catalog_behind : (c.behind p).catalog = c.catalog.behind p.fired := rfl

@[simp] theorem withCatalog_behind (catalog : Catalog) :
    (c.behind p).withCatalog (catalog.behind p.fired) = (c.withCatalog catalog).behind p := rfl

@[simp] theorem slots_behind (slot : Nat) :
    (c.behind p).slots[p.slots.length + slot]? = c.slots[slot]?.map (·.behind p.fired.size) := by
  simp [behind, List.getElem?_append_right]

@[simp] theorem keep_behind (held : Held) :
    (c.behind p).keep (held.behind p.fired.size) =
      ((c.keep held).1.behind p, (c.keep held).2.behind p) := by
  simp [keep, behind, Reply.behind]

theorem step_behind [ImageSource σ] (command : Command σ) :
    (c.behind p).step (command.behind p.slots.length) =
      ((c.step command).1.behind p, (c.step command).2.behind p) := by
  cases command with
  | register t =>
    simp only [Command.behind, step, behind, Session.register_behind]
    rfl
  | registerAll ts =>
    simp only [Command.behind, step, behind, Session.registerAll_behind]
    rfl
  | registerText text =>
    simp only [Command.behind, step, behind, Session.registerText_behind]
    rfl
  | notify event =>
    simp only [Command.behind, step, catalog_behind, Catalog.notify_behind, withCatalog_behind]
    rfl
  | advance change => rfl
  | complete name n =>
    simp only [Command.behind, step, catalog_behind, Catalog.get?_behind]
    cases c.catalog.get? name with
    | none => rfl
    | some e =>
      simp only [Option.map_some, Entry.images_behind, List.getElem?_map]
      cases e.images[n]? with
      | none => rfl
      | some i =>
        simp only [Option.map_some, Image.behind, Catalog.complete_behind, withCatalog_behind]
        rfl
  | get name => simp only [Command.behind, step, catalog_behind, Catalog.get?_behind, Reply.behind]
  | contains name =>
    simp only [Command.behind, step, catalog_behind, Catalog.contains_behind, Reply.behind]
  | hold name n =>
    simp only [Command.behind, step, catalog_behind, Catalog.get?_behind]
    cases c.catalog.get? name with
    | none => rfl
    | some e =>
      cases n with
      | none => exact keep_behind p c (.entry e)
      | some n =>
        simp only [Option.map_some, Entry.images_behind, List.getElem?_map]
        cases e.images[n]? with
        | none => rfl
        | some i => exact keep_behind p c (.image i)
  | queue =>
    simp only [Command.behind, step, catalog_behind, Catalog.queueTicket_behind,
      withCatalog_behind]
    exact keep_behind p _ (.ticket _)
  | completeHeld slot =>
    simp only [Command.behind, step, slots_behind]
    cases c.slots[slot]? with
    | none => rfl
    | some held =>
      simp only [Option.map_some, catalog_behind, Held.tickets_behind, completeAll_behind,
        withCatalog_behind, Reply.behind_ofCompletion]
  | showHeld slot =>
    simp only [Command.behind, step, slots_behind]
    cases c.slots[slot]? with
    | none => rfl
    | some held =>
      cases held with
      | ticket k =>
        simp only [Option.map_some, Held.behind, catalog_behind, Catalog.tally_behind,
          Tally.isComplete_behind]
        rfl
      | entry e => rfl
      | image i => rfl
  | reset => rfl
  | resetTally => rfl
  | counts => rfl

end Console

/-! ### What can be seen -/

/-- What can be seen of a picture: not its ticket, but whether that is complete. -/
structure PictureView where
  src : String
  asset : AssetId
  loaded : Bool
deriving DecidableEq

structure EntryView where
  name : String
  image : PictureView
  goal : Option PictureView
  loaded : Bool
deriving DecidableEq

/-- What the readers of a catalog tell. -/
structure CatalogView where
  names : List String
  entries : List EntryView
  get? : String → Option EntryView
  size : Nat
  isEmpty : Bool
  pendingLoads : Nat
  progress : Progress

namespace Catalog

variable (c : Catalog)

def viewImage (i : Image) : PictureView := ⟨i.src, i.asset, c.isImageLoaded i⟩

def viewEntry (e : Entry) : EntryView :=
  ⟨e.name, c.viewImage e.image, e.goal.map c.viewImage, c.isEntryLoaded e⟩

def view : CatalogView where
  names := c.names
  entries := c.entries.map c.viewEntry
  get? name := (c.get? name).map c.viewEntry
  size := c.size
  isEmpty := c.isEmpty
  pendingLoads := c.pendingLoads
  progress := c.progress

variable (old : Array Bool)

@[simp] theorem viewImage_behind (i : Image) :
    (c.behind old).viewImage (i.behind old.size) = c.viewImage i := by
  rw [viewImage, viewImage, isImageLoaded_behind]
  rfl

@[simp] theorem viewEntry_behind (e : Entry) :
    (c.behind old).viewEntry (e.behind old.size) = c.viewEntry e := by
  rw [viewEntry, viewEntry, isEntryLoaded_behind]
  simp [Entry.behind, Function.comp_def]

@[simp] theorem view_behind : (c.behind old).view = c.view := by
  simp [view, Function.comp_def]

end Catalog

namespace Console

inductive ReplyView where
  | nothing
  | registered (result : Except MissingName Registration)
  | registeredAll (result : Except MissingName Nat)
  | registeredText (result : Except ManifestError Nat)
  | count (n : Nat)
  | flag (value : Bool)
  | flags (values : List Bool)
  | entry (entry : Option EntryView)
  | heldEntry (entry : EntryView)
  | heldImage (image : PictureView)
  | heldTicket (complete : Bool)
  | slot (n : Nat)
  | counts (progress : Progress)
  | noEntry
  | noImage
  | noSlot

/-- What can be seen of a reply, with the catalog as it is. Slots are counted from slot `first`. -/
def Reply.view (first : Nat) (c : Catalog) : Reply → ReplyView
  | .nothing => .nothing
  | .registered r => .registered r
  | .registeredAll r => .registeredAll r
  | .registeredText r => .registeredText r
  | .count n => .count n
  | .flag b => .flag b
  | .flags bs => .flags bs
  | .entry e => .entry (e.map c.viewEntry)
  | .held (.entry e) => .heldEntry (c.viewEntry e)
  | .held (.image i) => .heldImage (c.viewImage i)
  | .held (.ticket k) => .heldTicket (c.tally.isComplete k)
  | .slot n => .slot (n - first)
  | .counts p => .counts p
  | .noEntry => .noEntry
  | .noImage => .noImage
  | .noSlot => .noSlot

theorem Reply.view_behind (p : Remnant) (c : Catalog) (r : Reply) :
    (r.behind p).view p.slots.length (c.behind p.fired) = r.view 0 c := by
  cases r with
  | entry e => simp [behind, view, Function.comp_def]
  | held h => cases h <;> simp [behind, view, Held.behind]
  | slot n => simp [behind, view]
  | _ => rfl

/-- What is seen of one command: the answer, the lines logged, and the catalog after it. -/
structure Moment where
  reply : ReplyView
  lines : List LogLine
  catalog : CatalogView

variable {σ : Type} [ImageSource σ]

def trace (first : Nat) (c : Console σ) : List (Command σ) → List Moment
  | [] => []
  | command :: commands =>
    let (reply, c') := c.step command
    ⟨reply.view first c'.catalog, c'.session.log.drop c.session.log.length, c'.catalog.view⟩ ::
      c'.trace first commands

theorem trace_behind (p : Remnant) (c : Console σ) (commands : List (Command σ)) :
    (c.behind p).trace p.slots.length (commands.map (·.behind p.slots.length)) =
      c.trace 0 commands := by
  induction commands generalizing c with
  | nil => rfl
  | cons command commands ih =>
    rw [List.map_cons, trace, trace, step_behind]
    simp only [ih, catalog_behind, Reply.view_behind, Catalog.view_behind]
    simp [behind, Session.behind, List.drop_append]

theorem reset_eq_behind (c : Console σ) :
    (c.step .reset).2 =
      (start c.session.source).behind ⟨c.catalog.tally.fired, c.session.log, c.slots⟩ := by
  simp [step, withCatalog, behind, Session.behind, start, catalog, Catalog.reset_eq_behind]

/-- After a reset the catalog is seen as a new one is, and so is all that follows: whatever commands
are given, while they use only slots that are filled after the reset, they are answered and logged
and the catalog is seen after each of them as if the catalog were new. -/
theorem reset_renews (c : Console σ) (commands : List (Command σ)) :
    (c.step .reset).2.catalog.view = (start c.session.source).catalog.view ∧
      (c.step .reset).2.trace c.slots.length (commands.map (·.behind c.slots.length)) =
        (start c.session.source).trace 0 commands := by
  have htrace := trace_behind ⟨c.catalog.tally.fired, c.session.log, c.slots⟩
    (start c.session.source) commands
  rw [reset_eq_behind]
  exact ⟨Catalog.view_behind _ _, htrace⟩

end Console

end TileCatalog
