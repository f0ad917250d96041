import TileCatalog.Catalog.Session

/-!
# The console

Commands on a catalog, one at a time, with slots that keep entries, pictures and tickets for later.
What a slot keeps stays as it was; only whether its pictures are loaded can change.
-/

namespace TileCatalog

inductive Held where
  | entry (entry : Entry)
  | image (image : Image)
  | ticket (ticket : Ticket)
deriving DecidableEq, Repr

def Held.tickets : Held → List Ticket
  | entry e => e.images.map (·.ticket)
  | image i => [i.ticket]
  | ticket k => [k]

namespace Console

inductive Command (σ : Type) where
  | register (tile : TileSpec)
  | registerAll (tiles : List TileSpec)
  | registerText (text : String)
  | notify (event : AssetEvent)
  /-- The source goes on by itself. -/
  | advance (change : σ → σ)
  | complete (name : String) (image : Nat)
  | get (name : String)
  | contains (name : String)
  /-- Keeps an entry, or one of its pictures, in the next slot. -/
  | hold (name : String) (image : Option Nat)
  /-- Keeps a ticket that belongs to no picture in the next slot. -/
  | queue
  | completeHeld (slot : Nat)
  | showHeld (slot : Nat)
  | reset
  | resetTally
  | counts

inductive Reply where
  | nothing
  | registered (result : Except MissingName Registration)
  | registeredAll (result : Except MissingName Nat)
  | registeredText (result : Except ManifestError Nat)
  | count (n : Nat)
  | flag (value : Bool)
  | flags (values : List Bool)
  | entry (entry : Option Entry)
  | held (held : Held)
  | slot (n : Nat)
  | counts (progress : Progress)
  | noEntry
  | noImage
  | noSlot

/-- What completing a slot answers: for an entry which of its pictures counted, otherwise whether
the one ticket did. -/
def Reply.ofCompletion : Held → List Bool → Reply
  | .entry _, firsts => .flags firsts
  | _, firsts => .flag (firsts.headD false)

end Console

structure Console (σ : Type) where
  session : Session σ
  slots : List Held := []

namespace Console

variable {σ : Type} [ImageSource σ]

def catalog (c : Console σ) : Catalog := c.session.catalog

def withCatalog (c : Console σ) (catalog : Catalog) : Console σ :=
  { c with session := { c.session with catalog } }

def keep (c : Console σ) (held : Held) : Reply × Console σ :=
  (.slot c.slots.length, { c with slots := c.slots ++ [held] })

/-- Completes tickets in order; which of them counted. -/
def completeAll (c : Catalog) : List Ticket → List Bool × Catalog
  | [] => ([], c)
  | k :: ks =>
    let (first, c) := c.complete k
    let (rest, c) := completeAll c ks
    (first :: rest, c)

def step (c : Console σ) : Command σ → Reply × Console σ
  | .register t =>
    let (r, session) := c.session.register t
    (.registered r, { c with session })
  | .registerAll ts =>
    let (r, session) := c.session.registerAll ts
    (.registeredAll r, { c with session })
  | .registerText text =>
    let (r, session) := c.session.registerText text
    (.registeredText r, { c with session })
  | .notify event =>
    let (n, catalog) := c.catalog.notify event
    (.count n, c.withCatalog catalog)
  | .advance change =>
    (.nothing, { c with session := { c.session with source := change c.session.source } })
  | .complete name n =>
    match c.catalog.get? name with
    | none => (.noEntry, c)
    | some e =>
      match e.images[n]? with
      | none => (.noImage, c)
      | some i =>
        let (first, catalog) := c.catalog.complete i.ticket
        (.flag first, c.withCatalog catalog)
  | .get name => (.entry (c.catalog.get? name), c)
  | .contains name => (.flag (c.catalog.contains name), c)
  | .hold name n =>
    match c.catalog.get? name with
    | none => (.noEntry, c)
    | some e =>
      match n with
      | none => c.keep (.entry e)
      | some n =>
        match e.images[n]? with
        | none => (.noImage, c)
        | some i => c.keep (.image i)
  | .queue =>
    let (ticket, catalog) := c.catalog.queueTicket
    (c.withCatalog catalog).keep (.ticket ticket)
  | .completeHeld slot =>
    match c.slots[slot]? with
    | none => (.noSlot, c)
    | some held =>
      let (firsts, catalog) := completeAll c.catalog held.tickets
      (.ofCompletion held firsts, c.withCatalog catalog)
  | .showHeld slot =>
    match c.slots[slot]? with
    | none => (.noSlot, c)
    | some (.ticket k) => (.flag (c.catalog.tally.isComplete k), c)
    | some held => (.held held, c)
  | .reset => (.nothing, c.withCatalog c.catalog.reset)
  | .resetTally => (.nothing, c.withCatalog c.catalog.resetTally)
  | .counts => (.counts c.catalog.progress, c)

end Console

end TileCatalog
