import TileCatalog.Asset
import TileCatalog.Tally
import TileCatalog.Tile

/-!
# The catalog

The registered tile types with the load state of their pictures: a map of entries by name, and the
names in the order of their first registration. Registering a name again replaces its entry and
keeps its place; the pictures of the entry that went stay on the waiting list and still count.
-/

namespace TileCatalog

structure Image where
  src : String
  asset : AssetId
  ticket : Ticket
deriving DecidableEq, Repr

structure Entry where
  name : String
  image : Image
  goal : Option Image := none
deriving DecidableEq, Repr

namespace Entry

def images (e : Entry) : List Image := e.image :: e.goal.toList

end Entry

abbrev Records := List (String × Entry)

namespace Records

/-- Puts an entry under a name, in the place of the one that is there. -/
def put (name : String) (e : Entry) : Records → Records
  | [] => [(name, e)]
  | (n, f) :: rest => if n = name then (name, e) :: rest else (n, f) :: put name e rest

theorem lookup_put_self (name : String) (e : Entry) (r : Records) :
    (put name e r).lookup name = some e := by
  induction r with
  | nil => simp [put]
  | cons p rest ih =>
    obtain ⟨n, f⟩ := p
    by_cases h : n = name
    · simp [put, h]
    · have hb : (name == n) = false := beq_eq_false_iff_ne.2 (Ne.symm h)
      simp [put, h, List.lookup_cons, hb, ih]

theorem lookup_put_of_ne {m name : String} (hne : m ≠ name) (e : Entry) (r : Records) :
    (put name e r).lookup m = r.lookup m := by
  have hb : (m == name) = false := beq_eq_false_iff_ne.2 hne
  induction r with
  | nil => simp [put, List.lookup_cons, hb]
  | cons p rest ih =>
    obtain ⟨n, f⟩ := p
    by_cases h : n = name
    · simp [put, h, List.lookup_cons, hb]
    · simp [put, h, List.lookup_cons, ih]

theorem length_put (name : String) (e : Entry) (r : Records) :
    (put name e r).length = r.length + if (r.lookup name).isSome then 0 else 1 := by
  induction r with
  | nil => simp [put]
  | cons p rest ih =>
    obtain ⟨n, f⟩ := p
    by_cases h : n = name
    · simp [put, h]
    · have hb : (name == n) = false := beq_eq_false_iff_ne.2 (Ne.symm h)
      simp only [put, h, if_false, List.length_cons, ih, List.lookup_cons, hb]
      omega

end Records

/-- The names in the order of their first registration, the entries by name, the tally of their
pictures, and the loads that wait for an event. -/
structure Catalog where
  names : List String := []
  records : Records := []
  tally : Tally := {}
  awaiting : List (AssetId × Ticket) := []
deriving DecidableEq, Repr, Inhabited

namespace Catalog

/-! ### Readers -/

def size (c : Catalog) : Nat := c.records.length

def isEmpty (c : Catalog) : Bool := c.records.isEmpty

def get? (c : Catalog) (name : String) : Option Entry := c.records.lookup name

def contains (c : Catalog) (name : String) : Bool := (c.get? name).isSome

def entries (c : Catalog) : List Entry := c.names.filterMap c.get?

def progress (c : Catalog) : Progress := c.tally.progress

def isImageLoaded (c : Catalog) (i : Image) : Bool := c.tally.isComplete i.ticket

def isEntryLoaded (c : Catalog) (e : Entry) : Bool := e.images.all c.isImageLoaded

def assets (c : Catalog) : List AssetId := c.records.flatMap fun r => r.2.images.map (·.asset)

def pendingLoads (c : Catalog) : Nat := c.awaiting.countP fun w => !c.tally.isComplete w.2

def image? (c : Catalog) (name : String) (n : Nat) : Option Image :=
  (c.get? name).bind (·.images[n]?)

/-! ### Changes -/

/-- Gives a name the last place, unless it has one. -/
def enlist (c : Catalog) (name : String) : Catalog :=
  if name ∈ c.names then c else { c with names := c.names ++ [name] }

/-- A name with an entry keeps its place, and another is given one. -/
def receive (c : Catalog) (name : String) : Catalog :=
  if c.contains name then c else c.enlist name

@[simp] theorem records_receive (c : Catalog) (name : String) :
    (c.receive name).records = c.records := by
  unfold receive enlist
  split
  · rfl
  · split <;> rfl

@[simp] theorem tally_receive (c : Catalog) (name : String) :
    (c.receive name).tally = c.tally := by
  unfold receive enlist
  split
  · rfl
  · split <;> rfl

@[simp] theorem awaiting_receive (c : Catalog) (name : String) :
    (c.receive name).awaiting = c.awaiting := by
  unfold receive enlist
  split
  · rfl
  · split <;> rfl

def put (c : Catalog) (e : Entry) : Catalog := { c with records := c.records.put e.name e }

theorem get?_put_self (c : Catalog) (e : Entry) : (c.put e).get? e.name = some e :=
  c.records.lookup_put_self e.name e

theorem get?_put_of_ne (c : Catalog) {e : Entry} {name : String} (h : name ≠ e.name) :
    (c.put e).get? name = c.get? name :=
  c.records.lookup_put_of_ne h e

theorem size_put (c : Catalog) (e : Entry) :
    (c.put e).size = c.size + if c.contains e.name then 0 else 1 :=
  c.records.length_put e.name e

/-- Queues a picture. One that its source has loaded already counts at once, as no event will come
for it. -/
def enqueue (c : Catalog) (src : String) (asset : AssetId) (isLoaded : Bool) : Image × Catalog :=
  let (ticket, tally) := c.tally.queue
  (⟨src, asset, ticket⟩,
    if isLoaded then { c with tally := (tally.complete ticket).2 }
    else { c with tally, awaiting := c.awaiting ++ [(asset, ticket)] })

section enqueue

variable (c : Catalog) (src : String) (asset : AssetId) (isLoaded : Bool)

@[simp] theorem enqueue_fst :
    (c.enqueue src asset isLoaded).1 = ⟨src, asset, ⟨c.tally.fired.size⟩⟩ := rfl

@[simp] theorem names_enqueue : (c.enqueue src asset isLoaded).2.names = c.names := by
  cases isLoaded <;> rfl

@[simp] theorem records_enqueue : (c.enqueue src asset isLoaded).2.records = c.records := by
  cases isLoaded <;> rfl

theorem awaiting_enqueue :
    (c.enqueue src asset isLoaded).2.awaiting =
      if isLoaded then c.awaiting else c.awaiting ++ [(asset, ⟨c.tally.fired.size⟩)] := by
  cases isLoaded <;> rfl

@[simp] theorem size_fired_enqueue :
    (c.enqueue src asset isLoaded).2.tally.fired.size = c.tally.fired.size + 1 := by
  cases isLoaded <;> simp [enqueue]

@[simp] theorem toLoad_enqueue :
    (c.enqueue src asset isLoaded).2.tally.toLoad = c.tally.toLoad + 1 := by
  cases isLoaded <;> simp [enqueue]

theorem isComplete_enqueue (k : Ticket) :
    (c.enqueue src asset isLoaded).2.tally.isComplete k =
      (c.tally.isComplete k || (isLoaded && decide (k = ⟨c.tally.fired.size⟩))) := by
  cases isLoaded
  · simp [enqueue]
  · simp [enqueue, Tally.isComplete_complete, eq_comm]

theorem isComplete_enqueue_self :
    (c.enqueue src asset isLoaded).2.tally.isComplete ⟨c.tally.fired.size⟩ = isLoaded := by
  have h : c.tally.isComplete ⟨c.tally.fired.size⟩ = false := by
    simpa using c.tally.isComplete_queue_fst
  simp [isComplete_enqueue, h]

variable {c} in
theorem isComplete_enqueue_of_lt {k : Ticket} (hk : k.index < c.tally.fired.size) :
    (c.enqueue src asset isLoaded).2.tally.isComplete k = c.tally.isComplete k := by
  have hne : k ≠ ⟨c.tally.fired.size⟩ := fun h => Nat.ne_of_lt hk (congrArg Ticket.index h)
  simp [isComplete_enqueue, hne]

theorem loaded_enqueue :
    (c.enqueue src asset isLoaded).2.tally.loaded =
      c.tally.loaded + if isLoaded then 1 else 0 := by
  cases isLoaded
  · simp [enqueue]
  · have h : c.tally.isComplete ⟨c.tally.fired.size⟩ = false := by
      simpa using c.tally.isComplete_queue_fst
    simp [enqueue, Tally.loaded_complete, Tally.complete_fst, h]

end enqueue

/-- Completes a ticket; whether that counted. -/
def complete (c : Catalog) (k : Ticket) : Bool × Catalog :=
  let (first, tally) := c.tally.complete k
  (first, { c with tally })

/-- Completes the waiting loads that an event announces; how many of them counted. -/
def announce (event : AssetEvent) : List (AssetId × Ticket) → Tally → Nat × Tally
  | [], tally => (0, tally)
  | (asset, ticket) :: rest, tally =>
    if event.announces asset then
      let (first, tally) := tally.complete ticket
      let (n, tally) := announce event rest tally
      (if first then n + 1 else n, tally)
    else announce event rest tally

section announce

variable (event : AssetEvent) (waits : List (AssetId × Ticket)) (t : Tally)

@[simp] theorem size_fired_announce :
    (announce event waits t).2.fired.size = t.fired.size := by
  induction waits generalizing t with
  | nil => rfl
  | cons w rest ih => rw [announce]; split <;> simp [ih]

@[simp] theorem toLoad_announce : (announce event waits t).2.toLoad = t.toLoad := by
  induction waits generalizing t with
  | nil => rfl
  | cons w rest ih => rw [announce]; split <;> simp [ih]

/-- The number returned is that of the pictures counted. -/
theorem loaded_announce :
    (announce event waits t).2.loaded = t.loaded + (announce event waits t).1 := by
  induction waits generalizing t with
  | nil => rfl
  | cons w rest ih =>
    rw [announce]
    split
    · simp only [ih, Tally.loaded_complete]
      split <;> omega
    · exact ih t

theorem isComplete_announce (k : Ticket) :
    (announce event waits t).2.isComplete k =
      (t.isComplete k || (decide (k.index < t.fired.size) &&
        waits.any fun w => event.announces w.1 && decide (w.2 = k))) := by
  induction waits generalizing t with
  | nil => simp [announce]
  | cons w rest ih =>
    rw [announce]
    split
    · rename_i h
      simp only [ih, Tally.isComplete_complete, Tally.size_complete, List.any_cons, h]
      by_cases hw : w.2 = k
      · by_cases hk : k.index < t.fired.size <;> simp [hw, hk]
      · simp [hw]
    · rename_i h
      simp [ih, h]

end announce

/-- Takes note of an event; how many pictures were newly counted as loaded. Loads that are complete
no longer wait. -/
def notify (c : Catalog) (event : AssetEvent) : Nat × Catalog :=
  let (n, tally) := announce event c.awaiting c.tally
  (n, { c with tally, awaiting := c.awaiting.filter fun w => !tally.isComplete w.2 })

/-- Queues a ticket that belongs to no picture. -/
def queueTicket (c : Catalog) : Ticket × Catalog :=
  let (ticket, tally) := c.tally.queue
  (ticket, { c with tally })

def resetTally (c : Catalog) : Catalog := { c with tally := c.tally.reset }

def reset (c : Catalog) : Catalog :=
  { names := [], records := [], tally := c.tally.reset, awaiting := [] }

end Catalog

end TileCatalog
