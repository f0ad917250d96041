import TileCatalog.Asset.Gallery
import TileCatalog.Proofs.Outstanding
import TileCatalog.Proofs.Renewal

/-!
# Events that pass unheard

While nothing is outstanding, a session lets events pass unheard. Hearing them would complete no
load; it would only take complete loads off the waiting list. So a session that hears every event is
`Alike`: it differs at most in complete loads that still wait. Every operation keeps this and gives
the same answer, because an event passes over complete loads (`announce_filter`). Main statement:
whichever of the two listens, and whatever follows, the same is seen.
-/

namespace TileCatalog

namespace Catalog

/-- The catalogs differ at most in complete loads that still wait. -/
structure Alike (c c' : Catalog) : Prop where
  names : c.names = c'.names
  records : c.records = c'.records
  tally : c.tally = c'.tally
  outstanding : c.outstanding = c'.outstanding

namespace Alike

variable {c c' : Catalog}

theorem refl (c : Catalog) : c.Alike c := ⟨rfl, rfl, rfl, rfl⟩

theorem symm (A : c.Alike c') : c'.Alike c :=
  ⟨A.names.symm, A.records.symm, A.tally.symm, A.outstanding.symm⟩

theorem trans {d : Catalog} (A : c.Alike c') (A' : c'.Alike d) : c.Alike d :=
  ⟨A.names.trans A'.names, A.records.trans A'.records, A.tally.trans A'.tally,
    A.outstanding.trans A'.outstanding⟩

/-! ### What is seen -/

theorem get?_eq (A : c.Alike c') : c.get? = c'.get? := by
  funext name
  rw [get?, get?, A.records]

theorem contains_eq (A : c.Alike c') (name : String) : c.contains name = c'.contains name := by
  rw [contains, contains, A.get?_eq]

theorem assets_eq (A : c.Alike c') : c.assets = c'.assets := by rw [assets, assets, A.records]

theorem progress_eq (A : c.Alike c') : c.progress = c'.progress := by
  rw [progress, progress, A.tally]

theorem pendingLoads_eq (A : c.Alike c') : c.pendingLoads = c'.pendingLoads := by
  rw [pendingLoads_eq_length, pendingLoads_eq_length, A.outstanding]

theorem isImageLoaded_eq (A : c.Alike c') : c.isImageLoaded = c'.isImageLoaded := by
  funext i
  rw [isImageLoaded, isImageLoaded, A.tally]

theorem viewImage_eq (A : c.Alike c') : c.viewImage = c'.viewImage := by
  funext i
  rw [viewImage, viewImage, A.isImageLoaded_eq]

theorem viewEntry_eq (A : c.Alike c') : c.viewEntry = c'.viewEntry := by
  funext e
  rw [viewEntry, viewEntry, A.viewImage_eq, isEntryLoaded, isEntryLoaded, A.isImageLoaded_eq]

theorem view_eq (A : c.Alike c') : c.view = c'.view := by
  simp only [view, entries, size, isEmpty, A.names, A.records, A.get?_eq, A.viewEntry_eq,
    A.progress_eq, A.pendingLoads_eq]

/-! ### Changes -/

/-- When more tickets are complete, the same loads remain. -/
theorem filter_eq (A : c.Alike c') {t : Tally}
    (hmono : ∀ k, c.tally.isComplete k = true → t.isComplete k = true) :
    (c.awaiting.filter fun w => !t.isComplete w.2) =
      c'.awaiting.filter fun w => !t.isComplete w.2 := by
  have hmono' : ∀ k, c'.tally.isComplete k = true → t.isComplete k = true := by
    rwa [← A.tally]
  calc (c.awaiting.filter fun w => !t.isComplete w.2)
      = c.outstanding.filter fun w => !t.isComplete w.2 :=
        (Tally.filter_filter_of_mono hmono (·.2) c.awaiting).symm
    _ = c'.outstanding.filter fun w => !t.isComplete w.2 := by rw [A.outstanding]
    _ = c'.awaiting.filter fun w => !t.isComplete w.2 :=
        Tally.filter_filter_of_mono hmono' (·.2) c'.awaiting

theorem withTally (A : c.Alike c') {t : Tally}
    (hmono : ∀ k, c.tally.isComplete k = true → t.isComplete k = true) :
    Alike { c with tally := t } { c' with tally := t } :=
  ⟨A.names, A.records, rfl, A.filter_eq hmono⟩

theorem receive (A : c.Alike c') (name : String) : (c.receive name).Alike (c'.receive name) := by
  refine ⟨?_, ?_, ?_, ?_⟩
  · simp only [Catalog.receive, enlist, A.contains_eq, A.names]
    split
    · exact A.names
    · split
      · exact A.names
      · rfl
  · rw [records_receive, records_receive, A.records]
  · rw [tally_receive, tally_receive, A.tally]
  · simpa only [Catalog.outstanding, awaiting_receive, tally_receive] using A.outstanding

theorem put (A : c.Alike c') (e : Entry) : (c.put e).Alike (c'.put e) :=
  ⟨A.names, congrArg (Records.put e.name e) A.records, A.tally, A.outstanding⟩

theorem enqueue (A : c.Alike c') (src : String) (asset : AssetId) (ready : Bool) :
    (c.enqueue src asset ready).1 = (c'.enqueue src asset ready).1 ∧
      (c.enqueue src asset ready).2.Alike (c'.enqueue src asset ready).2 := by
  have htally : (c.enqueue src asset ready).2.tally = (c'.enqueue src asset ready).2.tally := by
    cases ready <;> simp [Catalog.enqueue, A.tally]
  refine ⟨by simp [A.tally], ?_, ?_, htally, ?_⟩
  · rw [names_enqueue, names_enqueue, A.names]
  · rw [records_enqueue, records_enqueue, A.records]
  · have hold := A.filter_eq (t := (c.enqueue src asset ready).2.tally) fun k hk => by
      rw [isComplete_enqueue, hk, Bool.true_or]
    rw [Catalog.outstanding, Catalog.outstanding, ← htally, awaiting_enqueue, awaiting_enqueue,
      A.tally]
    cases ready
    · simpa only [Bool.false_eq_true, if_false, List.filter_append] using
        congrArg (· ++ _) hold
    · exact hold

theorem complete (A : c.Alike c') (k : Ticket) :
    (c.complete k).1 = (c'.complete k).1 ∧ (c.complete k).2.Alike (c'.complete k).2 := by
  have h : c.tally.complete k = c'.tally.complete k := congrArg (·.complete k) A.tally
  have Ac := A.withTally (t := (c.tally.complete k).2) fun l hl => by
    rw [Tally.isComplete_complete, hl, Bool.true_or]
  simp only [Catalog.complete, ← h]
  exact ⟨trivial, Ac⟩

theorem queueTicket (A : c.Alike c') :
    c.queueTicket.1 = c'.queueTicket.1 ∧ c.queueTicket.2.Alike c'.queueTicket.2 := by
  have h : c.tally.queue = c'.tally.queue := congrArg Tally.queue A.tally
  have Ac := A.withTally (t := c.tally.queue.2) fun k hk => by
    rw [Tally.isComplete_queue, hk]
  simp only [Catalog.queueTicket, ← h]
  exact ⟨trivial, Ac⟩

theorem resetTally (A : c.Alike c') : c.resetTally.Alike c'.resetTally :=
  ⟨A.names, A.records, congrArg Tally.reset A.tally, A.outstanding⟩

theorem reset (A : c.Alike c') : c.reset.Alike c'.reset :=
  ⟨rfl, rfl, congrArg Tally.reset A.tally, rfl⟩

end Alike

/-- An event passes over loads that are complete. -/
theorem announce_filter (event : AssetEvent) {t₀ : Tally} (waits : List (AssetId × Ticket))
    (t : Tally) (hmono : ∀ k, t₀.isComplete k = true → t.isComplete k = true) :
    announce event (waits.filter fun w => !t₀.isComplete w.2) t = announce event waits t := by
  induction waits generalizing t with
  | nil => rfl
  | cons w rest ih =>
    by_cases hw : t₀.isComplete w.2 = true
    · rw [List.filter_cons_of_neg (by simp [hw]), ih t hmono]
      -- completing the load again neither counts nor changes the tally
      have hsame : announce event (w :: rest) t = announce event rest t := by
        rw [announce, Tally.complete_of_isComplete (hmono _ hw)]
        simp
      exact hsame.symm
    · rw [List.filter_cons_of_pos (by simpa using hw), announce, announce]
      split
      · have hrest := ih (t.complete w.2).2 fun k hk => by
          rw [Tally.isComplete_complete, hmono k hk, Bool.true_or]
        simp only [hrest]
      · exact ih t hmono

theorem announce_outstanding (c : Catalog) (event : AssetEvent) :
    announce event c.outstanding c.tally = announce event c.awaiting c.tally :=
  announce_filter event c.awaiting c.tally fun _ => id

theorem Alike.notify {c c' : Catalog} (A : c.Alike c') (event : AssetEvent) :
    (c.notify event).1 = (c'.notify event).1 ∧ (c.notify event).2.Alike (c'.notify event).2 := by
  have h : announce event c.awaiting c.tally = announce event c'.awaiting c'.tally := by
    rw [← c.announce_outstanding, ← c'.announce_outstanding, A.outstanding, A.tally]
  have hold := A.filter_eq (t := (announce event c.awaiting c.tally).2) fun k hk => by
    rw [isComplete_announce, hk, Bool.true_or]
  have hfst := congrArg Prod.fst h
  refine ⟨hfst, A.names, A.records, congrArg Prod.snd h, ?_⟩
  simp only [Catalog.outstanding, Catalog.notify, ← h, hold]

/-- While nothing is outstanding, an event counts nothing and changes nothing that can be seen. -/
theorem notify_of_pendingLoads {c : Catalog} (hp : c.pendingLoads = 0) (event : AssetEvent) :
    (c.notify event).1 = 0 ∧ c.Alike (c.notify event).2 := by
  have hout : c.outstanding = [] := by
    rw [← List.length_eq_zero_iff, ← pendingLoads_eq_length, hp]
  have h : announce event c.awaiting c.tally = (0, c.tally) := by
    rw [← c.announce_outstanding, hout, announce]
  refine ⟨congrArg Prod.fst h, rfl, rfl, (congrArg Prod.snd h).symm, ?_⟩
  simp [Catalog.outstanding, Catalog.notify, h, List.filter_filter]

end Catalog

/-! ### Sessions -/

namespace Session

variable {σ : Type}

/-- Reads messages in order. An attentive session hears all of them, and another one none of those
that come while nothing is outstanding. -/
def listen (attentive : Bool) (s : Session σ) (events : List AssetEvent) : Session σ :=
  if attentive then events.foldl hear s else s.hearAll events

structure Alike (s s' : Session σ) : Prop where
  catalog : s.catalog.Alike s'.catalog
  source : s.source = s'.source
  log : s.log = s'.log

namespace Alike

variable {s s' : Session σ}

theorem refl (s : Session σ) : s.Alike s := ⟨.refl _, rfl, rfl⟩

theorem symm (A : s.Alike s') : s'.Alike s := ⟨A.catalog.symm, A.source.symm, A.log.symm⟩

theorem trans {s'' : Session σ} (A : s.Alike s') (A' : s'.Alike s'') : s.Alike s'' :=
  ⟨A.catalog.trans A'.catalog, A.source.trans A'.source, A.log.trans A'.log⟩

theorem note (A : s.Alike s') (line : LogLine) : (s.note line).Alike (s'.note line) :=
  ⟨A.catalog, A.source, congrArg (· ++ [line]) A.log⟩

theorem withCatalog (A : s.Alike s') {c c' : Catalog} (Ac : c.Alike c') :
    Alike { s with catalog := c } { s' with catalog := c' } :=
  ⟨Ac, A.source, A.log⟩

theorem receive (A : s.Alike s') (name : String) : (s.receive name).Alike (s'.receive name) := by
  have Ac := A.catalog.receive name
  simp only [Catalog.receive] at Ac
  unfold Session.receive
  rw [A.catalog.contains_eq] at Ac ⊢
  split at Ac
  · rw [if_pos ‹_›, if_pos ‹_›]
    exact A.note _
  · rw [if_neg ‹_›, if_neg ‹_›]
    exact A.withCatalog Ac

theorem hear (A : s.Alike s') (event : AssetEvent) : (s.hear event).Alike (s'.hear event) := by
  obtain ⟨hn, Ac⟩ := A.catalog.notify event
  have hprogress := Ac.progress_eq
  simp only [Session.hear, hn]
  split
  · exact A.withCatalog Ac
  · rw [hprogress]
    exact (A.withCatalog Ac).note _

theorem foldl_hear (A : s.Alike s') (events : List AssetEvent) :
    (events.foldl Session.hear s).Alike (events.foldl Session.hear s') := by
  induction events generalizing s s' with
  | nil => exact A
  | cons event events ih => exact ih (A.hear event)

/-- An event that passes unheard might as well be heard. -/
theorem of_hear (hp : s.catalog.pendingLoads = 0) (event : AssetEvent) :
    s.Alike (s.hear event) := by
  obtain ⟨hn, Ac⟩ := Catalog.notify_of_pendingLoads hp event
  have hhear : s.hear event = { s with catalog := (s.catalog.notify event).2 } := by
    unfold Session.hear
    simp only [hn, if_true]
  rw [hhear]
  exact ⟨Ac, rfl, rfl⟩

theorem of_foldl_hear (s : Session σ) (events : List AssetEvent) :
    (s.hearAll events).Alike (events.foldl Session.hear s) := by
  induction events generalizing s with
  | nil => exact .refl s
  | cons event events ih =>
    rw [hearAll, List.foldl_cons]
    split
    · exact (ih s).trans ((of_hear ‹_› event).foldl_hear events)
    · exact ih (s.hear event)

theorem listen (A : s.Alike s') (attentive attentive' : Bool) (events : List AssetEvent) :
    (s.listen attentive events).Alike (s'.listen attentive' events) := by
  have hall : ∀ (b : Bool) (s : Session σ),
      (s.listen b events).Alike (events.foldl Session.hear s) := by
    intro b s
    cases b
    · exact of_foldl_hear s events
    · exact .refl _
  exact ((hall attentive s).trans (A.foldl_hear events)).trans (hall attentive' s').symm

variable [ImageSource σ]

theorem shareHeld (A : s.Alike s') : s.shareHeld.Alike s'.shareHeld := by
  refine ⟨A.catalog, ?_, A.log⟩
  simp only [Session.shareHeld, A.source, A.catalog.assets_eq]

theorem queueImage (A : s.Alike s') (src : String) :
    (s.queueImage src).1 = (s'.queueImage src).1 ∧
      (s.queueImage src).2.Alike (s'.queueImage src).2 := by
  simp only [Session.queueImage, ← A.source]
  obtain ⟨himage, Ac⟩ := A.catalog.enqueue src (ImageSource.load s.source src).1
    (ImageSource.isLoaded (ImageSource.load s.source src).2 (ImageSource.load s.source src).1)
  exact ⟨himage, Ac, rfl, A.log⟩

theorem queueImage? (A : s.Alike s') (src : Option String) :
    (s.queueImage? src).1 = (s'.queueImage? src).1 ∧
      (s.queueImage? src).2.Alike (s'.queueImage? src).2 := by
  cases src with
  | none => exact ⟨rfl, A⟩
  | some src =>
    obtain ⟨himage, As⟩ := A.queueImage src
    exact ⟨congrArg some himage, As⟩

theorem queueEntry (A : s.Alike s') (name : String) (t : TileSpec) :
    (s.queueEntry name t).1 = (s'.queueEntry name t).1 ∧
      (s.queueEntry name t).2.Alike (s'.queueEntry name t).2 := by
  obtain ⟨himage, A₁⟩ := A.queueImage t.url
  obtain ⟨hgoal, A₂⟩ := A₁.queueImage? t.goalUrl
  exact ⟨congrArg₂ (Entry.mk name) himage hgoal, A₂⟩

theorem registerAs (A : s.Alike s') (name : String) (t : TileSpec) :
    (s.registerAs name t).1 = (s'.registerAs name t).1 ∧
      (s.registerAs name t).2.Alike (s'.registerAs name t).2 := by
  obtain ⟨he, A'⟩ := (A.receive name).shareHeld.queueEntry name t
  simp only [Session.registerAs, A.catalog.contains_eq, ← he, ← A'.catalog.progress_eq]
  exact ⟨trivial, (A'.note _).withCatalog (A'.catalog.put _)⟩

theorem register (A : s.Alike s') (t : TileSpec) :
    (s.register t).1 = (s'.register t).1 ∧ (s.register t).2.Alike (s'.register t).2 := by
  unfold Session.register
  cases t.validName with
  | none => exact ⟨rfl, A⟩
  | some name =>
    obtain ⟨hr, A'⟩ := A.registerAs name t
    exact ⟨congrArg Except.ok hr, A'⟩

theorem registerAll (A : s.Alike s') (ts : List TileSpec) :
    (s.registerAll ts).1 = (s'.registerAll ts).1 ∧
      (s.registerAll ts).2.Alike (s'.registerAll ts).2 := by
  induction ts generalizing s s' with
  | nil => exact ⟨rfl, A⟩
  | cons t ts ih =>
    obtain ⟨hr, A'⟩ := A.register t
    cases ht : t.validName with
    | none =>
      rw [registerAll_nameless s ht, registerAll_nameless s' ht]
      exact ⟨rfl, A⟩
    | some name =>
      rw [registerAll_named s ht, registerAll_named s' ht]
      obtain ⟨hrest, A''⟩ := ih A'
      exact ⟨congrArg (·.map (· + 1)) hrest, A''⟩

theorem registerText (A : s.Alike s') (text : String) :
    (s.registerText text).1 = (s'.registerText text).1 ∧
      (s.registerText text).2.Alike (s'.registerText text).2 := by
  unfold Session.registerText
  cases Manifest.ofText text with
  | error e => exact ⟨rfl, A⟩
  | ok m =>
    obtain ⟨hr, A'⟩ := A.registerAll m.tiles
    dsimp only
    rw [registerManifest_fst, registerManifest_fst, registerManifest_snd, registerManifest_snd, hr]
    exact ⟨rfl, A'⟩

end Alike

end Session

/-! ### Consoles -/

namespace Console

variable {σ : Type}

structure Alike (c c' : Console σ) : Prop where
  session : c.session.Alike c'.session
  slots : c.slots = c'.slots

namespace Alike

variable {c c' : Console σ}

theorem catalog (A : c.Alike c') : c.catalog.Alike c'.catalog := A.session.catalog

theorem withCatalog (A : c.Alike c') {d d' : Catalog} (Ad : d.Alike d') :
    (c.withCatalog d).Alike (c'.withCatalog d') :=
  ⟨A.session.withCatalog Ad, A.slots⟩

theorem keep (A : c.Alike c') (held : Held) :
    (c.keep held).1 = (c'.keep held).1 ∧ (c.keep held).2.Alike (c'.keep held).2 := by
  refine ⟨?_, A.session, congrArg (· ++ [held]) A.slots⟩
  rw [Console.keep, Console.keep, A.slots]

theorem completeAll {d d' : Catalog} (A : d.Alike d') (ks : List Ticket) :
    (completeAll d ks).1 = (Console.completeAll d' ks).1 ∧
      (Console.completeAll d ks).2.Alike (Console.completeAll d' ks).2 := by
  induction ks generalizing d d' with
  | nil => exact ⟨rfl, A⟩
  | cons k ks ih =>
    obtain ⟨hfirst, A'⟩ := A.complete k
    obtain ⟨hrest, A''⟩ := ih A'
    exact ⟨congrArg₂ List.cons hfirst hrest, A''⟩

variable [ImageSource σ]

/-- Alike consoles give every command the same answer and stay alike. -/
theorem step (A : c.Alike c') (command : Command σ) :
    (c.step command).1 = (c'.step command).1 ∧ (c.step command).2.Alike (c'.step command).2 := by
  cases command with
  | register t =>
    obtain ⟨hr, As⟩ := A.session.register t
    exact ⟨congrArg Reply.registered hr, As, A.slots⟩
  | registerAll ts =>
    obtain ⟨hr, As⟩ := A.session.registerAll ts
    exact ⟨congrArg Reply.registeredAll hr, As, A.slots⟩
  | registerText text =>
    obtain ⟨hr, As⟩ := A.session.registerText text
    exact ⟨congrArg Reply.registeredText hr, As, A.slots⟩
  | notify event =>
    obtain ⟨hn, Ac⟩ := A.catalog.notify event
    exact ⟨congrArg Reply.count hn, A.withCatalog Ac⟩
  | advance change =>
    exact ⟨rfl, ⟨A.session.catalog, congrArg change A.session.source, A.session.log⟩, A.slots⟩
  | complete name n =>
    simp only [Console.step, A.catalog.get?_eq]
    split
    · exact ⟨rfl, A⟩
    · split
      · exact ⟨rfl, A⟩
      · rename_i i _
        obtain ⟨hfirst, Ac⟩ := A.catalog.complete i.ticket
        exact ⟨congrArg Reply.flag hfirst, A.withCatalog Ac⟩
  | get name => exact ⟨by simp only [Console.step, A.catalog.get?_eq], A⟩
  | contains name => exact ⟨by simp only [Console.step, A.catalog.contains_eq], A⟩
  | hold name n =>
    simp only [Console.step, A.catalog.get?_eq]
    split
    · exact ⟨rfl, A⟩
    · split
      · exact A.keep _
      · split
        · exact ⟨rfl, A⟩
        · exact A.keep _
  | queue =>
    obtain ⟨hk, Ac⟩ := A.catalog.queueTicket
    simp only [Console.step, hk]
    exact (A.withCatalog Ac).keep _
  | completeHeld slot =>
    simp only [Console.step, A.slots]
    split
    · exact ⟨rfl, A⟩
    · rename_i held _
      obtain ⟨hfirsts, Ac⟩ := completeAll A.catalog held.tickets
      exact ⟨congrArg (Reply.ofCompletion held) hfirsts, A.withCatalog Ac⟩
  | showHeld slot =>
    simp only [Console.step, A.slots, A.catalog.tally]
    split <;> exact ⟨rfl, A⟩
  | reset => exact ⟨rfl, A.withCatalog A.catalog.reset⟩
  | resetTally => exact ⟨rfl, A.withCatalog A.catalog.resetTally⟩
  | counts => exact ⟨by simp only [Console.step, A.catalog.progress_eq], A⟩

end Alike

/-! ### What follows -/

/-- What a console is told: a command, or messages to read. -/
inductive Turn (σ : Type) where
  | command (command : Command σ)
  | read (events : List AssetEvent)

variable [ImageSource σ]

def turn (attentive : Bool) (c : Console σ) : Turn σ → Reply × Console σ
  | .command command => c.step command
  | .read events => (.nothing, { c with session := c.session.listen attentive events })

/-- What is seen of each turn. -/
def moments (attentive : Bool) (c : Console σ) : List (Turn σ) → List Moment
  | [] => []
  | turn :: turns =>
    let (reply, c') := c.turn attentive turn
    ⟨reply.view 0 c'.catalog, c'.session.log.drop c.session.log.length, c'.catalog.view⟩ ::
      c'.moments attentive turns

namespace Alike

variable {c c' : Console σ}

theorem turn (A : c.Alike c') (attentive attentive' : Bool) (t : Turn σ) :
    (c.turn attentive t).1 = (c'.turn attentive' t).1 ∧
      (c.turn attentive t).2.Alike (c'.turn attentive' t).2 := by
  cases t with
  | command command => exact A.step command
  | read events => exact ⟨rfl, A.session.listen attentive attentive' events, A.slots⟩

/-- What can be seen of a reply does not depend on complete loads that still wait. -/
theorem view_reply {d d' : Catalog} (A : d.Alike d') (r : Reply) : r.view 0 d = r.view 0 d' := by
  cases r with
  | entry e => rw [Reply.view, Reply.view, A.viewEntry_eq]
  | held held =>
    cases held with
    | entry e => rw [Reply.view, Reply.view, A.viewEntry_eq]
    | image i => rw [Reply.view, Reply.view, A.viewImage_eq]
    | ticket k => rw [Reply.view, Reply.view, A.tally]
  | _ => rfl

theorem moments (A : c.Alike c') (attentive attentive' : Bool) (turns : List (Turn σ)) :
    c.moments attentive turns = c'.moments attentive' turns := by
  induction turns generalizing c c' with
  | nil => rfl
  | cons t turns ih =>
    obtain ⟨hreply, A'⟩ := A.turn attentive attentive' t
    simp only [Console.moments, hreply, view_reply A'.catalog, A'.catalog.view_eq, A'.session.log,
      A.session.log, ih A']

end Alike

/-- Whatever the console, and whatever messages it reads: whether or not those that come while
nothing is outstanding are heard, the same lines are logged, and afterwards the counts, the tickets
and the entries are the same, the same loads are outstanding, and the same is seen of the catalog.
Whatever commands are given and messages read later, and whether or not all of those are heard,
every answer, the lines logged and what is seen of the catalog are the same as well. What waits may
differ: loads that are complete stay on the waiting list until an event is heard. -/
theorem read_unheard :
    (∀ {σ : Type} [ImageSource σ] (c : Console σ) (events : List AssetEvent),
      let passed := (c.turn false (.read events)).2
      let heard := (c.turn true (.read events)).2
      passed.session = c.session.hearAll events ∧
      heard.session = events.foldl Session.hear c.session ∧
      passed.session.log = heard.session.log ∧ passed.catalog.tally = heard.catalog.tally ∧
      passed.catalog.names = heard.catalog.names ∧
      passed.catalog.records = heard.catalog.records ∧
      passed.catalog.outstanding = heard.catalog.outstanding ∧
      passed.catalog.view = heard.catalog.view ∧
      ∀ (attentive attentive' : Bool) (later : List (Turn σ)),
        passed.moments attentive later = heard.moments attentive' later) ∧
    ∃ (commands : List (Command Gallery)) (event : AssetEvent),
      let c := (start {}).run commands
      (c.turn false (.read [event])).2.catalog.awaiting ≠
        (c.turn true (.read [event])).2.catalog.awaiting := by
  constructor
  · intro σ _ c events passed heard
    have A : passed.Alike heard :=
      (Alike.turn ⟨.refl c.session, rfl⟩ false true (.read events)).2
    exact ⟨rfl, rfl, A.session.log, A.catalog.tally, A.catalog.names, A.catalog.records,
      A.catalog.outstanding, A.catalog.view_eq, A.moments⟩
  · -- a picture completed by hand waits until an event is heard, whichever it is
    exact ⟨[.register (.named "wall" "wall.png"), .complete "wall" 0], ⟨.removed, .number 0⟩,
      by decide +kernel⟩

end Console

end TileCatalog
