import Mathlib.Data.List.Induction
import TileCatalog.Catalog.Basic

/-!
# The past of a catalog

A history lists what was done to a catalog, the earliest deed first. `Does c d c'` says all that a
deed can do to a catalog, and `Past h c` that the deeds of `h` make `c` out of an empty one. Every
invariant of catalogs is a lemma about `Does` and an induction over `Past`. Nothing here tells who
did the deeds: consoles and applications each tell a history of their own.
-/

namespace TileCatalog

inductive Deed where
  /-- A tile was registered and has an entry. For each of its pictures, `ready` tells whether the
  source had it loaded when it was queued. -/
  | registered (tile : TileSpec) (entry : Entry) (ready : List Bool)
  | heard (event : AssetEvent)
  | completed (ticket : Ticket)
  /-- A ticket was issued that belongs to no picture. -/
  | issued (ticket : Ticket)
  /-- The counts alone were zeroed. -/
  | zeroed
  | cleared
deriving DecidableEq, Repr

namespace Deed

/-- The pictures queued, each with whether its source had it loaded. -/
def queued : Deed → List (Image × Bool)
  | registered _ e ready => e.images.zip ready
  | _ => []

def images (d : Deed) : List Image := d.queued.map (·.1)

theorem images_registered {e : Entry} {ready : List Bool} (t : TileSpec)
    (h : ready.length = e.images.length) : (registered t e ready).images = e.images :=
  List.map_fst_zip (Nat.le_of_eq h.symm)

@[simp] theorem images_heard (event : AssetEvent) : (heard event).images = [] := rfl
@[simp] theorem images_completed (k : Ticket) : (completed k).images = [] := rfl
@[simp] theorem images_issued (k : Ticket) : (issued k).images = [] := rfl
@[simp] theorem images_zeroed : zeroed.images = [] := rfl
@[simp] theorem images_cleared : cleared.images = [] := rfl

def tickets : Deed → List Ticket
  | registered _ e _ => e.images.map (·.ticket)
  | issued k => [k]
  | _ => []

@[simp] def tile? : Deed → Option TileSpec
  | registered t _ _ => some t
  | _ => none

end Deed

/-- Deeds, the earliest first. -/
abbrev History := List Deed

namespace History

/-- What was done since the catalog was last cleared. -/
def sinceReset (h : History) : History :=
  h.foldl (fun past d => if d = .cleared then [] else past ++ [d]) []

/-- What was done before the catalog was next cleared. -/
def untilReset (h : History) : History := h.takeWhile (· ≠ .cleared)

def images (h : History) : List Image := h.flatMap Deed.images

def tickets (h : History) : List Ticket := h.flatMap Deed.tickets

def pictures (h : History) : List Image := images h.sinceReset

def tiles (h : History) : List TileSpec := h.sinceReset.filterMap Deed.tile?

theorem concat_eq_append_cons {h p q : History} {d d' : Deed} :
    h ++ [d'] = p ++ d :: q ↔
      h = p ∧ d' = d ∧ q = [] ∨ ∃ q', h = p ++ d :: q' ∧ q = q' ++ [d'] := by
  constructor
  · intro hh
    rcases List.eq_nil_or_concat q with rfl | ⟨q, x, rfl⟩
    · obtain ⟨rfl, hd⟩ := List.append_inj' hh rfl
      exact .inl ⟨rfl, List.singleton_inj.1 hd, rfl⟩
    · obtain ⟨rfl, hd⟩ : h = p ++ d :: q ∧ [d'] = [x] := List.append_inj' (by simpa using hh) rfl
      obtain rfl := List.singleton_inj.1 hd
      exact .inr ⟨q, rfl, List.concat_eq_append⟩
  · rintro (⟨rfl, rfl, rfl⟩ | ⟨q', rfl, rfl⟩)
    · rfl
    · simp

@[simp] theorem sinceReset_cleared (h : History) : sinceReset (h ++ [.cleared]) = [] := by
  simp [sinceReset]

theorem sinceReset_concat {d : Deed} (hd : d ≠ .cleared) (h : History) :
    sinceReset (h ++ [d]) = h.sinceReset ++ [d] := by
  simp [sinceReset, hd]

theorem sinceReset_append (h k : History) :
    sinceReset (h ++ k) = if .cleared ∈ k then sinceReset k else h.sinceReset ++ k := by
  induction k using List.reverseRecOn with
  | nil => simp
  | append_singleton k d ih =>
    rw [← List.append_assoc]
    by_cases hd : d = .cleared
    · subst hd
      rw [sinceReset_cleared, sinceReset_cleared, if_pos (by simp)]
    · rw [sinceReset_concat hd, sinceReset_concat hd, ih]
      by_cases hk : .cleared ∈ k <;> simp [hk, Ne.symm hd]

theorem heard_mem_untilReset_concat (h : History) (d : Deed) (event : AssetEvent) :
    .heard event ∈ untilReset (h ++ [d]) ↔
      .heard event ∈ h.untilReset ∨ .cleared ∉ h ∧ d = .heard event := by
  induction h with
  | nil => cases d <;> simp [untilReset, eq_comm]
  | cons a h ih =>
    by_cases ha : a = .cleared
    · simp [untilReset, ha]
    · simp only [untilReset, ne_eq, decide_not] at ih
      simp [untilReset, ha, ih, Ne.symm ha, or_assoc]

@[simp] theorem images_append (h k : History) : images (h ++ k) = images h ++ images k :=
  List.flatMap_append

theorem mem_untilReset_append_left {d : Deed} {h : History} (hd : d ∈ h.untilReset) (k : History) :
    d ∈ untilReset (h ++ k) := by
  unfold untilReset at hd ⊢
  rw [List.takeWhile_append]
  split
  · exact List.mem_append_left _ (List.takeWhile_subset _ hd)
  · exact hd

theorem mem_of_mem_untilReset_append {d : Deed} {h k : History} (hd : d ∈ untilReset (h ++ k)) :
    d ∈ h.untilReset ∨ d ∈ k := by
  unfold untilReset at hd ⊢
  rw [List.takeWhile_append] at hd
  split at hd
  · rename_i hl
    rw [(List.takeWhile_prefix _).eq_of_length hl]
    exact (List.mem_append.1 hd).imp_right (List.takeWhile_subset _ ·)
  · exact .inl hd

@[simp] theorem images_nil : images [] = [] := rfl

@[simp] theorem images_cons (d : Deed) (h : History) : images (d :: h) = d.images ++ images h := rfl

@[simp] theorem pictures_cleared (h : History) : pictures (h ++ [.cleared]) = [] := by
  simp [pictures, images]

@[simp] theorem pictures_concat {d : Deed} (hd : d ≠ .cleared) (h : History) :
    pictures (h ++ [d]) = h.pictures ++ d.images := by
  simp [pictures, sinceReset_concat hd]

theorem pictures_append {k : History} (hk : .cleared ∉ k) (h : History) :
    pictures (h ++ k) = h.pictures ++ images k := by
  rw [pictures, sinceReset_append, if_neg hk, images_append, pictures]

@[simp] theorem tiles_cleared (h : History) : tiles (h ++ [.cleared]) = [] := by simp [tiles]

@[simp] theorem tiles_concat {d : Deed} (hd : d ≠ .cleared) (h : History) :
    tiles (h ++ [d]) = h.tiles ++ d.tile?.toList := by
  simp only [tiles, sinceReset_concat hd, List.filterMap_append]
  cases d <;> rfl

theorem sinceReset_suffix (h : History) : sinceReset h <:+ h := by
  induction h using List.reverseRecOn with
  | nil => exact List.nil_suffix
  | append_singleton h d ih =>
    by_cases hd : d = .cleared
    · subst hd
      rw [sinceReset_cleared]
      exact List.nil_suffix
    · rw [sinceReset_concat hd]
      obtain ⟨p, hp⟩ := ih
      exact ⟨p, by rw [← List.append_assoc, hp]⟩

theorem pictures_sublist (h : History) : (pictures h).Sublist (images h) := by
  obtain ⟨p, hp⟩ := sinceReset_suffix h
  rw [pictures, ← hp, images_append]
  simp [hp]

end History

/-- The entry is that of the tile: it has the tile's name and pictures from the tile's sources. -/
structure Entry.Shows (e : Entry) (t : TileSpec) : Prop where
  name : t.validName = some e.name
  src : e.image.src = t.url
  goal : e.goal.map (·.src) = t.goalUrl

/-- Pictures are queued one after the other, each at any asset and loaded or not. -/
inductive Enqueues : Catalog → List (Image × Bool) → Catalog → Prop
  | nil (c : Catalog) : Enqueues c [] c
  | cons {c c' : Catalog} {rest : List (Image × Bool)} (src : String) (asset : AssetId)
      (ready : Bool) (h : Enqueues (c.enqueue src asset ready).2 rest c') :
      Enqueues c (((c.enqueue src asset ready).1, ready) :: rest) c'

/-- What a deed can make of a catalog. -/
inductive Does : Catalog → Deed → Catalog → Prop
  | register {c c' : Catalog} {t : TileSpec} {e : Entry} {ready : List Bool} (hs : e.Shows t)
      (hlen : ready.length = e.images.length)
      (hq : Enqueues (c.receive e.name) (e.images.zip ready) c') :
      Does c (.registered t e ready) (c'.put e)
  | hear (c : Catalog) (event : AssetEvent) : Does c (.heard event) (c.notify event).2
  | complete (c : Catalog) (k : Ticket) : Does c (.completed k) (c.complete k).2
  | issue (c : Catalog) : Does c (.issued c.queueTicket.1) c.queueTicket.2
  | zero (c : Catalog) : Does c .zeroed c.resetTally
  | clear (c : Catalog) : Does c .cleared c.reset

/-- The deeds of a history make the catalog out of an empty one. -/
inductive Past : History → Catalog → Prop
  | start : Past [] {}
  | step {h : History} {c c' : Catalog} {d : Deed} (H : Past h c) (D : Does c d c') :
      Past (h ++ [d]) c'

/-! ### A history makes one catalog -/

theorem Enqueues.unique {c c₁ c₂ : Catalog} {q : List (Image × Bool)} (hq : Enqueues c q c₁)
    (hq' : Enqueues c q c₂) : c₁ = c₂ := by
  induction hq with
  | nil =>
    cases hq'
    rfl
  | cons src asset ready _ ih =>
    cases hq'
    exact ih ‹_›

theorem Does.unique {c c₁ c₂ : Catalog} {d : Deed} (D : Does c d c₁) (D' : Does c d c₂) :
    c₁ = c₂ := by
  cases D with
  | register _ _ hq =>
    cases D' with
    | register _ _ hq' => rw [hq.unique hq']
  | hear | complete | issue | zero | clear =>
    cases D'
    rfl

theorem Past.unique {h : History} {c₁ c₂ : Catalog} (H : Past h c₁) (H' : Past h c₂) :
    c₁ = c₂ := by
  induction H generalizing c₂ with
  | start =>
    generalize hnil : ([] : History) = k at H'
    cases H' with
    | start => rfl
    | step => simp at hnil
  | @step h _ _ d _ D ih =>
    generalize hconcat : h ++ [d] = k at H'
    cases H' with
    | start => simp at hconcat
    | step H' D' =>
      obtain ⟨rfl, hd⟩ := List.append_inj' hconcat rfl
      obtain rfl := List.singleton_inj.1 hd
      obtain rfl := ih H'
      exact D.unique D'

end TileCatalog
