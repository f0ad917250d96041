import Mathlib.Data.List.TakeWhile
import TileCatalog.Proofs.LastWrite

/-!
# Registering a list of tiles

Tiles are registered in order up to the first one without a name, and nothing is done for that one
and those behind it. So a list is registered as its tiles are one by one, as far as they are named
(`registerAll_eq`), and a list in two parts as the first and then, unless that failed, the second
(`registerAll_append`). What the source is asked for is told by a source that keeps a list of it and
is otherwise the same (`Traced`): it is asked for the pictures of the tiles registered, each once
and in order.
-/

namespace TileCatalog

def TileSpec.isNamed (t : TileSpec) : Bool := t.name.any (· ≠ "")

namespace TileSpec

variable {t : TileSpec} {ts : List TileSpec}

theorem validName_eq_none : t.validName = none ↔ t.isNamed = false := by
  unfold validName isNamed
  cases t.name <;> simp [Option.filter]

theorem exists_validName (h : t.isNamed = true) : ∃ name, t.validName = some name := by
  refine Option.ne_none_iff_exists'.1 fun hnone => ?_
  rw [validName_eq_none.1 hnone] at h
  cases h

theorem takeWhile_isNamed : ts.takeWhile isNamed = ts ↔ ∀ t ∈ ts, t.isNamed = true :=
  List.takeWhile_eq_self_iff

end TileSpec

open TileSpec

namespace Session

variable {σ : Type} [ImageSource σ]

/-- Registers tiles one by one, whatever the results are. -/
def registerEach (s : Session σ) (ts : List TileSpec) : Session σ :=
  ts.foldl (fun s t => (s.register t).2) s

theorem registerAll_eq (s : Session σ) (ts : List TileSpec) :
    s.registerAll ts =
      (if ts.takeWhile isNamed = ts then .ok ts.length else .error {},
        s.registerEach (ts.takeWhile isNamed)) := by
  induction ts generalizing s with
  | nil => rfl
  | cons t ts ih =>
    cases ht : t.isNamed with
    | false =>
      have hp : (t :: ts).takeWhile isNamed = [] := List.takeWhile_cons_of_neg (by simp [ht])
      rw [registerAll_nameless s (validName_eq_none.2 ht), hp]
      rfl
    | true =>
      obtain ⟨name, hname⟩ := exists_validName ht
      have hp : (t :: ts).takeWhile isNamed = t :: ts.takeWhile isNamed :=
        List.takeWhile_cons_of_pos ht
      rw [registerAll_named s hname, hp, ih]
      refine Prod.ext ?_ rfl
      by_cases hall : ts.takeWhile isNamed = ts
      · rw [if_pos hall, if_pos (congrArg (t :: ·) hall)]
        rfl
      · rw [if_neg hall, if_neg fun h => hall (List.cons.inj h).2]
        rfl

/-- The second part of a list is registered only if the first was as a whole. -/
theorem registerAll_append (s : Session σ) (xs ys : List TileSpec) :
    s.registerAll (xs ++ ys) =
      match s.registerAll xs with
      | (.error e, s') => (.error e, s')
      | (.ok m, s') => ((s'.registerAll ys).1.map (m + ·), (s'.registerAll ys).2) := by
  induction xs generalizing s with
  | nil =>
    show s.registerAll ys = ((s.registerAll ys).1.map (0 + ·), (s.registerAll ys).2)
    rcases s.registerAll ys with ⟨_ | n, s'⟩
    · rfl
    · simp [Except.map]
  | cons t xs ih =>
    cases ht : t.isNamed with
    | false =>
      have hnone := validName_eq_none.2 ht
      rw [List.cons_append, registerAll_nameless s hnone, registerAll_nameless s hnone]
    | true =>
      obtain ⟨name, hname⟩ := exists_validName ht
      rw [List.cons_append, registerAll_named s hname, registerAll_named s hname, ih]
      rcases (s.register t).2.registerAll xs with ⟨_ | m, s'⟩
      · rfl
      · show (((s'.registerAll ys).1.map (m + ·)).map (· + 1), (s'.registerAll ys).2) =
          ((s'.registerAll ys).1.map (m + 1 + ·), (s'.registerAll ys).2)
        rcases s'.registerAll ys with ⟨_ | n, s''⟩
        · rfl
        · have hsum : m + n + 1 = m + 1 + n := by omega
          simp [Except.map, hsum]

end Session

/-! ### What the source is asked for -/

/-- A source with a list of what it was asked for, the first request first. -/
structure Traced (σ : Type) where
  source : σ
  calls : List String := []

instance {σ : Type} [ImageSource σ] : ImageSource (Traced σ) where
  load t src :=
    ((ImageSource.load t.source src).1,
      { source := (ImageSource.load t.source src).2, calls := t.calls ++ [src] })
  isLoaded t := ImageSource.isLoaded t.source
  retain t assets := { t with source := ImageSource.retain t.source assets }

namespace Session

variable {σ : Type} [ImageSource σ] (s : Session σ) (calls : List String)

omit [ImageSource σ] in
/-- The session over a source that was asked for `calls` and lists all further requests. -/
def traced : Session (Traced σ) where
  catalog := s.catalog
  source := { source := s.source, calls }
  log := s.log

theorem queueImage_traced (src : String) :
    (s.traced calls).queueImage src =
      ((s.queueImage src).1, (s.queueImage src).2.traced (calls ++ [src])) := rfl

theorem queueEntry_traced (name : String) (t : TileSpec) :
    (s.traced calls).queueEntry name t =
      ((s.queueEntry name t).1, (s.queueEntry name t).2.traced (calls ++ t.urls)) := by
  unfold queueEntry
  rw [queueImage_traced]
  cases hg : t.goalUrl with
  | none => simp [queueImage?, urls, hg]
  | some url => simp [queueImage?, urls, hg, queueImage_traced]

omit [ImageSource σ] in
theorem receive_traced (name : String) :
    (s.traced calls).receive name = (s.receive name).traced calls := by
  unfold receive
  show (if s.catalog.contains name then _ else _) = _
  split <;> rfl

theorem registerAs_traced (name : String) (t : TileSpec) :
    (s.traced calls).registerAs name t =
      ((s.registerAs name t).1, (s.registerAs name t).2.traced (calls ++ t.urls)) := by
  have hshare : ((s.traced calls).receive name).shareHeld =
      ((s.receive name).shareHeld).traced calls := by
    rw [receive_traced]
    rfl
  unfold registerAs
  rw [hshare, queueEntry_traced]
  rfl

theorem register_traced {t : TileSpec} (ht : t.isNamed = true) :
    (s.traced calls).register t =
      ((s.register t).1, (s.register t).2.traced (calls ++ t.urls)) := by
  obtain ⟨name, hname⟩ := exists_validName ht
  rw [register_named _ hname, register_named s hname, registerAs_traced]

theorem registerEach_traced {ts : List TileSpec} (hts : ∀ t ∈ ts, t.isNamed = true) :
    (s.traced calls).registerEach ts = (s.registerEach ts).traced (calls ++ ts.flatMap urls) := by
  induction ts generalizing s calls with
  | nil =>
    show s.traced calls = s.traced (calls ++ [])
    rw [List.append_nil]
  | cons t ts ih =>
    have hrest : ∀ t ∈ ts, t.isNamed = true := fun t ht => hts t (List.mem_cons_of_mem _ ht)
    show ((s.traced calls).register t).2.registerEach ts = _
    rw [register_traced s calls (hts t List.mem_cons_self), ih _ _ hrest, List.flatMap_cons,
      ← List.append_assoc]
    rfl

theorem registerAll_traced (ts : List TileSpec) :
    (s.traced calls).registerAll ts =
      ((s.registerAll ts).1,
        (s.registerAll ts).2.traced (calls ++ (ts.takeWhile isNamed).flatMap urls)) := by
  have hp : ∀ t ∈ ts.takeWhile isNamed, t.isNamed = true := fun t => List.mem_takeWhile_imp
  rw [registerAll_eq, registerAll_eq, registerEach_traced s calls hp]

/-- A list is registered as the tiles of its longest prefix with names are one by one, and it fails
if that is not the whole list. Seen from its source, this asks for the pictures of the prefix, each
once and in order, the primary one of a tile before the one of its goal, and for nothing else.
A list in two parts is registered as the first and then, unless that failed, the second. -/
theorem registerAll_takes_prefix (ts : List TileSpec) :
    let p := ts.takeWhile isNamed
    s.registerAll ts = (if p = ts then .ok ts.length else .error {}, s.registerEach p) ∧
    (s.traced calls).registerAll ts =
      ((s.registerAll ts).1,
        (s.registerAll ts).2.traced (calls ++ p.flatMap fun t => t.url :: t.goalUrl.toList)) ∧
    ∀ ys, s.registerAll (ts ++ ys) =
      match s.registerAll ts with
      | (.error e, s') => (.error e, s')
      | (.ok m, s') => ((s'.registerAll ys).1.map (m + ·), (s'.registerAll ys).2) :=
  ⟨s.registerAll_eq ts, s.registerAll_traced calls ts, s.registerAll_append ts⟩

end Session

end TileCatalog
