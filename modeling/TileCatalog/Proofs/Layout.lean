import Mathlib.Algebra.Order.Ring.Int
import Mathlib.Data.Finset.Card
import Mathlib.Data.List.Nodup
import TileCatalog.Proofs.Reporting

/-!
# The layout of the palette

The palette takes its width from the names of a catalog and its columns from the entries. The two
agree because a catalog mirrors what was registered: every name has an entry, and no entry is
without a name (`Catalog.Mirrors.perm_entries`). So the columns are as many as the names, which
centres them, and nothing that the catalog holds is left out. This is so for any catalog with a past
(`Past.laidOut`), whatever its source.
-/

namespace TileCatalog

/-! ### Entries by name -/

theorem Records.filterMap_lookup {r : Records} (hr : (r.map (·.1)).Nodup) :
    (r.map (·.1)).filterMap (List.lookup · r) = r.map (·.2) := by
  induction r with
  | nil => rfl
  | cons p rest ih =>
    obtain ⟨name, e⟩ := p
    obtain ⟨hnot, hrest⟩ := List.nodup_cons.1 hr
    have hself : List.lookup name ((name, e) :: rest) = some e := by simp
    have hothers : ∀ n ∈ rest.map (·.1), List.lookup n ((name, e) :: rest) = rest.lookup n := by
      intro n hn
      have hne : n ≠ name := fun h => hnot (h ▸ hn)
      rw [List.lookup_cons, beq_eq_false_iff_ne.2 hne]
    rw [List.map_cons, List.filterMap_cons, hself, List.filterMap_congr hothers, ih hrest]
    rfl

namespace Catalog.Mirrors

variable {c : Catalog} {ts : List TileSpec}

theorem nodup_names (M : c.Mirrors ts) : c.names.Nodup := by
  rw [M.names_eq]
  exact TileSpec.nodup_firstNames ts

theorem perm_names (M : c.Mirrors ts) : c.names.Perm (c.records.map (·.1)) := by
  have hsub : c.names ⊆ c.records.map (·.1) := by
    intro name hn
    obtain ⟨⟨n, e⟩, hmem, hname⟩ := List.lookup_isSome_iff.1 (M.contains_iff.2 hn)
    obtain rfl : name = n := eq_of_beq hname
    exact List.mem_map_of_mem hmem
  refine (List.subperm_of_subset M.nodup_names hsub).perm_of_length_le ?_
  rw [List.length_map]
  exact Nat.le_of_eq M.size_eq

/-- The entries listed by name are all that there are. -/
theorem perm_entries (M : c.Mirrors ts) : c.entries.Perm (c.records.map (·.2)) := by
  have hkeys : (c.records.map (·.1)).Nodup := M.perm_names.nodup_iff.1 M.nodup_names
  rw [← c.records.filterMap_lookup hkeys]
  exact M.perm_names.filterMap c.get?

theorem length_entries (M : c.Mirrors ts) : c.entries.length = c.names.length := by
  rw [← M.map_name_entries, List.length_map]

end Catalog.Mirrors

/-! ### Places on the screen -/

/-- How far above the first row the swatch lies. -/
def Swatch.y (s : Swatch) : Int := -s.depth

namespace Palette

theorem columnX_eq {n i : Nat} (hi : i < n) :
    columnX n i = 48 * (i : Int) - 24 * ((n : Int) - 1) := by
  simp only [columnX, spacing]
  omega

theorem columnX_add_columnX {n i : Nat} (hi : i < n) :
    columnX n i + columnX n (n - 1 - i) = 0 := by
  rw [columnX_eq hi, columnX_eq (by omega : n - 1 - i < n)]
  omega

theorem columnX_injective (n : Nat) : Function.Injective (columnX n) := by
  intro i j h
  simp only [columnX, spacing] at h
  omega

/-- A whole number with at most 24 binary digits in front of its zeros, which single precision holds
as it is. -/
def IsSingle (v : Int) : Prop := ∃ (m : Int) (k : Nat), v = m * 2 ^ k ∧ m.natAbs < 2 ^ 24

/-- What the place of column `i` out of `n` is reckoned from, step by step, and the place. -/
def reckoning (n i : Nat) : List Int :=
  [(n - 1 : Nat), -(spacing * (n - 1 : Nat)), -(spacing / 2 * (n - 1 : Nat)), i, spacing * i,
    columnX n i]

/-- Places are multiples of 24 or 48, so that three times the number of columns has to fit. -/
theorem isSingle_three_mul {w : Int} (hw : w.natAbs < 2 ^ 22) (k : Nat) :
    IsSingle (3 * w * 2 ^ k) :=
  ⟨3 * w, k, rfl, by omega⟩

/-- With fewer than 2 ^ 22 columns there is no rounding on the way. -/
theorem isSingle_of_mem_reckoning {n i : Nat} (hn : n < 2 ^ 22) (hi : i < n) {v : Int}
    (hv : v ∈ reckoning n i) : IsSingle v := by
  have hlast : (-(n - 1 : Nat) : Int).natAbs < 2 ^ 22 := by omega
  have hcol : (i : Int).natAbs < 2 ^ 22 := by omega
  have hmid : (2 * i - (n - 1 : Nat) : Int).natAbs < 2 ^ 22 := by omega
  simp only [reckoning, columnX, spacing, List.mem_cons, List.not_mem_nil, or_false] at hv
  rcases hv with rfl | rfl | rfl | rfl | rfl | rfl
  · exact ⟨(n - 1 : Nat), 0, by omega, by omega⟩
  · convert isSingle_three_mul hlast 4 using 1
    omega
  · convert isSingle_three_mul hlast 3 using 1
    omega
  · exact ⟨i, 0, by omega, by omega⟩
  · convert isSingle_three_mul hcol 4 using 1
    omega
  · convert isSingle_three_mul hmid 3 using 1
    omega

variable {n i : Nat} {e : Entry} {c : Catalog} {ts : List TileSpec}

theorem x_of_mem_column {s : Swatch} (hs : s ∈ column n i e) : s.x = columnX n i := by
  obtain ⟨row, _, rfl⟩ := List.mem_mapIdx.1 hs
  rfl

theorem map_column (n i : Nat) (e : Entry) :
    (column n i e).map (fun s => (s.asset, s.x, s.y)) =
      (e.image.asset, columnX n i, 0) ::
        e.goal.toList.map fun g => (g.asset, columnX n i, -48) := by
  cases hg : e.goal <;> simp [column, Entry.images, hg, Swatch.y, spacing]

theorem nodup_places_column (n i : Nat) (e : Entry) :
    ((column n i e).map fun s => (s.x, s.y)).Nodup := by
  cases hg : e.goal <;> simp [column, Entry.images, hg, Swatch.y, spacing]

theorem map_asset_column (n i : Nat) (e : Entry) :
    (column n i e).map (·.asset) = e.images.map (·.asset) := by
  cases hg : e.goal <;> simp [column, Entry.images, hg]

theorem map_asset_swatches (c : Catalog) :
    (swatches c).map (·.asset) = c.entries.flatMap fun e => e.images.map (·.asset) := by
  rw [swatches, List.map_flatten, List.flatMap_def]
  congr 1
  refine List.ext_getElem (by simp) fun i hi hi' => ?_
  simp [map_asset_column]

theorem nodup_places (c : Catalog) : ((swatches c).map fun s => (s.x, s.y)).Nodup := by
  rw [swatches, List.map_flatten, List.nodup_flatten]
  refine ⟨?_, List.pairwise_iff_getElem.2 fun i j hi hj hij => ?_⟩
  · intro places hp
    obtain ⟨swatches, hs, rfl⟩ := List.mem_map.1 hp
    obtain ⟨i, _, rfl⟩ := List.mem_mapIdx.1 hs
    exact nodup_places_column c.names.length i c.entries[i]
  · rintro ⟨x, y⟩ hx hx'
    simp only [List.getElem_map, List.getElem_mapIdx, List.mem_map, Prod.mk.injEq] at hx hx'
    obtain ⟨s, hs, rfl, -⟩ := hx
    obtain ⟨s', hs', hx, -⟩ := hx'
    rw [x_of_mem_column hs, x_of_mem_column hs'] at hx
    exact absurd (columnX_injective _ hx) (Nat.ne_of_gt hij)

theorem toFinset_xs (c : Catalog) :
    ((swatches c).map (·.x)).toFinset =
      (Finset.range c.entries.length).image (columnX c.names.length) := by
  ext x
  simp only [List.mem_toFinset, List.mem_map, swatches, List.mem_flatten, List.mem_mapIdx,
    Finset.mem_image, Finset.mem_range]
  constructor
  · rintro ⟨s, ⟨_, ⟨i, hi, rfl⟩, hs⟩, rfl⟩
    exact ⟨i, hi, (x_of_mem_column hs).symm⟩
  · rintro ⟨i, hi, rfl⟩
    have hmem : (⟨c.entries[i].image.asset, columnX c.names.length i, 0⟩ : Swatch) ∈
        column c.names.length i c.entries[i] := by
      simp [column, Entry.images]
    exact ⟨_, ⟨_, ⟨i, hi, rfl⟩, hmem⟩, rfl⟩

/-- The swatches `new` show the catalog: all of it, centred, with no overlap. -/
structure LaidOut (c : Catalog) (new : List Swatch) : Prop where
  /-- The entries are in the order of the names, and each name has one. -/
  entries_eq : c.entries.map some = c.names.map c.get?
  /-- Each entry has a column, with its primary picture in the first row and its goal picture in the
  second. -/
  columns_eq : new.map (fun s => (s.asset, s.x, s.y)) =
    (c.entries.mapIdx fun i e =>
      (e.image.asset, columnX c.names.length i, 0) ::
        e.goal.toList.map fun g => (g.asset, columnX c.names.length i, -48)).flatten
  x_eq : ∀ i < c.names.length,
    columnX c.names.length i = 48 * (i : Int) - 24 * ((c.names.length : Int) - 1)
  centred : ∀ i < c.names.length,
    columnX c.names.length i + columnX c.names.length (c.names.length - 1 - i) = 0
  pictures : (new.map (·.asset)).Perm c.assets
  length_eq : new.length = (c.records.map fun r => r.2.images.length).sum
  apart : (new.map fun s => (s.x, s.y)).Nodup
  card_columns : (new.map (·.x)).toFinset.card = c.names.length
  unrounded : c.names.length < 2 ^ 22 →
    ∀ i < c.names.length, ∀ v ∈ reckoning c.names.length i, IsSingle v

theorem perm_assets (M : c.Mirrors ts) : ((swatches c).map (·.asset)).Perm c.assets := by
  have h : c.assets = (c.records.map (·.2)).flatMap fun e => e.images.map (·.asset) := by
    rw [List.flatMap_map]
    rfl
  rw [map_asset_swatches, h]
  exact M.perm_entries.flatMap_right _

theorem laidOut (M : c.Mirrors ts) : LaidOut c (swatches c) where
  entries_eq := M.map_some_entries
  columns_eq := by
    rw [swatches, List.map_flatten]
    congr 1
    refine List.ext_getElem (by simp) fun i hi hi' => ?_
    simp [map_column]
  x_eq i hi := columnX_eq hi
  centred i hi := columnX_add_columnX hi
  pictures := perm_assets M
  length_eq := by
    have h := (perm_assets M).length_eq
    rw [List.length_map, Catalog.assets, List.length_flatMap] at h
    simpa using h
  apart := nodup_places c
  card_columns := by
    rw [toFinset_xs, Finset.card_image_of_injective _ (columnX_injective _), Finset.card_range,
      M.length_entries]
  unrounded hn i hi _ hv := isSingle_of_mem_reckoning hn hi hv

end Palette

/-- Any catalog with a past, over any source, is shown as it is. -/
theorem Past.laidOut {h : History} {c : Catalog} (H : Past h c) :
    Palette.LaidOut c (Palette.swatches c) :=
  Palette.laidOut H.mirrors

/-- What the palette adds to the screen shows the catalog. Nothing is asked of the source or of the
screen, only that the catalog has a past. -/
theorem App.laidOut_spawnPalette {a : App} {h : History} (H : Past h a.catalog) :
    ∃ new : List Swatch,
      a.spawnPalette.swatches = a.swatches ++ new ∧ Palette.LaidOut a.catalog new ∧
        a.spawnPalette.session.log =
          a.session.log ++ [.palette (new.map (·.x)).toFinset.card] ∧
        a.spawnPalette.catalog = a.catalog := by
  refine ⟨Palette.swatches a.catalog, rfl, H.laidOut, ?_, rfl⟩
  rw [H.laidOut.card_columns]
  rfl

namespace Game

/-- For every run of a game, with any operation on the catalog before: what the palette adds to the
screen shows the catalog as it is, the log tells how many columns there are, and the catalog stays
the same. -/
theorem palette_laidOut (config : Config) (files : Files) (pictures : List String)
    (turns : List Turn) :
    let a := ((start config files pictures).run turns).app
    ∃ new : List Swatch,
      a.spawnPalette.swatches = a.swatches ++ new ∧ Palette.LaidOut a.catalog new ∧
        a.spawnPalette.session.log =
          a.session.log ++ [.palette (new.map (·.x)).toFinset.card] ∧
        a.spawnPalette.catalog = a.catalog := by
  have hstart : Past [] (start config files pictures).app.catalog := .start
  exact App.laidOut_spawnPalette (past_run hstart turns)

/-- A tile is registered again and gains a goal. It keeps its column. -/
theorem palette_laidOut_replaced :
    let wall : TileSpec := .named "wall" "wall.png"
    let turns : List Turn :=
      [.command (.registerAll [wall, .named "floor" "floor.png"]), .act .palette,
        .command (.register (wall.withGoal "goal.png"))]
    let a := ((start {} {} []).run turns).app
    let new := a.spawnPalette.swatches.drop a.swatches.length
    a.catalog.names.length = 2 ∧
      new.map (fun s => (a.spawnPalette.shown? s, s.x, s.y)) =
        [(some "wall.png", -24, 0), (some "goal.png", -24, -48), (some "floor.png", 24, 0)] ∧
      Palette.columnX 2 0 + Palette.columnX 2 1 = 0 ∧
      (new.map fun s => (s.x, s.y)).Nodup ∧
      ∀ v ∈ Palette.reckoning 2 1, Palette.IsSingle v := by
  intro wall turns a new
  obtain ⟨added, hadded, L, -, -⟩ := palette_laidOut {} {} [] turns
  have hnew : new = added := by
    rw [show new = a.spawnPalette.swatches.drop a.swatches.length from rfl, hadded, List.drop_left]
  have hn : a.catalog.names.length = 2 := by decide +kernel
  have hshown : new.map (fun s => (a.spawnPalette.shown? s, s.x, s.y)) =
      [(some "wall.png", -24, 0), (some "goal.png", -24, -48), (some "floor.png", 24, 0)] := by
    decide +kernel
  have hcentred := L.centred 0 (by decide +kernel)
  have hexact := L.unrounded (by decide +kernel) 1 (by decide +kernel)
  rw [hn] at hcentred hexact
  exact ⟨hn, hshown, hcentred, hnew ▸ L.apart, hexact⟩

end Game

end TileCatalog
