import TileCatalog.Asset.Gallery
import TileCatalog.Proofs.Prefixes

/-!
# Loading the manifest

The manifest file is looked for before it is read. Both follow the same path, so that a file that
can be read is always found, and a file is missing only when its path is the reason why it cannot be
read (`Files.has_eq_false_iff`). A manifest that cannot be loaded leaves a session as it is but for
one line in the log; one that can is registered as the list of its tiles, and one line says how that
went (`Session.loadManifest_error`, `Session.loadManifest_ok`).

When a tile without a name stops the registration, that line gives the size of the catalog. This is
the number of names known by then, those from before the manifest included and each counted once,
and so in general not the number of tiles that the manifest had registered.
-/

namespace TileCatalog

open TileSpec

/-! ### Looking for a file and reading it -/

/-- The path is the reason: it leads nowhere, or it is none that could be followed. -/
def FileError.isOfPath : FileError → Bool
  | .notFound | .notDirectory | .nameTooLong | .nulInName => true
  | .isDirectory | .notUtf8 => false

namespace Files

variable {f : Files} {path : String} {e : FileError}

theorem isOfPath_of_walk {loc : Location} {parts : List String}
    (h : f.walk loc parts = .error e) : e.isOfPath = true := by
  fun_induction walk f loc parts with
  | case1 => cases h
  | case2 | case3 | case4 | case5 =>
    cases h
    rfl
  | case6 _ _ _ _ _ ih => exact ih h

theorem isOfPath_of_refusal? (h : refusal? path = some e) : e.isOfPath = true := by
  unfold refusal? at h
  split_ifs at h
  all_goals
    cases h
    rfl

theorem isOfPath_of_lookup (h : f.lookup path = .error e) : e.isOfPath = true := by
  unfold lookup at h
  split at h
  · rename_i hr
    cases h
    exact isOfPath_of_refusal? hr
  · exact isOfPath_of_walk h

/-- What is missing cannot be read on account of its path, and whatever else cannot be read is
there. -/
theorem has_eq_false_iff :
    f.has path = false ↔ ∃ e, f.read path = .error e ∧ e.isOfPath = true := by
  unfold has read
  cases hl : f.lookup path with
  | error e => simpa using isOfPath_of_lookup hl
  | ok found =>
    obtain ⟨loc, node⟩ := found
    cases node with
    | directory => simp [FileError.isOfPath]
    | file content =>
      cases hu : String.fromUTF8? content with
      | none => simp [hu, FileError.isOfPath]
      | some text => simp [hu]

end Files

namespace Manifest

variable {files : Files} {path : String}

theorem has_eq_false_iff : files.has path = false ↔
    ∃ e, load files path = .error (.file e) ∧ e.isOfPath = true := by
  rw [Files.has_eq_false_iff]
  unfold load
  cases files.read path with
  | error e => simp
  | ok text =>
    have hne : ∀ e, ofText text ≠ .error (.file e) := by
      intro e h
      unfold ofText at h
      split at h
      · cases h
      · cases h
    simp [hne]

theorem has_of_load {m : Manifest} (h : load files path = .ok m) : files.has path = true := by
  by_contra hno
  rw [Bool.not_eq_true, has_eq_false_iff, h] at hno
  obtain ⟨e, he, -⟩ := hno
  cases he

end Manifest

/-! ### Sessions -/

namespace Session

variable {σ : Type} [ImageSource σ] {files : Files} {path : String}

theorem registerManifest_eq (s : Session σ) (m : Manifest) :
    s.registerManifest m =
      (if m.tiles.takeWhile isNamed = m.tiles then .ok m.tiles.length
        else .error (.registration {}), (s.registerAll m.tiles).2) := by
  unfold registerManifest
  rw [registerAll_eq]
  by_cases hp : m.tiles.takeWhile isNamed = m.tiles
  · rw [if_pos hp, if_pos hp]
  · rw [if_neg hp, if_neg hp]

theorem loadManifest_error (s : Session σ) {e : ManifestError}
    (h : Manifest.load files path = .error e) :
    s.loadManifest files path =
      s.note (if files.has path then .manifestFailed path e else .manifestMissing path) := by
  unfold loadManifest
  rw [h]
  cases files.has path <;> rfl

theorem loadManifest_ok (s : Session σ) {m : Manifest} (h : Manifest.load files path = .ok m) :
    s.loadManifest files path =
      (s.registerAll m.tiles).2.note
        (if m.tiles.takeWhile isNamed = m.tiles then .manifestRegistered m.tiles.length path
          else .manifestStopped path (s.registerAll m.tiles).2.catalog.size
            (.registration {})) := by
  simp only [loadManifest, Manifest.has_of_load h, h, registerManifest_eq]
  by_cases hp : m.tiles.takeWhile isNamed = m.tiles
  · simp [hp]
  · simp [hp]

/-- A manifest that cannot be loaded changes nothing but the log, where one line is added: a warning
if the file is missing and an error otherwise, and it is missing only if its path is the reason why
it cannot be read. A manifest that can be loaded is always found, and it is registered as the list
of its tiles. Then one line is added: with the number of the tiles if all of them are named, and an
error otherwise. -/
theorem loadManifest_loads_then_registers (s : Session σ) (files : Files) (path : String) :
    (files.has path = false ↔
      ∃ e, Manifest.load files path = .error (.file e) ∧ e.isOfPath = true) ∧
    match Manifest.load files path with
    | .error _ =>
      ∃ line : LogLine, s.loadManifest files path = { s with log := s.log ++ [line] } ∧
        line.level = if files.has path then .error else .warn
    | .ok m =>
      let r := (s.registerAll m.tiles).2
      files.has path = true ∧
        ∃ line : LogLine, s.loadManifest files path = { r with log := r.log ++ [line] } ∧
          if ∀ t ∈ m.tiles, t.isNamed = true then
            line = .manifestRegistered m.tiles.length path ∧ line.level = .info
          else line.level = .error := by
  refine ⟨Manifest.has_eq_false_iff, ?_⟩
  cases h : Manifest.load files path with
  | error e =>
    refine ⟨_, s.loadManifest_error h, ?_⟩
    cases files.has path <;> rfl
  | ok m =>
    refine ⟨Manifest.has_of_load h, _, s.loadManifest_ok h, ?_⟩
    by_cases hall : ∀ t ∈ m.tiles, t.isNamed = true
    · rw [if_pos hall, if_pos (takeWhile_isNamed.2 hall)]
      exact ⟨rfl, rfl⟩
    · rw [if_neg hall, if_neg fun hp => hall (takeWhile_isNamed.1 hp)]
      rfl

/-! ### The count in the report -/

theorem tile?_registerAllDeeds (s : Session σ) (ts : List TileSpec) :
    (s.registerAllDeeds ts).map Deed.tile? = (ts.takeWhile isNamed).map some := by
  induction ts generalizing s with
  | nil => rfl
  | cons t ts ih =>
    cases ht : t.isNamed with
    | false =>
      rw [registerAllDeeds_nameless s (validName_eq_none.2 ht),
        List.takeWhile_cons_of_neg (by simp [ht])]
      rfl
    | true =>
      obtain ⟨name, hname⟩ := exists_validName ht
      have hone : (s.registerDeeds t).map Deed.tile? = [some t] := by
        unfold registerDeeds
        rw [hname]
        rfl
      rw [registerAllDeeds_named s hname, List.takeWhile_cons_of_pos ht, List.map_append, hone, ih]
      rfl

theorem tiles_registerAll (s : Session σ) (h : History) (ts : List TileSpec) :
    History.tiles (h ++ s.registerAllDeeds ts) = h.tiles ++ ts.takeWhile isNamed := by
  -- nothing is cleared on the way, so the last reset stays the last one
  have hclear : Deed.cleared ∉ s.registerAllDeeds ts := fun hd => by
    obtain ⟨_, _, _, h⟩ := exists_of_mem_registerAllDeeds hd
    cases h
  have htiles : (s.registerAllDeeds ts).filterMap Deed.tile? = ts.takeWhile isNamed := by
    have hid := List.filterMap_map (f := Deed.tile?) (g := id) (l := s.registerAllDeeds ts)
    rw [tile?_registerAllDeeds, List.filterMap_map] at hid
    simpa using hid.symm
  rw [History.tiles, History.sinceReset_append, if_neg hclear, List.filterMap_append, htiles,
    History.tiles]

theorem size_registerAll {s : Session σ} {h : History} (H : Past h s.catalog) (ts : List TileSpec) :
    (s.registerAll ts).2.catalog.size =
      ((h.tiles ++ ts.takeWhile isNamed).filterMap validName).eraseDups.length := by
  have M := (past_registerAll H ts).mirrors
  rw [M.size_eq, M.names_eq, tiles_registerAll, firstNames]

/-- When a tile without a name stops a manifest, the report counts the names registered since the
last reset, each once, and not the tiles `p` of the manifest registered before. With the warnings
of names registered again it makes up what the catalog held before and `p`, and so it counts `p`
if and only if there are as many warnings as there were entries. -/
theorem loadManifest_stopped {h : History} {s : Session σ} (H : Past h s.catalog) {m : Manifest}
    (hload : Manifest.load files path = .ok m) (hstop : ∃ t ∈ m.tiles, t.isNamed = false) :
    let p := m.tiles.takeWhile isNamed
    let n := ((h.tiles ++ p).filterMap validName).eraseDups.length
    ∃ lines, (s.loadManifest files path).log =
        s.log ++ lines ++ [.manifestStopped path n (.registration {})] ∧
      n + lines.countP LogLine.isDuplicate = s.catalog.size + p.length ∧
      (n = p.length ↔ lines.countP LogLine.isDuplicate = s.catalog.size) := by
  intro p n
  have hp : p ≠ m.tiles := by
    intro hp
    obtain ⟨t, ht, hnone⟩ := hstop
    rw [takeWhile_isNamed.1 hp t ht] at hnone
    cases hnone
  have hn : (s.registerAll m.tiles).2.catalog.size = n := size_registerAll H m.tiles
  have hlen : (s.registerAllDeeds m.tiles).length = p.length := by
    have := congrArg List.length (s.tile?_registerAllDeeds m.tiles)
    simpa using this
  -- a tile registered makes the catalog larger by one or is warned of
  obtain ⟨lines, hlog, hcount⟩ := s.grows_registerAll m.tiles
  rw [hn, hlen] at hcount
  refine ⟨lines, ?_, by omega, by omega⟩
  rw [s.loadManifest_ok hload, if_neg hp, hn, ← hlog]
  rfl

/-- The catalog has a wall. A manifest of a wall, a floor and a wall again is stopped by a tile
without a name: two names are counted, and not three tiles. -/
theorem loadManifest_stopped_walls :
    let wall : TileSpec := .named "wall" "w"
    let m : Manifest := ⟨[wall, .named "floor" "f", wall, { url := "n" }]⟩
    let text := "[[[\"wall\",\"w\"],[\"floor\",\"f\"],[\"wall\",\"w\"],[null,\"n\"]]]"
    let files : Files := ⟨[("m.json" :: Files.home, .file text.toUTF8)]⟩
    let c := (Console.start ({} : Gallery)).run [.register wall]
    Manifest.load files "m.json" = .ok m ∧ (∃ t ∈ m.tiles, t.isNamed = false) ∧
      ∃ lines, (c.session.loadManifest files "m.json").log =
          c.session.log ++ lines ++ [.manifestStopped "m.json" 2 (.registration {})] ∧
        lines.countP LogLine.isDuplicate = 2 := by
  intro wall m text files c
  have H : Past ((Console.start ({} : Gallery)).history [.register wall]) c.session.catalog :=
    Console.past_start _ _
  have hload : Manifest.load files "m.json" = .ok m := by decide +kernel
  have hstop : ∃ t ∈ m.tiles, t.isNamed = false := by decide
  obtain ⟨lines, hlog, hcount, -⟩ := loadManifest_stopped H hload hstop
  have hn : ((((Console.start ({} : Gallery)).history [.register wall]).tiles ++
      m.tiles.takeWhile isNamed).filterMap validName).eraseDups.length = 2 := by decide +kernel
  have hsum : c.session.catalog.size + (m.tiles.takeWhile isNamed).length = 4 := by decide +kernel
  rw [hn] at hlog hcount
  exact ⟨hload, hstop, lines, hlog, by omega⟩

/-- Two tiles of one name are registered before a manifest is stopped, and the report says one;
a manifest stopped at its first tile is reported with the one tile that the catalog has. -/
theorem stopped_report_miscounts :
    let walls : Manifest := ⟨[.named "wall" "v", .named "wall" "w", { url := "n" }]⟩
    let nameless : Manifest := ⟨[{ url := "n" }]⟩
    let files : Files :=
      ⟨[("w.json" :: Files.home, .file "[[[\"wall\",\"v\"],[\"wall\",\"w\"],[null,\"n\"]]]".toUTF8),
        ("n.json" :: Files.home, .file "[[[null,\"n\"]]]".toUTF8)]⟩
    let s : Session Gallery := { source := {} }
    let s' := (s.register (.named "wall" "w")).2
    (Manifest.load files "w.json" = .ok walls ∧ (walls.tiles.takeWhile isNamed).length = 2 ∧
      (s.loadManifest files "w.json").log.getLast? =
        some (.manifestStopped "w.json" 1 (.registration {}))) ∧
    Manifest.load files "n.json" = .ok nameless ∧
      (nameless.tiles.takeWhile isNamed).length = 0 ∧
      (s'.loadManifest files "n.json").log.getLast? =
        some (.manifestStopped "n.json" 1 (.registration {})) := by
  decide +kernel

end Session

end TileCatalog
