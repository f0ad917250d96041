import Mathlib.Data.List.Basic
import TileCatalog.Proofs.Runs

/-!
# The catalog as a map in which the last write wins

A catalog keeps its names in a list and its entries in a map, and changes them apart. `Mirrors ts`
says what both hold after the tiles `ts` were registered: the names are those of `ts`, each at its
first place, and the entry of a name is that of the last tile with this name. From it follow the
order and the number of the entries, and which registrations replace one: each tile registered
either makes the catalog grow or is warned of, so that the warnings make up the difference between
the number of tiles and the number of entries.
-/

namespace TileCatalog

theorem TileSpec.validName_eq_some {t : TileSpec} {name : String} :
    t.validName = some name ↔ t.name = some name ∧ name ≠ "" := by
  simp [validName, Option.filter_eq_some_iff]

/-- The last of the tiles with a name. -/
def TileSpec.last? (ts : List TileSpec) (name : String) : Option TileSpec :=
  (ts.filter (·.validName = some name)).getLast?

/-- The names of tiles, each at its first place. -/
def TileSpec.firstNames (ts : List TileSpec) : List String := (ts.filterMap validName).eraseDups

namespace TileSpec

variable {ts : List TileSpec} {t : TileSpec} {name : String}

theorem last?_concat_self (h : t.validName = some name) : last? (ts ++ [t]) name = some t := by
  simp [last?, h]

theorem last?_concat_of_ne (h : t.validName ≠ some name) :
    last? (ts ++ [t]) name = last? ts name := by
  simp [last?, h]

theorem mem_firstNames : name ∈ firstNames ts ↔ ∃ t ∈ ts, t.validName = some name := by
  simp [firstNames, List.mem_eraseDups]

theorem isSome_last? : (last? ts name).isSome ↔ name ∈ firstNames ts := by
  rw [mem_firstNames, last?, List.getLast?_isSome, Ne, List.filter_eq_nil_iff]
  simp

theorem firstNames_concat (h : t.validName = some name) :
    firstNames (ts ++ [t]) = if name ∈ firstNames ts then firstNames ts
      else firstNames ts ++ [name] := by
  have hnames : (ts ++ [t]).filterMap validName = ts.filterMap validName ++ [name] := by simp [h]
  simp only [firstNames, hnames, List.eraseDups_append, List.mem_eraseDups]
  generalize ts.filterMap validName = names
  by_cases hn : name ∈ names
  · simp [List.removeAll, hn]
  · simp [List.removeAll, hn, List.eraseDups_cons]

theorem nodup_firstNames (ts : List TileSpec) : (firstNames ts).Nodup := by
  induction ts using List.reverseRecOn with
  | nil => simp [firstNames]
  | append_singleton ts t ih =>
    cases ht : t.validName with
    | none => simpa [firstNames, ht] using ih
    | some name =>
      rw [firstNames_concat ht]
      split
      · exact ih
      · rename_i hnot
        refine List.nodup_append.2 ⟨ih, by simp, ?_⟩
        rintro n hn _ hname rfl
        exact hnot (List.mem_singleton.1 hname ▸ hn)

end TileSpec

namespace Catalog

/-- The catalog holds what was registered: `ts`, in order. -/
structure Mirrors (c : Catalog) (ts : List TileSpec) : Prop where
  names_eq : c.names = TileSpec.firstNames ts
  get?_rel : ∀ name, Option.Rel Entry.Shows (c.get? name) (TileSpec.last? ts name)
  size_eq : c.size = c.names.length

namespace Mirrors

variable {c c' : Catalog} {ts : List TileSpec} {name : String}

theorem empty : Mirrors {} [] := ⟨rfl, fun _ => .none, rfl⟩

theorem congr (M : c.Mirrors ts) (hn : c'.names = c.names) (hr : c'.records = c.records) :
    c'.Mirrors ts := by
  refine ⟨hn.trans M.names_eq, fun name => ?_, ?_⟩
  · rw [get?, hr]
    exact M.get?_rel name
  · rw [size, hr, hn]
    exact M.size_eq

theorem contains_iff (M : c.Mirrors ts) : c.contains name = true ↔ name ∈ c.names := by
  rw [M.names_eq, ← TileSpec.isSome_last?, contains]
  have hrel := M.get?_rel name
  generalize c.get? name = e at hrel
  generalize TileSpec.last? ts name = t at hrel
  cases hrel <;> simp

/-- Tiles before the last one with a name leave no trace but its place. -/
theorem put (M : c.Mirrors ts) {t : TileSpec} {e : Entry} (hs : e.Shows t) :
    ((c.receive e.name).put e).Mirrors (ts ++ [t]) := by
  have hnames : ((c.receive e.name).put e).names = TileSpec.firstNames (ts ++ [t]) := by
    rw [TileSpec.firstNames_concat hs.name, ← M.names_eq]
    by_cases hc : e.name ∈ c.names
    · simp [Catalog.put, receive, M.contains_iff, hc]
    · simp [Catalog.put, receive, enlist, M.contains_iff, hc]
  have hcon : (c.receive e.name).contains e.name = c.contains e.name := by
    simp [contains, get?]
  have hsize : (c.receive e.name).size = c.size := by simp [size]
  refine ⟨hnames, fun name => ?_, ?_⟩
  · by_cases hn : name = e.name
    · subst hn
      rw [get?_put_self, TileSpec.last?_concat_self hs.name]
      exact .some hs
    · rw [get?_put_of_ne _ hn, TileSpec.last?_concat_of_ne (by simp [hs.name, Ne.symm hn])]
      simpa [get?] using M.get?_rel name
  · rw [size_put, hsize, hcon, M.size_eq, hnames, TileSpec.firstNames_concat hs.name, ← M.names_eq]
    by_cases hc : e.name ∈ c.names
    · simp [M.contains_iff, hc]
    · simp [M.contains_iff, hc]

theorem name_of_get? (M : c.Mirrors ts) {e : Entry} (h : c.get? name = some e) : e.name = name := by
  have hrel := M.get?_rel name
  rw [h] at hrel
  generalize ht : TileSpec.last? ts name = t at hrel
  cases hrel with
  | some hs =>
    have hv := (List.mem_filter.1 (List.mem_of_getLast? ht)).2
    simpa [hs.name] using hv

theorem exists_get?_of_mem (M : c.Mirrors ts) (hn : name ∈ c.names) :
    ∃ e, c.get? name = some e ∧ e.name = name := by
  obtain ⟨e, he⟩ := Option.isSome_iff_exists.1 (M.contains_iff.2 hn)
  exact ⟨e, he, M.name_of_get? he⟩

theorem map_name_entries (M : c.Mirrors ts) : c.entries.map (·.name) = c.names := by
  have hget : ∀ name ∈ c.names, ∃ e, c.get? name = some e ∧ e.name = name :=
    fun _ => M.exists_get?_of_mem
  unfold entries
  generalize c.names = names at hget ⊢
  induction names with
  | nil => rfl
  | cons name names ih =>
    obtain ⟨e, he, hn⟩ := hget name List.mem_cons_self
    rw [List.filterMap_cons_some he, List.map_cons, hn,
      ih fun n hn => hget n (List.mem_cons_of_mem _ hn)]

theorem map_some_entries (M : c.Mirrors ts) : c.entries.map some = c.names.map c.get? := by
  have hget : ∀ e ∈ c.entries, c.get? e.name = some e := by
    intro e he
    obtain ⟨name, -, hn⟩ := List.mem_filterMap.1 he
    rw [M.name_of_get? hn, hn]
  rw [← M.map_name_entries, List.map_map]
  exact List.map_congr_left fun e he => (hget e he).symm

end Mirrors

end Catalog

namespace Enqueues

variable {c c' : Catalog} {q : List (Image × Bool)}

theorem names (hq : Enqueues c q c') : c'.names = c.names := by
  induction hq with
  | nil => rfl
  | cons src asset ready _ ih => rw [ih, Catalog.names_enqueue]

theorem records (hq : Enqueues c q c') : c'.records = c.records := by
  induction hq with
  | nil => rfl
  | cons src asset ready _ ih => rw [ih, Catalog.records_enqueue]

end Enqueues

theorem Does.mirrors {h : History} {c c' : Catalog} {d : Deed} (D : Does c d c')
    (M : c.Mirrors h.tiles) : c'.Mirrors (History.tiles (h ++ [d])) := by
  cases D with
  | @register c' t e ready hs _ hq =>
    rw [History.tiles_concat (by simp)]
    refine (M.put hs).congr hq.names ?_
    rw [Catalog.put, Catalog.put, hq.records]
  | hear event => simpa using (M.congr rfl rfl : (c.notify event).2.Mirrors h.tiles)
  | complete k => simpa using (M.congr rfl rfl : (c.complete k).2.Mirrors h.tiles)
  | issue => simpa using (M.congr rfl rfl : c.queueTicket.2.Mirrors h.tiles)
  | zero => simpa using (M.congr rfl rfl : c.resetTally.Mirrors h.tiles)
  | clear => simpa using (Catalog.Mirrors.empty.congr rfl rfl : c.reset.Mirrors [])

theorem Past.mirrors {h : History} {c : Catalog} (H : Past h c) : c.Mirrors h.tiles := by
  induction H with
  | start => exact .empty
  | step _ D ih => exact D.mirrors ih

/-- Only tiles with a name are registered. -/
theorem Past.validName_eq_name {h : History} {c : Catalog} (H : Past h c) :
    ∀ t ∈ h.tiles, t.validName = t.name ∧ t.name ≠ none := by
  induction H with
  | start => simp [History.tiles, History.sinceReset]
  | @step h c c' d _ D ih =>
    cases D with
    | @register c' t e ready hs _ _ =>
      obtain ⟨hn, -⟩ := TileSpec.validName_eq_some.1 hs.name
      intro t' ht'
      rw [History.tiles_concat (by simp)] at ht'
      rcases List.mem_append.1 ht' with ht' | ht'
      · exact ih t' ht'
      · obtain rfl : t' = t := by simpa using ht'
        simp [hs.name, hn]
    | clear => simp
    | hear | complete | issue | zero => simpa using ih

/-! ### Warnings -/

/-- The line warns of a name that is registered again. -/
@[simp] def LogLine.isDuplicate : LogLine → Bool
  | duplicate _ => true
  | _ => false

namespace Session

variable {σ : Type} [ImageSource σ]

theorem log_queueEntry (s : Session σ) (name : String) (t : TileSpec) :
    (s.queueEntry name t).2.log = s.log := by
  unfold queueEntry
  cases t.goalUrl <;> rfl

theorem records_queueEntry (s : Session σ) (name : String) (t : TileSpec) :
    (s.queueEntry name t).2.catalog.records = s.catalog.records :=
  (s.enqueues_queueEntry name t).records

/-- What a registration logs: a warning if the name has an entry, and what was registered. -/
theorem log_registerAs (s : Session σ) (name : String) (t : TileSpec) :
    let q := (s.receive name).shareHeld.queueEntry name t
    (s.registerAs name t).2.log =
      s.log ++ ((if s.catalog.contains name then [.duplicate name] else []) ++
        [.registered name q.1.images.length q.2.catalog.progress]) := by
  intro q
  have hr : (s.receive name).shareHeld.log =
      s.log ++ if s.catalog.contains name then [.duplicate name] else [] := by
    unfold receive shareHeld
    split <;> simp [note]
  rw [← List.append_assoc, ← hr, ← log_queueEntry (s.receive name).shareHeld name t]
  rfl

theorem size_registerAs (s : Session σ) (name : String) (t : TileSpec) :
    (s.registerAs name t).2.catalog.size =
      s.catalog.size + if s.catalog.contains name then 0 else 1 := by
  have hr := records_queueEntry (s.receive name).shareHeld name t
  rw [catalog_shareHeld, catalog_receive, Catalog.records_receive] at hr
  have h := Catalog.size_put ((s.receive name).shareHeld.queueEntry name t).2.catalog
    ((s.receive name).shareHeld.queueEntry name t).1
  simp only [Catalog.size, Catalog.contains, Catalog.get?, hr] at h
  exact h

/-- `n` registrations lead from one session to the other, and each of them gave a warning or made
the catalog grow. -/
def Grows (s : Session σ) (n : Nat) (s' : Session σ) : Prop :=
  ∃ lines, s'.log = s.log ++ lines ∧
    lines.countP LogLine.isDuplicate + s'.catalog.size = s.catalog.size + n

omit [ImageSource σ] in
theorem Grows.of_eq {s s' : Session σ} (hl : s'.log = s.log)
    (hr : s'.catalog.records = s.catalog.records) : s.Grows 0 s' :=
  ⟨[], by simp [hl], by simp [Catalog.size, hr]⟩

omit [ImageSource σ] in
theorem Grows.refl (s : Session σ) : s.Grows 0 s := .of_eq rfl rfl

omit [ImageSource σ] in
theorem Grows.trans {s s' s'' : Session σ} {m n : Nat} (h : s.Grows m s') (h' : s'.Grows n s'') :
    s.Grows (m + n) s'' := by
  obtain ⟨lines, hl, hn⟩ := h
  obtain ⟨lines', hl', hn'⟩ := h'
  refine ⟨lines ++ lines', by rw [hl', hl, List.append_assoc], ?_⟩
  rw [List.countP_append]
  omega

theorem grows_register (s : Session σ) (t : TileSpec) :
    s.Grows (s.registerDeeds t).length (s.register t).2 := by
  unfold registerDeeds
  cases ht : t.validName with
  | none =>
    rw [register_nameless s ht]
    exact .refl s
  | some name =>
    rw [register_named s ht]
    refine ⟨_, log_registerAs s name t, ?_⟩
    rw [size_registerAs]
    cases s.catalog.contains name
    · simp
    · simp [List.countP_cons]
      omega

theorem grows_registerAll (s : Session σ) (ts : List TileSpec) :
    s.Grows (s.registerAllDeeds ts).length (s.registerAll ts).2 := by
  induction ts generalizing s with
  | nil => exact .refl s
  | cons t ts ih =>
    cases ht : t.validName with
    | none =>
      rw [registerAllDeeds_nameless s ht, registerAll_nameless s ht]
      exact .refl s
    | some name =>
      rw [registerAllDeeds_named s ht, registerAll_named s ht, List.length_append]
      exact (grows_register s t).trans (ih _)

theorem grows_registerText (s : Session σ) (text : String) :
    s.Grows (s.registerTextDeeds text).length (s.registerText text).2 := by
  unfold registerTextDeeds registerText
  cases Manifest.ofText text with
  | error e => exact .refl s
  | ok m => simpa using grows_registerAll s m.tiles

end Session

namespace Console

variable {σ : Type} [ImageSource σ]

/-- How many lines the log had when the catalog was last cleared, or `mark` if it was not. -/
def logMark (c : Console σ) (mark : Nat) : List (Command σ) → Nat
  | [] => mark
  | .reset :: commands => (c.step .reset).2.logMark c.session.log.length commands
  | command :: commands => (c.step command).2.logMark mark commands

theorem eq_reset_of_cleared_mem_deeds {c : Console σ} {command : Command σ}
    (hd : .cleared ∈ c.deeds command) : command = .reset := by
  cases command with
  | reset => rfl
  | register t =>
    obtain ⟨_, _, h⟩ := Session.exists_of_mem_registerDeeds hd
    cases h
  | registerAll ts =>
    obtain ⟨_, _, _, h⟩ := Session.exists_of_mem_registerAllDeeds hd
    cases h
  | registerText text =>
    obtain ⟨_, _, _, h⟩ := Session.exists_of_mem_registerTextDeeds hd
    cases h
  | _ => simp [deeds] at hd

theorem records_completeAll (c : Catalog) (ks : List Ticket) :
    (completeAll c ks).2.records = c.records := by
  induction ks generalizing c with
  | nil => rfl
  | cons k ks ih => exact ih (c.complete k).2

theorem grows_step (c : Console σ) {command : Command σ} (hne : command ≠ .reset) :
    c.session.Grows ((c.deeds command).filterMap Deed.tile?).length (c.step command).2.session := by
  have hall : ∀ h : History, (∀ d ∈ h, ∃ t e ready, d = .registered t e ready) →
      (h.filterMap Deed.tile?).length = h.length := by
    intro h hh
    rw [List.length_filterMap_eq_countP, List.countP_eq_length]
    intro d hd
    obtain ⟨t, e, ready, rfl⟩ := hh d hd
    rfl
  cases command with
  | register t =>
    rw [deeds, hall _ fun d hd => ⟨t, Session.exists_of_mem_registerDeeds hd⟩]
    exact c.session.grows_register t
  | registerAll ts =>
    rw [deeds, hall _ fun d hd => Session.exists_of_mem_registerAllDeeds hd]
    exact c.session.grows_registerAll ts
  | registerText text =>
    rw [deeds, hall _ fun d hd => Session.exists_of_mem_registerTextDeeds hd]
    exact c.session.grows_registerText text
  | reset => exact absurd rfl hne
  | complete name n =>
    have hd : (c.deeds (.complete name n)).filterMap Deed.tile? = [] := by simp [deeds]
    rw [hd]
    simp only [step]
    split
    · exact .refl _
    · split
      · exact .refl _
      · exact .of_eq rfl rfl
  | hold name n =>
    simp only [deeds, step]
    split
    · exact .refl _
    · split
      · exact .refl _
      · split <;> exact .refl _
  | completeHeld slot =>
    have hd : (c.deeds (.completeHeld slot)).filterMap Deed.tile? = [] := by simp [deeds]
    rw [hd]
    simp only [step]
    split
    · exact .refl _
    · exact .of_eq rfl (records_completeAll _ _)
  | showHeld slot =>
    simp only [deeds, step]
    split <;> exact .refl _
  | notify _ | queue | resetTally | advance _ | get _ | contains _ | counts => exact .of_eq rfl rfl

/-- The warnings since the last reset make up the difference between the tiles registered since then
and the entries. -/
theorem countP_isDuplicate_run {h : History} {c : Console σ} {mark : Nat}
    (hmark : mark ≤ c.session.log.length)
    (hcount : (c.session.log.drop mark).countP LogLine.isDuplicate + c.catalog.size =
      h.tiles.length) (commands : List (Command σ)) :
    ((c.run commands).session.log.drop (c.logMark mark commands)).countP LogLine.isDuplicate +
      (c.run commands).catalog.size = (History.tiles (h ++ c.history commands)).length := by
  induction commands generalizing h c mark with
  | nil => simpa [run, history, logMark] using hcount
  | cons command commands ih =>
    rw [history, ← List.append_assoc]
    by_cases hr : command = .reset
    · subst hr
      refine ih (c := (c.step .reset).2) (Nat.le_refl _) ?_
      simp [deeds, step, withCatalog, catalog, Catalog.reset, Catalog.size]
    · obtain ⟨lines, hl, hn⟩ := grows_step c hr
      have hnot : Deed.cleared ∉ c.deeds command := fun hd => hr (eq_reset_of_cleared_mem_deeds hd)
      have ht : History.tiles (h ++ c.deeds command) =
          h.tiles ++ (c.deeds command).filterMap Deed.tile? := by
        simp [History.tiles, History.sinceReset_append, hnot]
      have hm : c.logMark mark (command :: commands) =
          (c.step command).2.logMark mark commands := by
        cases command <;> first | rfl | exact absurd rfl hr
      rw [hm]
      refine ih (c := (c.step command).2) ?_ ?_
      · rw [hl, List.length_append]
        omega
      · rw [hl, List.drop_append_of_le_length hmark, List.countP_append, ht, List.length_append]
        simp only [catalog] at hcount ⊢
        omega

theorem register_of_mirrors {ts : List TileSpec} {s : Session σ} (M : s.catalog.Mirrors ts)
    (t : TileSpec) :
    ((s.register t).1 =
      match t.validName with
      | none => .error {}
      | some name =>
        .ok (if name ∈ s.catalog.names then .replaced (duplicateWarning name) else .added)) ∧
    (((s.register t).2.log.drop s.log.length).filter LogLine.isDuplicate =
      match t.validName with
      | none => []
      | some name => if name ∈ s.catalog.names then [.duplicate name] else []) := by
  cases ht : t.validName with
  | none =>
    rw [s.register_nameless ht]
    simp
  | some name =>
    rw [s.register_named ht, s.log_registerAs]
    have hout : (s.registerAs name t).1 =
        if s.catalog.contains name then .replaced (duplicateWarning name) else .added := rfl
    rw [hout, List.drop_left]
    by_cases hn : name ∈ s.catalog.names
    · simp [M.contains_iff, hn, List.filter_cons]
    · simp [M.contains_iff, hn]

/-- For every run of a console, with `tiles` registered since the last reset: the names are those of
the tiles, each at its first place; a name is contained if a tile has it; the entry of a name is
that of the last tile with this name, with its sources; the entries are listed by name, one for
each; and no name is empty. A tile with a name is always registered. It replaces an entry, with one
warning in the log, if and only if a tile before it has its name, so that the warnings since the
last reset are the tiles less the entries. -/
theorem run_mirrors_tiles (source : σ) (commands : List (Command σ)) :
    let c := (start source).run commands
    let tiles := ((start source).history commands).tiles
    let lines := c.session.log.drop ((start source).logMark 0 commands)
    c.catalog.names = (tiles.filterMap (·.name)).eraseDups ∧
    (∀ name, c.catalog.contains name = true ↔ name ∈ tiles.filterMap (·.name)) ∧
    (∀ name, Option.Rel
      (fun (e : Entry) (t : TileSpec) =>
        e.name = name ∧ e.image.src = t.url ∧ e.goal.map (·.src) = t.goalUrl)
      (c.catalog.get? name) (tiles.filter (·.name = some name)).getLast?) ∧
    c.catalog.entries.map some = c.catalog.names.map c.catalog.get? ∧
    c.catalog.entries.map (·.name) = c.catalog.names ∧
    c.catalog.size = c.catalog.names.length ∧ "" ∉ c.catalog.names ∧
    (∀ t, (c.session.register t).1 =
      match t.validName with
      | none => .error {}
      | some name => .ok (if name ∈ tiles.filterMap (·.name)
          then .replaced (duplicateWarning name) else .added)) ∧
    (∀ t, ((c.session.register t).2.log.drop c.session.log.length).filter LogLine.isDuplicate =
      match t.validName with
      | none => []
      | some name => if name ∈ tiles.filterMap (·.name) then [.duplicate name] else []) ∧
    (∀ name, (LogLine.duplicate name).level = .warn ∧
      (LogLine.duplicate name).text = duplicateWarning name) ∧
    lines.countP LogLine.isDuplicate + c.catalog.size = tiles.length := by
  intro c tiles lines
  have H := past_start source commands
  have M : c.catalog.Mirrors tiles := H.mirrors
  have hname := H.validName_eq_name
  have hnames : tiles.filterMap (·.name) = tiles.filterMap TileSpec.validName :=
    List.filterMap_congr fun t ht => (hname t ht).1.symm
  have hlast : ∀ name,
      (tiles.filter (·.name = some name)).getLast? = TileSpec.last? tiles name := by
    intro name
    have hf : tiles.filter (·.name = some name) = tiles.filter (·.validName = some name) :=
      List.filter_congr fun t ht => by rw [(hname t ht).1]
    rw [TileSpec.last?, hf]
  have hmem : ∀ name, name ∈ c.catalog.names ↔ name ∈ tiles.filterMap (·.name) := by
    intro name
    rw [M.names_eq, hnames, TileSpec.firstNames, List.mem_eraseDups]
  simp only [← hmem]
  refine ⟨?_, fun name => M.contains_iff, fun name => ?_, M.map_some_entries, M.map_name_entries,
    M.size_eq, ?_, fun t => (register_of_mirrors M t).1, fun t => (register_of_mirrors M t).2,
    fun name => ⟨rfl, rfl⟩, ?_⟩
  · rw [M.names_eq, hnames, TileSpec.firstNames]
  · rw [hlast]
    have hrel := M.get?_rel name
    generalize hg : c.catalog.get? name = e? at hrel ⊢
    generalize TileSpec.last? tiles name = t? at hrel ⊢
    cases hrel with
    | none => exact .none
    | some hs => exact .some ⟨M.name_of_get? hg, hs.src, hs.goal⟩
  · rw [M.names_eq, TileSpec.mem_firstNames]
    rintro ⟨t, -, ht⟩
    exact (TileSpec.validName_eq_some.1 ht).2 rfl
  · exact countP_isDuplicate_run (h := []) (c := start source) (Nat.zero_le _) rfl commands

end Console

end TileCatalog
