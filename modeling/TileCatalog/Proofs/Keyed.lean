import Mathlib.Data.List.Find
import TileCatalog.Asset.Gallery

/-!
# Sources with an asset for each path

What a source answers may depend on all that it was asked before. A keyed source
(`ImageSource.IsKeyed`) leaves nothing to the order: whether two requests get the same asset depends
on the keys of their paths, and whether a picture is loaded by then on its path. Which assets are
handed out is left open, and may well depend on the order, as it does in a gallery, which numbers
its assets as they are created (`Gallery.isKeyed`).
-/

namespace TileCatalog

namespace ImageSource

inductive Request where
  | load (src : String)
  | retain (assets : List AssetId)

/-- The asset that a request for `src` got, and whether it was loaded by then. -/
structure Answer where
  src : String
  asset : AssetId
  ready : Bool

variable {σ κ : Type} [ImageSource σ]

def answer (source : σ) (src : String) : Answer where
  src := src
  asset := (load source src).1
  ready := isLoaded (load source src).2 (load source src).1

def answers (source : σ) : List Request → List Answer
  | [] => []
  | .load src :: requests => answer source src :: answers (load source src).2 requests
  | .retain assets :: requests => answers (retain source assets) requests

def serve (source : σ) : List Request → σ
  | [] => source
  | .load src :: requests => serve (load source src).2 requests
  | .retain assets :: requests => serve (retain source assets) requests

theorem answers_append (source : σ) (requests more : List Request) :
    answers source (requests ++ more) =
      answers source requests ++ answers (serve source requests) more := by
  induction requests generalizing source with
  | nil => rfl
  | cons request requests ih =>
    cases request with
    | load src => exact congrArg (answer source src :: ·) (ih _)
    | retain assets => exact ih _

theorem serve_append (source : σ) (requests more : List Request) :
    serve source (requests ++ more) = serve (serve source requests) more := by
  induction requests generalizing source with
  | nil => rfl
  | cons request requests ih =>
    cases request with
    | load src => exact ih _
    | retain assets => exact ih _

/-- Whatever the source is asked, paths have the same asset if they have the same key, and those
that are loaded are the `finished` ones. -/
structure IsKeyed (source : σ) (key : String → κ) (finished : String → Bool) : Prop where
  asset_eq_iff : ∀ requests, ∀ a ∈ answers source requests, ∀ b ∈ answers source requests,
    a.asset = b.asset ↔ key a.src = key b.src
  ready_eq : ∀ requests, ∀ a ∈ answers source requests, a.ready = finished a.src

end ImageSource

namespace Gallery

open ImageSource

variable {g : Gallery} {src : String} {n : Nat}

theorem getElem?_of_latest? (h : g.latest? src = some n) : g.sources[n]? = some src := by
  have hfound := List.find?_some h
  exact eq_of_beq hfound

theorem latest?_concat (g : Gallery) (last src : String) :
    latest? { g with sources := g.sources ++ [last] } src =
      if last = src then some g.sources.length else g.latest? src := by
  have hrange : (List.range (g.sources ++ [last]).length).reverse =
      g.sources.length :: (List.range g.sources.length).reverse := by
    rw [List.length_append, List.length_singleton, List.range_succ, List.reverse_append]
    rfl
  have hlast : (g.sources ++ [last])[g.sources.length]? = some last := by simp
  rw [latest?, hrange, List.find?_cons, hlast]
  by_cases h : last = src
  · simp [h]
  · have hb : (some last == some src) = false := by simp [h]
    rw [hb, if_neg h]
    refine List.find?_congr fun n hn => ?_
    rw [List.getElem?_append_left (List.mem_range.1 (List.mem_reverse.1 hn))]

/-- Nothing happened to the gallery but that it got assets for paths that had none. -/
structure Extends (g g' : Gallery) : Prop where
  shared_eq : g'.shared = g.shared
  finished_eq : g'.finished = g.finished
  latest? : ∀ {src n}, g.latest? src = some n → g'.latest? src = some n
  length_le : g.sources.length ≤ g'.sources.length
  le_of_new : ∀ {src n}, g.latest? src = none → g'.latest? src = some n → g.sources.length ≤ n

namespace Extends

variable {g' g'' : Gallery}

theorem refl (g : Gallery) : g.Extends g :=
  ⟨rfl, rfl, id, Nat.le_refl _, fun h h' => by rw [h] at h'; cases h'⟩

theorem trans (E : g.Extends g') (E' : g'.Extends g'') : g.Extends g'' := by
  refine ⟨E'.shared_eq.trans E.shared_eq, E'.finished_eq.trans E.finished_eq,
    fun h => E'.latest? (E.latest? h), Nat.le_trans E.length_le E'.length_le, ?_⟩
  intro src n hnone hn
  cases h' : g'.latest? src with
  | none => exact Nat.le_trans E.length_le (E'.le_of_new h' hn)
  | some m =>
    have hm := E'.latest? h'
    rw [hn] at hm
    cases hm
    exact E.le_of_new hnone h'

end Extends

/-- A shared gallery hands out the latest asset of a path, which it creates if there is none. -/
theorem extends_load (hs : g.shared = true) (src : String) :
    g.Extends (g.load src).2 ∧
      ∃ n, (g.load src).1 = .number n ∧ (g.load src).2.latest? src = some n := by
  cases h : g.latest? src with
  | some n =>
    have hload : g.load src = (.number n, g) := by simp [load, hs, h]
    rw [hload]
    exact ⟨.refl g, n, rfl, h⟩
  | none =>
    have hload : g.load src =
        (.number g.sources.length, { g with sources := g.sources ++ [src] }) := by
      simp [load, hs, h]
    rw [hload]
    refine ⟨⟨rfl, rfl, fun {other n} hn => ?_, by simp, fun {other n} hnone hn => ?_⟩,
      g.sources.length, rfl, by simp [latest?_concat]⟩
    · have hne : src ≠ other := by
        rintro rfl
        rw [h] at hn
        cases hn
      rw [latest?_concat, if_neg hne, hn]
    · rw [latest?_concat] at hn
      split at hn
      · cases hn
        exact Nat.le_refl _
      · rw [hnone] at hn
        cases hn

theorem extends_serve (hs : g.shared = true) (requests : List Request) :
    g.Extends (serve g requests) := by
  induction requests generalizing g with
  | nil => exact .refl g
  | cons request requests ih =>
    cases request with
    | load src =>
      obtain ⟨E, -⟩ := extends_load hs src
      exact E.trans (ih (E.shared_eq.trans hs))
    | retain assets => exact ih hs

theorem exists_of_mem_answers (hs : g.shared = true) {requests : List Request} {a : Answer}
    (ha : a ∈ answers g requests) :
    ∃ n, a.asset = .number n ∧ (serve g requests).latest? a.src = some n ∧
      a.ready = g.finished.contains (.number n) := by
  induction requests generalizing g with
  | nil => cases ha
  | cons request requests ih =>
    cases request with
    | load src =>
      obtain ⟨E, n, hasset, hlatest⟩ := extends_load hs src
      have hs' : (g.load src).2.shared = true := E.shared_eq.trans hs
      rcases List.mem_cons.1 ha with rfl | ha
      · refine ⟨n, hasset, (extends_serve hs' requests).latest? hlatest, ?_⟩
        show (g.load src).2.finished.contains (g.load src).1 = g.finished.contains (.number n)
        rw [E.finished_eq, hasset]
      · obtain ⟨m, ha, hlatest, hready⟩ := ih hs' ha
        exact ⟨m, ha, hlatest, by rw [hready, E.finished_eq]⟩
    | retain assets => exact ih hs ha

/-- In a shared gallery each path has an asset of its own. Those finished are the finished ones, as
long as nothing is finished before it exists. -/
theorem isKeyed (hs : g.shared = true)
    (hf : ∀ asset ∈ g.finished, ∃ n < g.sources.length, asset = .number n) :
    IsKeyed g id fun src => g.finished.contains (g.named src) where
  asset_eq_iff requests a ha b hb := by
    obtain ⟨n, hn, hlatest, -⟩ := exists_of_mem_answers hs ha
    obtain ⟨m, hm, hlatest', -⟩ := exists_of_mem_answers hs hb
    rw [hn, hm, AssetId.number.injEq, id, id]
    constructor
    · rintro rfl
      have hsrc := getElem?_of_latest? hlatest
      rw [getElem?_of_latest? hlatest'] at hsrc
      exact (Option.some.inj hsrc).symm
    · intro hsrc
      rw [hsrc, hlatest'] at hlatest
      exact (Option.some.inj hlatest).symm
  ready_eq requests a ha := by
    obtain ⟨n, -, hlatest, hready⟩ := exists_of_mem_answers hs ha
    have E := extends_serve hs requests
    rw [hready, named]
    cases hg : g.latest? a.src with
    | some m =>
      have hm := E.latest? hg
      rw [hlatest] at hm
      cases hm
      rfl
    | none =>
      have hle := E.le_of_new hg hlatest
      have hnew : .number n ∉ g.finished := by
        intro hmem
        obtain ⟨m, hlt, heq⟩ := hf _ hmem
        cases heq
        omega
      have hnowhere : .nowhere ∉ g.finished := by
        intro hmem
        obtain ⟨m, -, heq⟩ := hf _ hmem
        cases heq
      simp [hnew, hnowhere]

end Gallery

end TileCatalog
