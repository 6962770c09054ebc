import Mathlib.Data.List.Infix
import GlobSieve.Fragment.Decomposition
import GlobSieve.Proofs.Glob.Reading

/-!
# Pieces of a pattern

A run is the image of a stretch of the list it was taken from (`exists_stretch_of_mem_runs`). The runs are what
`List.splitOnP` leaves between the elements that it cuts at, empty pieces aside (`runs_eq_between`, `runs_guard`), and an image
of the runs can be taken of the elements as well (`runs_map`, `runs_comp_map`).

So the fragments of a pattern are the texts of its `pieces`, the stretches of its lexemes between two wildcards
(`fragments_eq_pieces`), and a fragment that is read again has the lexemes of its piece (`lex_text_piece`).
-/

namespace GlobSieve

/-! ## Runs -/

section Runs

variable {α β γ : Type} {f : α → Option β}

theorem exists_prefix_openRuns (f : α → Option β) : ∀ l : List α, ∃ seg, seg <+: l ∧
    seg.map f = (openRuns f l).1.map some
  | [] => ⟨[], List.prefix_rfl, rfl⟩
  | a :: l => by
    rw [openRuns]
    cases ha : f a with
    | none => exact ⟨[], List.nil_prefix, rfl⟩
    | some b =>
      obtain ⟨seg, hseg, hmap⟩ := exists_prefix_openRuns f l
      exact ⟨a :: seg, (List.prefix_cons_inj a).2 hseg, by rw [List.map_cons, ha, hmap]; rfl⟩

theorem exists_stretch_of_mem_openRuns {r : List β} : ∀ {l : List α}, r ∈ (openRuns f l).2 →
    ∃ seg, seg <:+: l ∧ seg.map f = r.map some
  | [], h => by cases h
  | a :: l, h => by
    rw [openRuns] at h
    cases ha : f a with
    | some b =>
      rw [ha] at h
      obtain ⟨seg, hseg, hmap⟩ := exists_stretch_of_mem_openRuns h
      exact ⟨seg, List.infix_cons hseg, hmap⟩
    | none =>
      rw [ha] at h
      rcases mem_consRun.1 h with ⟨rfl, -⟩ | h
      · obtain ⟨seg, hseg, hmap⟩ := exists_prefix_openRuns f l
        exact ⟨seg, List.infix_cons hseg.isInfix, hmap⟩
      · obtain ⟨seg, hseg, hmap⟩ := exists_stretch_of_mem_openRuns h
        exact ⟨seg, List.infix_cons hseg, hmap⟩

/-- A run is the image of a stretch. -/
theorem exists_stretch_of_mem_runs {l : List α} {r : List β} (h : r ∈ runs f l) :
    ∃ seg, seg <:+: l ∧ seg.map f = r.map some := by
  rcases mem_consRun.1 h with ⟨rfl, -⟩ | h
  · obtain ⟨seg, hseg, hmap⟩ := exists_prefix_openRuns f l
    exact ⟨seg, hseg.isInfix, hmap⟩
  · exact exists_stretch_of_mem_openRuns h

theorem consRun_eq_append (r : List β) (rs : List (List β)) : consRun r rs = consRun r [] ++ rs := by
  cases r <;> rfl

/-- A run may be taken to its image before it is put in front, if no image is lost. -/
theorem map_consRun {g : List β → List γ} {r : List β} (h : (g r).isEmpty = r.isEmpty) (rs : List (List β)) :
    (consRun r rs).map g = consRun (g r) (rs.map g) := by
  rw [consRun, consRun, h]
  split <;> rfl

theorem openRuns_map (f : α → Option β) (g : β → γ) (l : List α) :
    openRuns (fun a => (f a).map g) l = ((openRuns f l).1.map g, (openRuns f l).2.map (List.map g)) := by
  induction l with
  | nil => rfl
  | cons a l ih =>
    rw [openRuns, openRuns, ih]
    cases f a with
    | none => simp [map_consRun]
    | some b => rfl

/-- The runs of images are the images of the runs. -/
theorem runs_map (f : α → Option β) (g : β → γ) (l : List α) :
    runs (fun a => (f a).map g) l = (runs f l).map (List.map g) := by
  rw [runs, openRuns_map, runs, map_consRun (by simp)]

theorem openRuns_congr {g : α → Option β} : ∀ {l : List α}, (∀ a ∈ l, f a = g a) → openRuns f l = openRuns g l
  | [], _ => rfl
  | a :: l, h => by
    rw [openRuns, openRuns, h a List.mem_cons_self, openRuns_congr fun b hb => h b (List.mem_cons_of_mem a hb)]

theorem runs_congr {g : α → Option β} {l : List α} (h : ∀ a ∈ l, f a = g a) : runs f l = runs g l := by
  rw [runs, openRuns_congr h]
  rfl

theorem openRuns_comp_map (f : β → Option γ) (g : α → β) (l : List α) :
    openRuns f (l.map g) = openRuns (fun a => f (g a)) l := by
  induction l with
  | nil => rfl
  | cons a l ih => rw [List.map_cons, openRuns, openRuns, ih]

theorem runs_comp_map (f : β → Option γ) (g : α → β) (l : List α) : runs f (l.map g) = runs (fun a => f (g a)) l := by
  rw [runs, openRuns_comp_map]
  rfl

/-- What is left of a list between the elements to cut at, in order and less the empty pieces. -/
def between (cut : α → Bool) (l : List α) : List (List α) := (l.splitOnP cut).filter (!·.isEmpty)

theorem consRun_filterMap {seg : List α} (h : seg.isEmpty = (seg.filterMap f).isEmpty)
    (segs : List (List α)) : consRun (seg.filterMap f) ((segs.filter (!·.isEmpty)).map (List.filterMap f)) =
      ((seg :: segs).filter (!·.isEmpty)).map (List.filterMap f) := by
  rw [consRun, ← h]
  cases seg <;> simp

/-- What `List.splitOnP` cuts a list into is the open run, which may be empty, and then the later runs among empty pieces. -/
theorem exists_splitOnP (f : α → Option β) (l : List α) : ∃ seg segs,
    l.splitOnP (fun a => (f a).isNone) = seg :: segs ∧
    seg.isEmpty = (seg.filterMap f).isEmpty ∧ seg.filterMap f = (openRuns f l).1 ∧
    (segs.filter (!·.isEmpty)).map (List.filterMap f) = (openRuns f l).2 := by
  induction l with
  | nil => exact ⟨[], [], List.splitOnP_nil, rfl, rfl, rfl⟩
  | cons a l ih =>
    obtain ⟨seg, segs, hsplit, hempty, hseg, hsegs⟩ := ih
    rw [List.splitOnP_cons_eq_if_modifyHead, hsplit, openRuns]
    cases ha : f a with
    | some b =>
      have himage : (a :: seg).filterMap f = b :: (openRuns f l).1 := by rw [List.filterMap_cons_some ha, hseg]
      exact ⟨a :: seg, segs, rfl, by rw [himage]; rfl, himage, hsegs⟩
    | none => exact ⟨[], seg :: segs, rfl, rfl, rfl, by rw [← hsegs, ← hseg, consRun_filterMap hempty]⟩

/-- The runs are what is left between the elements on which the function is undefined. -/
theorem runs_eq_between (f : α → Option β) (l : List α) :
    runs f l = (between (fun a => (f a).isNone) l).map (List.filterMap f) := by
  obtain ⟨seg, segs, hsplit, hempty, hseg, hsegs⟩ := exists_splitOnP f l
  rw [between, hsplit, runs, ← hsegs, ← hseg, consRun_filterMap hempty]

theorem eq_false_of_mem_splitOnP {cut : α → Bool} :
    ∀ {l seg : List α}, seg ∈ l.splitOnP cut → ∀ a ∈ seg, cut a = false
  | [], seg, h => by
    rw [List.splitOnP_nil, List.mem_singleton] at h
    simp [h]
  | b :: l, seg, h => by
    obtain ⟨s, ss, hl⟩ := List.exists_cons_of_ne_nil (List.splitOnP_ne_nil cut l)
    rw [List.splitOnP_cons_eq_if_modifyHead] at h
    split at h
    · rcases List.mem_cons.1 h with rfl | h
      · simp
      · exact eq_false_of_mem_splitOnP h
    · next hb =>
      rw [hl, List.modifyHead_cons] at h
      rcases List.mem_cons.1 h with rfl | h
      · have hs : s ∈ l.splitOnP cut := by rw [hl]; exact List.mem_cons_self
        exact List.forall_mem_cons.2 ⟨by simpa using hb, eq_false_of_mem_splitOnP hs⟩
      · exact eq_false_of_mem_splitOnP (l := l) (by rw [hl]; exact List.mem_cons_of_mem _ h)

/-- The runs of the elements not to cut at are what is left between the others. -/
theorem runs_guard (cut : α → Bool) (l : List α) : runs (Option.guard fun a => !cut a) l = between cut l := by
  have hcut : (fun a => (Option.guard (fun a => !cut a) a).isNone) = cut := by
    funext a
    cases h : cut a <;> simp [Option.guard, h]
  rw [runs_eq_between, hcut, List.filterMap_eq_filter]
  refine List.map_congr_left (g := id) (fun seg hseg => List.filter_eq_self.2 fun a ha => ?_) |>.trans (List.map_id _)
  rw [eq_false_of_mem_splitOnP (List.mem_of_mem_filter hseg) a ha]
  rfl

end Runs

open Glob

variable {p : Bytes} {piece : List Lexeme}

/-! ## Pieces of a pattern -/

/-- The lexeme, if it is part of a fragment. -/
def Glob.Lexeme.inside? : Lexeme → Option Lexeme := Option.guard fun x => !x.isWildcard

theorem Glob.Lexeme.inside?_eq (x : Lexeme) : x.inside? = if x.isWildcard then none else some x := by
  rw [inside?, Option.guard]
  cases x.isWildcard <;> rfl

theorem Glob.Lexeme.fragmentText?_eq (x : Lexeme) : x.fragmentText? = x.inside?.map Lexeme.text := by
  rw [fragmentText?, inside?_eq]
  split <;> rfl

theorem Glob.Lexeme.text_ne_nil (x : Lexeme) : x.text ≠ [] := by
  cases x <;> simp [Lexeme.text]

theorem isEmpty_flatMap_text (xs : List Lexeme) : (xs.flatMap Lexeme.text).isEmpty = xs.isEmpty := by
  cases xs with
  | nil => rfl
  | cons x xs => simp [Lexeme.text_ne_nil]

/-- The lexemes between two wildcards, in order; no piece is empty. -/
def pieces (p : Bytes) : List (List Lexeme) := runs Lexeme.inside? (lex p)

/-- The fragments are the texts of the pieces. -/
theorem fragments_eq_pieces (p : Bytes) : fragments p = (pieces p).map (List.flatMap Lexeme.text) := by
  rw [fragments, pieces, show Lexeme.fragmentText? = fun x => x.inside?.map Lexeme.text from
    funext Lexeme.fragmentText?_eq, runs_map, List.map_map]
  rfl

/-- Lexemes that are all inside are the stretch itself, and hold no wildcard. -/
theorem eq_of_map_inside? : ∀ {xs ys : List Lexeme}, xs.map Lexeme.inside? = ys.map some →
    xs = ys ∧ ∀ x ∈ ys, x.isWildcard = false
  | [], [], _ => by simp
  | x :: xs, y :: ys, h => by
    simp only [List.map_cons, List.cons.injEq] at h
    obtain ⟨rfl, hw⟩ := eq_of_map_inside? h.2
    have hx : x.isWildcard = false ∧ x = y := by
      have := h.1
      rw [Lexeme.inside?_eq] at this
      cases hw : x.isWildcard <;> simp_all
    obtain ⟨hx, rfl⟩ := hx
    exact ⟨rfl, List.forall_mem_cons.2 ⟨hx, hw⟩⟩

/-- A piece is a stretch of the pattern without wildcards. -/
theorem infix_of_mem_pieces (h : piece ∈ pieces p) : piece <:+: lex p ∧ ∀ x ∈ piece, x.isWildcard = false := by
  obtain ⟨seg, hseg, hmap⟩ := exists_stretch_of_mem_runs h
  obtain ⟨rfl, hw⟩ := eq_of_map_inside? hmap
  exact ⟨hseg, hw⟩

/-- A fragment reads as its piece. -/
theorem lex_text_piece (h : piece ∈ pieces p) : lex (piece.flatMap Lexeme.text) = piece :=
  lex_flatMap_text_of_infix (infix_of_mem_pieces h).1

end GlobSieve
