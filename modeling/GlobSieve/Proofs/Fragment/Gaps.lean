import GlobSieve.Proofs.Fragment.OnePass
import GlobSieve.Proofs.Fragment.Wildcards

/-!
# Fragments and the wildcards between them

Nothing of a pattern is lost when it is cut (`fragments_interleave`): the fragments, with rows of wildcards in front, between
and behind, are the pattern again, and no fragment holds a wildcard any more. Two fragments are never side by side.

This is so for the runs of any list (`gapped_runs`). Every lexeme is in a run or in a gap between two runs, and the texts of the
lexemes are the pattern.
-/

namespace GlobSieve

/-! ## Runs and gaps -/

section Gaps

variable {α β : Type}

/-- Runs, each with the gap behind it. -/
def interleave (rs ws : List (List α)) : List α := (List.zipWith (· ++ ·) rs ws).flatten

@[simp] theorem interleave_nil (ws : List (List α)) : interleave [] ws = [] := rfl

@[simp] theorem interleave_cons (r w : List α) (rs ws : List (List α)) :
    interleave (r :: rs) (w :: ws) = r ++ (w ++ interleave rs ws) := List.append_assoc r w _

theorem flatMap_interleave (g : α → List β) (rs ws : List (List α)) :
    (interleave rs ws).flatMap g = interleave (rs.map (List.flatMap g)) (ws.map (List.flatMap g)) := by
  induction rs generalizing ws with
  | nil => rfl
  | cons r rs ih =>
    cases ws with
    | nil => rfl
    | cons w ws => simp [ih]

/-- A list is runs with gaps around them, where no gap between two runs is empty. -/
def Gapped (cut : α → Bool) (rs : List (List α)) (l : List α) : Prop :=
  ∃ w ws, l = w ++ interleave rs ws ∧ ws.length = rs.length ∧ (∀ v ∈ w :: ws, ∀ a ∈ v, cut a = true) ∧
    ∀ v ∈ ws.dropLast, v ≠ []

/-- The same behind a run, where the first gap is between two runs if there is one more. -/
def GappedBehind (cut : α → Bool) (rs : List (List α)) (l : List α) : Prop :=
  ∃ w ws, l = w ++ interleave rs ws ∧ ws.length = rs.length ∧ (∀ v ∈ w :: ws, ∀ a ∈ v, cut a = true) ∧
    ∀ v ∈ (w :: ws).dropLast, v ≠ []

variable {cut : α → Bool} {rs : List (List α)} {r l : List α}

theorem forall_mem_dropLast_cons {P : List α → Prop} {w : List α} {ws : List (List α)} :
    (∀ v ∈ (w :: ws).dropLast, P v) ↔ (ws ≠ [] → P w) ∧ ∀ v ∈ ws.dropLast, P v := by
  cases ws <;> simp

/-- A run that is empty is none, and the gap behind it comes first. -/
theorem GappedBehind.consRun (h : GappedBehind cut rs l) (r : List α) : Gapped cut (consRun r rs) (r ++ l) := by
  obtain ⟨w, ws, rfl, hlen, hcut, hne⟩ := h
  cases r with
  | nil => exact ⟨w, ws, rfl, hlen, hcut, (forall_mem_dropLast_cons.1 hne).2⟩
  | cons b r =>
    exact ⟨[], w :: ws, (interleave_cons _ _ _ _).symm, congrArg (· + 1) hlen, List.forall_mem_cons.2 ⟨by simp, hcut⟩, hne⟩

theorem Gapped.cons {a : α} (h : Gapped cut rs l) (ha : cut a = true) : GappedBehind cut rs (a :: l) := by
  obtain ⟨w, ws, rfl, hlen, hcut, hne⟩ := h
  rw [List.forall_mem_cons] at hcut
  exact ⟨a :: w, ws, rfl, hlen, List.forall_mem_cons.2 ⟨List.forall_mem_cons.2 ⟨ha, hcut.1⟩, hcut.2⟩,
    forall_mem_dropLast_cons.2 ⟨fun _ => List.cons_ne_nil _ _, hne⟩⟩

theorem gapped_of_openRuns {rest : List α} (hl : l = (openRuns (Option.guard fun a => !cut a) l).1 ++ rest)
    (h : GappedBehind cut (openRuns (Option.guard fun a => !cut a) l).2 rest) :
    Gapped cut (runs (Option.guard fun a => !cut a) l) l := by
  have hgapped := h.consRun (openRuns (Option.guard fun a => !cut a) l).1
  rwa [← hl] at hgapped

/-- Behind the run that a list opens with come the later runs. -/
theorem gappedBehind_openRuns (cut : α → Bool) (l : List α) : ∃ rest,
    l = (openRuns (Option.guard fun a => !cut a) l).1 ++ rest ∧
      GappedBehind cut (openRuns (Option.guard fun a => !cut a) l).2 rest := by
  induction l with
  | nil => exact ⟨[], rfl, [], [], rfl, rfl, by simp, by simp⟩
  | cons a l ih =>
    obtain ⟨rest, hl, hgaps⟩ := ih
    rw [openRuns, Option.guard]
    cases ha : cut a with
    | false => exact ⟨rest, congrArg (a :: ·) hl, hgaps⟩
    | true => exact ⟨a :: l, rfl, (gapped_of_openRuns hl hgaps).cons ha⟩

/-- The elements that are in no run are between the runs. -/
theorem gapped_runs (cut : α → Bool) (l : List α) : Gapped cut (runs (Option.guard fun a => !cut a) l) l := by
  obtain ⟨rest, hl, hgaps⟩ := gappedBehind_openRuns cut l
  exact gapped_of_openRuns hl hgaps

end Gaps

open Glob

variable {p f : Bytes}

theorem flatMap_text_ne_nil {xs : List Lexeme} (h : xs ≠ []) : xs.flatMap Lexeme.text ≠ [] := by
  rwa [Ne, ← List.isEmpty_iff, isEmpty_flatMap_text, List.isEmpty_iff]

/-- Around the texts of runs of lexemes are the texts of their gaps. -/
theorem Gapped.flatMap_text {rs : List (List Lexeme)} {xs : List Lexeme} (h : Gapped Lexeme.isWildcard rs xs) :
    Gapped isWildcardByte (rs.map (List.flatMap Lexeme.text)) (xs.flatMap Lexeme.text) := by
  obtain ⟨w, ws, rfl, hlen, hcut, hne⟩ := h
  refine ⟨w.flatMap Lexeme.text, ws.map (List.flatMap Lexeme.text), ?_, ?_, fun v hv b hb => ?_, fun v hv => ?_⟩
  · rw [List.flatMap_append, flatMap_interleave]
  · rw [List.length_map, List.length_map, hlen]
  · rw [← List.map_cons] at hv
    obtain ⟨u, hu, rfl⟩ := List.mem_map.1 hv
    obtain ⟨x, hx, hbx⟩ := List.mem_flatMap.1 hb
    exact isWildcardByte_of_mem_text (hcut u hu x hx) hbx
  · rw [← List.map_dropLast] at hv
    obtain ⟨u, hu, rfl⟩ := List.mem_map.1 hv
    exact flatMap_text_ne_nil (hne u hu)

/-- A fragment is not empty and holds no wildcard, escapes and brackets apart. -/
theorem of_mem_fragments (h : f ∈ fragments p) : f ≠ [] ∧ ∀ x ∈ lex f, x.isWildcard = false := by
  rw [fragments_eq_pieces] at h
  obtain ⟨piece, hpiece, rfl⟩ := List.mem_map.1 h
  refine ⟨flatMap_text_ne_nil (ne_nil_of_mem_runs hpiece), ?_⟩
  rw [lex_text_piece hpiece]
  exact (infix_of_mem_pieces hpiece).2

theorem gapped_fragments (p : Bytes) : Gapped isWildcardByte (fragments p) p := by
  have hpieces : Gapped Lexeme.isWildcard (pieces p) (lex p) := gapped_runs _ _
  rw [fragments_eq_pieces]
  conv => rhs; rw [← flatMap_text_lex p]
  exact hpieces.flatMap_text

/-- The fragments of a pattern, with wildcards around them, are the pattern. No two stand side by side, and none is empty or
can be cut again. A pattern consists of wildcards alone when all its bytes are wildcards and it has one. -/
theorem fragments_interleave (p : Bytes) :
    (∃ w ws, p = w ++ (List.zipWith (· ++ ·) (fragmentsOnePass p) ws).flatten ∧
      ws.length = (fragmentsOnePass p).length ∧
      (∀ v ∈ w :: ws, ∀ b ∈ v, b = Sign.star ∨ b = Sign.query) ∧ ∀ v ∈ ws.dropLast, v ≠ []) ∧
    (∀ f ∈ fragmentsOnePass p, f ≠ [] ∧ ∀ x ∈ lex f, x.isWildcard = false) ∧
    (wildcardOnlyOnePass p = true ↔ p ≠ [] ∧ ∀ b ∈ p, b = Sign.star ∨ b = Sign.query) := by
  have hbyte (b : UInt8) : isWildcardByte b = true ↔ b = Sign.star ∨ b = Sign.query := by
    simp [isWildcardByte]
  simp only [fragmentsOnePass_eq, wildcardOnlyOnePass_eq, ← hbyte]
  exact ⟨gapped_fragments p, fun f => of_mem_fragments, wildcardOnly_iff⟩

end GlobSieve
