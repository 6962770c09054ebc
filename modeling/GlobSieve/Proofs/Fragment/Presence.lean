import GlobSieve.Fragment.Needles
import GlobSieve.Proofs.Fragment.Pieces
import GlobSieve.Proofs.Glob.Derivation

/-!
# What a matching text contains

A text that matches a pattern contains, up to the mode, every needle of every fragment of the pattern
(`needle_infix_of_accepts`): the reason why a pattern can be passed over when a needle is absent.

A fragment is the text of a piece of the pattern, and what the tokens of the piece describe is a part of the text. A needle is
what a stretch of the piece asks for literally (`exists_stretch_of_mem_needles`), so it stands in that part
(`needle_infix_of_piece`).
-/

namespace GlobSieve

open Glob

variable {p f n : Bytes}

/-- A needle is what a stretch of the fragment asks for literally. -/
theorem exists_stretch_of_mem_needles (h : n ∈ needles f) :
    ∃ xs, xs <:+: lex f ∧ xs.map Lexeme.needleByte? = n.map some :=
  exists_stretch_of_mem_runs (List.mem_eraseDups.1 h)

/-- Lexemes that ask for bytes literally have these bytes as tokens, if they are no wildcards and none dangles. -/
theorem filterMap_token?_of_map_needleByte? : ∀ {xs : List Lexeme} {n : Bytes},
    xs.map Lexeme.needleByte? = n.map some → (∀ x ∈ xs, x.isWildcard = false) → .dangling ∉ xs →
      xs.filterMap Lexeme.token? = n.map .literal
  | [], [], _, _, _ => rfl
  | x :: xs, b :: n, h, hw, hd => by
    simp only [List.map_cons, List.cons.injEq] at h
    have hx : x.token? = some (.literal b) := by
      have hwx := hw x List.mem_cons_self
      cases x with
      | escaped c => exact congrArg (Option.map Token.literal) h.1
      | plain c => exact congrArg (Option.map Token.literal) h.1
      | dangling => exact absurd List.mem_cons_self hd
      | star => cases hwx
      | query => cases hwx
      | bracket body => cases h.1
    rw [List.filterMap_cons_some hx, List.map_cons, filterMap_token?_of_map_needleByte? h.2
      (fun y hy => hw y (List.mem_cons_of_mem _ hy)) fun hm => hd (List.mem_cons_of_mem _ hm)]

theorem infix_foldBytes {m : CaseMode} {s t : Bytes} (h : s <:+: t) : m.foldBytes s <:+: m.foldBytes t := by
  obtain ⟨a, c, rfl⟩ := h
  exact ⟨m.foldBytes a, m.foldBytes c, by simp only [CaseMode.foldBytes_append]⟩

/-- A text that the tokens of a piece describe contains every needle of its fragment, up to the mode. -/
theorem needle_infix_of_piece {m : CaseMode} {piece : List Lexeme} {s : Bytes} (hpiece : piece ∈ pieces p)
    (hd : .dangling ∉ lex p) (hs : Derives m (piece.filterMap Lexeme.token?) s)
    (hn : n ∈ needles (piece.flatMap Lexeme.text)) : m.foldBytes n <:+: m.foldBytes s := by
  obtain ⟨hstretch, hw⟩ := infix_of_mem_pieces hpiece
  obtain ⟨ys, hys, hmap⟩ := exists_stretch_of_mem_needles hn
  rw [lex_text_piece hpiece] at hys
  have hd' : Lexeme.dangling ∉ ys := fun hm => hd (hstretch.mem (hys.mem hm))
  obtain ⟨b, hb, hder⟩ := hs.exists_slice (hys.filterMap Lexeme.token?)
  rw [filterMap_token?_of_map_needleByte? hmap (fun y hy => hw y (hys.mem hy)) hd'] at hder
  rw [← hder.foldBytes_eq]
  exact infix_foldBytes hb

/-- A text that matches a pattern contains every needle of its fragments, up to the mode. -/
theorem needle_infix_of_accepts {m : CaseMode} {t : Bytes} (h : (Glob.parse m p).accepts t = true)
    (hf : f ∈ fragments p) (hn : n ∈ needles f) : m.foldBytes n <:+: m.foldBytes t := by
  obtain ⟨hd, hder⟩ := derives_of_accepts h
  rw [fragments_eq_pieces] at hf
  obtain ⟨piece, hpiece, rfl⟩ := List.mem_map.1 hf
  obtain ⟨s, hs, hslice⟩ := hder.exists_slice ((infix_of_mem_pieces hpiece).1.filterMap Lexeme.token?)
  exact (needle_infix_of_piece hpiece hd hslice hn).trans (infix_foldBytes hs)

end GlobSieve
