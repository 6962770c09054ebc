import GlobSieve.Engine.Basic
import GlobSieve.Text.Lossy
import GlobSieve.Text.Quoted

/-!
# Engines as text

`Engine.dump` writes out patterns, fragments and meta-words, one a line; `Engine.inspect` names stage, settings and
sizes. Byte strings are read as text, with replacement characters where they are none, and quoted.
-/

namespace GlobSieve

/-- Bytes as quoted text. -/
def showBytes (t : Bytes) : String := Text.quoted (Text.decodeLossy t)

/-- Several texts between brackets, with commas. -/
def bracketed (parts : List String) : String := "[" ++ ", ".intercalate parts ++ "]"

/-- Lines with their number before them. -/
def numberedLines {α : Type} (l : List α) (line : α → String) : String :=
  String.join (l.zipIdx.map fun (a, i) => s!"  #{i} {line a}\n")

namespace Engine

variable {S : Scanner} {κ : Type}

/-- A pattern, its cookie and what it requires. -/
def showPattern [ToString κ] (table : FragmentTable) (p : StoredPattern κ) : String :=
  let required :=
    match p.requirement with
    | .wildcardOnly => "wildcard-only"
    | .fragments ids => "fragments=" ++ bracketed ((ids.filterMap table.get?).map fun (f : Fragment) => showBytes f.text)
  s!"{showBytes p.text} cookie={p.cookie} {required}"

def showFragment (f : Fragment) : String := showBytes f.text ++ " needles=" ++ bracketed (f.needles.map showBytes)

/-- Several handles between brackets. -/
def showHandles (hs : List Nat) : String := bracketed (hs.map fun h => toString h)

def showMetaWord (w : MetaWord) : String := s!"fragments={showHandles w.fragments} patterns={showHandles w.patterns}"

/-- The meta-words, the last of them without an end of line. -/
def showMetaWords (x : MetaWordIndex) : String :=
  s!"meta-words ({x.size}):"
    ++ String.join (x.metaWords.toList.zipIdx.map fun (w, m) => s!"\n  #{m} {showMetaWord w}")

/-- All patterns, fragments and meta-words. -/
def dumpOf [ToString κ] (stage : Stage) (r : Registry κ) (table : FragmentTable) (index? : Option (CompiledIndex S)) : String :=
  s!"Paraglob ({stage.label}, {r.config.mode.label})\n"
    ++ s!"patterns ({r.size}):\n" ++ numberedLines r.toList (showPattern table)
    ++ s!"fragments ({table.size}):\n" ++ numberedLines table.toList showFragment
    ++ (match index? with
      | some x => showMetaWords x.metaWords
      | none => "meta-words: not compiled")

def dump [ToString κ] (e : Engine S κ) : String := dumpOf e.phase.stage e.registry e.table e.phase.index?

/-- Stage, settings and sizes. -/
def inspectOf (stage : Stage) (r : Registry κ) (table : FragmentTable) : String :=
  let config := s!"ParaglobConfig \x7b mode: {r.config.mode.label}, max_literal_len: {r.config.literalLimit} \x7d"
  s!"Paraglob \x7b state: {stage.label}, config: {config}, "
    ++ s!"patterns: {r.size}, fragments: {table.size} \x7d"

def inspect (e : Engine S κ) : String := inspectOf e.phase.stage e.registry e.table

end Engine

end GlobSieve
