import GlobSieve.Fragment.Needles

/-!
# The fragment table

Every fragment is stored once; its place in the table is its handle. Handles are dense, and a handle once given out
keeps its fragment: the table only grows at its end. Tables of fewer than `2 ^ 32` fragments are meant, so that a handle is a
word of 32 bits.
-/

namespace GlobSieve

/-- A fragment with the needles that it is searched for by. -/
structure Fragment where
  text : Bytes
  needles : List Bytes
  deriving DecidableEq, Repr

/-- The fragments of a collection of patterns, by handle. -/
structure FragmentTable where
  entries : Array Fragment
  deriving DecidableEq, Repr

namespace FragmentTable

def empty : FragmentTable := ⟨#[]⟩

/-- The number of fragments, and the next handle. -/
def size (t : FragmentTable) : Nat := t.entries.size

/-- The fragment of a handle. -/
def get? (t : FragmentTable) (id : Nat) : Option Fragment := t.entries[id]?

/-- The handle of a text. -/
def find? (t : FragmentTable) (text : Bytes) : Option Nat := t.entries.toList.findIdx? (·.text == text)

/-- The fragments, in the order of their handles. -/
def toList (t : FragmentTable) : List Fragment := t.entries.toList

@[simp] theorem getElem?_toList (t : FragmentTable) (id : Nat) : t.toList[id]? = t.get? id := Array.getElem?_toList

/-- The handle of a text, which is stored with these needles if it is new; a known text keeps those it has. -/
def internWith (t : FragmentTable) (text : Bytes) (ns : List Bytes) : Nat × FragmentTable :=
  match t.find? text with
  | some id => (id, t)
  | none => (t.size, ⟨t.entries.push ⟨text, ns⟩⟩)

theorem internWith_of_find? {t : FragmentTable} {text : Bytes} {id : Nat} (h : t.find? text = some id)
    (ns : List Bytes) : t.internWith text ns = (id, t) := by
  rw [internWith, h]

theorem internWith_of_find?_none {t : FragmentTable} {text : Bytes} (h : t.find? text = none) (ns : List Bytes) :
    t.internWith text ns = (t.size, ⟨t.entries.push ⟨text, ns⟩⟩) := by
  rw [internWith, h]

/-- A handle that is found has the text. -/
theorem text_of_find? {t : FragmentTable} {text : Bytes} {id : Nat} (h : t.find? text = some id) :
    ∃ f, t.get? id = some f ∧ f.text = text := by
  obtain ⟨hlt, he, _⟩ := List.findIdx?_eq_some_iff_getElem.1 h
  refine ⟨t.entries.toList[id], ?_, eq_of_beq he⟩
  rw [← getElem?_toList]
  exact List.getElem?_eq_getElem hlt

/-- Interning adds to the end of the table, if anywhere. -/
theorem toList_prefix_internWith (t : FragmentTable) (text : Bytes) (ns : List Bytes) :
    t.toList <+: (t.internWith text ns).2.toList := by
  cases h : t.find? text with
  | some id => exact ⟨[], by rw [internWith_of_find? h, List.append_nil]⟩
  | none =>
    rw [internWith_of_find?_none h]
    exact ⟨[⟨text, ns⟩], by simp [toList]⟩

/-- The handle of a text, which is stored with its needles if it is new. -/
def intern (t : FragmentTable) (text : Bytes) : Nat × FragmentTable := t.internWith text (needles text)

/-- The handles of several texts, interned in turn. -/
def internAll (t : FragmentTable) : List Bytes → List Nat × FragmentTable
  | [] => ([], t)
  | text :: texts =>
    let (id, t₁) := t.intern text
    let (ids, t₂) := t₁.internAll texts
    (id :: ids, t₂)

end FragmentTable

end GlobSieve
