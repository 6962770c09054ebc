import GlobSieve.Proofs.Pattern.Interning

/-!
# Cookies are carried along

`Registry.relabel` gives every pattern of a registry another cookie, by its place and its text. Nothing else changes
(`get?_relabel`), and it makes no difference whether a pattern is inserted before or after (`insert_relabel`).
-/

namespace GlobSieve

variable {κ κ' : Type}

/-- The same pattern with another cookie. -/
def StoredPattern.withCookie (p : StoredPattern κ) (k : κ') : StoredPattern κ' := ⟨p.text, k, p.glob, p.requirement⟩

namespace Registry

/-- The same patterns with other cookies, by place and text. -/
def relabel (f : Nat → Bytes → κ') (r : Registry κ) : Registry κ' :=
  ⟨r.config, r.patterns.mapIdx fun id p => p.withCookie (f id p.text)⟩

variable (f : Nat → Bytes → κ') (r : Registry κ)

@[simp] theorem config_relabel : (r.relabel f).config = r.config := rfl

@[simp] theorem size_relabel : (r.relabel f).size = r.size := by simp [relabel, size]

@[simp] theorem get?_relabel (id : Nat) :
    (r.relabel f).get? id = (r.get? id).map fun p => p.withCookie (f id p.text) := by
  simp [relabel, get?]

/-- What patterns require does not depend on cookies. -/
theorem requirements_relabel : (r.relabel f).toList.map (·.requirement) = r.toList.map (·.requirement) := by
  refine List.ext_getElem? fun id => ?_
  simp only [List.getElem?_map, toList, Array.getElem?_toList]
  show ((r.relabel f).get? id).map (·.requirement) = (r.get? id).map (·.requirement)
  rw [get?_relabel, Option.map_map]
  rfl

theorem stored_relabel : (r.relabel f).stored = r.texts.zipIdx.map fun (p, id) => (id, p, f id p) := by
  refine List.ext_getElem? fun id => ?_
  simp only [stored, texts, toList, List.getElem?_map, List.getElem?_zipIdx, Array.getElem?_toList]
  show (((r.relabel f).get? id).map (·, 0 + id)).map _ = (((r.get? id).map (·.text)).map (·, 0 + id)).map _
  rw [get?_relabel]
  cases r.get? id with
  | none => rfl
  | some p => simp [StoredPattern.withCookie]

/-- A pattern is inserted with its new cookie, or relabeled after it was inserted. -/
theorem insert_relabel (table : FragmentTable) (p : Bytes) (cookie : κ) :
    (r.relabel f).insert table p (f r.size p) =
      (r.insert table p cookie).map fun x => (x.1, x.2.1.relabel f, x.2.2) := by
  unfold insert
  rw [config_relabel]
  cases refusal? r.config p with
  | some err => rfl
  | none =>
    simp only [Except.map, size_relabel]
    simp [relabel, StoredPattern.withCookie, size]

end Registry

end GlobSieve
