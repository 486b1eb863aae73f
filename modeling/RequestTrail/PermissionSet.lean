/-!
# Sets of permissions

The permissions that an application declares, as the list of their names in ascending order of
code points, each once.
-/

namespace RequestTrail

/-- A set of permission names. -/
structure PermissionSet where
  toList : List String := []
  ascending : toList.Pairwise (· < ·) := by constructor

namespace PermissionSet

instance : DecidableEq PermissionSet := fun a b =>
  decidable_of_iff (a.toList = b.toList) <| by
    cases a
    cases b
    simp

/-- Puts a name where it belongs in an ascending list, unless it is there. -/
def insertName (name : String) : List String → List String
  | [] => [name]
  | other :: rest =>
    if name < other then name :: other :: rest
    else if other = name then other :: rest
    else other :: insertName name rest

@[simp]
theorem mem_insertName {name p : String} {names : List String} :
    p ∈ insertName name names ↔ p = name ∨ p ∈ names := by
  induction names with
  | nil => simp [insertName]
  | cons other rest ih => grind [insertName]

theorem pairwise_insertName (name : String) {names : List String} (h : names.Pairwise (· < ·)) :
    (insertName name names).Pairwise (· < ·) := by
  induction names with
  | nil => simp [insertName]
  | cons other rest ih =>
    obtain ⟨head, tail⟩ := List.pairwise_cons.1 h
    simp only [insertName]
    split
    · rename_i lt
      refine List.pairwise_cons.2 ⟨fun p hp => ?_, h⟩
      rcases List.mem_cons.1 hp with rfl | hp
      · exact lt
      · exact String.lt_trans lt (head p hp)
    · rename_i notLt
      split
      · exact h
      · rename_i ne
        refine List.pairwise_cons.2 ⟨fun p hp => ?_, ih tail⟩
        rcases mem_insertName.1 hp with rfl | hp
        · exact Std.lt_of_le_of_ne (String.not_lt.1 notLt) ne
        · exact head p hp

/-- The set with one more name. -/
def insert (s : PermissionSet) (name : String) : PermissionSet where
  toList := insertName name s.toList
  ascending := pairwise_insertName name s.ascending

/-- The set of the names in a list. -/
def ofList (names : List String) : PermissionSet :=
  names.foldl insert {}

theorem insertName_of_forall_lt {name : String} {names : List String}
    (h : ∀ p ∈ names, p < name) : insertName name names = names ++ [name] := by
  induction names with
  | nil => rfl
  | cons other rest ih =>
    rw [List.forall_mem_cons] at h
    have hne : other ≠ name := by
      rintro rfl
      exact String.lt_irrefl other h.1
    simp [insertName, String.lt_asymm h.1, hne, ih h.2]

/-- Names that go on in ascending order are put at the end. -/
theorem toList_foldl_insert {names : List String} {s : PermissionSet}
    (h : (s.toList ++ names).Pairwise (· < ·)) :
    (names.foldl insert s).toList = s.toList ++ names := by
  induction names generalizing s with
  | nil => simp
  | cons name names ih =>
    have hname : (s.insert name).toList = s.toList ++ [name] := by
      apply insertName_of_forall_lt
      intro p hp
      exact (List.pairwise_append.1 h).2.2 p hp name List.mem_cons_self
    rw [List.foldl_cons, ih, hname, List.append_assoc, List.singleton_append]
    rw [hname, List.append_assoc, List.singleton_append]
    exact h

/-- A set is the set of its names. -/
theorem ofList_toList (s : PermissionSet) : ofList s.toList = s := by
  have h : (ofList s.toList).toList = s.toList := toList_foldl_insert s.ascending
  generalize ofList s.toList = s' at h
  cases s
  cases s'
  simp_all

/-- Whether a name is in the set. -/
def contains (s : PermissionSet) (name : String) : Bool :=
  s.toList.contains name

end PermissionSet

end RequestTrail
