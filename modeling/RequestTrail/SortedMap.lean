/-!
# Finite maps in key order

A finite map is kept as the list of its entries in strictly ascending key order, so that two maps
with the same entries are equal. Main statements: a lookup after an insertion finds the inserted
value at its key and the old value at every other key (`find?_insert`), and a map is the map of its
entries (`ofList_toList`).
-/

namespace RequestTrail

/-- A finite map from `κ` to `β`, as its entries in ascending key order. -/
structure SortedMap (κ : Type) (β : Type) [LT κ] where
  toList : List (κ × β) := []
  ascending : toList.Pairwise (fun a b => a.1 < b.1) := by constructor

namespace SortedMap

variable {κ β : Type} [LT κ] [DecidableEq κ]

instance [DecidableEq β] : DecidableEq (SortedMap κ β) := fun a b =>
  decidable_of_iff (a.toList = b.toList) <| by
    cases a
    cases b
    simp

/-- The map with no entry. -/
def empty : SortedMap κ β where

/-- The value at a key. -/
def find? (m : SortedMap κ β) (key : κ) : Option β :=
  m.toList.lookup key

/-- Puts an entry where its key belongs, in place of an entry with the same key. -/
def insertEntry [DecidableLT κ] (key : κ) (value : β) : List (κ × β) → List (κ × β)
  | [] => [(key, value)]
  | entry :: rest =>
    if key < entry.1 then (key, value) :: entry :: rest
    else if entry.1 = key then (key, value) :: rest
    else entry :: insertEntry key value rest

theorem mem_insertEntry [DecidableLT κ] {key : κ} {value : β} {entries : List (κ × β)}
    {e : κ × β} (h : e ∈ insertEntry key value entries) : e = (key, value) ∨ e ∈ entries := by
  induction entries with
  | nil => simpa [insertEntry] using h
  | cons entry rest ih =>
    simp only [insertEntry] at h
    split at h
    · simpa using h
    · split at h
      · rcases List.mem_cons.1 h with h | h
        · exact .inl h
        · exact .inr (List.mem_cons_of_mem _ h)
      · rcases List.mem_cons.1 h with h | h
        · exact .inr (h ▸ List.mem_cons_self)
        · exact (ih h).imp_right (List.mem_cons_of_mem _)

theorem lookup_insertEntry [DecidableLT κ] (key : κ) (value : β) (entries : List (κ × β))
    (k : κ) :
    (insertEntry key value entries).lookup k =
      if k = key then some value else entries.lookup k := by
  induction entries with
  | nil => grind [insertEntry]
  | cons entry rest ih => grind [insertEntry]

section Order

variable [LE κ] [DecidableLT κ] [Std.IsLinearOrder κ] [Std.LawfulOrderLT κ]

theorem pairwise_insertEntry (key : κ) (value : β) {entries : List (κ × β)}
    (h : entries.Pairwise fun a b => a.1 < b.1) :
    (insertEntry key value entries).Pairwise fun a b => a.1 < b.1 := by
  induction entries with
  | nil => simp [insertEntry]
  | cons entry rest ih =>
    obtain ⟨head, tail⟩ := List.pairwise_cons.1 h
    simp only [insertEntry]
    split
    · rename_i lt
      refine List.pairwise_cons.2 ⟨fun e he => ?_, h⟩
      rcases List.mem_cons.1 he with rfl | he
      · exact lt
      · exact Std.lt_trans lt (head e he)
    · rename_i notLt
      split
      · rename_i eq
        exact List.pairwise_cons.2 ⟨fun e he => eq ▸ head e he, tail⟩
      · rename_i ne
        refine List.pairwise_cons.2 ⟨fun e he => ?_, ih tail⟩
        rcases mem_insertEntry he with rfl | he
        · exact Std.lt_of_le_of_ne (Std.not_lt.1 notLt) ne
        · exact head e he

/-- The map with `value` at `key`. -/
def insert (m : SortedMap κ β) (key : κ) (value : β) : SortedMap κ β where
  toList := insertEntry key value m.toList
  ascending := pairwise_insertEntry key value m.ascending

/-- The map of the entries of a list; the last entry of a key wins. -/
def ofList (entries : List (κ × β)) : SortedMap κ β :=
  entries.foldl (fun m e => m.insert e.1 e.2) empty

theorem insertEntry_of_forall_lt {key : κ} (value : β) {entries : List (κ × β)}
    (h : ∀ e ∈ entries, e.1 < key) :
    insertEntry key value entries = entries ++ [(key, value)] := by
  induction entries with
  | nil => rfl
  | cons entry rest ih =>
    rw [List.forall_mem_cons] at h
    have hlt : ¬ key < entry.1 := Std.not_lt.2 (Std.le_of_lt h.1)
    have hne : entry.1 ≠ key := Std.ne_of_lt h.1
    simp [insertEntry, hlt, hne, ih h.2]

/-- Entries whose keys go on in ascending order are put at the end. -/
theorem toList_foldl_insert {entries : List (κ × β)} {m : SortedMap κ β}
    (h : (m.toList ++ entries).Pairwise fun a b => a.1 < b.1) :
    (entries.foldl (fun m e => m.insert e.1 e.2) m).toList = m.toList ++ entries := by
  induction entries generalizing m with
  | nil => simp
  | cons entry entries ih =>
    have hentry : (m.insert entry.1 entry.2).toList = m.toList ++ [entry] := by
      apply insertEntry_of_forall_lt
      intro e he
      exact (List.pairwise_append.1 h).2.2 e he entry List.mem_cons_self
    rw [List.foldl_cons, ih, hentry, List.append_assoc, List.singleton_append]
    rw [hentry, List.append_assoc, List.singleton_append]
    exact h

/-- A map is the map of its entries. -/
theorem ofList_toList (m : SortedMap κ β) : ofList m.toList = m := by
  have h : (ofList m.toList).toList = m.toList := toList_foldl_insert m.ascending
  generalize ofList m.toList = m' at h
  cases m
  cases m'
  simp_all

theorem find?_insert (m : SortedMap κ β) (key : κ) (value : β) (k : κ) :
    (m.insert key value).find? k = if k = key then some value else m.find? k :=
  lookup_insertEntry key value m.toList k

end Order

end SortedMap

end RequestTrail
