import RequestTrail.Proofs.Registration

/-!
# An index as its log tells it

Each answer of an index is read off the log from which it is built. Calls and literals are the
entries of their kind in order, the text of a site and the string of a resource identifier are what
was set last, and there is a table as soon as an entry names it.
-/

namespace RequestTrail

namespace Index

namespace Entry

def call? : Entry → Option Call
  | .call c => some c
  | _ => none

def literal? : Entry → Option Literal
  | .literal l => some l
  | _ => none

/-- The text that an entry sets for a site. -/
def textOf? (site : Site) : Entry → Option String
  | .source s text => if s = site then some text else none
  | _ => none

/-- The string that an entry sets for a resource identifier. -/
def stringAt? (package locale : String) (id : UInt64) : Entry → Option String
  | .string p l i value => if (p, l, i) = (package, locale, id) then some value else none
  | _ => none

/-- Whether an entry names the table of a package and locale. -/
def namesTable (package locale : String) : Entry → Bool
  | .table p l => (p, l) == (package, locale)
  | .string p l _ _ => (p, l) == (package, locale)
  | _ => false

variable {e : Entry}

lemma call?_eq_some_iff {c : Call} : e.call? = some c ↔ e = .call c := by
  cases e <;> simp [call?]

lemma caller_mem_sites {c : Call} (h : e.call? = some c) : c.caller ∈ e.sites := by
  obtain rfl := call?_eq_some_iff.1 h
  simp [sites]

lemma callee_mem_sites {c : Call} (h : e.call? = some c) : c.callee ∈ e.sites := by
  obtain rfl := call?_eq_some_iff.1 h
  simp [sites]

lemma reference_mem_sites {l : Literal} (h : e.literal? = some l) {site : Site}
    (hsite : site ∈ l.references) : site ∈ e.sites := by
  cases e with
  | literal literal => exact Option.some.inj h ▸ hsite
  | _ => cases h

end Entry

end Index

namespace ListIndex

open Index (Entry)

/-! ### Folds over a log -/

section Fold

variable {β : Type}

/-- What every entry extends by its items is extended by the items of the log. -/
lemma recordAll_eq_append (view : ListIndex → List β) {item? : Entry → Option β}
    (hstep : ∀ index e, view (record index e) = view index ++ (item? e).toList) (index : ListIndex)
    (log : List Entry) : view (index.recordAll log) = view index ++ log.filterMap item? := by
  unfold recordAll
  induction log generalizing index with
  | nil => simp
  | cons e log ih =>
    rw [List.foldl_cons, ih, hstep, List.append_assoc]
    cases h : item? e <;> simp [h]

/-- What every entry may set is what was set last. -/
lemma recordAll_eq_getLast? (view : ListIndex → Option β) {write? : Entry → Option β}
    (hstep : ∀ index e, view (record index e) = (write? e).or (view index)) (index : ListIndex)
    (log : List Entry) :
    view (index.recordAll log) = (log.filterMap write?).getLast?.or (view index) := by
  unfold recordAll
  induction log generalizing index with
  | nil => simp
  | cons e log ih =>
    rw [List.foldl_cons, ih, hstep]
    cases hwrite : write? e with
    | none => simp [hwrite]
    | some b =>
      cases hlast : (log.filterMap write?).getLast? <;>
        simp [hwrite, hlast, List.getLast?_cons]

end Fold

/-! ### One entry -/

lemma calls_record (index : ListIndex) (e : Entry) :
    (index.record e).calls = index.calls ++ e.call?.toList := by
  cases e <;> simp [record, Entry.call?, addCall, setSource, addLiteral, addTable, addString,
    addMethod_eq, addMethods_eq]

lemma literals_record (index : ListIndex) (e : Entry) :
    (index.record e).literals = index.literals ++ e.literal?.toList := by
  cases e <;> simp [record, Entry.literal?, addCall, setSource, addLiteral, addTable, addString,
    addMethod_eq, addMethods_eq]

lemma source?_record (site : Site) (index : ListIndex) (e : Entry) :
    (index.record e).source? site = (e.textOf? site).or (index.source? site) := by
  cases e with
  | source s text =>
    simp only [record, setSource, source?, addMethod_eq, lookup_setAssoc, Entry.textOf?,
      eq_comm (a := site)]
    split <;> rfl
  | _ => simp [record, source?, Entry.textOf?, addCall, addLiteral, addTable, addString,
      addMethod_eq, addMethods_eq]

lemma table?_addString (index : ListIndex) (p l package locale : String) (id : UInt64)
    (value : String) :
    (index.addString p l id value).table? package locale =
      if (package, locale) = (p, l) then
        some (((index.table? package locale).getD SortedMap.empty).insert id value)
      else index.table? package locale := by
  simp only [addString, table?, lookup_setAssoc]
  split
  · rename_i h
    rw [← h]
  · rfl

lemma table?_addTable (index : ListIndex) (p l package locale : String) :
    (index.addTable p l).table? package locale =
      if (package, locale) = (p, l) then
        some ((index.table? package locale).getD SortedMap.empty)
      else index.table? package locale := by
  simp only [addTable, table?, lookup_setAssoc]
  split
  · rename_i h
    rw [← h]
  · rfl

lemma find?_getD_empty (table? : Option StringTable) (id : UInt64) :
    (table?.getD SortedMap.empty).find? id = table?.bind fun table => table.find? id := by
  cases table? <;> rfl

lemma string?_record (package locale : String) (id : UInt64) (index : ListIndex) (e : Entry) :
    (index.record e).string? package locale id =
      (e.stringAt? package locale id).or (index.string? package locale id) := by
  cases e with
  | table p l =>
    simp only [record, string?, table?_addTable, Entry.stringAt?, Option.none_or]
    split
    · rw [Option.bind_some, find?_getD_empty]
    · rfl
  | string p l i value =>
    simp only [record, string?, table?_addString, Entry.stringAt?, Prod.mk.injEq]
    split
    · rename_i h
      rw [Option.bind_some, SortedMap.find?_insert, find?_getD_empty]
      by_cases hid : id = i
      · simp [h, hid]
      · simp [hid, Ne.symm hid]
    · rename_i h
      rw [if_neg (by grind), Option.none_or]
  | _ => simp [record, string?, table?, Entry.stringAt?, addCall, setSource, addLiteral,
      addMethod_eq, addMethods_eq]

lemma hasTable_record (package locale : String) (index : ListIndex) (e : Entry) :
    (index.record e).hasTable package locale =
      (e.namesTable package locale || index.hasTable package locale) := by
  cases e with
  | table p l =>
    simp only [record, hasTable, table?_addTable, Entry.namesTable]
    by_cases h : (package, locale) = (p, l)
    · simp [h]
    · simp [h, Ne.symm h]
  | string p l i value =>
    simp only [record, hasTable, table?_addString, Entry.namesTable]
    by_cases h : (package, locale) = (p, l)
    · simp [h]
    · simp [h, Ne.symm h]
  | _ => simp [record, hasTable, table?, Entry.namesTable, addCall, setSource, addLiteral,
      addMethod_eq, addMethods_eq]

/-! ### The whole log -/

lemma calls_ofLog (log : List Entry) : (ofLog log).calls = log.filterMap Entry.call? :=
  recordAll_eq_append calls calls_record empty log

lemma hasTable_recordAll (package locale : String) (index : ListIndex) (log : List Entry) :
    (index.recordAll log).hasTable package locale =
      (log.any (Entry.namesTable package locale) || index.hasTable package locale) := by
  unfold recordAll
  induction log generalizing index with
  | nil => simp
  | cons e log ih =>
    rw [List.foldl_cons, ih, hasTable_record, List.any_cons]
    simp only [Bool.or_assoc, Bool.or_left_comm]

end ListIndex

namespace Index

lemma callersOf_ofLog (log : List Entry) (site : Site) :
    (ofLog log).callersOf site =
      (log.filterMap Entry.call?).filter fun call => call.callee == site := by
  rw [← ListIndex.calls_ofLog]
  rfl

/-- Whatever is called is registered. -/
lemma mem_methods_of_callersOf {log : List Entry} {site : Site} {call : Call}
    (h : call ∈ (ofLog log).callersOf site) : site ∈ (ofLog log).methods := by
  rw [callersOf_ofLog] at h
  obtain ⟨hcall, hcallee⟩ := List.mem_filter.1 h
  obtain ⟨e, he, hcall⟩ := List.mem_filterMap.1 hcall
  exact mem_methods_ofLog.2 ⟨e, he, eq_of_beq hcallee ▸ Entry.callee_mem_sites hcall⟩

lemma literals_ofLog (log : List Entry) : (ofLog log).literals = log.filterMap Entry.literal? :=
  ListIndex.recordAll_eq_append ListIndex.literals ListIndex.literals_record .empty log

lemma source?_ofLog (log : List Entry) (site : Site) :
    (ofLog log).source? site = (log.filterMap (Entry.textOf? site)).getLast? := by
  refine (ListIndex.recordAll_eq_getLast? (ListIndex.source? · site)
    (ListIndex.source?_record site) .empty log).trans ?_
  exact Option.or_none

lemma string?_ofLog (log : List Entry) (package locale : String) (id : UInt64) :
    (ofLog log).string? package locale id =
      (log.filterMap (Entry.stringAt? package locale id)).getLast? := by
  refine (ListIndex.recordAll_eq_getLast? (ListIndex.string? · package locale id)
    (ListIndex.string?_record package locale id) .empty log).trans ?_
  exact Option.or_none

lemma hasTable_ofLog (log : List Entry) (package locale : String) :
    (ofLog log).hasTable package locale = log.any (Entry.namesTable package locale) := by
  refine (ListIndex.hasTable_recordAll package locale .empty log).trans ?_
  exact Bool.or_false _

end Index

end RequestTrail
