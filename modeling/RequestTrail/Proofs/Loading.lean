import RequestTrail.Index.Json
import RequestTrail.Proofs.Refinement

/-!
# Loading a snapshot

What an index answers that is loaded from a snapshot, told from the lists of the snapshot. Each of
them may repeat itself: methods are listed again with another text or with none, calls and literals
mention methods that are not listed, and a package and locale has several tables. Methods are then
registered once, calls and literals are kept as they stand, and of texts and strings the last one
counts, each for itself. A table that comes later adds to the tables before it.
-/

namespace RequestTrail

namespace SortedMap

variable {κ β : Type} [LT κ] [DecidableEq κ] [LE κ] [Std.LawfulOrderLT κ]

/-- Entries in ascending order have one at most for a key. -/
lemma filterMap_eq_lookup {entries : List (κ × β)} (key : κ)
    (h : entries.Pairwise fun a b => a.1 < b.1) :
    (entries.filterMap fun e => if e.1 = key then some e.2 else none) =
      (entries.lookup key).toList := by
  induction entries with
  | nil => rfl
  | cons entry rest ih =>
    obtain ⟨head, tail⟩ := List.pairwise_cons.1 h
    by_cases hkey : entry.1 = key
    · subst hkey
      have hlookup : rest.lookup entry.1 = none := by
        rw [List.lookup_eq_none_iff]
        intro e he
        exact bne_iff_ne.2 (Std.ne_of_lt (head e he))
      rw [List.filterMap_cons, if_pos rfl, List.lookup_cons, beq_self_eq_true, ih tail, hlookup]
      rfl
    · rw [List.filterMap_cons, if_neg hkey, List.lookup_cons, beq_false_of_ne (Ne.symm hkey)]
      exact ih tail

lemma filterMap_toList (m : SortedMap κ β) (key : κ) :
    (m.toList.filterMap fun e => if e.1 = key then some e.2 else none) = (m.find? key).toList :=
  filterMap_eq_lookup key m.ascending

end SortedMap

namespace Snapshot

variable {β : Type}

/-! ### The log of a snapshot -/

lemma filterMap_entries (t : Table) (view? : Index.Entry → Option β) :
    t.entries.filterMap view? = (view? (.table t.package t.locale)).toList ++
      t.strings.toList.filterMap fun e => view? (.string t.package t.locale e.1 e.2) := by
  rw [Table.entries, List.filterMap_cons, List.filterMap_map]
  cases view? (.table t.package t.locale) <;> rfl

/-- What the entries of a log show is shown by the parts of the snapshot in turn. -/
lemma filterMap_log (s : Snapshot) (view? : Index.Entry → Option β) :
    s.log.filterMap view? = s.methods.filterMap (fun m => view? m.entry) ++
      s.calls.filterMap (fun call => view? (.call call)) ++
      s.literals.filterMap (fun literal => view? (.literal literal)) ++
      s.tables.flatMap fun t => t.entries.filterMap view? := by
  simp only [log, List.filterMap_append, List.filterMap_map, List.filterMap_flatMap]
  rfl

lemma sites_log (s : Snapshot) :
    s.log.flatMap Index.Entry.sites =
      s.methods.map MethodEntry.site ++
        s.calls.flatMap (fun call => [call.caller, call.callee]) ++
        s.literals.flatMap Literal.references := by
  have hmethod : ∀ m : MethodEntry, m.entry.sites = [m.site] := by
    rintro ⟨site, _ | text⟩ <;> rfl
  have htable : ∀ t : Table, t.entries.flatMap Index.Entry.sites = [] := by
    intro t
    simp [Table.entries, Index.Entry.sites, List.flatMap_map]
  simp only [log, List.flatMap_append, List.flatMap_map, List.flatMap_assoc, hmethod, htable]
  simp [Index.Entry.sites, ← List.map_eq_flatMap]

lemma calls_log (s : Snapshot) : s.log.filterMap Index.Entry.call? = s.calls := by
  have hmethod : ∀ m : MethodEntry, m.entry.call? = none := by
    rintro ⟨site, _ | text⟩ <;> rfl
  simp only [filterMap_log, filterMap_entries, hmethod]
  simp [Index.Entry.call?]

lemma literals_log (s : Snapshot) : s.log.filterMap Index.Entry.literal? = s.literals := by
  have hmethod : ∀ m : MethodEntry, m.entry.literal? = none := by
    rintro ⟨site, _ | text⟩ <;> rfl
  simp only [filterMap_log, filterMap_entries, hmethod]
  simp [Index.Entry.literal?]

/-- The texts that a snapshot gives to a site; an entry without a text gives none. -/
lemma texts_log (s : Snapshot) (site : Site) :
    s.log.filterMap (Index.Entry.textOf? site) =
      (s.methods.filter fun m => m.site == site).filterMap MethodEntry.source := by
  have hmethod : ∀ m : MethodEntry,
      m.entry.textOf? site = if m.site == site then m.source else none := by
    rintro ⟨other, _ | text⟩
    · simp [MethodEntry.entry, Index.Entry.textOf?]
    · simp [MethodEntry.entry, Index.Entry.textOf?]
  simp only [filterMap_log, filterMap_entries, hmethod, List.filterMap_filter]
  simp [Index.Entry.textOf?]

/-- The strings that the tables of a package and locale give to an identifier. -/
lemma strings_log (s : Snapshot) (package locale : String) (id : UInt64) :
    s.log.filterMap (Index.Entry.stringAt? package locale id) =
      (s.tables.filter fun t => t.package == package && t.locale == locale).filterMap fun t =>
        t.strings.find? id := by
  have hmethod : ∀ m : MethodEntry, m.entry.stringAt? package locale id = none := by
    rintro ⟨site, _ | text⟩ <;> rfl
  have htable : ∀ t : Table, t.entries.filterMap (Index.Entry.stringAt? package locale id) =
      (if t.package == package && t.locale == locale then t.strings.find? id else none).toList := by
    intro t
    rw [filterMap_entries]
    by_cases h : t.package = package ∧ t.locale = locale
    · simp [Index.Entry.stringAt?, h, SortedMap.filterMap_toList]
    · have hother : ∀ i, ¬ (t.package, t.locale, i) = (package, locale, id) := by grind
      simp [Index.Entry.stringAt?, hother, h]
  simp only [filterMap_log, hmethod, htable, List.filterMap_filter,
    ← List.filterMap_eq_flatMap_toList]
  simp [Index.Entry.stringAt?]

/-- A table is there as soon as it is listed, also when it is empty. -/
lemma any_namesTable_log (s : Snapshot) (package locale : String) :
    s.log.any (Index.Entry.namesTable package locale) = true ↔
      ∃ t ∈ s.tables, t.package = package ∧ t.locale = locale := by
  have hmethod : ∀ m : MethodEntry, m.entry.namesTable package locale = false := by
    rintro ⟨site, _ | text⟩ <;> rfl
  have htable : ∀ t : Table, t.entries.any (Index.Entry.namesTable package locale) = true ↔
      t.package = package ∧ t.locale = locale := by
    intro t
    simp only [Table.entries, List.any_cons, List.any_map, Bool.or_eq_true, List.any_eq_true]
    simp only [Index.Entry.namesTable, Function.comp_def, beq_iff_eq, Prod.mk.injEq]
    constructor
    · rintro (h | ⟨_, -, h⟩)
      · exact h
      · exact h
    · exact .inl
  simp only [log, List.any_append, List.any_map, List.any_flatMap, Function.comp_def, hmethod]
  simp [Index.Entry.namesTable, List.any_eq_true, htable]

end Snapshot

namespace GraphIndex

/-- The meaning of a loaded snapshot. The methods are the sites that it mentions, in the order of
first mentions: those listed as methods, then the caller and the callee of each call, then the
references of each literal. The calls at a method are those of the snapshot, in order. The text of a
site is that of the last entry which has one; an entry without a text takes nothing back. Literals
stay as they are. There is a table for a package and locale if one is listed, and the string of an
identifier is that of the last table for them which has one. So the graph gives an analysis the
answers of the snapshot's index, in whatever order it lists its edges. -/
theorem ofSnapshot_means (s : Snapshot) :
    let index := ofSnapshot s
    index.methods =
      (s.methods.map Snapshot.MethodEntry.site ++
        s.calls.flatMap (fun call => [call.caller, call.callee]) ++
        s.literals.flatMap Literal.references).eraseDups ∧
    (∀ incidence site,
      index.callersOf incidence site = s.calls.filter fun call => call.callee == site) ∧
    (∀ incidence site,
      index.calleesOf incidence site = s.calls.filter fun call => call.caller == site) ∧
    (∀ site, index.source? site =
      ((s.methods.filter fun m => m.site == site).filterMap Snapshot.MethodEntry.source).getLast?) ∧
    index.literals = s.literals ∧
    (∀ package locale, index.hasTable package locale = true ↔
      ∃ t ∈ s.tables, t.package = package ∧ t.locale = locale) ∧
    (∀ package locale id, index.string? package locale id =
      ((s.tables.filter fun t => t.package == package && t.locale == locale).filterMap fun t =>
        t.strings.find? id).getLast?) ∧
    index.Represents (.ofLog s.log) ∧
    ∀ incidence, index.toIndex incidence = .ofSnapshot s := by
  intro index
  have h : index.Represents (.ofLog s.log) := Represents.ofLog s.log
  have hcalls : (ListIndex.ofLog s.log).calls = s.calls := by
    rw [ListIndex.calls_ofLog, Snapshot.calls_log]
  refine ⟨?_, ?_, ?_, ?_, ?_, ?_, ?_, h, h.toIndex_eq⟩
  · rw [← Snapshot.sites_log]
    exact h.methods.trans (Index.methods_ofLog s.log)
  · intro incidence site
    rw [callersOf, h.callsAt_eq, hcalls]
    rfl
  · intro incidence site
    rw [calleesOf, h.callsAt_eq, hcalls]
    rfl
  · intro site
    rw [← Snapshot.texts_log, ← Index.source?_ofLog]
    exact h.sources site
  · exact h.literals.trans ((Index.literals_ofLog s.log).trans s.literals_log)
  · intro package locale
    rw [← Snapshot.any_namesTable_log, ← Index.hasTable_ofLog, hasTable, h.tables]
    rfl
  · intro package locale id
    rw [← Snapshot.strings_log, ← Index.string?_ofLog, string?, h.tables]
    rfl

/-- The second table replaces one string and keeps the other, and the second mention of a method
keeps its text. -/
example :
    let site : Site := { className := "Lcom/app/Main;", name := "ask" }
    let index := ofSnapshot
      { methods := [{ site, source := some "ask(CAMERA)" }, { site }]
        tables := [{ package := "app", locale := "fr", strings := .ofList [(1, "oui"), (2, "non")] },
          { package := "app", locale := "fr", strings := .ofList [(2, "jamais")] }] }
    index.methods = [site] ∧ index.source? site = some "ask(CAMERA)" ∧
      index.string? "app" "fr" 1 = some "oui" ∧ index.string? "app" "fr" 2 = some "jamais" := by
  decide +kernel

/-- A text is loaded as a graph or fails to load as it does as an index, and the graph gives the
answers of the index. -/
theorem map_toIndex_ofJsonText (text : String) (incidence : Graph.Incidence) :
    (ofJsonText text).map (toIndex · incidence) = Index.ofJsonText text := by
  rw [ofJsonText, Index.ofJsonText]
  cases Snapshot.ofJsonText text with
  | error e => rfl
  | ok s => exact congrArg Except.ok (toIndex_ofLog s.log incidence)

end GraphIndex

end RequestTrail
