import Mathlib.Data.Set.Function
import RequestTrail.Proofs.Log
import RequestTrail.Proofs.Walk

/-!
# Renaming the sites of an index

A function on sites renames the sites of a log and of a visited set. If it does not join two sites
of the log, then the index of the renamed log gives the renamed answers on renamed sites. A search
finds the renamed path in it, provided that the entry component has the same sites.
-/

namespace RequestTrail

/-! ### Lists under a function that is injective on their members -/

section InjOn

variable {α β : Type} {f : α → β} {s : Set α}

lemma mem_map_iff_of_injOn (hf : s.InjOn f) {xs : List α} (hxs : ∀ x ∈ xs, x ∈ s) {a : α}
    (ha : a ∈ s) : f a ∈ xs.map f ↔ a ∈ xs := by
  constructor
  · intro h
    obtain ⟨x, hx, heq⟩ := List.mem_map.1 h
    rwa [← hf (hxs x hx) ha heq]
  · exact List.mem_map_of_mem

variable [DecidableEq α] [DecidableEq β]

lemma eraseDups_map_of_injOn (hf : s.InjOn f) {xs : List α} (hxs : ∀ x ∈ xs, x ∈ s) :
    (xs.map f).eraseDups = xs.eraseDups.map f := by
  induction xs using List.reverseRecOn with
  | nil => rfl
  | append_singleton xs x ih =>
    rw [List.forall_mem_append, List.forall_mem_singleton] at hxs
    have hmem := mem_map_iff_of_injOn hf hxs.1 hxs.2
    rw [List.map_append, List.map_singleton, eraseDups_concat, eraseDups_concat, ih hxs.1]
    by_cases hx : x ∈ xs
    · rw [if_pos (hmem.2 hx), if_pos hx]
    · rw [if_neg (mt hmem.1 hx), if_neg hx, List.map_append, List.map_singleton]

lemma insert_map_of_injOn (hf : s.InjOn f) {xs : List α} (hxs : ∀ x ∈ xs, x ∈ s) {a : α}
    (ha : a ∈ s) : (xs.map f).insert (f a) = (xs.insert a).map f := by
  by_cases h : a ∈ xs
  · rw [List.insert_of_mem h, List.insert_of_mem (List.mem_map_of_mem h)]
  · rw [List.insert_of_not_mem h,
      List.insert_of_not_mem (mt (mem_map_iff_of_injOn hf hxs ha).1 h), List.map_cons]

end InjOn

/-! ### Renaming -/

def Call.rename (ρ : Site → Site) (call : Call) : Call :=
  { call with caller := ρ call.caller, callee := ρ call.callee }

def Literal.rename (ρ : Site → Site) (literal : Literal) : Literal :=
  { literal with references := literal.references.map ρ }

namespace Index

def Entry.rename (ρ : Site → Site) : Entry → Entry
  | .method site => .method (ρ site)
  | .call c => .call (c.rename ρ)
  | .source site text => .source (ρ site) text
  | .literal l => .literal (l.rename ρ)
  | .table package locale => .table package locale
  | .string package locale id value => .string package locale id value

namespace Entry

variable (ρ : Site → Site) (e : Entry)

@[simp]
lemma sites_rename : (e.rename ρ).sites = e.sites.map ρ := by
  cases e <;> rfl

@[simp]
lemma call?_rename : (e.rename ρ).call? = e.call?.map (Call.rename ρ) := by
  cases e <;> rfl

@[simp]
lemma literal?_rename : (e.rename ρ).literal? = e.literal?.map (Literal.rename ρ) := by
  cases e <;> rfl

@[simp]
lemma namesTable_rename (package locale : String) :
    (e.rename ρ).namesTable package locale = e.namesTable package locale := by
  cases e <;> rfl

@[simp]
lemma stringAt?_rename (package locale : String) (id : UInt64) :
    (e.rename ρ).stringAt? package locale id = e.stringAt? package locale id := by
  cases e <;> rfl

end Entry

/-- All sites in the answers of the index are in the set. -/
structure Within (scope : Set Site) (index : Index) : Prop where
  methods : ∀ site ∈ index.methods, site ∈ scope
  callers : ∀ site, ∀ call ∈ index.callersOf site, call.caller ∈ scope
  literals : ∀ literal ∈ index.literals, ∀ site ∈ literal.references, site ∈ scope

/-- Asked about renamed sites of the set, the second index gives the renamed answers of the first,
which do not lead out of the set. -/
structure RenamesTo (scope : Set Site) (ρ : Site → Site) (index other : Index) : Prop where
  within : index.Within scope
  methods : other.methods = index.methods.map ρ
  callers : ∀ site ∈ scope, other.callersOf (ρ site) = (index.callersOf site).map (Call.rename ρ)
  sources : ∀ site ∈ scope, other.source? (ρ site) = index.source? site
  literals : other.literals = index.literals.map (Literal.rename ρ)
  tables : ∀ package locale, other.hasTable package locale = index.hasTable package locale
  strings : ∀ package locale id,
    other.string? package locale id = index.string? package locale id

variable {scope : Set Site} {ρ : Site → Site} {index other : Index} {site : Site}

/-! ### Logs -/

section Log

variable {log : List Entry}

lemma within_ofLog (hlog : ∀ e ∈ log, ∀ s ∈ e.sites, s ∈ scope) : (ofLog log).Within scope where
  methods := by
    intro s hs
    obtain ⟨e, he, hs⟩ := mem_methods_ofLog.1 hs
    exact hlog e he s hs
  callers := by
    intro site call hcall
    rw [callersOf_ofLog] at hcall
    obtain ⟨e, he, hcall⟩ := List.mem_filterMap.1 (List.mem_filter.1 hcall).1
    exact hlog e he _ (Entry.caller_mem_sites hcall)
  literals := by
    intro literal hliteral s hs
    rw [literals_ofLog] at hliteral
    obtain ⟨e, he, hliteral⟩ := List.mem_filterMap.1 hliteral
    exact hlog e he s (Entry.reference_mem_sites hliteral hs)

lemma mentioned_rename (hρ : scope.InjOn ρ) (hlog : ∀ e ∈ log, ∀ s ∈ e.sites, s ∈ scope) :
    mentioned (log.map (Entry.rename ρ)) = (mentioned log).map ρ := by
  rw [mentioned, mentioned, ← eraseDups_map_of_injOn hρ, List.flatMap_map, List.map_flatMap]
  · simp only [Entry.sites_rename]
  · intro s hs
    obtain ⟨e, he, hs⟩ := List.mem_flatMap.1 hs
    exact hlog e he s hs

lemma callersOf_rename (hρ : scope.InjOn ρ) (hlog : ∀ e ∈ log, ∀ s ∈ e.sites, s ∈ scope)
    (hsite : site ∈ scope) :
    (ofLog (log.map (Entry.rename ρ))).callersOf (ρ site) =
      ((ofLog log).callersOf site).map (Call.rename ρ) := by
  have hcalls : (log.map (Entry.rename ρ)).filterMap Entry.call? =
      (log.filterMap Entry.call?).map (Call.rename ρ) := by
    rw [List.filterMap_map, List.map_filterMap]
    simp only [Function.comp_def, Entry.call?_rename]
  rw [callersOf_ofLog, callersOf_ofLog, hcalls, List.filter_map]
  congr 1
  apply List.filter_congr
  intro call hcall
  obtain ⟨e, he, hcall⟩ := List.mem_filterMap.1 hcall
  have hcallee : call.callee ∈ scope := hlog e he _ (Entry.callee_mem_sites hcall)
  simp [Call.rename, hρ.eq_iff hcallee hsite]

lemma source?_rename (hρ : scope.InjOn ρ) (hlog : ∀ e ∈ log, ∀ s ∈ e.sites, s ∈ scope)
    (hsite : site ∈ scope) :
    (ofLog (log.map (Entry.rename ρ))).source? (ρ site) = (ofLog log).source? site := by
  rw [source?_ofLog, source?_ofLog, List.filterMap_map]
  congr 1
  apply List.filterMap_congr
  intro e he
  cases e with
  | source s text =>
    have hs : s ∈ scope := hlog _ he s (by simp [Entry.sites])
    simp [Entry.rename, Entry.textOf?, hρ.eq_iff hs hsite]
  | _ => rfl

/-- The index of a renamed log gives the renamed answers. -/
lemma renamesTo_ofLog (hρ : scope.InjOn ρ) (hlog : ∀ e ∈ log, ∀ s ∈ e.sites, s ∈ scope) :
    (ofLog log).RenamesTo scope ρ (ofLog (log.map (Entry.rename ρ))) where
  within := within_ofLog hlog
  methods := by rw [methods_ofLog, methods_ofLog, mentioned_rename hρ hlog]
  callers _ := callersOf_rename hρ hlog
  sources _ := source?_rename hρ hlog
  literals := by
    rw [literals_ofLog, literals_ofLog, List.filterMap_map, List.map_filterMap]
    simp only [Function.comp_def, Entry.literal?_rename]
  tables package locale := by
    rw [hasTable_ofLog, hasTable_ofLog, List.any_map]
    simp only [Function.comp_def, Entry.namesTable_rename]
  strings package locale id := by
    rw [string?_ofLog, string?_ofLog, List.filterMap_map]
    simp only [Function.comp_def, Entry.stringAt?_rename]

end Log

end Index

/-! ### Paths -/

namespace VisitedSet

def rename (ρ : Site → Site) (visited : VisitedSet) : VisitedSet where
  sites := visited.sites.map ρ

variable {scope : Set Site} {ρ : Site → Site} {visited : VisitedSet} {site : Site}

lemma mem_rename (hρ : scope.InjOn ρ) (h : ∀ s ∈ visited, s ∈ scope) (hsite : site ∈ scope) :
    ρ site ∈ visited.rename ρ ↔ site ∈ visited :=
  mem_map_iff_of_injOn hρ h hsite

lemma insert_rename (hρ : scope.InjOn ρ) (h : ∀ s ∈ visited, s ∈ scope) (hsite : site ∈ scope) :
    (visited.rename ρ).insert (ρ site) = (visited.insert site).rename ρ :=
  congrArg VisitedSet.mk (insert_map_of_injOn hρ h hsite)

lemma forall_mem_insert (h : ∀ s ∈ visited, s ∈ scope) (hsite : site ∈ scope) :
    ∀ s ∈ visited.insert site, s ∈ scope := by
  intro s hs
  rcases mem_insert.1 hs with rfl | hs
  · exact hsite
  · exact h s hs

end VisitedSet

namespace Index

lemma nonempty?_map (ρ : Site → Site) (path : List Site) :
    nonempty? (path.map ρ) = (nonempty? path).map (List.map ρ) := by
  cases path <;> rfl

namespace RenamesTo

variable {scope : Set Site} {ρ : Site → Site} {index other : Index} {entry : String} {site : Site}

lemma sourceOf_eq (h : index.RenamesTo scope ρ other) (hsite : site ∈ scope) :
    other.sourceOf (ρ site) = index.sourceOf site := by
  rw [sourceOf, sourceOf, h.sources site hsite]

/-- The first path over the callers of a renamed site is the renamed path, if that is so for the
path from each caller. -/
lemma callersPath?_eq (h : index.RenamesTo scope ρ other) (hρ : scope.InjOn ρ)
    {visited : VisitedSet} (hsite : site ∈ scope) (hvisited : ∀ s ∈ visited, s ∈ scope)
    (hcallers : ∀ call ∈ index.callersOf site,
      other.backtrace entry (ρ call.caller) ((visited.insert site).rename ρ) =
        (index.backtrace entry call.caller (visited.insert site)).map ρ) :
    other.callersPath? entry (ρ site) (visited.rename ρ) =
      (index.callersPath? entry site visited).map (List.map ρ) := by
  rw [callersPath?, callersPath?, h.callers site hsite, List.findSome?_map, List.map_findSome?]
  apply findSome?_congr_of_mem
  intro call hcall
  simp only [Function.comp_apply, VisitedSet.insert_rename hρ hvisited hsite]
  rw [Call.rename, hcallers call hcall, nonempty?_map]

/-- A search from a renamed site finds the renamed path. -/
lemma backtrace_eq (h : index.RenamesTo scope ρ other) (hρ : scope.InjOn ρ)
    (hcomponent : ∀ s ∈ scope, (ρ s).inComponent entry = s.inComponent entry) (site : Site)
    (visited : VisitedSet) (hsite : site ∈ scope) (hvisited : ∀ s ∈ visited, s ∈ scope) :
    other.backtrace entry (ρ site) (visited.rename ρ) =
      (index.backtrace entry site visited).map ρ := by
  induction site, visited using search_induction index with
  | step site visited ih =>
    have hmem := VisitedSet.mem_rename hρ hvisited hsite
    by_cases hseen : site ∈ visited
    · rw [backtrace_of_mem hseen, backtrace_of_mem (hmem.2 hseen), List.map_nil]
    · have hunseen := mt hmem.1 hseen
      cases hc : site.inComponent entry with
      | true =>
        rw [backtrace_of_inComponent hseen hc,
          backtrace_of_inComponent hunseen ((hcomponent site hsite).trans hc), List.map_singleton]
      | false =>
        have hpath := h.callersPath?_eq hρ hsite hvisited fun call hcall =>
          ih hseen call hcall (h.within.callers site call hcall)
            (VisitedSet.forall_mem_insert hvisited hsite)
        rw [backtrace_of_callers hseen hc,
          backtrace_of_callers hunseen ((hcomponent site hsite).trans hc), hpath]
        cases index.callersPath? entry site visited <;> rfl

lemma traceThrough_eq (h : index.RenamesTo scope ρ other) (hρ : scope.InjOn ρ)
    (hcomponent : ∀ s ∈ scope, (ρ s).inComponent entry = s.inComponent entry)
    {request caller : Site} (hrequest : request ∈ scope) (hcaller : caller ∈ scope) :
    other.traceThrough entry (ρ request) (ρ caller) =
      (index.traceThrough entry request caller).map ρ := by
  have hvisited : ∀ s ∈ VisitedSet.empty.insert request, s ∈ scope :=
    VisitedSet.forall_mem_insert (fun _ hs => absurd hs VisitedSet.not_mem_empty) hrequest
  have hpath := h.backtrace_eq hρ hcomponent caller _ hcaller hvisited
  rw [traceThrough, traceThrough, hcomponent request hrequest]
  split
  · rfl
  · have hinsert : VisitedSet.empty.insert (ρ request) =
        (VisitedSet.empty.insert request).rename ρ := rfl
    rw [hinsert, hpath, nonempty?_map]
    cases nonempty? (index.backtrace entry caller (VisitedSet.empty.insert request)) <;> rfl

end RenamesTo

end Index

end RequestTrail
