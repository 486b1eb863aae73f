import Mathlib.Data.List.Chain
import RequestTrail.Path

/-!
# Caller walks

The search for a witness path gives up a branch as soon as it meets one of the branch's own sites.
Nothing is lost by that. The search finds a path exactly when some walk over callers leads from
the site into the entry component and stays clear of the visited sites, however often the walk
comes back to sites of its own.

The argument for completeness goes by the length of the walk. A walk that comes back to its first
site is cut at the return, and a walk that does not is followed for one step, with its first site
among the visited ones.
-/

namespace RequestTrail

namespace Index

/-! ### One step of the search -/

/-- The second site calls the first. -/
def IsCaller (index : Index) (site caller : Site) : Prop :=
  ∃ call ∈ index.callersOf site, call.caller = caller

variable {index : Index} {entry : String} {site : Site} {visited : VisitedSet}

/-- Induction along the search: at a site that is entered, the claim may be used for its callers
with the site among the visited ones. -/
lemma search_induction (index : Index) {motive : Site → VisitedSet → Prop}
    (step : ∀ site visited,
      (site ∉ visited → ∀ call ∈ index.callersOf site, motive call.caller (visited.insert site)) →
        motive site visited)
    (site : Site) (visited : VisitedSet) : motive site visited := by
  induction h : (index.openSites visited).length using Nat.strongRecOn
    generalizing site visited with
  | _ n ih =>
    apply step
    intro hsite call hcall
    exact ih _ (h ▸ length_openSites_insert_lt hcall hsite) _ _ rfl

@[simp]
lemma nonempty?_eq_none_iff {path : List Site} : nonempty? path = none ↔ path = [] := by
  cases path <;> simp [nonempty?]

@[simp]
lemma nonempty?_eq_some_iff {path tail : List Site} :
    nonempty? path = some tail ↔ path = tail ∧ tail ≠ [] := by
  cases path with
  | nil =>
    simp only [nonempty?, reduceCtorEq, false_iff, not_and, not_not]
    exact Eq.symm
  | cons x path =>
    simp only [nonempty?, Option.some.injEq, iff_self_and]
    rintro rfl
    simp

/-- A search fails at a visited site, and at a site outside of the entry component all of whose
callers fail with the site among the visited ones. -/
lemma backtrace_eq_nil_iff :
    index.backtrace entry site visited = [] ↔
      site ∈ visited ∨ (site.inComponent entry = false ∧
        ∀ call ∈ index.callersOf site,
          index.backtrace entry call.caller (visited.insert site) = []) := by
  by_cases hsite : site ∈ visited
  · simp [backtrace_of_mem hsite, hsite]
  · cases hc : site.inComponent entry with
    | true => simp [backtrace_of_inComponent hsite hc, hsite]
    | false =>
      rw [backtrace_of_callers hsite hc, callersPath?]
      split
      · rename_i tail htail
        obtain ⟨call, hcall, hpath⟩ := List.exists_of_findSome?_eq_some htail
        simp only [reduceCtorEq, hsite, true_and, false_or, false_iff, not_forall]
        exact ⟨call, hcall, by simp_all⟩
      · rename_i hnone
        simpa [hsite] using hnone

/-- There is no path through a caller from a request method outside of the entry component if the
search from the caller fails with the request method visited. -/
lemma traceThrough_eq_nil_iff {request caller : Site} :
    index.traceThrough entry request caller = [] ↔
      request.inComponent entry = false ∧
        index.backtrace entry caller (VisitedSet.empty.insert request) = [] := by
  unfold traceThrough
  split
  · rename_i hc
    simp [hc]
  · rename_i hc
    split
    · rename_i tail htail
      have hpath := (nonempty?_eq_some_iff.1 htail)
      simp [hpath.1, hpath.2]
    · rename_i hnone
      simpa [hc] using nonempty?_eq_none_iff.1 hnone

/-! ### Walks into the entry component -/

/-- A walk from a site over callers into the entry component that stays clear of the visited
sites. Its sites may repeat. -/
structure EntryWalk (index : Index) (entry : String) (visited : VisitedSet) (site : Site)
    (walk : List Site) : Prop where
  starts : walk.head? = some site
  steps : walk.IsChain index.IsCaller
  clear : ∀ x ∈ walk, x ∉ visited
  enters : ∃ last ∈ walk.getLast?, last.inComponent entry = true

namespace EntryWalk

lemma singleton (hsite : site ∉ visited) (hc : site.inComponent entry = true) :
    index.EntryWalk entry visited site [site] where
  starts := rfl
  steps := .singleton site
  clear := by simpa using hsite
  enters := ⟨site, rfl, hc⟩

/-- A walk from a caller is a walk from the site it calls. -/
lemma cons {caller : Site} {walk : List Site} (hsite : site ∉ visited)
    (hcaller : index.IsCaller site caller) (h : index.EntryWalk entry visited caller walk) :
    index.EntryWalk entry visited site (site :: walk) where
  starts := rfl
  steps := by
    refine h.steps.cons fun next hnext => ?_
    rw [h.starts] at hnext
    exact Option.mem_some.1 hnext ▸ hcaller
  clear := by
    intro x hx
    rcases List.mem_cons.1 hx with rfl | hx
    · exact hsite
    · exact h.clear x hx
  enters := by
    obtain ⟨last, hlast, hc⟩ := h.enters
    exact ⟨last, by simp [List.getLast?_cons, Option.mem_def.1 hlast], hc⟩

/-- A walk is its first site alone, inside of the entry component, or goes on from a caller. -/
lemma cases_head {walk : List Site} (h : index.EntryWalk entry visited site walk) :
    ∃ rest, walk = site :: rest ∧ site ∉ visited ∧
      (site.inComponent entry = true ∨
        ∃ caller, index.IsCaller site caller ∧ index.EntryWalk entry visited caller rest) := by
  obtain ⟨rest, rfl⟩ := List.head?_eq_some_iff.1 h.starts
  refine ⟨rest, rfl, h.clear site List.mem_cons_self, ?_⟩
  cases rest with
  | nil =>
    obtain ⟨last, hlast, hc⟩ := h.enters
    simp only [List.getLast?_singleton, Option.mem_some] at hlast
    exact .inl (hlast ▸ hc)
  | cons caller rest =>
    obtain ⟨hcaller, hsteps⟩ := List.isChain_cons_cons.1 h.steps
    refine .inr ⟨caller, hcaller, rfl, hsteps, ?_, ?_⟩
    · intro x hx
      exact h.clear x (List.mem_cons_of_mem _ hx)
    · simpa only [List.getLast?_cons_cons] using h.enters

/-- A walk may be cut at any site on it. -/
lemma of_append {before after : List Site} {next : Site}
    (h : index.EntryWalk entry visited site (before ++ next :: after)) :
    index.EntryWalk entry visited next (next :: after) where
  starts := rfl
  steps := h.steps.right_of_append
  clear := by
    intro x hx
    exact h.clear x (List.mem_append_right before hx)
  enters := by
    have hlast := h.enters
    rwa [List.getLast?_append_of_ne_nil _ (List.cons_ne_nil next after)] at hlast

/-- A walk that does not meet a site stays clear of it. -/
lemma insert_visited {walk : List Site} {other : Site}
    (h : index.EntryWalk entry visited site walk) (hother : other ∉ walk) :
    index.EntryWalk entry (visited.insert other) site walk where
  starts := h.starts
  steps := h.steps
  clear := by
    intro x hx hmem
    rcases VisitedSet.mem_insert.1 hmem with rfl | hmem
    · exact hother hx
    · exact h.clear x hx hmem
  enters := h.enters

lemma of_insert_visited {walk : List Site} {other : Site}
    (h : index.EntryWalk entry (visited.insert other) site walk) :
    index.EntryWalk entry visited site walk where
  starts := h.starts
  steps := h.steps
  clear := by
    intro x hx hmem
    exact h.clear x hx (VisitedSet.mem_insert.2 (.inr hmem))
  enters := h.enters

/-- A walk goes through where there are more callers. -/
lemma mono {other : Index} {walk : List Site}
    (hcallers : ∀ site caller, index.IsCaller site caller → other.IsCaller site caller)
    (h : index.EntryWalk entry visited site walk) : other.EntryWalk entry visited site walk where
  starts := h.starts
  steps := h.steps.imp hcallers
  clear := h.clear
  enters := h.enters

end EntryWalk

/-- One more visited site is one more site to stay clear of. -/
lemma entryWalk_insert_iff {walk : List Site} {other : Site} :
    index.EntryWalk entry (visited.insert other) site walk ↔
      index.EntryWalk entry visited site walk ∧ other ∉ walk := by
  constructor
  · intro h
    refine ⟨h.of_insert_visited, ?_⟩
    intro hmem
    exact h.clear other hmem (VisitedSet.mem_insert.2 (.inl rfl))
  · rintro ⟨h, hother⟩
    exact h.insert_visited hother

/-! ### Soundness and completeness -/

/-- A search that finds a path has a walk to follow. -/
lemma exists_entryWalk_of_backtrace_ne_nil (h : index.backtrace entry site visited ≠ []) :
    ∃ walk, index.EntryWalk entry visited site walk := by
  induction site, visited using search_induction index with
  | step site visited ih =>
    rw [ne_eq, backtrace_eq_nil_iff, not_or, not_and] at h
    obtain ⟨hsite, hcallers⟩ := h
    cases hc : site.inComponent entry with
    | true => exact ⟨[site], .singleton hsite hc⟩
    | false =>
      obtain ⟨call, hcall, hpath⟩ : ∃ call ∈ index.callersOf site,
          index.backtrace entry call.caller (visited.insert site) ≠ [] := by
        simpa using hcallers hc
      obtain ⟨walk, hwalk⟩ := ih hsite call hcall hpath
      exact ⟨site :: walk, hwalk.of_insert_visited.cons hsite ⟨call, hcall, rfl⟩⟩

/-- A search that has a walk to follow finds a path. -/
lemma backtrace_ne_nil_of_entryWalk {walk : List Site}
    (h : index.EntryWalk entry visited site walk) : index.backtrace entry site visited ≠ [] := by
  induction hn : walk.length using Nat.strongRecOn generalizing site visited walk with
  | _ n ih =>
    obtain ⟨rest, rfl, hsite, hc | ⟨caller, ⟨call, hcall, rfl⟩, hrest⟩⟩ := h.cases_head
    · simp [backtrace_of_inComponent hsite hc]
    · by_cases hback : site ∈ rest
      · -- the walk comes back to its first site: go on from the return
        obtain ⟨before, after, rfl⟩ := List.append_of_mem hback
        rw [← List.cons_append] at h
        exact ih _ (by simp at hn ⊢; omega) h.of_append rfl
      · -- the rest of the walk stays clear of the first site, as the search from the caller has to
        have hfound := ih _ (by simp at hn; omega) (hrest.insert_visited hback) rfl
        intro hnil
        rcases backtrace_eq_nil_iff.1 hnil with hmem | ⟨_, hcallers⟩
        · exact hsite hmem
        · exact hfound (hcallers call hcall)

/-- A search that finds a path finds one where there are more callers, though it may be another. -/
lemma backtrace_ne_nil_mono {other : Index}
    (hcallers : ∀ site caller, index.IsCaller site caller → other.IsCaller site caller)
    (h : index.backtrace entry site visited ≠ []) : other.backtrace entry site visited ≠ [] := by
  obtain ⟨walk, hwalk⟩ := exists_entryWalk_of_backtrace_ne_nil h
  exact backtrace_ne_nil_of_entryWalk (hwalk.mono hcallers)

lemma traceThrough_ne_nil_mono {other : Index} {request caller : Site}
    (hcallers : ∀ site caller, index.IsCaller site caller → other.IsCaller site caller)
    (h : index.traceThrough entry request caller ≠ []) :
    other.traceThrough entry request caller ≠ [] := by
  rw [ne_eq, traceThrough_eq_nil_iff, not_and] at h ⊢
  intro hc
  exact backtrace_ne_nil_mono hcallers (h hc)

/-- Without visited sites, the sites on walks are those reachable over callers. -/
lemma exists_entryWalk_empty_iff :
    (∃ walk, index.EntryWalk entry .empty site walk) ↔
      ∃ x, Relation.ReflTransGen index.IsCaller site x ∧ x.inComponent entry = true := by
  constructor
  · rintro ⟨walk, h⟩
    obtain ⟨last, hlast, hc⟩ := h.enters
    obtain ⟨rest, rfl⟩ := List.head?_eq_some_iff.1 h.starts
    refine ⟨last, List.relationReflTransGen_of_exists_isChain_cons rest h.steps ?_, hc⟩
    rw [List.getLast?_eq_some_getLast (List.cons_ne_nil site rest)] at hlast
    exact Option.mem_some.1 hlast
  · rintro ⟨x, hreach, hc⟩
    induction hreach using Relation.ReflTransGen.head_induction_on with
    | refl => exact ⟨[x], .singleton VisitedSet.not_mem_empty hc⟩
    | head hcaller _ ih =>
      obtain ⟨walk, hwalk⟩ := ih
      exact ⟨_, .cons VisitedSet.not_mem_empty hcaller hwalk⟩

/-- The search is complete: it finds a path from a site exactly when some walk over callers leads
from it into the entry component and meets no visited site. With nothing visited, it fails exactly
when no site of the entry component is reachable over callers. -/
theorem backtrace_finds_iff_walk (index : Index) (entry : String) (site : Site)
    (visited : VisitedSet) :
    (index.backtrace entry site visited ≠ [] ↔
      ∃ walk, index.EntryWalk entry visited site walk) ∧
    (index.trace entry site = [] ↔
      ¬ ∃ x, Relation.ReflTransGen index.IsCaller site x ∧ x.inComponent entry = true) := by
  have hfinds : ∀ visited, index.backtrace entry site visited ≠ [] ↔
      ∃ walk, index.EntryWalk entry visited site walk := by
    intro visited
    constructor
    · exact exists_entryWalk_of_backtrace_ne_nil
    · rintro ⟨walk, hwalk⟩
      exact backtrace_ne_nil_of_entryWalk hwalk
  refine ⟨hfinds visited, ?_⟩
  rw [← exists_entryWalk_empty_iff, ← hfinds .empty, not_not, trace]

end Index

end RequestTrail
