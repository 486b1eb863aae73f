import RequestTrail.Index.Basic

/-!
# Witness paths

A search from a site over its callers to the entry component. The callers are tried in the order of
their calls, and the first that leads to the entry component is taken. A branch is given up at a
site it has already visited; what one branch visits is not held against its siblings.
-/

namespace RequestTrail

/-- A set of sites, as a list in which each is found once. -/
structure VisitedSet where
  sites : List Site := []
deriving DecidableEq, Repr

namespace VisitedSet

/-- The set with no site. -/
def empty : VisitedSet where

/-- The set with one more site. -/
def insert (visited : VisitedSet) (site : Site) : VisitedSet where
  sites := visited.sites.insert site

instance : Membership Site VisitedSet where
  mem visited site := site ∈ visited.sites

theorem mem_iff {visited : VisitedSet} {site : Site} : site ∈ visited ↔ site ∈ visited.sites :=
  Iff.rfl

instance (site : Site) (visited : VisitedSet) : Decidable (site ∈ visited) :=
  inferInstanceAs (Decidable (site ∈ visited.sites))

@[simp]
theorem mem_insert {visited : VisitedSet} {site other : Site} :
    other ∈ visited.insert site ↔ other = site ∨ other ∈ visited := by
  simp [insert, mem_iff]

@[simp]
theorem not_mem_empty {site : Site} : site ∉ empty := by
  simp [empty, mem_iff]

/-- The number of sites. -/
def size (visited : VisitedSet) : Nat :=
  visited.sites.length

end VisitedSet

namespace Index

/-- The called methods that are not in the set. They bound how deep a search can still go. -/
noncomputable def openSites (index : Index) (visited : VisitedSet) : List Site :=
  index.finite.choose.filter (· ∉ visited)

/-- Visiting a site that is called closes it. -/
theorem length_openSites_insert_lt {index : Index} {visited : VisitedSet} {site : Site}
    {call : Call} (hcall : call ∈ index.callersOf site) (hsite : site ∉ visited) :
    (index.openSites (visited.insert site)).length < (index.openSites visited).length := by
  have hcalled : site ∈ index.finite.choose :=
    index.finite.choose_spec site (List.ne_nil_of_mem hcall)
  have hsub : index.openSites (visited.insert site) =
      (index.openSites visited).filter (· ≠ site) := by
    simp only [openSites, List.filter_filter, VisitedSet.mem_insert]
    congr 1
    funext other
    simp
  rw [hsub]
  exact List.length_filter_lt_length_iff_exists.2
    ⟨site, List.mem_filter.2 ⟨hcalled, by simpa using hsite⟩, by simp⟩

/-- A path, if it has a site. -/
def nonempty? : List Site → Option (List Site)
  | [] => none
  | site :: path => some (site :: path)

/-- The first path from a site over callers to the entry component that avoids the visited sites;
empty if there is none. -/
def backtrace (index : Index) (entry : String) (site : Site) (visited : VisitedSet) : List Site :=
  if _hsite : site ∈ visited then []
  else if site.inComponent entry then [site]
  else
    let tail? := (index.callersOf site).attach.findSome? fun ⟨call, _hcall⟩ =>
      nonempty? (index.backtrace entry call.caller (visited.insert site))
    match tail? with
    | some tail => site :: tail
    | none => []
termination_by (index.openSites visited).length
decreasing_by exact length_openSites_insert_lt _hcall _hsite

/-- The first path of the callers of a site, in the order of the calls. -/
def callersPath? (index : Index) (entry : String) (site : Site) (visited : VisitedSet) :
    Option (List Site) :=
  (index.callersOf site).findSome? fun call =>
    nonempty? (index.backtrace entry call.caller (visited.insert site))

theorem backtrace_of_mem {index : Index} {entry : String} {site : Site} {visited : VisitedSet}
    (h : site ∈ visited) : index.backtrace entry site visited = [] := by
  rw [backtrace, dif_pos h]

theorem backtrace_of_inComponent {index : Index} {entry : String} {site : Site}
    {visited : VisitedSet} (h : site ∉ visited) (hc : site.inComponent entry = true) :
    index.backtrace entry site visited = [site] := by
  rw [backtrace, dif_neg h, if_pos hc]

theorem backtrace_of_callers {index : Index} {entry : String} {site : Site}
    {visited : VisitedSet} (h : site ∉ visited) (hc : site.inComponent entry = false) :
    index.backtrace entry site visited =
      match index.callersPath? entry site visited with
      | some tail => site :: tail
      | none => [] := by
  rw [backtrace, dif_neg h, if_neg (by simp [hc]), callersPath?]
  simp only [List.findSome?_subtype, List.unattach_attach]

/-- The first path from a site to the entry component. -/
def trace (index : Index) (entry : String) (site : Site) : List Site :=
  index.backtrace entry site .empty

/-- The first path from a request method that goes on with the given caller and does not come back
to the request method; empty if there is none. -/
def traceThrough (index : Index) (entry : String) (request caller : Site) : List Site :=
  if request.inComponent entry then [request]
  else
    match nonempty? (index.backtrace entry caller (VisitedSet.empty.insert request)) with
    | some tail => request :: tail
    | none => []

end Index

end RequestTrail
