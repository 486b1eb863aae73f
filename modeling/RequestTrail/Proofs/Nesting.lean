import RequestTrail.Proofs.Log
import RequestTrail.Proofs.WitnessPath

/-!
# How deep the search nests

The search for a witness path calls itself for the callers of a site, with the site among the
visited ones, and the graph of calls may have any loops. The calls under way at a moment form a
stack. Every call in it but the innermost has entered a site that is registered, for it has callers,
and that no call further in enters again. So the stack never holds more calls than there are
registered methods outside of the visited set, and one.

`Index.backtraceWithin` is the search with a limit to the height of its stack. It is given up
exactly when some stack of the search outgrows the limit, and finds what the search finds otherwise.
-/

namespace RequestTrail

namespace Index

variable {index : Index} {entry : String} {site : Site} {visited : VisitedSet} {limit : Nat}
  {stack : List Site}

/-! ### Stacks of calls -/

/-- The sites of the calls that are under way at a moment of the search from a site, the outermost
call first. A call at a site that is neither visited nor in the entry component makes calls for the
callers of the site in turn, until one of them leads into the entry component. -/
inductive CallStack (index : Index) (entry : String) : Site → VisitedSet → List Site → Prop where
  | outermost (site : Site) (visited : VisitedSet) : index.CallStack entry site visited [site]
  | nested {site : Site} {visited : VisitedSet} {before after : List Call} {call : Call}
      {stack : List Site} :
    site ∉ visited → site.inComponent entry = false →
      index.callersOf site = before ++ call :: after →
      (∀ c ∈ before, index.backtrace entry c.caller (visited.insert site) = []) →
      index.CallStack entry call.caller (visited.insert site) stack →
        index.CallStack entry site visited (site :: stack)

/-- No call is made from a visited site or from one in the entry component. -/
lemma CallStack.eq_singleton (h : index.CallStack entry site visited stack)
    (hclosed : site ∈ visited ∨ site.inComponent entry = true) : stack = [site] := by
  cases h with
  | outermost => rfl
  | nested hsite hc =>
    rcases hclosed with hmem | hin
    · exact absurd hmem hsite
    · exact absurd (hc.symm.trans hin) (by simp)

/-- The registered methods that are not in the set. -/
def unvisited (index : Index) (visited : VisitedSet) : List Site :=
  index.methods.filter (· ∉ visited)

lemma length_unvisited_insert_lt (hmem : site ∈ index.methods) (hsite : site ∉ visited) :
    (index.unvisited (visited.insert site)).length < (index.unvisited visited).length := by
  have hsub : index.unvisited (visited.insert site) =
      (index.unvisited visited).filter (· ≠ site) := by
    simp [unvisited, List.filter_filter]
  rw [hsub]
  exact List.length_filter_lt_length_iff_exists.2
    ⟨site, List.mem_filter.2 ⟨hmem, by simpa using hsite⟩, by simp⟩

/-- Every call but the innermost takes one method out of those that are left for the calls further
in. -/
lemma CallStack.length_le {log : List Entry}
    (h : (ofLog log).CallStack entry site visited stack) :
    stack.length ≤ 1 + ((ofLog log).unvisited visited).length := by
  induction h with
  | outermost site visited => simp
  | @nested site visited before after call stack hsite _ hcalls _ _ ih =>
    have hcall : call ∈ (ofLog log).callersOf site := by simp [hcalls]
    have hfewer := length_unvisited_insert_lt (mem_methods_of_callersOf hcall) hsite
    rw [List.length_cons]
    omega

/-! ### The search with a limit -/

/-- The search, given up where more calls than the limit would be under way at once. -/
def backtraceWithin (index : Index) (entry : String) :
    Nat → Site → VisitedSet → Option (List Site)
  | 0, _, _ => none
  | limit + 1, site, visited =>
    if site ∈ visited then some []
    else if site.inComponent entry then some [site]
    else do
      let tail? ← (index.callersOf site).findSomeM? fun call =>
        nonempty? <$> index.backtraceWithin entry limit call.caller (visited.insert site)
      return tail?.elim [] (site :: ·)

lemma backtraceWithin_of_closed (h : site ∈ visited ∨ site.inComponent entry = true) :
    index.backtraceWithin entry (limit + 1) site visited =
      some (index.backtrace entry site visited) := by
  by_cases hsite : site ∈ visited
  · rw [backtraceWithin, if_pos hsite, backtrace_of_mem hsite]
  · have hc := h.resolve_left hsite
    rw [backtraceWithin, if_neg hsite, if_pos hc, backtrace_of_inComponent hsite hc]

lemma backtraceWithin_of_callers (hsite : site ∉ visited) (hc : site.inComponent entry = false) :
    index.backtraceWithin entry (limit + 1) site visited =
      ((index.callersOf site).findSomeM? fun call => nonempty? <$>
        index.backtraceWithin entry limit call.caller (visited.insert site)).map
          (Option.elim · [] (site :: ·)) := by
  rw [backtraceWithin, if_neg hsite, if_neg (by simp [hc]), bind_pure_comp]
  rfl

/-- What the search finds within the limit is what it finds without. -/
lemma eq_backtrace_of_backtraceWithin {path : List Site}
    (h : index.backtraceWithin entry limit site visited = some path) :
    path = index.backtrace entry site visited := by
  induction limit generalizing site visited path with
  | zero => cases h
  | succ limit ih =>
    by_cases hclosed : site ∈ visited ∨ site.inComponent entry = true
    · rw [backtraceWithin_of_closed hclosed] at h
      exact (Option.some.inj h).symm
    · rw [not_or, Bool.not_eq_true] at hclosed
      obtain ⟨hsite, hc⟩ := hclosed
      rw [backtraceWithin_of_callers hsite hc, Option.map_eq_some_iff] at h
      obtain ⟨tail?, htail, rfl⟩ := h
      have hpath : tail? = index.callersPath? entry site visited := by
        refine eq_findSome?_of_findSomeM? (fun call _ r hr => ?_) htail
        obtain ⟨tail, hcaller, rfl⟩ := Option.map_eq_some_iff.1 hr
        rw [ih hcaller]
      rw [backtrace_of_callers hsite hc, ← hpath]
      cases tail? <;> rfl

/-- The search is given up if some stack outgrows the limit. -/
lemma backtraceWithin_eq_none_iff :
    index.backtraceWithin entry limit site visited = none ↔
      ∃ stack, index.CallStack entry site visited stack ∧ limit < stack.length := by
  induction limit generalizing site visited with
  | zero =>
    simp only [backtraceWithin, true_iff]
    exact ⟨[site], .outermost site visited, by simp⟩
  | succ limit ih =>
    by_cases hclosed : site ∈ visited ∨ site.inComponent entry = true
    · rw [backtraceWithin_of_closed hclosed]
      simp only [reduceCtorEq, false_iff]
      rintro ⟨stack, hstack, hlt⟩
      simp [hstack.eq_singleton hclosed] at hlt
    · rw [not_or, Bool.not_eq_true] at hclosed
      obtain ⟨hsite, hc⟩ := hclosed
      have hsteps : ∀ call ∈ index.callersOf site, ∀ r,
          nonempty? <$> index.backtraceWithin entry limit call.caller (visited.insert site) =
            some r → r = nonempty? (index.backtrace entry call.caller (visited.insert site)) := by
        intro call _ r hr
        obtain ⟨tail, hcaller, rfl⟩ := Option.map_eq_some_iff.1 hr
        rw [eq_backtrace_of_backtraceWithin hcaller]
      rw [backtraceWithin_of_callers hsite hc, Option.map_eq_none_iff,
        findSomeM?_eq_none_iff hsteps]
      simp only [Option.map_eq_map, Option.map_eq_none_iff, ih, nonempty?_eq_none_iff]
      -- a stack from the caller at which the loop is given up lies on top of the site
      constructor
      · rintro ⟨before, call, after, hcalls, hbefore, stack, hstack, hlt⟩
        exact ⟨site :: stack, .nested hsite hc hcalls hbefore hstack, by simpa using hlt⟩
      · rintro ⟨stack, hstack, hlt⟩
        cases hstack with
        | outermost => simp at hlt
        | nested _ _ hcalls hbefore hstack =>
          exact ⟨_, _, _, hcalls, hbefore, _, hstack, by simpa using hlt⟩

lemma backtraceWithin_of_bound_le {log : List Entry}
    (h : 1 + ((ofLog log).unvisited visited).length ≤ limit) :
    (ofLog log).backtraceWithin entry limit site visited =
      some ((ofLog log).backtrace entry site visited) := by
  cases hpath : (ofLog log).backtraceWithin entry limit site visited with
  | none =>
    obtain ⟨stack, hstack, hlt⟩ := backtraceWithin_eq_none_iff.1 hpath
    have hle := hstack.length_le
    omega
  | some path => rw [eq_backtrace_of_backtraceWithin hpath]

/-- The bound on the recursion of the search. Whatever the graph, the site and the visited set, no
more calls are under way at once than one and the number of registered methods that are not
visited. A search with a limit is given up exactly when a stack outgrows the limit, and otherwise
finds what the search without a limit finds. So a limit at or above the bound is never hit, and
raising it changes nothing. -/
theorem backtrace_nests_within (log : List Entry) (entry : String) (site : Site)
    (visited : VisitedSet) :
    let index := ofLog log
    let bound := 1 + (index.methods.filter (· ∉ visited)).length
    (∀ stack, index.CallStack entry site visited stack → stack.length ≤ bound) ∧
    (∀ limit, index.backtraceWithin entry limit site visited = none ↔
      ∃ stack, index.CallStack entry site visited stack ∧ limit < stack.length) ∧
    (∀ limit path, index.backtraceWithin entry limit site visited = some path →
      path = index.backtrace entry site visited) ∧
    ∀ limit, bound ≤ limit →
      index.backtraceWithin entry limit site visited =
        some (index.backtrace entry site visited) ∧
      ∀ larger, limit ≤ larger →
        index.backtraceWithin entry larger site visited =
          index.backtraceWithin entry limit site visited := by
  intro index bound
  refine ⟨fun stack hstack => hstack.length_le, fun _ => backtraceWithin_eq_none_iff,
    fun _ _ => eq_backtrace_of_backtraceWithin, fun limit hlimit => ?_⟩
  have hsearch : ∀ limit, bound ≤ limit → index.backtraceWithin entry limit site visited =
      some (index.backtrace entry site visited) := fun _ => backtraceWithin_of_bound_le
  refine ⟨hsearch limit hlimit, fun larger hlarger => ?_⟩
  rw [hsearch limit hlimit, hsearch larger (hlimit.trans hlarger)]

end Index

/-! ### A ring of calls

Three methods call each other in a ring, one of them twice at once, and one calls itself. Nothing
leads into the entry component, and the method that has been visited is not registered. -/

namespace Sample

def ring : List Index.Entry :=
  [.call { caller := left, callee := target },
    .call { caller := left, callee := target, offset := 4 },
    .call { caller := target, callee := target }, .call { caller := shared, callee := left },
    .call { caller := target, callee := shared }]

end Sample

namespace Index

/-- The bound is reached: a limit below it is hit. -/
theorem backtrace_nests_within_ring :
    let index := ofLog Sample.ring
    1 + (index.methods.filter (· ∉ Sample.detoured)).length ≤ 4 ∧
      index.backtraceWithin "Main" 4 Sample.target Sample.detoured =
        some (index.backtrace "Main" Sample.target Sample.detoured) ∧
      index.backtraceWithin "Main" 5 Sample.target Sample.detoured =
        index.backtraceWithin "Main" 4 Sample.target Sample.detoured ∧
      index.backtraceWithin "Main" 3 Sample.target Sample.detoured = none := by
  intro index
  have hbound : 1 + (index.methods.filter (· ∉ Sample.detoured)).length ≤ 4 := by decide
  obtain ⟨-, -, -, hlimit⟩ :=
    backtrace_nests_within Sample.ring "Main" Sample.target Sample.detoured
  obtain ⟨hfound, hlarger⟩ := hlimit 4 hbound
  exact ⟨hbound, hfound, hlarger 5 (by decide), by decide⟩

end Index

end RequestTrail
