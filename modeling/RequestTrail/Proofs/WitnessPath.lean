import RequestTrail.Proofs.Log
import RequestTrail.Proofs.SeenSet
import RequestTrail.Proofs.Traversal

/-!
# Witness paths

What the search for a witness path returns. It is a path over callers to the entry component on
which no site comes twice, and it stops at the first site inside. Of all such paths it is the first:
where another one goes a different way, it goes on with a caller whose first call was recorded
later. The calls of an index may form any finite graph, with loops, calls of a method by itself and
repeated calls.

Both statements follow the search. A path that is found goes on with the first caller from which
something is found; whatever starts with an earlier caller would have been found there, because the
search from that caller is complete.
-/

namespace RequestTrail

namespace Index

variable {index : Index} {entry : String} {site caller : Site} {visited : VisitedSet}
  {path other : List Site}

/-! ### Paths without repetition -/

/-- A walk from a site over callers into the entry component that stays clear of the visited sites,
does not come back to any site, and ends as soon as it is inside. -/
structure WitnessPath (index : Index) (entry : String) (visited : VisitedSet) (site : Site)
    (path : List Site) : Prop extends index.EntryWalk entry visited site path where
  distinct : path.Nodup
  outside : ∀ x ∈ path.dropLast, x.inComponent entry = false

namespace WitnessPath

lemma singleton (hsite : site ∉ visited) (hc : site.inComponent entry = true) :
    index.WitnessPath entry visited site [site] where
  toEntryWalk := .singleton hsite hc
  distinct := List.nodup_singleton site
  outside := by simp

/-- A path from a caller that stays clear of the site it calls is a path from that site. -/
lemma cons (hsite : site ∉ visited) (hc : site.inComponent entry = false)
    (hcaller : index.IsCaller site caller)
    (h : index.WitnessPath entry (visited.insert site) caller path) :
    index.WitnessPath entry visited site (site :: path) where
  toEntryWalk := .cons hsite hcaller h.of_insert_visited
  distinct := List.nodup_cons.2 ⟨(entryWalk_insert_iff.1 h.toEntryWalk).2, h.distinct⟩
  outside := by
    intro x hx
    have hne : path ≠ [] := by
      rintro rfl
      exact absurd h.starts (by simp)
    rw [List.dropLast_cons_of_ne_nil hne] at hx
    rcases List.mem_cons.1 hx with rfl | hx
    · exact hc
    · exact h.outside x hx

/-- A path is its first site alone, inside of the entry component, or leaves a site outside of it
for a caller and does not come back. -/
lemma cases_head (h : index.WitnessPath entry visited site path) :
    (site.inComponent entry = true ∧ path = [site]) ∨
      (site.inComponent entry = false ∧ ∃ caller rest, path = site :: rest ∧
        index.IsCaller site caller ∧
          index.WitnessPath entry (visited.insert site) caller rest) := by
  obtain ⟨rest, rfl, -, hstep⟩ := h.toEntryWalk.cases_head
  cases rest with
  | nil =>
    obtain ⟨last, hlast, hc⟩ := h.enters
    obtain rfl : site = last := by simpa using hlast
    exact .inl ⟨hc, rfl⟩
  | cons next rest =>
    have hc : site.inComponent entry = false := h.outside site (by simp)
    obtain ⟨hnot, hdistinct⟩ := List.nodup_cons.1 h.distinct
    rcases hstep with hinside | ⟨caller, hcaller, hwalk⟩
    · rw [hc] at hinside
      exact absurd hinside (by simp)
    · refine .inr ⟨hc, caller, next :: rest, rfl, hcaller, hwalk.insert_visited hnot, hdistinct, ?_⟩
      intro x hx
      exact h.outside x (List.mem_cons_of_mem site hx)

end WitnessPath

/-! ### What the search returns -/

/-- A search that finds a path has come to a site of the entry component, or goes on with the first
caller from which it finds a path. -/
lemma backtrace_cases (h : index.backtrace entry site visited ≠ []) :
    site ∉ visited ∧
      ((site.inComponent entry = true ∧ index.backtrace entry site visited = [site]) ∨
        (site.inComponent entry = false ∧ ∃ before call after,
          index.callersOf site = before ++ call :: after ∧
          (∀ c ∈ before, index.backtrace entry c.caller (visited.insert site) = []) ∧
          index.backtrace entry call.caller (visited.insert site) ≠ [] ∧
          index.backtrace entry site visited =
            site :: index.backtrace entry call.caller (visited.insert site))) := by
  have hsite : site ∉ visited := fun hmem => h (backtrace_of_mem hmem)
  refine ⟨hsite, ?_⟩
  cases hc : site.inComponent entry with
  | true => exact .inl ⟨rfl, backtrace_of_inComponent hsite hc⟩
  | false =>
    refine .inr ⟨rfl, ?_⟩
    rw [backtrace_of_callers hsite hc] at h ⊢
    cases hpath : index.callersPath? entry site visited with
    | none => simp [hpath] at h
    | some tail =>
      obtain ⟨before, call, after, hcalls, hcall, hbefore⟩ := List.findSome?_eq_some_iff.1 hpath
      obtain ⟨rfl, hne⟩ := nonempty?_eq_some_iff.1 hcall
      refine ⟨before, call, after, hcalls, ?_, hne, rfl⟩
      intro c hc
      exact nonempty?_eq_none_iff.1 (hbefore c hc)

lemma witnessPath_backtrace (h : index.backtrace entry site visited ≠ []) :
    index.WitnessPath entry visited site (index.backtrace entry site visited) := by
  induction site, visited using search_induction index with
  | step site visited ih =>
    obtain ⟨hsite, ⟨hc, hpath⟩ | ⟨hc, before, call, after, hcalls, -, hne, hpath⟩⟩ :=
      backtrace_cases h
    · rw [hpath]
      exact .singleton hsite hc
    · have hcall : call ∈ index.callersOf site := by simp [hcalls]
      rw [hpath]
      exact .cons hsite hc ⟨call, hcall, rfl⟩ (ih hsite call hcall hne)

/-- A path that the search returns is sound: it starts with the site, every site on it is followed
by the caller of one of its calls, it ends at the only one of its sites that is in the entry
component, and it neither meets a visited site nor comes back to a site of its own. -/
theorem backtrace_sound (index : Index) (entry : String) (site : Site) (visited : VisitedSet)
    (path : List Site) (hpath : index.backtrace entry site visited = path) (hne : path ≠ []) :
    path.head hne = site ∧
    (∀ i, (hi : i + 1 < path.length) →
      ∃ call ∈ index.callersOf path[i], call.caller = path[i + 1]) ∧
    (path.getLast hne).inComponent entry = true ∧
    (∀ i, (hi : i + 1 < path.length) → path[i].inComponent entry = false) ∧
    (∀ x ∈ path, x ∉ visited) ∧ path.Nodup := by
  subst hpath
  have h := witnessPath_backtrace hne
  refine ⟨?_, List.isChain_iff_getElem.1 h.steps, ?_, ?_, h.clear, h.distinct⟩
  · exact Option.some.inj ((List.head?_eq_some_head hne).symm.trans h.starts)
  · obtain ⟨last, hlast, hc⟩ := h.enters
    rw [List.getLast?_eq_some_getLast hne, Option.mem_some] at hlast
    exact hlast ▸ hc
  · intro i hi
    have hdrop : i < (index.backtrace entry site visited).dropLast.length := by
      rw [List.length_dropLast]
      omega
    exact h.outside _ (List.getElem_dropLast hdrop ▸ List.getElem_mem hdrop)

end Index

/-! ### A graph with loops

The first caller of the target has been visited. The second calls it twice and lies on two loops,
but for one way out; the third is in the entry component itself. -/

namespace Sample

def target : Site := { className := "Lcom/app/Target;", name := "run" }

def detour : Site := { className := "Lcom/app/Detour;", name := "run" }

def left : Site := { className := "Lcom/app/Left;", name := "run" }

def shared : Site := { className := "Lcom/app/Shared;", name := "run" }

def start : Site := { className := "Lcom/app/Main;", name := "onCreate" }

def loopCalls : List Call :=
  [{ caller := detour, callee := target }, { caller := start, callee := detour },
    { caller := left, callee := target }, { caller := left, callee := target, offset := 4 },
    { caller := start, callee := target }, { caller := target, callee := left },
    { caller := shared, callee := left }, { caller := left, callee := shared },
    { caller := start, callee := shared }]

def loops : Index := .ofLog (loopCalls.map .call)

def detoured : VisitedSet := VisitedSet.empty.insert detour

lemma backtrace_shared :
    loops.backtrace "Main" shared ((detoured.insert target).insert left) = [shared, start] := by
  have hcallers : loops.callerSites shared = [left, start] := by decide
  rw [Index.backtrace_eq_firstBacktrace (by decide) (by decide), hcallers,
    Index.firstBacktrace_cons, if_pos (Index.backtrace_of_mem (by decide)),
    Index.firstBacktrace_cons, Index.backtrace_of_inComponent (by decide) (by decide)]
  rfl

lemma backtrace_left :
    loops.backtrace "Main" left (detoured.insert target) = [left, shared, start] := by
  have hcallers : loops.callerSites left = [target, shared] := by decide
  rw [Index.backtrace_eq_firstBacktrace (by decide) (by decide), hcallers,
    Index.firstBacktrace_cons, if_pos (Index.backtrace_of_mem (by decide)),
    Index.firstBacktrace_cons, backtrace_shared]
  rfl

lemma backtrace_target :
    loops.backtrace "Main" target detoured = [target, left, shared, start] := by
  have hcallers : loops.callerSites target = [detour, left, left, start] := by decide
  rw [Index.backtrace_eq_firstBacktrace (by decide) (by decide), hcallers,
    Index.firstBacktrace_cons, if_pos (Index.backtrace_of_mem (by decide)),
    Index.firstBacktrace_cons, backtrace_left]
  rfl

end Sample

namespace Index

variable {index : Index} {entry : String} {site : Site} {visited : VisitedSet}
  {path other : List Site}

theorem backtrace_sound_loops :
    let path := [Sample.target, Sample.left, Sample.shared, Sample.start]
    Sample.loops.backtrace "Main" Sample.target Sample.detoured = path ∧
      path.head (by simp) = Sample.target ∧
      (∀ i, (hi : i + 1 < path.length) →
        ∃ call ∈ Sample.loops.callersOf path[i], call.caller = path[i + 1]) ∧
      (path.getLast (by simp)).inComponent "Main" = true ∧
      (∀ i, (hi : i + 1 < path.length) → path[i].inComponent "Main" = false) ∧
      (∀ x ∈ path, x ∉ Sample.detoured) ∧ path.Nodup := by
  exact ⟨Sample.backtrace_target, backtrace_sound Sample.loops "Main" Sample.target
    Sample.detoured _ Sample.backtrace_target (by simp)⟩

/-! ### The first of all paths -/

/-- The first path goes on with an earlier caller where the two part: among the callers of the last
site that they share, the caller on the first path occurs before the one on the second. -/
inductive Precedes (index : Index) : List Site → List Site → Prop where
  | fork {site next next' : Site} {rest rest' : List Site} :
    (index.callerSites site).idxOf next < (index.callerSites site).idxOf next' →
      index.Precedes (site :: next :: rest) (site :: next' :: rest')
  | shared {site next : Site} {rest rest' : List Site} :
    index.Precedes (next :: rest) (next :: rest') →
      index.Precedes (site :: next :: rest) (site :: next :: rest')

/-- Of the callers from which the search succeeds, all others come after the first. -/
lemma idxOf_caller_lt {before after : List Call} {call : Call} {next : Site}
    (hcalls : index.callersOf site = before ++ call :: after)
    (hbefore : ∀ c ∈ before, index.backtrace entry c.caller visited = [])
    (hcall : index.backtrace entry call.caller visited ≠ [])
    (hnext : index.backtrace entry next visited ≠ []) (hne : call.caller ≠ next) :
    (index.callerSites site).idxOf call.caller < (index.callerSites site).idxOf next := by
  have hnot : ∀ x, index.backtrace entry x visited ≠ [] → x ∉ before.map Call.caller := by
    intro x hx hmem
    obtain ⟨c, hc, rfl⟩ := List.mem_map.1 hmem
    exact hx (hbefore c hc)
  rw [callerSites, hcalls, List.map_append, List.map_cons,
    List.idxOf_append_of_notMem (hnot _ hcall), List.idxOf_append_of_notMem (hnot _ hnext),
    List.idxOf_cons_self, List.idxOf_cons_ne _ hne]
  omega

lemma precedes_of_witnessPath (h : index.backtrace entry site visited ≠ [])
    (hother : index.WitnessPath entry visited site other)
    (hne : other ≠ index.backtrace entry site visited) :
    index.Precedes (index.backtrace entry site visited) other := by
  induction site, visited using search_induction index generalizing other with
  | step site visited ih =>
    obtain ⟨hsite, ⟨hc, hpath⟩ | ⟨hc, before, call, after, hcalls, hbefore, hcall, hpath⟩⟩ :=
      backtrace_cases h
    · obtain ⟨-, hsame⟩ | ⟨hc', -⟩ := hother.cases_head
      · exact absurd (hsame.trans hpath.symm) hne
      · exact absurd (hc.symm.trans hc') (by simp)
    · obtain ⟨hc', -⟩ | ⟨-, next, rest, rfl, -, hrest⟩ := hother.cases_head
      · exact absurd (hc.symm.trans hc') (by simp)
      rw [hpath] at hne ⊢
      obtain ⟨tail, htail⟩ := List.head?_eq_some_iff.1 (witnessPath_backtrace hcall).starts
      obtain ⟨tail', rfl⟩ := List.head?_eq_some_iff.1 hrest.starts
      by_cases hnext : call.caller = next
      · -- both go on with the same caller, so they part later
        subst hnext
        have hmem : call ∈ index.callersOf site := by simp [hcalls]
        have hlater := ih hsite call hmem hcall hrest fun hsame => hne (hsame ▸ rfl)
        rw [htail] at hlater ⊢
        exact .shared hlater
      · -- the other caller leads to the entry component, so it cannot be one that was given up
        rw [htail]
        exact .fork <| idxOf_caller_lt hcalls hbefore hcall
          (backtrace_ne_nil_of_entryWalk hrest.toEntryWalk) hnext

/-! ### Where paths part -/

/-- There is a first position at which the paths differ, and both have a site there. -/
lemma Precedes.exists_parting (h : index.Precedes path other) :
    ∃ j, ∃ (hpath : j + 1 < path.length) (hother : j + 1 < other.length),
      path.take (j + 1) = other.take (j + 1) ∧ path[j + 1] ≠ other[j + 1] ∧
        (index.callerSites path[j]).idxOf path[j + 1] <
          (index.callerSites path[j]).idxOf other[j + 1] := by
  induction h with
  | fork hlt =>
    refine ⟨0, by simp, by simp, by simp, ?_, hlt⟩
    rintro rfl
    exact absurd hlt (lt_irrefl _)
  | shared _ ih =>
    obtain ⟨j, hpath, hother, htake, hdiffer, hlt⟩ := ih
    refine ⟨j + 1, by simpa using hpath, by simpa using hother, ?_, hdiffer, hlt⟩
    exact congrArg (List.cons _) htake

/-- The calls of every site are those in one list of calls, in its order. -/
def ListsCalls (index : Index) (calls : List Call) : Prop :=
  ∀ site, index.callersOf site = calls.filter fun call => call.callee == site

lemma listsCalls_ofLog (log : List Entry) : (ofLog log).ListsCalls (log.filterMap Entry.call?) :=
  callersOf_ofLog log

/-- Where the first call from a caller to a site stands among all calls. -/
def callPlace (calls : List Call) (site caller : Site) : Nat :=
  calls.findIdx fun call => call.callee == site && call.caller == caller

/-- The places of the first calls along a path. -/
def callPlaces (calls : List Call) : List Site → List Nat
  | site :: caller :: rest => callPlace calls site caller :: callPlaces calls (caller :: rest)
  | _ => []

lemma callPlace_lt {calls : List Call} (hcalls : index.ListsCalls calls) {next next' : Site}
    (h : (index.callerSites site).idxOf next < (index.callerSites site).idxOf next') :
    callPlace calls site next < callPlace calls site next' := by
  rw [callerSites, hcalls, ← List.filterMap_eq_map, List.filterMap_filter] at h
  have hplace : ∀ caller, callPlace calls site caller = calls.findIdx fun call =>
      (if call.callee == site then (some ∘ Call.caller) call else none) == some caller := by
    intro caller
    unfold callPlace
    congr 1
    funext call
    cases call.callee == site <;> simp
  rw [hplace, hplace]
  exact findIdx_lt_of_idxOf_filterMap_lt h

lemma Precedes.callPlaces_lt (h : index.Precedes path other) {calls : List Call}
    (hcalls : index.ListsCalls calls) : callPlaces calls path < callPlaces calls other := by
  induction h with
  | fork hlt => exact List.cons_lt_cons_iff.2 (.inl (callPlace_lt hcalls hlt))
  | shared _ ih => exact List.cons_lt_cons_iff.2 (.inr ⟨rfl, ih⟩)

/-- The path that the search returns is the first of all witness paths in the order of the calls.
Any other parts from it at some position, and there the returned path goes on with a caller that
occurs earlier among the callers of the site before. So it comes first when paths are compared
lexicographically, by the places of the first calls along them in a list of all calls. The calls of
a log are such a list for its index (`listsCalls_ofLog`). -/
theorem backtrace_first (index : Index) (entry : String) (site : Site) (visited : VisitedSet)
    (path : List Site) (hpath : index.backtrace entry site visited = path) (hne : path ≠ []) :
    index.WitnessPath entry visited site path ∧
    ∀ other, index.WitnessPath entry visited site other → other ≠ path →
      (∃ j, ∃ (hpath : j + 1 < path.length) (hother : j + 1 < other.length),
        path.take (j + 1) = other.take (j + 1) ∧ path[j + 1] ≠ other[j + 1] ∧
          (index.callerSites path[j]).idxOf path[j + 1] <
            (index.callerSites path[j]).idxOf other[j + 1]) ∧
      ∀ calls, index.ListsCalls calls → callPlaces calls path < callPlaces calls other := by
  subst hpath
  refine ⟨witnessPath_backtrace hne, fun other hother hdiffers => ?_⟩
  have hprecedes := precedes_of_witnessPath hne hother hdiffers
  exact ⟨hprecedes.exists_parting, fun _ => hprecedes.callPlaces_lt⟩

end Index

namespace Sample

/-- The way straight into the entry component is a witness path too. -/
lemma witnessPath_straight : loops.WitnessPath "Main" detoured target [target, start] := by
  refine .cons (by decide) (by decide) ?_ (.singleton (by decide) (by decide))
  exact ⟨{ caller := start, callee := target }, by decide, rfl⟩

end Sample

namespace Index

theorem backtrace_first_loops :
    let path := [Sample.target, Sample.left, Sample.shared, Sample.start]
    let other := [Sample.target, Sample.start]
    Sample.loops.backtrace "Main" Sample.target Sample.detoured = path ∧
      Sample.loops.WitnessPath "Main" Sample.detoured Sample.target other ∧
      (∃ j, ∃ (hpath : j + 1 < path.length) (hother : j + 1 < other.length),
        path.take (j + 1) = other.take (j + 1) ∧ path[j + 1] ≠ other[j + 1] ∧
          (Sample.loops.callerSites path[j]).idxOf path[j + 1] <
            (Sample.loops.callerSites path[j]).idxOf other[j + 1]) ∧
      callPlaces Sample.loopCalls path < callPlaces Sample.loopCalls other := by
  obtain ⟨-, hfirst⟩ := backtrace_first Sample.loops "Main" Sample.target Sample.detoured _
    Sample.backtrace_target (by simp)
  obtain ⟨hparting, hplaces⟩ := hfirst _ Sample.witnessPath_straight (by simp)
  exact ⟨Sample.backtrace_target, Sample.witnessPath_straight, hparting,
    hplaces Sample.loopCalls (listsCalls_ofLog _)⟩

end Index

end RequestTrail
