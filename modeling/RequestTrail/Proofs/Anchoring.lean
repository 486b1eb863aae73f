import RequestTrail.Proofs.WitnessPath

/-!
# Paths anchored at a caller

A witness path is asked for from a method alone, or from a request method through one of its
callers. The first search begins with nothing visited, the second at the caller with the request
method visited. They agree: the path from a request method is the first that is found through one of
its callers, in the order of their calls. So the path of a finding, which goes through the caller of
the finding, is one that a search from the request method comes to as well, unless it has found one
through an earlier caller.

Anything may be the anchor, also the request method itself or a method that is called by it only.
There is a path through it exactly when some walk from it enters the component without a return to
the request method.
-/

namespace RequestTrail

namespace Index

variable {index : Index} {entry : String} {request caller : Site}

/-! ### The path through a caller -/

lemma traceThrough_eq_cons (hc : request.inComponent entry = false)
    (h : index.backtrace entry caller (VisitedSet.empty.insert request) ≠ []) :
    index.traceThrough entry request caller =
      request :: index.backtrace entry caller (VisitedSet.empty.insert request) := by
  rw [traceThrough, if_neg (by simp [hc]), nonempty?_eq_some_iff.2 ⟨rfl, h⟩]

lemma traceThrough_ne_nil_iff (hc : request.inComponent entry = false) :
    index.traceThrough entry request caller ≠ [] ↔
      ∃ walk, index.EntryWalk entry .empty caller walk ∧ request ∉ walk := by
  simp only [← entryWalk_insert_iff]
  rw [ne_eq, traceThrough_eq_nil_iff, not_and]
  constructor
  · intro h
    exact exists_entryWalk_of_backtrace_ne_nil (h hc)
  · rintro ⟨walk, hwalk⟩ -
    exact backtrace_ne_nil_of_entryWalk hwalk

/-- A path through a caller goes on from the request method as a path from the caller that does not
come back. -/
lemma exists_witnessPath_of_traceThrough (hc : request.inComponent entry = false)
    (h : index.traceThrough entry request caller ≠ []) :
    ∃ path, index.traceThrough entry request caller = request :: path ∧
      index.WitnessPath entry .empty caller path ∧ request ∉ path := by
  rw [ne_eq, traceThrough_eq_nil_iff, not_and] at h
  have hpath := witnessPath_backtrace (h hc)
  obtain ⟨hwalk, hnot⟩ := entryWalk_insert_iff.1 hpath.toEntryWalk
  exact ⟨_, traceThrough_eq_cons hc (h hc), ⟨hwalk, hpath.distinct, hpath.outside⟩, hnot⟩

/-! ### The first path through a caller -/

/-- The first path through one of some callers, in their order; empty if there is none. -/
def firstThrough (index : Index) (entry : String) (request : Site) (calls : List Call) :
    List Site :=
  ((calls.map fun call => index.traceThrough entry request call.caller).find?
    fun path => !path.isEmpty).getD []

lemma firstThrough_cons {call : Call} {calls : List Call} :
    index.firstThrough entry request (call :: calls) =
      if index.traceThrough entry request call.caller = [] then
        index.firstThrough entry request calls
      else index.traceThrough entry request call.caller := by
  cases h : index.traceThrough entry request call.caller <;> simp [firstThrough, h]

/-- It goes on from the request method with the first path that is found from one of the callers. -/
lemma firstThrough_eq (hc : request.inComponent entry = false) (calls : List Call) :
    index.firstThrough entry request calls =
      let tail := index.firstBacktrace entry (calls.map Call.caller)
        (VisitedSet.empty.insert request)
      if tail = [] then [] else request :: tail := by
  induction calls with
  | nil => rfl
  | cons call calls ih =>
    rw [firstThrough_cons, List.map_cons, firstBacktrace_cons, ih]
    -- a caller from which nothing is found is passed over on both sides
    by_cases h : index.backtrace entry call.caller (VisitedSet.empty.insert request) = []
    · rw [if_pos (traceThrough_eq_nil_iff.2 ⟨hc, h⟩), if_pos h]
    · rw [if_neg (by simp [traceThrough_eq_cons hc h]), traceThrough_eq_cons hc h]
      simp [h]

/-- Both searches agree. From a request method in the entry component they return it alone.
Otherwise the path from the request method is the first that there is through one of its callers, in
the order of the calls. Through any site whatever there is a path exactly when a walk from the site
enters the component without meeting the request method; the path is then the request method
followed by a witness path from the site that does not come back to it. -/
theorem trace_agrees_with_traceThrough (index : Index) (entry : String) (request : Site) :
    (request.inComponent entry = true →
      index.trace entry request = [request] ∧
      ∀ caller, index.traceThrough entry request caller = [request]) ∧
    (request.inComponent entry = false →
      index.trace entry request =
        (((index.callersOf request).map fun call =>
          index.traceThrough entry request call.caller).find? fun path => !path.isEmpty).getD [] ∧
      ∀ caller,
        (index.traceThrough entry request caller ≠ [] ↔
          ∃ walk, index.EntryWalk entry .empty caller walk ∧ request ∉ walk) ∧
        (index.traceThrough entry request caller ≠ [] →
          ∃ path, index.traceThrough entry request caller = request :: path ∧
            index.WitnessPath entry .empty caller path ∧ request ∉ path)) := by
  constructor
  · intro hc
    refine ⟨backtrace_of_inComponent VisitedSet.not_mem_empty hc, fun caller => ?_⟩
    rw [traceThrough, if_pos hc]
  · intro hc
    refine ⟨?_, fun caller => ⟨traceThrough_ne_nil_iff hc, exists_witnessPath_of_traceThrough hc⟩⟩
    rw [trace, backtrace_eq_firstBacktrace VisitedSet.not_mem_empty hc]
    exact (firstThrough_eq hc (index.callersOf request)).symm

/-- A caller that is called by the request method is walked from all the same, by another way. -/
theorem trace_agrees_with_traceThrough_loops :
    Sample.target.inComponent "Main" = false ∧
      (∃ path, Sample.loops.traceThrough "Main" Sample.target Sample.left = Sample.target :: path ∧
        Sample.loops.WitnessPath "Main" .empty Sample.left path ∧ Sample.target ∉ path) ∧
      Sample.loops.traceThrough "Main" Sample.target Sample.target = [] ∧
      Sample.start.inComponent "Main" = true ∧
      Sample.loops.trace "Main" Sample.start = [Sample.start] := by
  have hc : Sample.target.inComponent "Main" = false := by decide
  have hstart : Sample.start.inComponent "Main" = true := by decide
  have hthrough := ((trace_agrees_with_traceThrough Sample.loops "Main" Sample.target).2 hc).2
  have hwalk : Sample.loops.EntryWalk "Main" .empty Sample.left
      [Sample.left, Sample.shared, Sample.start] := by
    have hleft : Sample.loops.IsCaller Sample.left Sample.shared :=
      ⟨{ caller := Sample.shared, callee := Sample.left }, by decide, rfl⟩
    have hshared : Sample.loops.IsCaller Sample.shared Sample.start :=
      ⟨{ caller := Sample.start, callee := Sample.shared }, by decide, rfl⟩
    exact .cons (by decide) hleft (.cons (by decide) hshared (.singleton (by decide) hstart))
  refine ⟨hc, (hthrough _).2 ((hthrough _).1.2 ⟨_, hwalk, by decide⟩), ?_, hstart,
    ((trace_agrees_with_traceThrough Sample.loops "Main" Sample.start).1 hstart).1⟩
  by_contra hfound
  obtain ⟨walk, hwalk, hnot⟩ := (hthrough _).1.1 hfound
  exact hnot (List.mem_of_mem_head? hwalk.starts)

end Index

end RequestTrail
