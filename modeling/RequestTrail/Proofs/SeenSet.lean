import Mathlib.Data.Set.Insert
import RequestTrail.Proofs.Walk

/-!
# One seen-set for all branches

The search for a witness path keeps what a branch has visited from its siblings, so a site that was
given up under one caller is tried again under the next. `Index.sweep` is the search that never
tries a site again: one set of seen sites is handed from sibling to sibling and only grows.

Both find the same path. At every moment of the sweep, a site that has been seen and is not on the
current branch is *settled*: it lies outside of the entry component, and all its callers have been
seen. No walk leads from such a site into the entry component without meeting the branch, so the
search that tries it again comes back with nothing.
-/

namespace RequestTrail

namespace Index

variable {index : Index} {entry : String} {site : Site} {visited : VisitedSet}

/-! ### The sweep -/

/-- The outcome of a sweep: a path, empty if there is none, and the sites seen by the end, among
them those seen at the start. -/
structure SweepResult (start : VisitedSet) where
  path : List Site
  seen : VisitedSet
  grows : ∀ x, x ∈ start → x ∈ seen

/-- The callers of a site, in the order of the calls. -/
def callerSites (index : Index) (site : Site) : List Site :=
  (index.callersOf site).map Call.caller

lemma length_openSites_anti {seen seen' : VisitedSet} (h : ∀ x, x ∈ seen → x ∈ seen') :
    (index.openSites seen').length ≤ (index.openSites seen).length := by
  apply List.Sublist.length_le
  apply List.monotone_filter_right
  intro site hsite
  simp only [decide_eq_true_eq] at hsite ⊢
  exact fun hmem => hsite (h site hmem)

/-- Entering a called site closes it; a site without callers leaves nothing to try. -/
lemma sweep_callers_decreasing {seen : VisitedSet} (hsite : site ∉ seen) (rest : List Site) :
    Prod.Lex (· < ·) (· < ·)
      ((index.openSites (seen.insert site)).length, (index.callerSites site).length)
      ((index.openSites seen).length, (site :: rest).length) := by
  cases hcalls : index.callersOf site with
  | nil =>
    apply Prod.Lex.right'
    · apply length_openSites_anti
      intro x hx
      exact VisitedSet.mem_insert.2 (.inr hx)
    · simp [callerSites, hcalls]
  | cons call calls =>
    apply Prod.Lex.left
    exact length_openSites_insert_lt (hcalls ▸ List.mem_cons_self) hsite

/-- The first path from one of the sites over callers to the entry component, in a depth-first
search with a single set of seen sites. Every site that is entered joins the set, and no site ever
leaves it. -/
def sweep (index : Index) (entry : String) (sites : List Site) (seen : VisitedSet) :
    SweepResult seen :=
  match sites with
  | [] => { path := [], seen := seen, grows := fun _ h => h }
  | site :: rest =>
    if _hsite : site ∈ seen then index.sweep entry rest seen
    else
      have henter : ∀ x, x ∈ seen → x ∈ seen.insert site := fun _ h =>
        VisitedSet.mem_insert.2 (.inr h)
      if site.inComponent entry then
        { path := [site], seen := seen.insert site, grows := henter }
      else
        let first := index.sweep entry (index.callerSites site) (seen.insert site)
        have hfirst : ∀ x, x ∈ seen → x ∈ first.seen := fun x h => first.grows x (henter x h)
        if first.path = [] then
          let later := index.sweep entry rest first.seen
          { path := later.path, seen := later.seen, grows := fun x h => later.grows x (hfirst x h) }
        else { path := site :: first.path, seen := first.seen, grows := hfirst }
termination_by ((index.openSites seen).length, sites.length)
decreasing_by
  · exact Prod.Lex.right _ (by simp)
  · exact sweep_callers_decreasing _hsite rest
  · exact Prod.Lex.right' _ (length_openSites_anti hfirst) (by simp)

/-! ### Settled sites -/

lemma setOf_mem_insert (seen : VisitedSet) (site : Site) :
    {x | x ∈ seen.insert site} = Insert.insert site {x | x ∈ seen} := by
  ext x
  simp

/-- The seen sites hold the visited ones, and every other seen site is done with: it lies outside
of the entry component, and all its callers have been seen. -/
structure Settled (index : Index) (entry : String) (visited : VisitedSet) (seen : Set Site) :
    Prop where
  visited_seen : ∀ x, x ∈ visited → x ∈ seen
  outside : ∀ x ∈ seen, x ∉ visited → x.inComponent entry = false
  callers_seen : ∀ x ∈ seen, x ∉ visited → ∀ caller ∈ index.callerSites x, caller ∈ seen

namespace Settled

variable {seen : Set Site}

/-- At the start of a search nothing but the visited sites has been seen. -/
lemma start (index : Index) (entry : String) (visited : VisitedSet) :
    index.Settled entry visited {x | x ∈ visited} where
  visited_seen _ hx := hx
  outside _ hx hnot := absurd hx hnot
  callers_seen _ hx hnot := absurd hx hnot

/-- A site that is entered is seen and on the branch at once. -/
lemma enter (h : index.Settled entry visited seen) (site : Site) :
    index.Settled entry (visited.insert site) (Insert.insert site seen) where
  visited_seen := by
    intro x hx
    rcases VisitedSet.mem_insert.1 hx with rfl | hx
    · exact Set.mem_insert x seen
    · exact Set.mem_insert_of_mem site (h.visited_seen x hx)
  outside := by
    intro x hx hnot
    rw [VisitedSet.mem_insert, not_or] at hnot
    exact h.outside x (Set.mem_of_mem_insert_of_ne hx hnot.1) hnot.2
  callers_seen := by
    intro x hx hnot caller hcaller
    rw [VisitedSet.mem_insert, not_or] at hnot
    have hx := Set.mem_of_mem_insert_of_ne hx hnot.1
    exact Set.mem_insert_of_mem site (h.callers_seen x hx hnot.2 caller hcaller)

/-- A site all of whose callers have been seen may leave the branch. -/
lemma leave (h : index.Settled entry (visited.insert site) seen)
    (hc : site.inComponent entry = false)
    (hcallers : ∀ caller ∈ index.callerSites site, caller ∈ seen) :
    index.Settled entry visited seen where
  visited_seen := by
    intro x hx
    exact h.visited_seen x (VisitedSet.mem_insert.2 (.inr hx))
  outside := by
    intro x hx hnot
    by_cases hsite : x = site
    · exact hsite ▸ hc
    · exact h.outside x hx (by simp [hsite, hnot])
  callers_seen := by
    intro x hx hnot
    by_cases hsite : x = site
    · exact hsite ▸ hcallers
    · exact h.callers_seen x hx (by simp [hsite, hnot])

/-- No walk from a seen site gets into the entry component without meeting the branch. -/
lemma not_entryWalk (h : index.Settled entry visited seen) {walk : List Site}
    (hsite : site ∈ seen) : ¬ index.EntryWalk entry visited site walk := by
  intro hwalk
  induction walk generalizing site with
  | nil => exact absurd hwalk.starts (by simp)
  | cons x walk ih =>
    obtain ⟨rest, heq, hnot, hc | ⟨caller, ⟨call, hcall, rfl⟩, hrest⟩⟩ := hwalk.cases_head
    · rw [h.outside site hsite hnot] at hc
      exact absurd hc (by simp)
    · obtain ⟨rfl, rfl⟩ := List.cons.inj heq
      exact ih (h.callers_seen x hsite hnot _ (List.mem_map_of_mem hcall)) hrest

/-- A search from a seen site comes back with nothing. -/
lemma backtrace_eq_nil (h : index.Settled entry visited seen) (hsite : site ∈ seen) :
    index.backtrace entry site visited = [] := by
  by_contra hne
  obtain ⟨walk, hwalk⟩ := exists_entryWalk_of_backtrace_ne_nil hne
  exact h.not_entryWalk hsite hwalk

end Settled

/-! ### The sweep finds the same path -/

/-- The first path that a branch-local search finds from one of the sites; empty if there is
none. -/
def firstBacktrace (index : Index) (entry : String) (sites : List Site) (visited : VisitedSet) :
    List Site :=
  (sites.findSome? fun site => nonempty? (index.backtrace entry site visited)).getD []

lemma firstBacktrace_cons {sites : List Site} :
    index.firstBacktrace entry (site :: sites) visited =
      if index.backtrace entry site visited = [] then index.firstBacktrace entry sites visited
      else index.backtrace entry site visited := by
  cases h : index.backtrace entry site visited <;> simp [firstBacktrace, h, nonempty?]

/-- A site outside of the entry component goes on with the first path of its callers. -/
lemma backtrace_eq_firstBacktrace (hsite : site ∉ visited)
    (hc : site.inComponent entry = false) :
    index.backtrace entry site visited =
      if index.firstBacktrace entry (index.callerSites site) (visited.insert site) = [] then []
      else site :: index.firstBacktrace entry (index.callerSites site) (visited.insert site) := by
  rw [backtrace_of_callers hsite hc, firstBacktrace, callerSites, List.findSome?_map]
  change _ = if (index.callersPath? entry site visited).getD [] = [] then []
    else site :: (index.callersPath? entry site visited).getD []
  cases hpath : index.callersPath? entry site visited with
  | none => simp
  | some tail =>
    obtain ⟨call, _, hcall⟩ := List.exists_of_findSome?_eq_some hpath
    simp [(nonempty?_eq_some_iff.1 hcall).2]

/-- A sweep over settled sites finds what the branch-local search finds. If it finds nothing, then
the sites are seen and everything is settled again. -/
lemma sweep_spec {sites : List Site} {seen : VisitedSet}
    (h : index.Settled entry visited {x | x ∈ seen}) :
    (index.sweep entry sites seen).path = index.firstBacktrace entry sites visited ∧
      ((index.sweep entry sites seen).path = [] →
        index.Settled entry visited {x | x ∈ (index.sweep entry sites seen).seen} ∧
          ∀ site ∈ sites, site ∈ (index.sweep entry sites seen).seen) := by
  fun_induction sweep index entry sites seen generalizing visited with
  | case1 seen => simpa [firstBacktrace] using h
  | case2 seen site rest hsite ih =>
    -- the sweep passes over the site, and the branch-local search tries it again in vain
    obtain ⟨hpath, hsettled⟩ := ih h
    rw [firstBacktrace_cons, if_pos (h.backtrace_eq_nil hsite)]
    refine ⟨hpath, fun hnil => ⟨(hsettled hnil).1, ?_⟩⟩
    rw [List.forall_mem_cons]
    exact ⟨(index.sweep entry rest seen).grows site hsite, (hsettled hnil).2⟩
  | case3 seen site rest hsite henter hc =>
    have hnot : site ∉ visited := fun hmem => hsite (h.visited_seen site hmem)
    rw [firstBacktrace_cons, backtrace_of_inComponent hnot hc]
    simp
  | case4 seen site rest hsite henter hc first hfirst hnil later ihCallers ihRest =>
    have hc : site.inComponent entry = false := Bool.eq_false_of_not_eq_true hc
    have hnot : site ∉ visited := fun hmem => hsite (h.visited_seen site hmem)
    obtain ⟨hpath, hsettled⟩ := ihCallers (setOf_mem_insert seen site ▸ h.enter site)
    obtain ⟨hentered, hcallers⟩ := hsettled hnil
    -- the site leaves the branch for good, so its siblings start from settled sites again
    have hleft : index.Settled entry visited {x | x ∈ first.seen} := hentered.leave hc hcallers
    have hnothing : index.backtrace entry site visited = [] := by
      rw [backtrace_eq_firstBacktrace hnot hc, ← hpath, if_pos hnil]
    obtain ⟨hrest, hafter⟩ := ihRest hleft
    rw [firstBacktrace_cons, if_pos hnothing]
    refine ⟨hrest, fun hlater => ⟨(hafter hlater).1, ?_⟩⟩
    rw [List.forall_mem_cons]
    have hseen : site ∈ first.seen := first.grows site (VisitedSet.mem_insert.2 (.inl rfl))
    exact ⟨later.grows site hseen, (hafter hlater).2⟩
  | case5 seen site rest hsite henter hc first hfirst hfound =>
    rename_i ih
    have hc : site.inComponent entry = false := Bool.eq_false_of_not_eq_true hc
    have hnot : site ∉ visited := fun hmem => hsite (h.visited_seen site hmem)
    obtain ⟨hpath, _⟩ := ih (setOf_mem_insert seen site ▸ h.enter site)
    have hfound : index.firstBacktrace entry (index.callerSites site) (visited.insert site) ≠ [] :=
      hpath ▸ hfound
    rw [firstBacktrace_cons, backtrace_eq_firstBacktrace hnot hc, if_neg hfound, ← hpath]
    simp [first]

/-! ### Visits of the branch-local search -/

/-- A visit of the branch-local search to a site, with the path that it yields. -/
structure Visit where
  site : Site
  path : List Site

/-- The visits that the branch-local search makes from the given sites in turn, until one of them
yields a path, in the order in which the visits begin. A visit to a site that is neither visited
nor in the entry component goes on to the callers. -/
def visits (index : Index) (entry : String) (sites : List Site) (visited : VisitedSet) :
    List Visit :=
  match sites with
  | [] => []
  | site :: rest =>
    { site, path := index.backtrace entry site visited } ::
      ((if _h : site ∉ visited ∧ site.inComponent entry = false then
          index.visits entry (index.callerSites site) (visited.insert site)
        else []) ++
        if index.backtrace entry site visited = [] then index.visits entry rest visited else [])
termination_by ((index.openSites visited).length, sites.length)
decreasing_by
  · exact sweep_callers_decreasing _h.1 rest
  · exact Prod.Lex.right _ (by simp)

/-- The sites seen after some visits. -/
def seenAfter (seen : Set Site) : List Visit → Set Site
  | [] => seen
  | visit :: log => seenAfter (Insert.insert visit.site seen) log

lemma seenAfter_append (seen : Set Site) (log log' : List Visit) :
    seenAfter seen (log ++ log') = seenAfter (seenAfter seen log) log' := by
  induction log generalizing seen with
  | nil => rfl
  | cons visit log ih => exact ih _

lemma subset_seenAfter (seen : Set Site) (log : List Visit) : seen ⊆ seenAfter seen log := by
  induction log generalizing seen with
  | nil => exact subset_rfl
  | cons visit log ih => exact (Set.subset_insert visit.site seen).trans (ih _)

/-- Visits to sites that have been seen before yield nothing. -/
def YieldsOnce (seen : Set Site) : List Visit → Prop
  | [] => True
  | visit :: log =>
    (visit.site ∈ seen → visit.path = []) ∧ YieldsOnce (Insert.insert visit.site seen) log

lemma yieldsOnce_append {seen : Set Site} {log log' : List Visit} :
    YieldsOnce seen (log ++ log') ↔
      YieldsOnce seen log ∧ YieldsOnce (seenAfter seen log) log' := by
  induction log generalizing seen with
  | nil => simp [YieldsOnce, seenAfter]
  | cons visit log ih => simp only [List.cons_append, YieldsOnce, seenAfter, ih, and_assoc]

lemma YieldsOnce.path_eq_nil {seen : Set Site} {log : List Visit} (h : YieldsOnce seen log)
    {visit : Visit} (hvisit : visit ∈ log) (hseen : visit.site ∈ seen) : visit.path = [] := by
  induction log generalizing seen with
  | nil => exact absurd hvisit List.not_mem_nil
  | cons first log ih =>
    rcases List.mem_cons.1 hvisit with rfl | hvisit
    · exact h.1 hseen
    · exact ih h.2 hvisit (Set.mem_insert_of_mem _ hseen)

/-- Only the first of several visits to a site yields a path. -/
lemma YieldsOnce.pairwise {seen : Set Site} {log : List Visit} (h : YieldsOnce seen log) :
    log.Pairwise fun earlier later => earlier.site = later.site → later.path = [] := by
  induction log generalizing seen with
  | nil => exact .nil
  | cons visit log ih =>
    refine .cons (fun later hlater hsite => ?_) (ih h.2)
    exact h.2.path_eq_nil hlater (hsite ▸ Set.mem_insert visit.site seen)

/-- The visits of a search over settled sites yield a path at most once for each site. If the search
finds nothing, then the sites are seen and everything is settled again. -/
lemma visits_spec {sites : List Site} {seen : Set Site} (h : index.Settled entry visited seen) :
    YieldsOnce seen (index.visits entry sites visited) ∧
      (index.firstBacktrace entry sites visited = [] →
        index.Settled entry visited (seenAfter seen (index.visits entry sites visited)) ∧
          ∀ site ∈ sites, site ∈ seenAfter seen (index.visits entry sites visited)) := by
  fun_induction visits index entry sites visited generalizing seen with
  | case1 visited => exact ⟨trivial, fun _ => ⟨h, by simp⟩⟩
  | case2 visited site rest ihCallers ihRest =>
    have hhead : site ∈ seen → index.backtrace entry site visited = [] := h.backtrace_eq_nil
    generalize hbelow : (if _h : site ∉ visited ∧ site.inComponent entry = false then
      index.visits entry (index.callerSites site) (visited.insert site) else []) = below
    -- what the visits to the callers leave behind for the siblings
    have hblock : YieldsOnce (Insert.insert site seen) below ∧
        (index.backtrace entry site visited = [] →
          index.Settled entry visited (seenAfter (Insert.insert site seen) below)) := by
      split at hbelow
      · rename_i hopen
        obtain ⟨hyields, hsettled⟩ := ihCallers hopen (h.enter site)
        rw [hbelow] at hyields hsettled
        refine ⟨hyields, fun hnil => ?_⟩
        rw [backtrace_eq_firstBacktrace hopen.1 hopen.2] at hnil
        obtain ⟨hentered, hcallers⟩ := hsettled (by simpa using hnil)
        exact hentered.leave hopen.2 hcallers
      · rename_i hclosed
        subst hbelow
        refine ⟨trivial, fun hnil => ?_⟩
        have hmem : site ∈ visited := by
          rcases backtrace_eq_nil_iff.1 hnil with hmem | ⟨hc, _⟩
          · exact hmem
          · exact by_contra fun hnot => hclosed ⟨hnot, hc⟩
        rwa [seenAfter, Set.insert_eq_of_mem (h.visited_seen site hmem)]
    simp only [YieldsOnce, seenAfter, yieldsOnce_append, seenAfter_append, firstBacktrace_cons]
    split
    · rename_i hnil
      obtain ⟨hrest, hsettled⟩ := ihRest (hblock.2 hnil)
      refine ⟨⟨hhead, hblock.1, hrest⟩, fun hnone => ⟨(hsettled hnone).1, ?_⟩⟩
      rw [List.forall_mem_cons]
      refine ⟨?_, (hsettled hnone).2⟩
      apply subset_seenAfter
      apply subset_seenAfter
      exact Set.mem_insert site seen
    · rename_i hfound
      exact ⟨⟨hhead, hblock.1, trivial⟩, fun hnone => absurd hnone hfound⟩

/-- Keeping the visited sites of a branch from its siblings never changes the answer: the search
finds the path that the sweep with a single seen-set finds. No site is worth a second visit: of
the visits that a search makes, whatever became of an earlier one, only the first to a site can
yield a path. -/
theorem backtrace_eq_sweep (index : Index) (entry : String) (site : Site)
    (visited : VisitedSet) :
    index.backtrace entry site visited = (index.sweep entry [site] visited).path ∧
    (index.visits entry [site] visited).Pairwise fun earlier later =>
      earlier.site = later.site → later.path = [] := by
  have hstart := Settled.start index entry visited
  constructor
  · rw [(sweep_spec hstart).1, firstBacktrace_cons]
    split
    · simpa [firstBacktrace]
    · rfl
  · exact (visits_spec hstart).1.pairwise

end Index

end RequestTrail
