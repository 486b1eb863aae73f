import RequestTrail.Proofs.Dependence
import RequestTrail.Proofs.Requests

/-!
# Unrelated entries

Entries that a run has no use for may be added to a log: tables and strings of another package or
locale, methods, and texts of sites that the run does not consult. They leave its outcome as it is,
whether it fails or succeeds, down to the order of the findings.

An entry of this kind may register a request method. Nothing calls that method, since the calls in
a log register what they call, and so it takes part in no pair.
-/

namespace RequestTrail

namespace Index

lemma callerSites_ofLog_of_not_mem {log : List Entry} {site : Site}
    (h : site ∉ (ofLog log).methods) : (ofLog log).callerSites site = [] := by
  have hcallers : (ofLog log).callersOf site = [] :=
    List.eq_nil_iff_forall_not_mem.2 fun _ hcall => h (mem_methods_of_callersOf hcall)
  rw [callerSites, hcallers, List.map_nil]

lemma sameCallers_ofLog_append {log extra : List Entry} (h : ∀ e ∈ extra, e.call? = none) :
    (ofLog log).SameCallers (ofLog (log ++ extra)) := by
  intro site
  rw [callerSites, callerSites, callersOf_ofLog, callersOf_ofLog, filterMap_append_of_none h log]

end Index

namespace Analysis

/-- Entries that a run on a report has no use for. -/
def Unrelated (analysis : Analysis) (report : Report) : Index.Entry → Prop
  | .method _ => True
  | .source site _ => site ∉ analysis.consulted report
  | .table package locale => (package, locale) ≠ (report.package, analysis.config.defaultLocale)
  | .string package locale _ _ =>
    (package, locale) ≠ (report.package, analysis.config.defaultLocale)
  | .call _ => False
  | .literal _ => False

instance (analysis : Analysis) (report : Report) : DecidablePred (analysis.Unrelated report)
  | .method _ => .isTrue trivial
  | .source site _ => inferInstanceAs (Decidable (site ∉ analysis.consulted report))
  | .table _ _ => inferInstanceAs (Decidable (_ ≠ _))
  | .string _ _ _ _ => inferInstanceAs (Decidable (_ ≠ _))
  | .call _ => .isFalse id
  | .literal _ => .isFalse id

namespace Unrelated

variable {analysis : Analysis} {report : Report} {e : Index.Entry}

lemma call?_eq_none (h : analysis.Unrelated report e) : e.call? = none := by
  cases e with
  | call call => exact h.elim
  | _ => rfl

lemma irrelevant (h : analysis.Unrelated report e) :
    e.Irrelevant analysis.config report.package (analysis.consulted report) where
  literal := by
    cases e with
    | literal literal => exact h.elim
    | _ => rfl
  table := by
    cases e with
    | table package locale => exact beq_false_of_ne h
    | string package locale id value => exact beq_false_of_ne h
    | _ => rfl
  text := by
    intro caller hcaller
    cases e with
    | source site text =>
      have hne : site ≠ caller := by
        rintro rfl
        exact h hcaller
      rw [Index.Entry.textOf?, if_neg hne]
    | _ => rfl

end Unrelated

/-- Methods without callers take part in no pair. -/
lemma pairs_eq_of_methods_append {analysis other : Analysis} {new : List Site}
    (hconfig : analysis.config = other.config)
    (hcallers : analysis.index.SameCallers other.index)
    (hmethods : other.index.methods = analysis.index.methods ++ new)
    (hnew : ∀ site ∈ new, analysis.index.callerSites site = []) :
    analysis.pairs = other.pairs := by
  have happlication : other.applicationCallers = analysis.applicationCallers :=
    funext fun request => (applicationCallers_congr hconfig hcallers request).symm
  have hrequests : other.requestMethods = analysis.requestMethods ++
      (new.filter fun site => Text.startsWith site.name other.config.requestMethodName).filter
        other.config.isPlatformSite := by
    simp only [requestMethods, Index.methodsNamed, hmethods, hconfig, List.filter_append]
  rw [pairs_eq, pairs_eq, happlication, hrequests, List.flatMap_append, eq_comm,
    List.append_right_eq_self, List.flatMap_eq_nil_iff]
  intro site hsite
  have hsite := hnew site (List.mem_filter.1 (List.mem_filter.1 hsite).1).1
  rw [applicationCallers_eq_filter, hsite]
  rfl

/-- Unrelated entries do not interfere with a run: it fails with the same error or gives the same
findings in the same order. -/
theorem runInPlace_unrelated (log extra : List Index.Entry) (config : Config)
    (accepts : Classifier) (entry : String) (report : Report) :
    let analysis : Analysis := { index := .ofLog log, config, accepts }
    let analysis' : Analysis := { index := .ofLog (log ++ extra), config, accepts }
    (∀ e ∈ extra, analysis.Unrelated report e) →
      (analysis'.runInPlace entry).run report = (analysis.runInPlace entry).run report := by
  intro analysis analysis' h
  have hcallers : analysis.index.SameCallers analysis'.index :=
    Index.sameCallers_ofLog_append fun e he => (h e he).call?_eq_none
  obtain ⟨new, hmethods, hnew⟩ := Index.exists_methods_ofLog_append log extra
  have hruns : AgreeOn report analysis analysis' := {
    config := rfl
    accepts := rfl
    pairs := pairs_eq_of_methods_append rfl hcallers hmethods fun site hsite =>
      Index.callerSites_ofLog_of_not_mem (hnew site hsite)
    callers := hcallers
    index := Index.agreeOn_ofLog_append (fun e he => (h e he).irrelevant) log }
  exact hruns.runInPlace_eq.symm

end Analysis

/-! ### The application with two callers, and what is not of it -/

namespace Sample

def stranger : Site := { className := "Lcom/lib/Helper;", name := "ask" }

/-- One of the entries registers a request method that nothing calls. -/
def unrelatedEntries : List Index.Entry :=
  [.table "lib" "DEFAULT", .string "app" "fr" 7 "CAMERA", .source stranger "ask(CAMERA)",
    .method { className := "Landroid/app/Fragment;", name := "requestPermissions" }]

lemma unrelated_entries : ∀ e ∈ unrelatedEntries, analysis.Unrelated report e := by
  decide

end Sample

namespace Analysis

theorem runInPlace_unrelated_sample :
    (∀ e ∈ Sample.unrelatedEntries, Sample.analysis.Unrelated Sample.report e) ∧
      ({ Sample.analysis with index := .ofLog (Sample.log ++ Sample.unrelatedEntries) }.runInPlace
        "Main").run Sample.report = .ok () Sample.explained := by
  refine ⟨Sample.unrelated_entries, ?_⟩
  have hsame := runInPlace_unrelated Sample.log Sample.unrelatedEntries Sample.analysis.config
    Sample.analysis.accepts "Main" Sample.report Sample.unrelated_entries
  exact hsame.trans (runInPlace_eq_ok_iff.2 Sample.run_report)

end Analysis

end RequestTrail
