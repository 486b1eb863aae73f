import RequestTrail.Proofs.RepeatedCalls

/-!
# Call sites of request methods

What an analysis discovers, read off the log of its index. A request method is a site that some
entry mentions, with a name and a class that the settings select; its callers are those that entries
record, except for the SDK. Entries may come in any order: a method may be called before or after it
is added, by itself, by one caller many times, and request methods may call each other.

Both lists are in the order of the log. Methods come in the order of their first mentions, and the
callers of a method in the order of their first calls. These orders are strict, so that nothing is
listed twice and no pair of a request method and a caller is resolved twice.
-/

namespace RequestTrail

/-! ### Classes under a prefix -/

namespace Site

/-- The dotted class begins with one of the prefixes, an empty one apart. -/
def IsUnder (site : Site) (prefixes : List String) : Prop :=
  ∃ p ∈ prefixes, p ≠ "" ∧ p.toList <+: site.dottedClass.toList

lemma hasClassPrefix_iff {site : Site} {prefixes : List String} :
    site.hasClassPrefix prefixes = true ↔ site.IsUnder prefixes := by
  simp [hasClassPrefix, IsUnder, Text.startsWith_iff]

end Site

namespace Index

/-! ### First mentions and first calls -/

/-- Where a log first mentions a site, among the mentions of all its entries. -/
def firstMention (log : List Entry) (site : Site) : Nat :=
  (log.flatMap Entry.sites).idxOf site

/-- Where a log first records a call of a method by a caller. -/
def firstCall (log : List Entry) (method caller : Site) : Nat :=
  log.findIdx fun e => e.callerOf? method == some caller

lemma callerOf?_eq_some_iff {e : Entry} {method caller : Site} :
    e.callerOf? method = some caller ↔
      ∃ call, e = .call call ∧ call.callee = method ∧ call.caller = caller := by
  cases e with
  | call call => simp [Entry.callerOf?, Entry.call?]
  | _ => simp [Entry.callerOf?, Entry.call?]

end Index

namespace Analysis

/-! ### Discovery -/

lemma map_method_discover (analysis : Analysis) :
    analysis.discover.map Request.method = analysis.requestMethods := by
  rw [discover, List.map_map]
  exact List.map_id _

lemma callers_of_mem_discover {analysis : Analysis} {request : Request}
    (h : request ∈ analysis.discover) :
    request.callers = analysis.applicationCallers request.method := by
  obtain ⟨method, -, rfl⟩ := List.mem_map.1 h
  rfl

lemma enumerates_requestMethods (log : List Index.Entry) (config : Config)
    (accepts : Classifier) :
    Enumerates
      (fun method => (∃ e ∈ log, method ∈ e.sites) ∧
        config.requestMethodName.toList <+: method.name.toList ∧
        method.IsUnder config.platformPrefixes)
      (fun a b => Index.firstMention log a < Index.firstMention log b)
      (requestMethods { index := .ofLog log, config, accepts }) where
  mem_iff method := by
    rw [requestMethods, Index.methodsNamed, List.mem_filter, List.mem_filter,
      Index.mem_methods_ofLog, Text.startsWith_iff, Config.isPlatformSite, Site.hasClassPrefix_iff,
      and_assoc]
  ordered := by
    rw [requestMethods, Index.methodsNamed, Index.methods_ofLog]
    exact ((pairwise_idxOf_eraseDups _).filter _).filter _

lemma enumerates_applicationCallers (log : List Index.Entry) (config : Config)
    (accepts : Classifier) (method : Site) :
    Enumerates
      (fun caller => (∃ call, .call call ∈ log ∧ call.callee = method ∧ call.caller = caller) ∧
        ¬ caller.IsUnder config.sdkPrefixes)
      (fun a b => Index.firstCall log method a < Index.firstCall log method b)
      (applicationCallers { index := .ofLog log, config, accepts } method) := by
  rw [applicationCallers_eq_filter, Index.callerSites_ofLog]
  constructor
  · intro caller
    rw [List.mem_filter, List.mem_eraseDups, List.mem_filterMap]
    simp only [Index.callerOf?_eq_some_iff, Config.isSdkSite, ← Site.hasClassPrefix_iff]
    simp
  · refine ((pairwise_idxOf_eraseDups _).filter _).imp ?_
    intro a b hlt
    exact findIdx_lt_of_idxOf_filterMap_lt hlt

/-- Discovery is exact. The discovered request methods are the sites that the log mentions whose
name and class the settings select, in the order of their first mentions; each comes with the
callers outside of the SDK that the log records for it, in the order of their first calls. Nothing
is listed twice, and so no pair of a request method and a caller is resolved twice. -/
theorem discover_exact (log : List Index.Entry) (config : Config) (accepts : Classifier) :
    let analysis : Analysis := { index := .ofLog log, config, accepts }
    Enumerates
      (fun method => (∃ e ∈ log, method ∈ e.sites) ∧
        config.requestMethodName.toList <+: method.name.toList ∧
        method.IsUnder config.platformPrefixes)
      (fun a b => Index.firstMention log a < Index.firstMention log b)
      (analysis.discover.map Request.method) ∧
    (analysis.discover.map Request.method).Nodup ∧
    (∀ request ∈ analysis.discover,
      Enumerates
        (fun caller =>
          (∃ call, .call call ∈ log ∧ call.callee = request.method ∧ call.caller = caller) ∧
            ¬ caller.IsUnder config.sdkPrefixes)
        (fun a b => Index.firstCall log request.method a < Index.firstCall log request.method b)
        request.callers ∧
      request.callers.Nodup) ∧
    analysis.pairs.Nodup := by
  intro analysis
  have hmethods := enumerates_requestMethods log config accepts
  have hcallers := enumerates_applicationCallers log config accepts
  rw [map_method_discover]
  refine ⟨hmethods, hmethods.nodup fun _ => Nat.lt_irrefl _, ?_, ?_⟩
  · intro request hrequest
    rw [callers_of_mem_discover hrequest]
    exact ⟨hcallers request.method, (hcallers request.method).nodup fun _ => Nat.lt_irrefl _⟩
  · exact nodup_pairs (Index.nodup_methods_ofLog log)

end Analysis

/-! ### An application that asks again and again

One caller calls twice, around the calls of another and of the request method by itself. A method of
the application has the name of a request method. -/

namespace Sample

def insistent : List Index.Entry :=
  [.method { className := "com.app.Main", name := "requestPermissions" },
    .call { caller := silent, callee := request }, .call { caller := request, callee := request },
    .call { caller := asker, callee := request },
    .call { caller := silent, callee := request, offset := 4 }]

def insistence : Analysis where
  index := .ofLog insistent
  config := {}
  accepts _ _ := false

end Sample

namespace Analysis

theorem discover_exact_insistent :
    Sample.insistence.discover = [⟨Sample.request, [Sample.silent, Sample.asker]⟩] ∧
      Enumerates
        (fun caller =>
          (∃ call, .call call ∈ Sample.insistent ∧ call.callee = Sample.request ∧
            call.caller = caller) ∧ ¬ caller.IsUnder ["android", "java", "kotlin"])
        (fun a b => Index.firstCall Sample.insistent Sample.request a <
          Index.firstCall Sample.insistent Sample.request b)
        [Sample.silent, Sample.asker] := by
  obtain ⟨-, -, hcallers, -⟩ := discover_exact Sample.insistent {} Sample.insistence.accepts
  exact ⟨by decide, (hcallers ⟨Sample.request, [Sample.silent, Sample.asker]⟩ (by decide)).1⟩

end Analysis

end RequestTrail
