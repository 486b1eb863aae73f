import RequestTrail.Analysis
import RequestTrail.Proofs.Registration
import RequestTrail.Proofs.Traversal
import RequestTrail.Proofs.Walk

/-!
# Discovery

Which pairs of a request method and a caller an analysis resolves, and that it resolves none of
them twice.
-/

namespace RequestTrail

namespace Analysis

variable {analysis : Analysis} {request caller : Site}

lemma mem_applicationCallers :
    caller ∈ analysis.applicationCallers request ↔
      analysis.index.IsCaller request caller ∧ analysis.config.isSdkSite caller = false := by
  simp [applicationCallers, Index.IsCaller, List.mem_eraseDups]

lemma nodup_applicationCallers (analysis : Analysis) (request : Site) :
    (analysis.applicationCallers request).Nodup :=
  nodup_eraseDups _

/-- The request methods are the registered methods of the platform with a matching name. -/
def requestMethods (analysis : Analysis) : List Site :=
  (analysis.index.methodsNamed analysis.config.requestMethodName).filter
    analysis.config.isPlatformSite

lemma pairs_eq (analysis : Analysis) :
    analysis.pairs = analysis.requestMethods.flatMap fun request =>
      (analysis.applicationCallers request).map fun caller => (request, caller) := by
  rw [pairs, discover, List.flatMap_map]
  rfl

lemma mem_pairs :
    (request, caller) ∈ analysis.pairs ↔
      request ∈ analysis.requestMethods ∧ caller ∈ analysis.applicationCallers request := by
  rw [pairs_eq]
  simp

/-- No pair is resolved twice if no method is registered twice. -/
lemma nodup_pairs (h : analysis.index.methods.Nodup) : analysis.pairs.Nodup := by
  rw [pairs_eq, List.nodup_flatMap]
  constructor
  · intro request _
    refine (nodup_applicationCallers analysis request).map ?_
    intro a b hab
    exact congrArg Prod.snd hab
  · have hrequests : analysis.requestMethods.Nodup := (h.filter _).filter _
    refine hrequests.imp ?_
    intro a b hne
    change List.Disjoint _ _
    rw [List.disjoint_left]
    intro pair ha hb
    obtain ⟨_, _, rfl⟩ := List.mem_map.1 ha
    obtain ⟨_, _, heq⟩ := List.mem_map.1 hb
    exact hne (congrArg Prod.fst heq).symm

end Analysis

end RequestTrail
