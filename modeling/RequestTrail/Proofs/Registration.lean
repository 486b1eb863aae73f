import Mathlib.Data.List.Induction
import RequestTrail.Index.Lists
import RequestTrail.Proofs.Traversal

/-!
# Registration of methods

Every entry of a log registers the sites that it mentions, each at its first mention. The registered
methods of an index are therefore told from the mentions alone, and no method is registered twice.
-/

namespace RequestTrail

namespace Index

/-- The sites that an entry mentions, in order. -/
def Entry.sites : Entry → List Site
  | .method site => [site]
  | .call c => [c.caller, c.callee]
  | .source site _ => [site]
  | .literal l => l.references
  | .table _ _ => []
  | .string _ _ _ _ => []

/-- Puts a site at the end of a list, unless it is there. -/
def register (methods : List Site) (site : Site) : List Site :=
  if site ∈ methods then methods else methods ++ [site]

lemma foldl_register_nil (sites : List Site) : sites.foldl register [] = sites.eraseDups := by
  induction sites using List.reverseRecOn with
  | nil => rfl
  | append_singleton sites site ih =>
    simp only [List.foldl_concat, ih, eraseDups_concat, register, List.mem_eraseDups]

/-- The sites that the entries of a log mention, each at its first mention. -/
def mentioned (log : List Entry) : List Site :=
  (log.flatMap Entry.sites).eraseDups

/-- The first mentions stay where they are when entries are added. -/
lemma prefix_mentioned_append (log later : List Entry) :
    mentioned log <+: mentioned (log ++ later) := by
  rw [mentioned, mentioned, List.flatMap_append, List.eraseDups_append]
  exact List.prefix_append _ _

end Index

namespace ListIndex

open Index (Entry register mentioned)

/-! ### One entry -/

/-- Registering a method changes nothing else. -/
lemma addMethod_eq (index : ListIndex) (site : Site) :
    index.addMethod site = { index with methods := register index.methods site } := by
  unfold addMethod register
  split <;> rfl

lemma addMethods_eq (index : ListIndex) (sites : List Site) :
    index.addMethods sites = { index with methods := sites.foldl register index.methods } := by
  unfold addMethods
  induction sites generalizing index with
  | nil => rfl
  | cons site sites ih => rw [List.foldl_cons, ih, addMethod_eq, List.foldl_cons]

lemma prefix_addMethod (index : ListIndex) (site : Site) :
    index.methods <+: (index.addMethod site).methods := by
  rw [addMethod_eq]
  unfold register
  split
  · exact List.prefix_rfl
  · exact List.prefix_append _ _

/-- An entry registers the sites that it mentions, and nothing else. -/
lemma methods_record (index : ListIndex) (e : Entry) :
    (index.record e).methods = e.sites.foldl register index.methods := by
  cases e with
  | method site => exact congrArg methods (addMethod_eq index site)
  | call call =>
    change ((index.addMethod call.caller).addMethod call.callee).methods = _
    rw [addMethod_eq, addMethod_eq]
    rfl
  | source site text => exact congrArg methods (addMethod_eq index site)
  | literal literal => exact congrArg methods (addMethods_eq index literal.references)
  | table package locale => rfl
  | string package locale id value => rfl

lemma methods_recordAll (index : ListIndex) (log : List Entry) :
    (index.recordAll log).methods = (log.flatMap Entry.sites).foldl register index.methods := by
  unfold recordAll
  induction log generalizing index with
  | nil => rfl
  | cons e log ih =>
    rw [List.foldl_cons, ih, methods_record, List.flatMap_cons, List.foldl_append]

end ListIndex

namespace Index

/-! ### The whole log -/

lemma methods_ofLog (log : List Entry) : (ofLog log).methods = mentioned log := by
  change (ListIndex.empty.recordAll log).methods = _
  rw [ListIndex.methods_recordAll]
  exact foldl_register_nil _

/-- The registered methods are the sites that entries mention. -/
lemma mem_methods_ofLog {log : List Entry} {site : Site} :
    site ∈ (ofLog log).methods ↔ ∃ e ∈ log, site ∈ e.sites := by
  rw [methods_ofLog, mentioned, List.mem_eraseDups, List.mem_flatMap]

/-- Later entries register their new sites behind the others. -/
lemma exists_methods_ofLog_append (log later : List Entry) :
    ∃ new, (ofLog (log ++ later)).methods = (ofLog log).methods ++ new ∧
      ∀ site ∈ new, site ∉ (ofLog log).methods := by
  simp only [methods_ofLog, mentioned, List.flatMap_append, List.eraseDups_append]
  refine ⟨_, rfl, ?_⟩
  intro site hsite
  simpa [List.removeAll] using (List.mem_filter.1 (List.mem_eraseDups.1 hsite)).2

/-- No method is registered twice. -/
lemma nodup_methods_ofLog (log : List Entry) : (ofLog log).methods.Nodup := by
  rw [methods_ofLog]
  exact nodup_eraseDups _

end Index

end RequestTrail
