import RequestTrail.Proofs.Renaming.Analysis
import RequestTrail.Proofs.Requests

/-!
# The two spellings of class names

A dotted class name `com.app.Main` is spelled `Lcom/app/Main;` in bytecode. An analysis of an index
in the bytecode spelling finds the same as one in the dotted spelling, with every class spelled the
other way. Class prefixes are compared with the dotted spelling of both. An entry component that
stands in the bytecode spelling stands in the dotted one too, if it has no slash or semicolon and
does not begin with the `L`. Base classes keep their difference, if the separator of nested classes
is none of the characters that the spelling brings in or takes away.
-/

namespace RequestTrail

namespace Site

def slashed (c : Char) : Char :=
  if c = '.' then '/' else c

/-- The bytecode spelling of a dotted class name. -/
def bytecode (cs : List Char) : List Char :=
  'L' :: (cs.map slashed ++ [';'])

/-- The site with its class in the bytecode spelling. -/
def inBytecode (site : Site) : Site :=
  { site with className := String.ofList (bytecode site.className.toList) }

/-- The class is in the dotted spelling, in which there is no slash and no semicolon. -/
def IsDotted (site : Site) : Prop :=
  '/' ∉ site.className.toList ∧ ';' ∉ site.className.toList

instance (site : Site) : Decidable site.IsDotted :=
  inferInstanceAs (Decidable (_ ∧ _))

variable {cs : List Char} {site other : Site} {separator : Char}

/-! ### Back to dots -/

lemma map_slashed_undone (h : '/' ∉ cs) :
    ((cs.map slashed).map fun c => if c = '/' then '.' else c) = cs := by
  rw [List.map_map]
  refine (List.map_congr_left ?_).trans (List.map_id cs)
  intro c hc
  have hne : c ≠ '/' := ne_of_mem_of_not_mem hc h
  by_cases hdot : c = '.'
  · simp [slashed, hdot]
  · simp [slashed, hdot, hne]

lemma not_mem_map_slashed (h : ';' ∉ cs) : ';' ∉ cs.map slashed := by
  intro hmem
  obtain ⟨c, hc, heq⟩ := List.mem_map.1 hmem
  by_cases hdot : c = '.'
  · rw [slashed, if_pos hdot] at heq
    exact absurd heq (by decide)
  · rw [slashed, if_neg hdot] at heq
    exact h (heq ▸ hc)

lemma dotted_bytecode (h : '/' ∉ cs) : dotted (bytecode cs) = cs := by
  rw [bytecode, dotted, if_pos List.getLast?_concat, List.dropLast_concat, map_slashed_undone h]

lemma dotted_of_not_mem (h : ';' ∉ cs) : dotted cs = cs := by
  unfold dotted
  split
  · rename_i rest
    rw [if_neg]
    intro hlast
    exact h (List.mem_cons_of_mem 'L' (List.mem_of_getLast? hlast))
  · rfl

lemma dottedClass_inBytecode (h : site.IsDotted) :
    site.inBytecode.dottedClass = site.className := by
  rw [dottedClass, inBytecode, String.toList_ofList, dotted_bytecode h.1, String.ofList_toList]

lemma dottedClass_of_isDotted (h : site.IsDotted) : site.dottedClass = site.className := by
  rw [dottedClass, dotted_of_not_mem h.2, String.ofList_toList]

lemma injOn_inBytecode : Set.InjOn inBytecode {site | site.IsDotted} := by
  intro site hsite other hother heq
  have hclass : site.className = other.className := by
    rw [← dottedClass_inBytecode hsite, ← dottedClass_inBytecode hother, heq]
  cases site
  cases other
  exact Site.mk.injEq .. ▸ ⟨hclass, congrArg Site.name heq, congrArg Site.descriptor heq⟩

lemma hasClassPrefix_inBytecode (h : site.IsDotted) (prefixes : List String) :
    site.inBytecode.hasClassPrefix prefixes = site.hasClassPrefix prefixes := by
  rw [hasClassPrefix, hasClassPrefix, dottedClass_inBytecode h, dottedClass_of_isDotted h]

/-! ### The entry component -/

/-- A text without slashes that stands in a slashed name stands where no dot was. -/
lemma infix_of_infix_map_slashed {needle : List Char} (hneedle : '/' ∉ needle)
    (h : needle <:+: cs.map slashed) : needle <:+: cs := by
  obtain ⟨before, after, heq⟩ := h
  obtain ⟨front, back, rfl, hfront, -⟩ := List.map_eq_append_iff.1 heq.symm
  obtain ⟨start, middle, rfl, -, rfl⟩ := List.map_eq_append_iff.1 hfront
  have hfixed : middle.map slashed = middle := by
    refine (List.map_congr_left ?_).trans (List.map_id middle)
    intro c hc
    have hdot : c ≠ '.' := by
      rintro rfl
      exact hneedle (List.mem_map.2 ⟨'.', hc, rfl⟩)
    exact if_neg hdot
  rw [hfixed]
  exact ⟨start, back, rfl⟩

/-- A text that neither begins with the `L` nor has a slash or a semicolon stands in the bytecode
spelling only if it stands in the name. -/
lemma infix_of_infix_bytecode {needle : List Char} (hslash : '/' ∉ needle) (hend : ';' ∉ needle)
    (hstart : needle.head? ≠ some 'L') (h : needle <:+: bytecode cs) : needle <:+: cs := by
  rcases List.infix_cons_iff.1 h with h | h
  · rcases List.prefix_cons_iff.1 h with rfl | ⟨rest, rfl, -⟩
    · exact List.nil_infix
    · exact absurd rfl hstart
  · rcases List.infix_concat_iff.1 h with h | h
    · rcases List.suffix_concat_iff.1 h with rfl | ⟨front, rfl, -⟩
      · exact List.nil_infix
      · exact absurd (List.mem_append_right front List.mem_cons_self) hend
    · exact infix_of_infix_map_slashed hslash h

lemma inComponent_inBytecode {entry : String} (hslash : '/' ∉ entry.toList)
    (hend : ';' ∉ entry.toList) (hstart : entry.toList.head? ≠ some 'L') (h : site.IsDotted) :
    site.inBytecode.inComponent entry = site.inComponent entry := by
  rw [inComponent, inComponent, dottedClass_inBytecode h, dottedClass_of_isDotted h, Bool.or_self,
    Bool.eq_iff_iff, Bool.or_eq_true, or_iff_right_iff_imp]
  simp only [Text.contains_iff_infix, inBytecode, String.toList_ofList]
  exact infix_of_infix_bytecode hslash hend hstart

/-! ### Base classes -/

lemma withoutTerminator_of_not_mem (h : ';' ∉ cs) : withoutTerminator cs = cs := by
  rw [withoutTerminator, if_neg]
  intro hlast
  exact h (List.mem_of_getLast? hlast)

lemma withoutTerminator_concat (cs : List Char) : withoutTerminator (cs ++ [';']) = cs := by
  rw [withoutTerminator, if_pos List.getLast?_concat, List.dropLast_concat]

/-- The terminator is lost, be it as the separator or as the final character. -/
lemma withoutTerminator_append_takeWhile (h : ';' ∉ cs) :
    withoutTerminator (cs ++ [';'].takeWhile (· != separator)) = cs := by
  by_cases hend : separator = ';'
  · rw [hend, List.takeWhile_cons_of_neg (by decide), List.append_nil,
      withoutTerminator_of_not_mem h]
  · rw [List.takeWhile_cons_of_pos (by simpa using Ne.symm hend), List.takeWhile_nil,
      withoutTerminator_concat]

lemma takeWhile_map_slashed (hdot : separator ≠ '.') (hslash : separator ≠ '/') :
    (cs.map slashed).takeWhile (· != separator) = (cs.takeWhile (· != separator)).map slashed := by
  have htest : ((· != separator) ∘ slashed) = (· != separator) := by
    funext c
    by_cases hc : c = '.'
    · rw [Function.comp_apply, hc, bne_iff_ne.2 hdot.symm]
      exact bne_iff_ne.2 hslash.symm
    · rw [Function.comp_apply, slashed, if_neg hc]
  rw [List.takeWhile_map, htest]

/-- Before the separator the bytecode spelling is the `L` and the slashed name. -/
lemma base_bytecode (hdot : separator ≠ '.') (hslash : separator ≠ '/') (hstart : separator ≠ 'L')
    (h : ';' ∉ cs) :
    withoutTerminator ((bytecode cs).takeWhile (· != separator)) =
      'L' :: (cs.takeWhile (· != separator)).map slashed := by
  have hend : ∀ {front : List Char}, ';' ∉ front → ';' ∉ 'L' :: front.map slashed := by
    intro front hfront
    simpa using not_mem_map_slashed hfront
  rw [bytecode, List.takeWhile_cons_of_pos (by simpa using hstart.symm), List.takeWhile_append,
    takeWhile_map_slashed hdot hslash]
  split
  · -- the separator is not in the name
    rename_i hlength
    have hwhole : cs.takeWhile (· != separator) = cs := by
      apply (List.takeWhile_prefix _).eq_of_length
      simpa using hlength
    rw [hwhole, ← List.cons_append, withoutTerminator_append_takeWhile (hend h)]
  · exact withoutTerminator_of_not_mem (hend fun hc => h (List.takeWhile_subset _ hc))

/-- Two dotted classes have the same base class in one spelling if they do in the other. -/
lemma baseClass_inBytecode_iff (hdot : separator ≠ '.') (hslash : separator ≠ '/')
    (hstart : separator ≠ 'L') (hsite : site.IsDotted) (hother : other.IsDotted) :
    site.inBytecode.baseClass separator = other.inBytecode.baseClass separator ↔
      site.baseClass separator = other.baseClass separator := by
  have hbase : ∀ {s : Site}, s.IsDotted →
      '/' ∉ s.className.toList.takeWhile (· != separator) ∧
        ';' ∉ s.className.toList.takeWhile (· != separator) := by
    intro s hs
    exact ⟨fun hc => hs.1 (List.takeWhile_subset _ hc), fun hc => hs.2 (List.takeWhile_subset _ hc)⟩
  simp only [baseClass, inBytecode, String.toList_ofList, String.ofList_inj,
    base_bytecode hdot hslash hstart hsite.2, base_bytecode hdot hslash hstart hother.2,
    withoutTerminator_of_not_mem (hbase hsite).2, withoutTerminator_of_not_mem (hbase hother).2,
    List.cons.injEq, true_and]
  constructor
  · intro heq
    rw [← map_slashed_undone (hbase hsite).1, ← map_slashed_undone (hbase hother).1, heq]
  · intro heq
    rw [heq]

/-- No test of an analysis sees the spelling of dotted classes. -/
lemma renaming_inBytecode {config : Config} {entry : String}
    (hdot : config.nestedClassSeparator ≠ '.') (hslash : config.nestedClassSeparator ≠ '/')
    (hstart : config.nestedClassSeparator ≠ 'L') (hentry : '/' ∉ entry.toList)
    (hentry' : ';' ∉ entry.toList) (hhead : entry.toList.head? ≠ some 'L') :
    Renaming config entry {site | site.IsDotted} inBytecode where
  injOn := injOn_inBytecode
  name _ _ := rfl
  platform _ h := hasClassPrefix_inBytecode h _
  sdk _ h := hasClassPrefix_inBytecode h _
  component _ h := inComponent_inBytecode hentry hentry' hhead h
  base _ hs _ ht := baseClass_inBytecode_iff hdot hslash hstart hs ht

end Site

namespace Analysis

/-- A run does not see the spelling of classes. Where every class of an index and a report is
spelled as in bytecode, the run ends with the same error or the same report, spelled as in
bytecode. -/
theorem runInPlace_inBytecode (log : List Index.Entry) (config : Config)
    (accepts : Classifier) (entry : String) (report : Report)
    (hlog : ∀ e ∈ log, ∀ site ∈ e.sites, site.IsDotted)
    (hreport : ∀ f ∈ report.findings, f.request.IsDotted ∧ f.caller.IsDotted)
    (hseparator : config.nestedClassSeparator ∉ ['.', '/', 'L'])
    (hentry : '/' ∉ entry.toList ∧ ';' ∉ entry.toList ∧ entry.toList.head? ≠ some 'L') :
    let analysis : Analysis := { index := .ofLog log, config, accepts }
    let spelled : Analysis :=
      { index := .ofLog (log.map (Index.Entry.rename Site.inBytecode)), config, accepts }
    (spelled.runInPlace entry).run (report.rename Site.inBytecode) =
      match (analysis.runInPlace entry).run report with
      | .ok () final => .ok () (final.rename Site.inBytecode)
      | .error e after => .error e (after.rename Site.inBytecode) := by
  intro analysis spelled
  obtain ⟨hslash, hend, hhead⟩ := hentry
  simp only [List.mem_cons, List.not_mem_nil, or_false, not_or] at hseparator
  have hρ : Renaming config entry {site | site.IsDotted} Site.inBytecode :=
    Site.renaming_inBytecode hseparator.1 hseparator.2.1 hseparator.2.2 hslash hend hhead
  have hspelled : analysis.RenamesTo entry {site | site.IsDotted} Site.inBytecode spelled := {
    config := rfl
    accepts := rfl
    index := Index.renamesTo_ofLog hρ.injOn hlog
    unseen := hρ }
  rw [run_runInPlace, run_runInPlace, hspelled.run_eq hreport]
  cases analysis.run entry report with
  | error e => rfl
  | ok final => rfl

end Analysis

/-! ### The application with two callers, in dotted spelling -/

namespace Sample

/-- A site of the application with its class in dotted spelling. -/
def dottedSite (site : Site) : Site :=
  { site with className := site.dottedClass }

def dottedLog : List Index.Entry :=
  log.map (Index.Entry.rename dottedSite)

def dottedReport : Report :=
  report.rename dottedSite

lemma dottedLog_inBytecode : dottedLog.map (Index.Entry.rename Site.inBytecode) = log := by
  decide

lemma dottedReport_inBytecode : dottedReport.rename Site.inBytecode = report := by
  decide

end Sample

namespace Analysis

theorem runInPlace_inBytecode_sample :
    (∀ e ∈ Sample.dottedLog, ∀ site ∈ e.sites, site.IsDotted) ∧
      (∀ f ∈ Sample.dottedReport.findings, f.request.IsDotted ∧ f.caller.IsDotted) ∧
      ∃ final, ({ Sample.analysis with index := .ofLog Sample.dottedLog }.runInPlace "Main").run
          Sample.dottedReport = .ok () final ∧
        final.rename Site.inBytecode = Sample.explained := by
  have hlog : ∀ e ∈ Sample.dottedLog, ∀ site ∈ e.sites, site.IsDotted := by decide
  have hreport : ∀ f ∈ Sample.dottedReport.findings, f.request.IsDotted ∧ f.caller.IsDotted := by
    decide
  refine ⟨hlog, hreport, ?_⟩
  have hrun := runInPlace_inBytecode Sample.dottedLog Sample.analysis.config
    Sample.analysis.accepts "Main" Sample.dottedReport hlog hreport (by decide) (by decide)
  rw [Sample.dottedLog_inBytecode, Sample.dottedReport_inBytecode] at hrun
  have hspelled := (runInPlace_eq_ok_iff.2 Sample.run_report).symm.trans hrun
  split at hspelled
  · rename_i final hfinal
    exact ⟨final, hfinal, (EStateM.Result.ok.inj hspelled).2.symm⟩
  · cases hspelled

end Analysis

end RequestTrail
