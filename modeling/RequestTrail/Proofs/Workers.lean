import Mathlib.Data.List.Forall2
import Mathlib.Logic.Relation
import RequestTrail.Proofs.Requests

/-!
# Callers resolved by workers

Settings may allow the callers to be resolved by workers, who take them in any order and finish them
in any order. What a caller gives goes to the caller's own slot; if callers fail, the failure of one
of them is reported, and nothing says of which. Whatever the workers do, the outcome is that of
resolving the callers in turn: slots keep the order, and all callers that fail do so for the same
cause.
-/

namespace RequestTrail

open Relation (ReflTransGen)

namespace Workers

variable {α β ε : Type} {f : α → Except ε β} {items : List α}

/-! ### What workers do -/

/-- How far the work on an item has come. -/
inductive Stage (ε β : Type) where
  | waiting
  | taken
  | done (result : Except ε β)

/-- One thing that a worker does: it takes an item that waits, or finishes an item that was taken,
whose result goes to the slot of the item. -/
inductive Step (f : α → Except ε β) (items : List α) :
    List (Stage ε β) → List (Stage ε β) → Prop where
  | take {stages : List (Stage ε β)} {i : Nat} (waits : stages[i]? = some .waiting) :
      Step f items stages (stages.set i .taken)
  | finish {stages : List (Stage ε β)} {i : Nat} {x : α} (taken : stages[i]? = some .taken)
      (item : items[i]? = some x) : Step f items stages (stages.set i (.done (f x)))

/-- The slots before any work. -/
def untouched (items : List α) : List (Stage ε β) :=
  items.map fun _ => .waiting

/-- The slots that work on the items can lead to. -/
def Reached (f : α → Except ε β) (items : List α) (stages : List (Stage ε β)) : Prop :=
  ReflTransGen (Step f items) (untouched items) stages

/-- What may be collected from the slots: all results, if all items are done and none failed, or the
failure of any item that failed, whatever the others are at. -/
inductive Collected : List (Stage ε β) → Except ε (List β) → Prop where
  | results (results : List β) : Collected (results.map fun r => .done (.ok r)) (.ok results)
  | failure {stages : List (Stage ε β)} {e : ε} (failed : .done (.error e) ∈ stages) :
      Collected stages (.error e)

/-- What the work on the items may come to, over all orders in which it is done. -/
def Outcome (f : α → Except ε β) (items : List α) (outcome : Except ε (List β)) : Prop :=
  ∃ stages, Reached f items stages ∧ Collected stages outcome

/-! ### Slots hold what their items give -/

/-- An item that is done has left its own result in its slot. -/
def Faithful (f : α → Except ε β) (items : List α) (stages : List (Stage ε β)) : Prop :=
  List.Forall₂ (fun x stage => ∀ result, stage = .done result → f x = result) items stages

lemma faithful_untouched : Faithful f items (untouched items) := by
  rw [Faithful, untouched, List.forall₂_map_right_iff]
  apply List.forall₂_same.2
  intro x _ result h
  cases h

lemma forall₂_set {γ : Type} {R : α → γ → Prop} {xs : List α} {ys : List γ} {i : Nat} {y : γ}
    (h : List.Forall₂ R xs ys) (hy : ∀ x, xs[i]? = some x → R x y) :
    List.Forall₂ R xs (ys.set i y) := by
  induction h generalizing i with
  | nil => exact .nil
  | cons hx hrest ih =>
    cases i with
    | zero => exact .cons (hy _ rfl) hrest
    | succ i => exact .cons hx (ih hy)

lemma Step.faithful {stages later : List (Stage ε β)} (step : Step f items stages later)
    (h : Faithful f items stages) : Faithful f items later := by
  cases step with
  | take =>
    apply forall₂_set h
    intro x _ result hdone
    cases hdone
  | finish _ item =>
    apply forall₂_set h
    intro x hx result hdone
    obtain rfl : _ = x := Option.some.inj (item.symm.trans hx)
    exact Stage.done.inj hdone

lemma Reached.faithful {stages : List (Stage ε β)} (h : Reached f items stages) :
    Faithful f items stages := by
  induction h with
  | refl => exact faithful_untouched
  | tail _ step ih => exact step.faithful ih

/-- Results in all slots are what a pass over the items gathers. -/
lemma mapM_eq_ok_of_faithful {results : List β}
    (h : Faithful f items (results.map fun r => .done (.ok r))) :
    items.mapM f = .ok results := by
  rw [Faithful, List.forall₂_map_right_iff] at h
  induction h with
  | nil => rfl
  | cons hx _ ih => exact mapM_cons_eq_ok_iff.2 ⟨_, hx _ rfl, _, ih, rfl⟩

lemma exists_error_of_faithful {stages : List (Stage ε β)} (h : Faithful f items stages) {e : ε}
    (failed : .done (.error e) ∈ stages) : ∃ x ∈ items, f x = .error e := by
  induction h with
  | nil => cases failed
  | cons hx _ ih =>
    rcases List.mem_cons.1 failed with hhead | hrest
    · exact ⟨_, List.mem_cons_self, hx _ hhead.symm⟩
    · obtain ⟨x, hmem, herror⟩ := ih hrest
      exact ⟨x, List.mem_cons_of_mem _ hmem, herror⟩

/-! ### Work comes to an end -/

/-- The number of steps that an item still takes. -/
def Stage.left : Stage ε β → Nat
  | .waiting => 2
  | .taken => 1
  | .done _ => 0

/-- The number of steps that all items still take. -/
def left : List (Stage ε β) → Nat
  | [] => 0
  | stage :: stages => stage.left + left stages

lemma left_set {stages : List (Stage ε β)} {i : Nat} {old : Stage ε β}
    (h : stages[i]? = some old) (new : Stage ε β) :
    left (stages.set i new) + old.left = left stages + new.left := by
  induction stages generalizing i with
  | nil => cases h
  | cons stage stages ih =>
    cases i with
    | zero =>
      obtain rfl : stage = old := Option.some.inj h
      simp only [left, List.set_cons_zero]
      omega
    | succ i =>
      have hrest := ih (i := i) h
      simp only [left, List.set_cons_succ]
      omega

lemma Step.left_lt {stages later : List (Stage ε β)} (step : Step f items stages later) :
    left later < left stages := by
  cases step with
  | take waits =>
    have h := left_set waits .taken
    simp only [Stage.left] at h
    omega
  | finish taken =>
    rename_i x _
    have h := left_set taken (.done (f x))
    simp only [Stage.left] at h
    omega

/-- Slots in which every item is done, and none with a failure, hold results. -/
lemma exists_results {stages : List (Stage ε β)}
    (h : ∀ stage ∈ stages, ∃ result, stage = .done (.ok result)) :
    ∃ results : List β, stages = results.map fun r => .done (.ok r) := by
  induction stages with
  | nil => exact ⟨[], rfl⟩
  | cons stage stages ih =>
    rw [List.forall_mem_cons] at h
    obtain ⟨⟨result, rfl⟩, hrest⟩ := h
    obtain ⟨results, rfl⟩ := ih hrest
    exact ⟨result :: results, rfl⟩

/-- As long as nothing can be collected, some worker can go on. -/
lemma Faithful.collected_or_step {stages : List (Stage ε β)} (h : Faithful f items stages) :
    (∃ outcome, Collected stages outcome) ∨ ∃ later, Step f items stages later := by
  by_cases hdone : ∀ stage ∈ stages, ∃ result, stage = .done (.ok result)
  · obtain ⟨results, rfl⟩ := exists_results hdone
    exact .inl ⟨_, .results results⟩
  · push Not at hdone
    obtain ⟨stage, hmem, hstage⟩ := hdone
    obtain ⟨i, hi⟩ := List.mem_iff_getElem?.1 hmem
    cases stage with
    | waiting => exact .inr ⟨_, .take hi⟩
    | taken =>
      have hlength : i < items.length := by
        rw [h.length_eq]
        exact (List.getElem?_eq_some_iff.1 hi).1
      exact .inr ⟨_, .finish hi (List.getElem?_eq_getElem hlength)⟩
    | done result =>
      cases result with
      | ok result => exact absurd rfl (hstage result)
      | error e => exact .inl ⟨_, .failure hmem⟩

/-- Whatever has been done, the work can be brought to an end. -/
lemma Faithful.exists_collected {stages : List (Stage ε β)} (h : Faithful f items stages) :
    ∃ later outcome, ReflTransGen (Step f items) stages later ∧ Collected later outcome := by
  -- every step leaves less work
  induction hn : left stages using Nat.strong_induction_on generalizing stages with
  | _ n ih =>
    rcases h.collected_or_step with ⟨outcome, hcollected⟩ | ⟨next, step⟩
    · exact ⟨stages, outcome, .refl, hcollected⟩
    · obtain ⟨later, outcome, hsteps, hcollected⟩ :=
        ih (left next) (hn ▸ step.left_lt) (step.faithful h) rfl
      exact ⟨later, outcome, .head step hsteps, hcollected⟩

/-- Where items fail for one cause only, the work comes to what a pass over the items does. -/
lemma outcome_iff {cause : ε} (hf : ∀ x e, f x = .error e → e = cause)
    {outcome : Except ε (List β)} : Outcome f items outcome ↔ outcome = items.mapM f := by
  have hsound : ∀ outcome, Outcome f items outcome → outcome = items.mapM f := by
    rintro outcome ⟨stages, hreached, hcollected⟩
    cases hcollected with
    | results results => exact (mapM_eq_ok_of_faithful hreached.faithful).symm
    | failure failed =>
      obtain ⟨x, hx, herror⟩ := exists_error_of_faithful hreached.faithful failed
      cases hpass : items.mapM f with
      | ok ys =>
        obtain ⟨y, -, hy⟩ := forall_ok_of_mapM_eq_ok hpass x hx
        rw [herror] at hy
        cases hy
      | error e =>
        -- the pass may have met another failure first
        obtain ⟨z, -, hz⟩ := exists_error_of_mapM_eq_error hpass
        rw [hf x _ herror, hf z _ hz]
  constructor
  · exact hsound outcome
  · rintro rfl
    have hstart : Faithful f items (untouched items) := faithful_untouched
    obtain ⟨stages, outcome, hsteps, hcollected⟩ := hstart.exists_collected
    have houtcome : Outcome f items outcome := ⟨stages, hsteps, hcollected⟩
    rwa [hsound outcome houtcome] at houtcome

end Workers

/-! ### The phases with workers -/

namespace Analysis

/-- The analysis with settings that say whether workers may resolve the callers. -/
def allowing (analysis : Analysis) (parallel : Bool) : Analysis :=
  { analysis with config := { analysis.config with parallel } }

/-- The findings on a pair of a request method and a caller, for a report. -/
def resolvePair (analysis : Analysis) (entry : String) (report : Report) (pair : Site × Site) :
    Except Error (List Finding) :=
  analysis.analyzeCaller pair.1 pair.2 report.permissions report.package entry

/-- What resolving the discovered pairs may come to: with workers, if the settings allow them, else
in turn. -/
inductive Resolved (analysis : Analysis) (entry : String) (report : Report) :
    Except Error (List (List Finding)) → Prop where
  | inTurn (refused : analysis.config.parallel = false) :
      Resolved analysis entry report (analysis.pairs.mapM (analysis.resolvePair entry report))
  | byWorkers (allowed : analysis.config.parallel = true) {found : Except Error (List (List Finding))}
      (outcome : Workers.Outcome (analysis.resolvePair entry report) analysis.pairs found) :
      Resolved analysis entry report found

/-- Adds what the pairs came to, and counts the findings that were new. -/
def record (found : Except Error (List (List Finding))) : InPlace Nat := do
  InPlace.pushAll (← MonadExcept.ofExcept found).flatten 0

/-- What the request phase may do to a report. -/
def RequestOutcome (analysis : Analysis) (entry : String) (report : Report)
    (result : EStateM.Result Error Report Nat) : Prop :=
  ∃ found, analysis.Resolved entry report found ∧ (record found).run report = result

/-- What a run of both phases may do to a report. -/
def RunOutcome (analysis : Analysis) (entry : String) (report : Report)
    (result : EStateM.Result Error Report Unit) : Prop :=
  ∃ found, analysis.Resolved entry report found ∧
    (InPlace.staged do
      let _ ← record found
      analysis.analyzeExplanationsInPlace).run report = result

variable {analysis : Analysis} {entry : String} {report : Report}

lemma outcome_resolvePair_iff {work : List (Site × Site)}
    {found : Except Error (List (List Finding))} :
    Workers.Outcome (analysis.resolvePair entry report) work found ↔
      found = work.mapM (analysis.resolvePair entry report) := by
  have hcause : ∀ pair e, analysis.resolvePair entry report pair = .error e →
      e = .missingStringTable report.package analysis.config.defaultLocale := by
    intro pair e h
    exact (analyzeCaller_eq_error_iff.1 h).1
  exact Workers.outcome_iff hcause

lemma resolved_iff {found : Except Error (List (List Finding))} :
    analysis.Resolved entry report found ↔
      found = analysis.pairs.mapM (analysis.resolvePair entry report) := by
  constructor
  · intro h
    cases h with
    | inTurn => rfl
    | byWorkers _ outcome => exact outcome_resolvePair_iff.1 outcome
  · rintro rfl
    cases h : analysis.config.parallel with
    | false => exact .inTurn h
    | true => exact .byWorkers h (outcome_resolvePair_iff.2 rfl)

lemma requestOutcome_iff {result : EStateM.Result Error Report Nat} :
    analysis.RequestOutcome entry report result ↔
      result = (analysis.analyzeRequestsInPlace entry).run report := by
  simp only [RequestOutcome, resolved_iff, exists_eq_left]
  exact eq_comm

lemma runOutcome_iff {result : EStateM.Result Error Report Unit} :
    analysis.RunOutcome entry report result ↔
      result = (analysis.runInPlace entry).run report := by
  simp only [RunOutcome, resolved_iff, exists_eq_left]
  rw [runInPlace, InPlace.run_staged, InPlace.run_staged]
  exact eq_comm

/-- Whatever pairs workers are given and whatever order they keep, they come to an end, and to the
outcome of resolving the pairs in turn, with the same findings or the same failure. So the request
phase and the run of both phases do the same to a report whether workers are allowed or not. -/
theorem workers_agree_with_turns (analysis : Analysis) (entry : String) (report : Report) :
    (∀ work stages, Workers.Reached (analysis.resolvePair entry report) work stages →
      ∃ later found, ReflTransGen (Workers.Step (analysis.resolvePair entry report) work)
        stages later ∧ Workers.Collected later found) ∧
    (∀ work found, Workers.Outcome (analysis.resolvePair entry report) work found ↔
      found = work.mapM (analysis.resolvePair entry report)) ∧
    ∀ parallel,
      (∀ result, (analysis.allowing parallel).RequestOutcome entry report result ↔
        result = (analysis.analyzeRequestsInPlace entry).run report) ∧
      ∀ result, (analysis.allowing parallel).RunOutcome entry report result ↔
        result = (analysis.runInPlace entry).run report := by
  refine ⟨?_, ?_, ?_⟩
  · intro work stages hreached
    exact hreached.faithful.exists_collected
  · intro work found
    exact outcome_resolvePair_iff
  · intro parallel
    -- the programs read every setting but this one
    have hrequests : (analysis.allowing parallel).analyzeRequestsInPlace entry =
        analysis.analyzeRequestsInPlace entry := rfl
    have hrun : (analysis.allowing parallel).runInPlace entry = analysis.runInPlace entry := rfl
    refine ⟨fun result => ?_, fun result => ?_⟩
    · rw [requestOutcome_iff, hrequests]
    · rw [runOutcome_iff, hrun]

end Analysis

/-! ### Workers without a table

Both callers are taken, and the second is finished first. It has no text, so it fails for want of a
table, and the failure may be reported while the first caller is still at work. -/

namespace Sample

def tableless : Analysis where
  index := .ofLog (log.take 4)
  config := {}
  accepts _ _ := true

lemma reached_tableless :
    Workers.Reached (tableless.resolvePair "Main" report) [(request, asker), (request, silent)]
      [.taken, .done (.error (.missingStringTable "app" "DEFAULT"))] := by
  have hfail : tableless.resolvePair "Main" report (request, silent) =
      .error (.missingStringTable "app" "DEFAULT") :=
    Analysis.analyzeCaller_eq_error_iff.2 ⟨rfl, by decide, by decide⟩
  rw [← hfail]
  exact .tail (.tail (.single (.take (i := 1) rfl)) (.take (i := 0) rfl)) (.finish (i := 1) rfl rfl)

end Sample

namespace Analysis

theorem workers_agree_with_turns_tableless :
    Workers.Outcome (Sample.tableless.resolvePair "Main" Sample.report)
        [(Sample.request, Sample.asker), (Sample.request, Sample.silent)]
        (.error (.missingStringTable "app" "DEFAULT")) ∧
      [(Sample.request, Sample.asker), (Sample.request, Sample.silent)].mapM
          (Sample.tableless.resolvePair "Main" Sample.report) =
        .error (.missingStringTable "app" "DEFAULT") ∧
      (∃ later found, ReflTransGen
        (Workers.Step (Sample.tableless.resolvePair "Main" Sample.report)
          [(Sample.request, Sample.asker), (Sample.request, Sample.silent)])
        [.taken, .done (.error (.missingStringTable "app" "DEFAULT"))] later ∧
          Workers.Collected later found) ∧
      (Sample.tableless.allowing true).RunOutcome "Main" Sample.report
        ((Sample.tableless.runInPlace "Main").run Sample.report) := by
  obtain ⟨hends, hsame, hphases⟩ :=
    workers_agree_with_turns Sample.tableless "Main" Sample.report
  have houtcome : Workers.Outcome (Sample.tableless.resolvePair "Main" Sample.report)
      [(Sample.request, Sample.asker), (Sample.request, Sample.silent)]
      (.error (.missingStringTable "app" "DEFAULT")) :=
    ⟨_, Sample.reached_tableless, .failure (by simp)⟩
  refine ⟨houtcome, ((hsame _ _).1 houtcome).symm, ?_, ((hphases true).2 _).2 rfl⟩
  exact hends _ _ Sample.reached_tableless

end Analysis

end RequestTrail
