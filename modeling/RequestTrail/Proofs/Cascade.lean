import RequestTrail.Index.Lists
import RequestTrail.Proofs.Attribution

/-!
# The meaning of the cascade

Which permissions the cascade ties to a caller, told without the searches of its tiers. Each tier
stands for a property of declared permissions and an order: permissions in the text and permissions
near a literal come in ascending order, permissions behind resource identifiers in the order of the
identifiers. The answer of the cascade enumerates the permissions with the first property that
any has.
-/

namespace RequestTrail

namespace Index

variable {index : Index} {config : Config} {package source : String} {caller : Site}
  {permissions : PermissionSet} {found : List Attribution}

/-! ### What the tiers look for -/

/-- A declared permission that is a substring of the text. -/
def InText (permissions : PermissionSet) (source : String) (p : String) : Prop :=
  p ∈ permissions.toList ∧ p.toList <:+: source.toList

/-- A declared permission that is the resolved string of a resource identifier in the text. -/
def BehindId (index : Index) (config : Config) (package source : String)
    (permissions : PermissionSet) (p : String) : Prop :=
  p ∈ permissions.toList ∧
    ∃ id ∈ ResourceId.scan source, index.string? package config.defaultLocale id = some p

/-- Where the first identifier that resolves to a string stands among those of the text. -/
def firstId (index : Index) (config : Config) (package source : String) (value : String) : Nat :=
  (ResourceId.scan source).findIdx fun id =>
    index.string? package config.defaultLocale id == some value

/-- A declared permission that is a substring of a literal which is loaded by a method of the
caller's base class. -/
def NearLiteral (index : Index) (config : Config) (caller : Site) (permissions : PermissionSet)
    (p : String) : Prop :=
  p ∈ permissions.toList ∧ ∃ literal ∈ index.literals, p.toList <:+: literal.value.toList ∧
    ∃ site ∈ literal.references,
      site.baseClass config.nestedClassSeparator = caller.baseClass config.nestedClassSeparator

/-! ### What the tiers find -/

lemma exists_matchLiterals_eq (source : String) (permissions : PermissionSet) :
    ∃ names, matchLiterals source permissions = names.map (⟨·, .literal⟩) ∧
      Enumerates (InText permissions source) (· < ·) names := by
  have h := Enumerates.filter permissions.ascending fun p => Text.contains source p
  refine ⟨_, rfl, ?_, h.ordered⟩
  intro p
  rw [h.mem_iff, Text.contains_iff_infix, InText]

lemma exists_matchReferences_eq (index : Index) (config : Config) (caller : Site)
    (permissions : PermissionSet) :
    ∃ names, index.matchReferences config caller permissions = names.map (⟨·, .stringReference⟩) ∧
      Enumerates (index.NearLiteral config caller permissions) (· < ·) names := by
  have h := Enumerates.filter permissions.ascending (index.isReferencedNear config caller)
  refine ⟨_, rfl, ?_, h.ordered⟩
  intro p
  rw [h.mem_iff, isReferencedNear_iff, NearLiteral]

lemma exists_matchResourceIds_eq (index : Index) (config : Config) (package source : String)
    (permissions : PermissionSet)
    (htable : index.hasTable package config.defaultLocale = true) :
    ∃ names, index.matchResourceIds config package source permissions =
        .ok (names.map (⟨·, .resourceId⟩)) ∧
      Enumerates (index.BehindId config package source permissions)
        (fun p q => index.firstId config package source p < index.firstId config package source q)
        names := by
  have h := Enumerates.eraseDups_filter ((ResourceId.scan source).filterMap
    (index.string? package config.defaultLocale)) permissions.contains
  refine ⟨_, ?_, ?_, h.ordered.imp findIdx_lt_of_idxOf_filterMap_lt⟩
  · rw [matchResourceIds_eq_map, resolve_of_hasTable htable]
    rfl
  · intro p
    rw [h.mem_iff, List.mem_filterMap, PermissionSet.contains_iff, and_comm, BehindId]

/-! ### The first tier that finds anything -/

lemma attributions_of_matchLiterals (h : matchLiterals source permissions ≠ []) :
    index.attributions config package caller source permissions =
      .ok (matchLiterals source permissions) := by
  simp [attributions, h]

lemma attributions_of_matchResourceIds (hliterals : matchLiterals source permissions = [])
    (hids : index.matchResourceIds config package source permissions = .ok found)
    (hne : found ≠ []) :
    index.attributions config package caller source permissions = .ok found := by
  simp only [attributions, hliterals, List.isEmpty_nil, if_true, hids]
  cases found with
  | nil => exact absurd rfl hne
  | cons => rfl

lemma attributions_of_matchReferences (hliterals : matchLiterals source permissions = [])
    (hids : index.matchResourceIds config package source permissions = .ok []) :
    index.attributions config package caller source permissions =
      .ok (index.matchReferences config caller permissions) := by
  simp only [attributions, hliterals, List.isEmpty_nil, if_true, hids]
  rfl

/-- The exact meaning of the cascade. If a declared permission stands in the text, the answer is
those that do, whether or not there is a table of resolved strings. Otherwise the cascade fails
exactly when the table is missing. Otherwise, if an identifier in the text resolves to a declared
permission, the answer is those to which one does. Otherwise it is those in literals near the
caller. So whatever is found is declared, found once and found by one tier. -/
theorem attributions_exact (index : Index) (config : Config) (package : String) (caller : Site)
    (source : String) (permissions : PermissionSet) :
    let result := index.attributions config package caller source permissions
    let inText := InText permissions source
    let behindId := index.BehindId config package source permissions
    let firstId := index.firstId config package source
    let nearLiteral := index.NearLiteral config caller permissions
    ((∃ p, inText p) → ∃ names, result = .ok (names.map (⟨·, .literal⟩)) ∧
      Enumerates inText (· < ·) names) ∧
    ((¬ ∃ p, inText p) →
      (∀ e, result = .error e ↔ e = .missingStringTable package config.defaultLocale ∧
        index.hasTable package config.defaultLocale = false) ∧
      (index.hasTable package config.defaultLocale = true →
        ((∃ p, behindId p) → ∃ names, result = .ok (names.map (⟨·, .resourceId⟩)) ∧
          Enumerates behindId (fun p q => firstId p < firstId q) names) ∧
        ((¬ ∃ p, behindId p) → ∃ names, result = .ok (names.map (⟨·, .stringReference⟩)) ∧
          Enumerates nearLiteral (· < ·) names))) ∧
    ∀ found, result = .ok found →
      (found.map Attribution.permission).Nodup ∧
        (∀ a ∈ found, a.permission ∈ permissions.toList) ∧
          ∃ tier ≠ .unknown, ∀ a ∈ found, a.tier = tier := by
  intro result inText behindId firstId nearLiteral
  obtain ⟨literals, hliterals, hinText⟩ := exists_matchLiterals_eq source permissions
  refine ⟨fun hsome => ⟨literals, ?_, hinText⟩, fun hnone => ?_, ?_⟩
  · have hne : matchLiterals source permissions ≠ [] := by
      rw [hliterals, ne_eq, List.map_eq_nil_iff, hinText.eq_nil_iff, not_not]
      exact hsome
    exact hliterals ▸ attributions_of_matchLiterals hne
  · have hempty : matchLiterals source permissions = [] := by
      rw [hliterals, List.map_eq_nil_iff]
      exact hinText.eq_nil_iff.2 hnone
    refine ⟨fun e => ?_, fun htable => ?_⟩
    · have hall := matchLiterals_isEmpty_iff.1 (List.isEmpty_iff.2 hempty)
      exact attributions_eq_error_iff.trans (and_congr_right fun _ => and_iff_left hall)
    · obtain ⟨ids, hids, hbehindId⟩ :=
        exists_matchResourceIds_eq index config package source permissions htable
      refine ⟨fun hsome => ⟨ids, ?_, hbehindId⟩, fun hnone => ?_⟩
      · apply attributions_of_matchResourceIds hempty hids
        rw [ne_eq, List.map_eq_nil_iff, hbehindId.eq_nil_iff, not_not]
        exact hsome
      · obtain rfl : ids = [] := hbehindId.eq_nil_iff.2 hnone
        obtain ⟨references, hreferences, hnear⟩ :=
          exists_matchReferences_eq index config caller permissions
        exact ⟨references, hreferences ▸ attributions_of_matchReferences hempty hids, hnear⟩
  · intro found hfound
    obtain ⟨tier, hknown, htier⟩ := attributions_ofTier hfound
    exact ⟨htier.distinct, htier.declared, tier, hknown, htier.tier_eq⟩

end Index

/-! ### An application with all kinds of evidence

Strings of one package are resolved. One literal is loaded by the class around the caller's, and
another by a class whose name only begins in the same way. -/

namespace Sample

def declared : PermissionSet := .ofList ["SMS", "CAMERA", "LOCATION"]

def clicked : Site := { className := "Lcom/app/Screen$1;", name := "onClick" }

def shown : Site := { className := "Lcom/app/Screen;", name := "show" }

def saved : Site := { className := "Lcom/app/Screens;", name := "save" }

def evident : Index :=
  .ofLog [.string "app" "DEFAULT" 2131689500 "SMS", .string "app" "DEFAULT" 2131689501 "CAMERA",
    .literal { value := "needs CAMERA", references := [saved] },
    .literal { value := "needs LOCATION", references := [shown] }]

/-- The texts of two identifiers, one of them twice. -/
def idText : String := "get(2131689500, 2131689501, 2131689500)"

lemma inText_sms : Index.InText declared "ask(SMS, CAMERA)" "SMS" :=
  ⟨by decide, Text.contains_iff_infix.1 (by decide)⟩

lemma not_inText (source : String)
    (h : ∀ p ∈ declared.toList, Text.contains source p = false) :
    ¬ ∃ p, Index.InText declared source p := by
  rintro ⟨p, hp, hin⟩
  rw [← Text.contains_iff_infix, h p hp] at hin
  exact absurd hin (by simp)

lemma behindId_sms : evident.BehindId {} "app" idText declared "SMS" :=
  ⟨by decide, 2131689500, by decide +kernel, by decide +kernel⟩

lemma not_behindId : ¬ ∃ p, evident.BehindId {} "app" "ask()" declared p := by
  rintro ⟨p, -, id, hid, -⟩
  exact absurd hid (by simp [show ResourceId.scan "ask()" = [] from by decide])

end Sample

namespace Index

/-- Names that are found by one tier are told from what is found. -/
lemma enumerates_of_attributions {P : String → Prop} {R : String → String → Prop} {tier : Tier}
    {result : Except Error (List Attribution)} {names : List String}
    (h : ∃ names, result = .ok (names.map (⟨·, tier⟩)) ∧ Enumerates P R names)
    (hresult : result = .ok (names.map (⟨·, tier⟩))) : Enumerates P R names := by
  obtain ⟨names', hresult', henumerates⟩ := h
  have hfound := congrArg (List.map Attribution.permission)
    (Except.ok.inj (hresult'.symm.trans hresult))
  simp only [List.map_map, Function.comp_def, List.map_id_fun', id] at hfound
  exact hfound ▸ henumerates

/-- The first tier answers in ascending order, also without a table; the second in the order of the
text. The third finds what is loaded in the class around the caller's, and nothing of the class with
the longer name. -/
theorem attributions_exact_evident :
    let resolve (package source : String) :=
      Sample.evident.attributions {} package Sample.clicked source Sample.declared
    let firstId := Sample.evident.firstId {} "app" Sample.idText
    (resolve "other" "ask(SMS, CAMERA)" = .ok [⟨"CAMERA", .literal⟩, ⟨"SMS", .literal⟩] ∧
      Enumerates (InText Sample.declared "ask(SMS, CAMERA)") (· < ·) ["CAMERA", "SMS"]) ∧
    resolve "other" "ask()" = .error (.missingStringTable "other" "DEFAULT") ∧
    (resolve "app" Sample.idText = .ok [⟨"SMS", .resourceId⟩, ⟨"CAMERA", .resourceId⟩] ∧
      Enumerates (Sample.evident.BehindId {} "app" Sample.idText Sample.declared)
        (fun p q => firstId p < firstId q) ["SMS", "CAMERA"]) ∧
    resolve "app" "ask()" = .ok [⟨"LOCATION", .stringReference⟩] ∧
      Enumerates (Sample.evident.NearLiteral {} Sample.clicked Sample.declared) (· < ·)
        ["LOCATION"] := by
  intro resolve firstId
  have hexact := attributions_exact Sample.evident {}
  have hsilent := Sample.not_inText "ask()" (by decide)
  have hliteral : resolve "other" "ask(SMS, CAMERA)" =
      .ok [⟨"CAMERA", .literal⟩, ⟨"SMS", .literal⟩] := rfl
  have hid : resolve "app" Sample.idText =
      .ok [⟨"SMS", .resourceId⟩, ⟨"CAMERA", .resourceId⟩] := rfl
  have hreference : resolve "app" "ask()" = .ok [⟨"LOCATION", .stringReference⟩] := rfl
  refine ⟨⟨hliteral, ?_⟩, ?_, ⟨hid, ?_⟩, hreference, ?_⟩
  · exact enumerates_of_attributions ((hexact "other" _ _ _).1 ⟨"SMS", Sample.inText_sms⟩) hliteral
  · exact (((hexact "other" _ _ _).2.1 hsilent).1 _).2 ⟨rfl, by decide⟩
  · have hids := (hexact "app" Sample.clicked Sample.idText Sample.declared).2.1
      (Sample.not_inText _ (by decide))
    exact enumerates_of_attributions ((hids.2 (by decide +kernel)).1 ⟨"SMS", Sample.behindId_sms⟩)
      hid
  · exact enumerates_of_attributions
      ((((hexact "app" _ _ _).2.1 hsilent).2 (by decide +kernel)).2 Sample.not_behindId) hreference

end Index

end RequestTrail
