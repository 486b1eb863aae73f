import RequestTrail.Attribution
import RequestTrail.Proofs.Traversal

/-!
# Attribution

What the tiers have in common: each ties distinct declared permissions to a caller, under its own
name. The cascade fails exactly when the table of resolved strings is missing and no declared
permission stands in the text, for then the second tier is asked.
-/

namespace RequestTrail

namespace PermissionSet

lemma nodup_toList (s : PermissionSet) : s.toList.Nodup := by
  refine s.ascending.imp ?_
  intro a b hlt
  exact Std.ne_of_lt hlt

@[simp]
lemma contains_iff {s : PermissionSet} {name : String} :
    s.contains name = true ↔ name ∈ s.toList := by
  simp [contains]

end PermissionSet

namespace Index

variable {index : Index} {config : Config} {package source : String} {caller : Site}
  {permissions : PermissionSet} {found : List Attribution} {e : Error}

/-! ### What a tier gives -/

/-- Attributions by one tier, to distinct declared permissions. -/
structure OfTier (permissions : PermissionSet) (tier : Tier) (found : List Attribution) :
    Prop where
  tier_eq : ∀ a ∈ found, a.tier = tier
  distinct : (found.map Attribution.permission).Nodup
  declared : ∀ a ∈ found, a.permission ∈ permissions.toList

lemma ofTier_map {names : List String} (tier : Tier) (hdistinct : names.Nodup)
    (hdeclared : ∀ p ∈ names, p ∈ permissions.toList) :
    OfTier permissions tier (names.map fun p => ⟨p, tier⟩) where
  tier_eq := by
    intro a ha
    obtain ⟨p, _, rfl⟩ := List.mem_map.1 ha
    rfl
  distinct := by simpa [List.map_map, Function.comp_def] using hdistinct
  declared := by
    intro a ha
    obtain ⟨p, hp, rfl⟩ := List.mem_map.1 ha
    exact hdeclared p hp

lemma ofTier_matchLiterals (source : String) (permissions : PermissionSet) :
    OfTier permissions .literal (matchLiterals source permissions) :=
  ofTier_map _ (permissions.nodup_toList.filter _) fun _ hp => (List.mem_filter.1 hp).1

lemma ofTier_matchReferences (index : Index) (config : Config) (caller : Site)
    (permissions : PermissionSet) :
    OfTier permissions .stringReference (index.matchReferences config caller permissions) :=
  ofTier_map _ (permissions.nodup_toList.filter _) fun _ hp => (List.mem_filter.1 hp).1

lemma ofTier_matchResourceIds
    (h : index.matchResourceIds config package source permissions = .ok found) :
    OfTier permissions .resourceId found := by
  obtain ⟨_, _, hfound⟩ := bind_eq_ok_iff.1 h
  obtain rfl := Except.ok.inj hfound
  apply ofTier_map _ (nodup_eraseDups _)
  intro p hp
  have hp := (List.mem_filter.1 (List.mem_eraseDups.1 hp)).2
  exact PermissionSet.contains_iff.1 hp

/-- Whatever a caller is found to request is found by one tier. -/
lemma attributions_ofTier
    (h : index.attributions config package caller source permissions = .ok found) :
    ∃ tier, tier ≠ .unknown ∧ OfTier permissions tier found := by
  simp only [attributions] at h
  split at h
  · obtain ⟨resource, hresource, hfound⟩ := bind_eq_ok_iff.1 h
    obtain rfl := Except.ok.inj hfound
    split
    · exact ⟨.stringReference, by simp, ofTier_matchReferences index config caller permissions⟩
    · exact ⟨.resourceId, by simp, ofTier_matchResourceIds hresource⟩
  · obtain rfl := Except.ok.inj h
    exact ⟨.literal, by simp, ofTier_matchLiterals source permissions⟩

/-! ### What the cascade depends on -/

/-- The resolved strings of a text, by the table that the settings select. -/
def resolve (index : Index) (config : Config) (package source : String) :
    Except Error (List String) :=
  (resolvedStrings · source) <$> index.selectTable config package

/-- Indexes that know the same strings of the table resolve the same strings of a text. -/
lemma resolve_congr {other : Index}
    (htable : index.hasTable package config.defaultLocale =
      other.hasTable package config.defaultLocale)
    (hstrings : ∀ id, index.string? package config.defaultLocale id =
      other.string? package config.defaultLocale id) :
    index.resolve config package source = other.resolve config package source := by
  rw [resolve, resolve, selectTable, selectTable, htable, funext hstrings]

/-- With a table, the resolved strings are those that the index knows for the identifiers. -/
lemma resolve_of_hasTable (h : index.hasTable package config.defaultLocale = true) :
    index.resolve config package source =
      .ok ((ResourceId.scan source).filterMap (index.string? package config.defaultLocale)) := by
  rw [resolve, selectTable, if_pos h]
  rfl

lemma matchResourceIds_eq_map :
    index.matchResourceIds config package source permissions =
      (fun strings =>
        (strings.filter permissions.contains).eraseDups.map fun p => ⟨p, .resourceId⟩) <$>
        index.resolve config package source := by
  unfold matchResourceIds resolve
  cases index.selectTable config package <;> rfl

lemma isReferencedNear_iff {p : String} :
    index.isReferencedNear config caller p = true ↔
      ∃ literal ∈ index.literals, p.toList <:+: literal.value.toList ∧
        ∃ site ∈ literal.references, site.baseClass config.nestedClassSeparator =
          caller.baseClass config.nestedClassSeparator := by
  simp [isReferencedNear, Text.contains_iff_infix]

/-- Indexes that resolve the same strings and know the same literals near a caller tie the same
permissions to it. -/
lemma attributions_congr {other : Index} {site : Site}
    (hresolve : other.resolve config package source = index.resolve config package source)
    (hnear : ∀ p, other.isReferencedNear config site p = index.isReferencedNear config caller p) :
    other.attributions config package site source permissions =
      index.attributions config package caller source permissions := by
  have hreferences : other.matchReferences config site permissions =
      index.matchReferences config caller permissions := by
    unfold matchReferences
    rw [funext hnear]
  simp only [attributions, matchResourceIds_eq_map, hresolve, hreferences]

/-! ### When the cascade fails -/

/-- The table of resolved strings is asked for and is missing. -/
lemma selectTable_eq_error_iff :
    index.selectTable config package = .error e ↔
      e = .missingStringTable package config.defaultLocale ∧
        index.hasTable package config.defaultLocale = false := by
  rw [selectTable]
  cases index.hasTable package config.defaultLocale <;> simp [eq_comm]

lemma matchResourceIds_eq_error_iff :
    index.matchResourceIds config package source permissions = .error e ↔
      e = .missingStringTable package config.defaultLocale ∧
        index.hasTable package config.defaultLocale = false := by
  rw [matchResourceIds, bind_eq_error_iff, selectTable_eq_error_iff]
  simp [pure, Except.pure]

lemma matchLiterals_isEmpty_iff :
    (matchLiterals source permissions).isEmpty = true ↔
      ∀ p ∈ permissions.toList, Text.contains source p = false := by
  simp [matchLiterals, List.isEmpty_iff]

/-- The cascade fails if it comes to the second tier and the table is missing. -/
lemma attributions_eq_error_iff :
    index.attributions config package caller source permissions = .error e ↔
      e = .missingStringTable package config.defaultLocale ∧
        index.hasTable package config.defaultLocale = false ∧
          ∀ p ∈ permissions.toList, Text.contains source p = false := by
  rw [← matchLiterals_isEmpty_iff]
  simp only [attributions]
  split
  · rename_i hempty
    rw [bind_eq_error_iff, matchResourceIds_eq_error_iff]
    simp [pure, Except.pure, hempty]
  · rename_i hfound
    simp [hfound]

end Index

end RequestTrail
