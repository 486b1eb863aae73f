import RequestTrail.Proofs.Json.Records
import RequestTrail.Report.Json

/-!
# Reports lose nothing as JSON

Every report is read back from its text as it is: its findings in their order, also those with equal
keys, with or without a reason, and its permissions, which are in order already.
-/

namespace RequestTrail

open Json (Lossless ReadsBack)

lemma Tier.lossless : Lossless Tier.toJson Tier.ofJson? where
  readsBack tier := Json.readsBack_ofString tier.name
  read_write tier := by
    simp [toJson, ofJson?, Json.ofString, Json.literalText?_escape]

namespace Finding

lemma readsBack_toJson (finding : Finding) : ReadsBack finding.toJson := by
  have htext := Json.readsBack_ofString
  have hsite := Site.lossless.readsBack
  have hsites := Site.lossless.list.readsBack
  have htexts := Json.lossless_texts.readsBack
  have htier := Tier.lossless.readsBack
  apply Json.readsBack_ofFields
  cases finding.reason <;> simp [htext, hsite, hsites, htexts, htier]

/-- A missing reason is no field, and is read from no field. -/
lemma ofJson?_toJson (finding : Finding) : ofJson? finding.toJson = some finding := by
  have htext := Json.lossless_text.read_write
  have hsite := Site.lossless.read_write
  have hsites := Site.lossless.list.read_write
  have htexts := Json.lossless_texts.read_write
  have htier := Tier.lossless.read_write
  obtain ⟨permission, request, caller, path, explanation, reason, tier⟩ := finding
  cases reason <;>
    simp [toJson, ofJson?, Json.fields?_ofFields, Json.field?, Json.required, Json.orElse,
      Json.nullable_ofString, htext, hsite, hsites, htexts, htier]
  rfl

lemma lossless : Lossless Finding.toJson Finding.ofJson? where
  readsBack := readsBack_toJson
  read_write := ofJson?_toJson

end Finding

namespace Report

lemma lossless : Lossless Report.toJson Report.ofJson? where
  readsBack report := by
    apply Json.readsBack_ofFields
    simp [Json.readsBack_ofString, Json.lossless_texts.readsBack, Finding.lossless.list.readsBack]
  read_write report := by
    have htext := Json.lossless_text.read_write
    have htexts := Json.lossless_texts.read_write
    have hfindings := Finding.lossless.list.read_write
    simp [toJson, ofJson?, Json.fields?_ofFields, Json.field?, Json.required, Json.orElse, htext,
      htexts, hfindings, PermissionSet.ofList_toList]

/-- The text of a report gives the report. -/
theorem ofText?_toText_toJson (report : Report) :
    (Json.ofText? report.toJson.toText).bind ofJson? = some report :=
  lossless.bind_ofText? report

end Report

end RequestTrail
