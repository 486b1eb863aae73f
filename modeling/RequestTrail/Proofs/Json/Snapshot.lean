import RequestTrail.Index.Json
import RequestTrail.Proofs.Json.Records

/-!
# Snapshots lose nothing as JSON

Every snapshot is read back from its text as it is. The site of a method entry is spread over the
entry's object, beside a text that may be missing; the identifiers of resolved strings are keys,
written as numerals.
-/

namespace RequestTrail

open Json (Lossless ReadsBack)

lemma Call.lossless : Lossless Call.toJson Call.ofJson? where
  readsBack call := by
    apply Json.readsBack_ofFields
    simp [Site.lossless.readsBack, Json.readsBack_ofNat]
  read_write call := by
    have hsite := Site.lossless.read_write
    have hword := Json.lossless_word32.read_write
    simp [toJson, ofJson?, Json.fields?_ofFields, Json.field?, Json.required, Json.orElse, hsite,
      hword]

lemma Literal.lossless : Lossless Literal.toJson Literal.ofJson? where
  readsBack literal := by
    apply Json.readsBack_ofFields
    simp [Json.readsBack_ofString, Site.lossless.list.readsBack]
  read_write literal := by
    have htext := Json.lossless_text.read_write
    have hsites := Site.lossless.list.read_write
    simp [toJson, ofJson?, Json.fields?_ofFields, Json.field?, Json.required, Json.orElse, htext,
      hsites]

namespace Snapshot

/-! ### Method entries -/

/-- A text can always be held before its type is known. -/
lemma isStorable_ofString (room : Nat) (text : String) :
    (Json.ofString text).isStorable room = true := by
  simp [Json.ofString, Json.isStorable, Json.unescape?_escape]

lemma MethodEntry.ofJson?_ofFields (depth : Nat) (fields : List (String × Json)) :
    ofJson? depth (.ofFields fields) = do
      let held := fields.filter fun m => m.1 != "source"
      if !held.all fun m => m.2.isStorable (nestingLimit - (depth + 1)) then none
      let source ← Json.nullable Json.text? (← Json.field? fields "source")
      let site ← Site.ofFields? (← Site.fieldNames.mapM (Json.field? held))
      return { site, source } := by
  change (Json.keyed? (fields.map fun f => (Json.escape f.1.toList, f.2)) >>= _) = _
  rw [Json.keyed?_map_escape]
  rfl

lemma MethodEntry.lossless (depth : Nat) :
    Lossless MethodEntry.toJson (MethodEntry.ofJson? depth) where
  readsBack m := by
    apply Json.readsBack_ofFields
    cases m.source <;> simp [Json.readsBack_ofString]
  read_write m := by
    have htext := Json.lossless_text.read_write
    obtain ⟨site, source⟩ := m
    cases source <;>
      simp [toJson, ofJson?_ofFields, isStorable_ofString, Json.field?, Site.fieldNames,
        Site.ofFields?, Json.required, Json.orElse, Json.nullable_ofString, htext]
    rfl

/-! ### Tables -/

namespace Table

/-- A numeral is the literal of itself. -/
lemma escape_numeral (n : Nat) : Json.escape (Text.numeral n) = Text.numeral n := by
  apply Json.escape_of_forall_isPlain
  intro c hc
  have hdigit := Char.isDigit_iff_toNat.1 (Text.isDigit_of_mem_numeral hc)
  simp only [Char.reduceToNat] at hdigit
  refine Json.isPlain_iff.2 ⟨by omega, ?_, ?_⟩ <;> rintro rfl <;> simp at hdigit

lemma readsBack_stringsToJson (strings : StringTable) : ReadsBack (stringsToJson strings) := by
  apply Json.readsBack_object
  · intro m hm
    obtain ⟨⟨id, value⟩, -, rfl⟩ := List.mem_map.1 hm
    exact ⟨_, (escape_numeral id.toNat).symm⟩
  · intro m hm
    obtain ⟨⟨id, value⟩, -, rfl⟩ := List.mem_map.1 hm
    exact Json.readsBack_ofString value

lemma lossless_strings : Lossless stringsToJson stringsOfJson? where
  readsBack := readsBack_stringsToJson
  read_write strings := by
    have hentry : ∀ e : UInt64 × String,
        stringOfJson? (Text.numeral e.1.toNat, Json.ofString e.2) = some e := by
      intro e
      simp [stringOfJson?, Text.canonicalBelow?_numeral e.1.toNat_lt_size,
        Json.lossless_text.read_write]
    change ((strings.toList.map fun e => (Text.numeral e.1.toNat, Json.ofString e.2)).mapM
      stringOfJson?).map SortedMap.ofList = some strings
    rw [mapM_map_eq_some hentry, Option.map_some, SortedMap.ofList_toList]

lemma lossless : Lossless Table.toJson Table.ofJson? where
  readsBack t := by
    apply Json.readsBack_ofFields
    simp [Json.readsBack_ofString, readsBack_stringsToJson]
  read_write t := by
    have htext := Json.lossless_text.read_write
    have hstrings := lossless_strings.read_write
    simp [toJson, ofJson?, Json.fields?_ofFields, Json.field?, Json.required, Json.orElse, htext,
      hstrings]

end Table

lemma lossless : Lossless Snapshot.toJson Snapshot.ofJson? where
  readsBack s := by
    apply Json.readsBack_ofFields
    simp [(MethodEntry.lossless 2).list.readsBack, Call.lossless.list.readsBack,
      Literal.lossless.list.readsBack, Table.lossless.list.readsBack]
  read_write s := by
    have hmethods := (MethodEntry.lossless 2).list.read_write
    have hcalls := Call.lossless.list.read_write
    have hliterals := Literal.lossless.list.read_write
    have htables := Table.lossless.list.read_write
    simp [toJson, ofJson?, Json.fields?_ofFields, Json.field?, Json.orElse, hmethods, hcalls,
      hliterals, htables]

/-- The text of a snapshot gives the snapshot, so what is loaded from it, as an index or as the
graph behind one, is what the snapshot stands for. -/
theorem ofJsonText_toText_toJson (s : Snapshot) :
    ofJsonText s.toJson.toText = .ok s ∧
      Index.ofJsonText s.toJson.toText = .ok (Index.ofSnapshot s) ∧
      GraphIndex.ofJsonText s.toJson.toText = .ok (GraphIndex.ofSnapshot s) := by
  have hread : ofJsonText s.toJson.toText = .ok s := by
    rw [ofJsonText, lossless.bind_ofText? s]
  refine ⟨hread, ?_, ?_⟩
  · rw [Index.ofJsonText, hread]
    rfl
  · rw [GraphIndex.ofJsonText, hread]
    rfl

end Snapshot

end RequestTrail
