import RequestTrail.Index.Json
import RequestTrail.Proofs.Json.Reading
import RequestTrail.Proofs.Traversal

/-!
# Forms that lose nothing

A type's JSON form is lossless if every value is read back, from the JSON value that is written for
it and from its text. Forms of texts and words are, lists of lossless forms are, and a record of
lossless forms is read field by field from the object that is written for it.
-/

namespace RequestTrail

namespace Json

/-- Whatever is written is read back, and its text too. -/
structure Lossless {α : Type} (write : α → Json) (read : Json → Option α) : Prop where
  readsBack : ∀ x, ReadsBack (write x)
  read_write : ∀ x, read (write x) = some x

variable {α : Type} {write : α → Json} {read : Json → Option α}

lemma Lossless.bind_ofText? (h : Lossless write read) (x : α) :
    (ofText? (write x).toText).bind read = some x := by
  rw [(h.readsBack x).ofText?_toText]
  exact h.read_write x

/-! ### Texts, words and lists -/

lemma literalText?_escape (text : String) : literalText? (escape text.toList) = some text := by
  simp [literalText?, unescape?_escape]

lemma lossless_text : Lossless ofString text? where
  readsBack := readsBack_ofString
  read_write text := literalText?_escape text

lemma toNatBelow?_ofNat {bound n : Nat} (h : n < bound) :
    (Number.ofNat n).toNatBelow? bound = some n := by
  simp [Number.toNatBelow?, Number.ofNat, Text.canonicalBelow?_numeral h]

lemma lossless_word32 : Lossless (fun w : UInt32 => ofNat w.toNat) word32? where
  readsBack w := readsBack_ofNat w.toNat
  read_write w := by
    simp [word32?, natBelow?, ofNat, toNatBelow?_ofNat w.toNat_lt_size]

lemma Lossless.list (h : Lossless write read) :
    Lossless (fun xs => .array (xs.map write)) (list? read) where
  readsBack := readsBack_ofList h.readsBack
  read_write := mapM_map_eq_some h.read_write

lemma lossless_texts : Lossless ofStrings (list? text?) :=
  lossless_text.list

/-! ### Records -/

lemma keyed?_map_escape (fields : List (String × Json)) :
    keyed? (fields.map fun f => (escape f.1.toList, f.2)) = some fields := by
  unfold keyed?
  apply mapM_map_eq_some
  intro f
  simp [literalText?_escape]

lemma fields?_ofFields (names : List String) (fields : List (String × Json)) :
    fields? names (ofFields fields) = names.mapM (field? fields) := by
  change (keyed? (fields.map fun f => (escape f.1.toList, f.2)) >>= fun members =>
    names.mapM (field? members)) = _
  rw [keyed?_map_escape]
  rfl

/-- A text is not `null`. -/
lemma nullable_ofString (text : String) :
    nullable text? (some (ofString text)) = some (some text) := by
  simp [nullable, ofString, text?, literalText?_escape]

end Json

/-! ### Sites -/

open Json (Lossless ReadsBack)

lemma Site.lossless : Lossless Site.toJson Site.ofJson? where
  readsBack site := by
    apply Json.readsBack_ofFields
    simp [Json.readsBack_ofString]
  read_write site := by
    have htext := Json.lossless_text.read_write
    simp [toJson, ofJson?, fieldNames, Json.fields?_ofFields, Json.field?, ofFields?, Json.required,
      Json.orElse, htext]

end RequestTrail
