import Mathlib.Data.List.TakeWhile
import RequestTrail.Json.Reader
import RequestTrail.Json.Basic

/-!
# Reading what was written

Which values are read back from their own text. Texts and natural numbers are, and arrays and
objects of values that are. Main statement: the text of such a value gives the value
(`ReadsBack.ofText?_toText`).
-/

namespace RequestTrail.Json

/-- Whether something comes next that ends a value: a comma, a closing sign or the end. -/
def endsValue : List Char → Bool
  | [] => true
  | c :: _ => c == ',' || c == ']' || c == '}'

/-- A value is read back from its characters, whatever ends it. -/
structure ReadsBack (j : Json) : Prop where
  read : ∀ n rest, j.render.length ≤ n → endsValue rest = true →
    readValue n (j.render ++ rest) = some (j, rest)
  /-- The first character of a value is neither a blank nor a closing bracket. -/
  start : ∃ c tail, j.render = c :: tail ∧ isBlank c = false ∧ c ≠ ']'

lemma skipBlanks_cons {c : Char} (h : isBlank c = false) (rest : List Char) :
    skipBlanks (c :: rest) = c :: rest := by
  simp [skipBlanks, h]

/-! ### Texts -/

lemma render_ofString (text : String) :
    (ofString text).render = '"' :: escape text.toList ++ ['"'] := by
  simp [ofString, render]

lemma readsBack_ofString (text : String) : ReadsBack (ofString text) where
  read n rest hn _ := by
    rw [render_ofString] at hn ⊢
    obtain ⟨m, rfl⟩ : ∃ m, n = m + 1 := Nat.exists_eq_add_one.2 (Nat.lt_of_lt_of_le (by simp) hn)
    have htake := take?_escape_append text.toList rest
    simp [readValue, skipBlanks_cons, isBlank, htake, ofString]
  start := ⟨'"', _, render_ofString text, by decide, by decide⟩

/-! ### Numbers -/

lemma not_isDigit_of_endsValue {c : Char} {rest : List Char} (h : endsValue (c :: rest) = true) :
    c.isDigit = false ∧ c ≠ '.' ∧ c ≠ 'e' ∧ c ≠ 'E' := by
  simp only [endsValue, Bool.or_eq_true, beq_iff_eq] at h
  rcases h with (rfl | rfl) | rfl <;> decide

lemma takeDigits?_numeral_append (n : Nat) {rest : List Char} (h : endsValue rest = true) :
    Number.takeDigits? (Text.numeral n ++ rest) = some (Text.numeral n, rest) := by
  have hall : ∀ c ∈ Text.numeral n, c.isDigit = true := fun c hc => Text.isDigit_of_mem_numeral hc
  have hrest : rest.takeWhile Char.isDigit = [] ∧ rest.dropWhile Char.isDigit = rest := by
    cases rest with
    | nil => simp
    | cons c rest => simp [(not_isDigit_of_endsValue h).1]
  have htake : (Text.numeral n ++ rest).takeWhile Char.isDigit = Text.numeral n := by
    rw [List.takeWhile_append_of_pos hall, hrest.1, List.append_nil]
  have hdrop : (Text.numeral n ++ rest).dropWhile Char.isDigit = rest := by
    rw [List.dropWhile_append_of_pos hall, hrest.2]
  rw [Number.takeDigits?, htake, hdrop]
  split
  · rename_i hnil
    exact absurd hnil (Text.numeral_ne_nil n)
  · rfl

lemma takeFraction?_of_endsValue {rest : List Char} (h : endsValue rest = true) :
    Number.takeFraction? rest = some ([], rest) := by
  unfold Number.takeFraction?
  split
  · exact absurd rfl (not_isDigit_of_endsValue h).2.1
  · rfl

lemma takeExponent?_of_endsValue {rest : List Char} (h : endsValue rest = true) :
    Number.takeExponent? rest = some (none, rest) := by
  unfold Number.takeExponent?
  split
  · exact absurd rfl (not_isDigit_of_endsValue h).2.2.1
  · exact absurd rfl (not_isDigit_of_endsValue h).2.2.2
  · rfl

lemma takeUnsigned?_numeral_append (n : Nat) {rest : List Char} (h : endsValue rest = true) :
    Number.takeUnsigned? false (Text.numeral n ++ rest) = some (.ofNat n, rest) := by
  simp [Number.takeUnsigned?, takeDigits?_numeral_append n h, Text.isCanonical_numeral,
    takeFraction?_of_endsValue h, takeExponent?_of_endsValue h, Number.ofNat]

lemma render_ofNat (n : Nat) : (ofNat n).render = Text.numeral n := by
  simp [ofNat, render, Number.render, Number.ofNat]

lemma isBlank_of_isDigit {c : Char} (h : c.isDigit = true) : isBlank c = false := by
  by_contra hblank
  simp only [isBlank, Bool.not_eq_false, Bool.or_eq_true, beq_iff_eq] at hblank
  rcases hblank with ((rfl | rfl) | rfl) | rfl <;> exact absurd h (by decide)

/-- A digit begins nothing but a number. -/
lemma readValue_of_isDigit {c : Char} (h : c.isDigit = true) (n : Nat) (rest : List Char) :
    readValue (n + 1) (c :: rest) =
      (Number.takeUnsigned? false (c :: rest)).map fun (n, cs) => (.number n, cs) := by
  rw [readValue, skipBlanks_cons (isBlank_of_isDigit h)]
  split
  all_goals try (rename_i heq; obtain ⟨rfl, -⟩ := List.cons.inj heq; exact absurd h (by decide))
  unfold Number.take?
  split
  · rename_i heq
    obtain ⟨rfl, -⟩ := List.cons.inj heq
    exact absurd h (by decide)
  · rfl

lemma readsBack_ofNat (n : Nat) : ReadsBack (ofNat n) where
  read m rest hm hrest := by
    rw [render_ofNat] at hm ⊢
    obtain ⟨c, digits, hdigits⟩ := List.exists_cons_of_ne_nil (Text.numeral_ne_nil n)
    obtain ⟨k, rfl⟩ : ∃ k, m = k + 1 :=
      Nat.exists_eq_add_one.2 (Nat.lt_of_lt_of_le (by simp [hdigits]) hm)
    have hc : c.isDigit = true := Text.isDigit_of_mem_numeral (hdigits ▸ List.mem_cons_self)
    have htake := takeUnsigned?_numeral_append n hrest
    rw [hdigits, List.cons_append] at htake ⊢
    rw [readValue_of_isDigit hc, htake]
    rfl
  start := by
    obtain ⟨c, digits, hdigits⟩ := List.exists_cons_of_ne_nil (Text.numeral_ne_nil n)
    have hc : c.isDigit = true := Text.isDigit_of_mem_numeral (hdigits ▸ List.mem_cons_self)
    refine ⟨c, digits, by rw [render_ofNat, hdigits], isBlank_of_isDigit hc, ?_⟩
    rintro rfl
    exact absurd hc (by decide)

/-! ### Arrays -/

lemma renderItems_cons (item : Json) {items : List Json} (h : items ≠ []) :
    renderItems (item :: items) = item.render ++ ',' :: renderItems items := by
  rw [renderItems]
  exact h

lemma readItems_renderItems {items : List Json} (h : ∀ item ∈ items, ReadsBack item)
    (hne : items ≠ []) {n : Nat} (hn : (renderItems items).length < n) (rest : List Char) :
    readItems n (renderItems items ++ ']' :: rest) = some (items, rest) := by
  induction items generalizing n with
  | nil => exact absurd rfl hne
  | cons item items ih =>
    rw [List.forall_mem_cons] at h
    obtain ⟨m, rfl⟩ := Nat.exists_eq_add_one.2 (Nat.zero_lt_of_lt hn)
    by_cases hitems : items = []
    · subst hitems
      rw [renderItems] at hn ⊢
      have hread := h.1.read m (']' :: rest) (by omega) (by simp [endsValue])
      simp [readItems, hread, skipBlanks_cons, isBlank]
    · rw [renderItems_cons item hitems] at hn ⊢
      rw [List.length_append, List.length_cons] at hn
      have hread := h.1.read m (',' :: (renderItems items ++ ']' :: rest)) (by omega)
        (by simp [endsValue])
      have hrest := ih h.2 hitems (n := m) (by omega)
      simp [readItems, hread, skipBlanks_cons, isBlank, hrest]

lemma readsBack_array {items : List Json} (h : ∀ item ∈ items, ReadsBack item) :
    ReadsBack (.array items) where
  read n rest hn _ := by
    rw [render] at hn ⊢
    simp only [List.length_cons, List.length_append, List.length_nil, List.cons_append] at hn
    obtain ⟨m, rfl⟩ : ∃ m, n = m + 1 := Nat.exists_eq_add_one.2 (by omega)
    by_cases hne : items = []
    · subst hne
      simp [renderItems, readValue, skipBlanks_cons, isBlank]
    · have hread := readItems_renderItems h hne (n := m) (by omega) rest
      -- the first item shows that the bracket does not close at once
      obtain ⟨c, tail, hstart, hblank, hc⟩ :
          ∃ c tail, renderItems items = c :: tail ∧ isBlank c = false ∧ c ≠ ']' := by
        obtain ⟨item, items, rfl⟩ := List.exists_cons_of_ne_nil hne
        obtain ⟨c, tail, hstart, hblank, hc⟩ := (h item List.mem_cons_self).start
        by_cases hitems : items = []
        · subst hitems
          exact ⟨c, tail, by rw [renderItems, hstart], hblank, hc⟩
        · exact ⟨c, _, by rw [renderItems_cons item hitems, hstart, List.cons_append], hblank, hc⟩
      rw [hstart] at hread ⊢
      simp only [List.cons_append, List.append_assoc, List.nil_append] at hread ⊢
      rw [readValue, skipBlanks_cons (by decide)]
      simp only [skipBlanks_cons hblank]
      split
      · rename_i heq
        exact absurd (List.cons.inj heq).1 hc
      · rw [hread]
        rfl
  start := ⟨'[', _, by rw [render, List.cons_append], by decide, by decide⟩

/-! ### Objects -/

lemma renderMembers_cons (key : List Char) (value : Json) {members : List (List Char × Json)}
    (h : members ≠ []) :
    renderMembers ((key, value) :: members) =
      '"' :: key ++ '"' :: ':' :: value.render ++ ',' :: renderMembers members := by
  rw [renderMembers]
  exact h

lemma readMembers_renderMembers {members : List (List Char × Json)}
    (hkeys : ∀ m ∈ members, ∃ text, m.1 = escape text) (h : ∀ m ∈ members, ReadsBack m.2)
    (hne : members ≠ []) {n : Nat} (hn : (renderMembers members).length < n) (rest : List Char) :
    readMembers n (renderMembers members ++ '}' :: rest) = some (members, rest) := by
  induction members generalizing n with
  | nil => exact absurd rfl hne
  | cons member members ih =>
    obtain ⟨key, value⟩ := member
    obtain ⟨⟨text, rfl⟩, hrestKeys⟩ := List.forall_mem_cons.1 hkeys
    obtain ⟨hvalue, hrestValues⟩ : ReadsBack value ∧ ∀ m ∈ members, ReadsBack m.2 :=
      List.forall_mem_cons.1 h
    obtain ⟨m, rfl⟩ := Nat.exists_eq_add_one.2 (Nat.zero_lt_of_lt hn)
    by_cases hmembers : members = []
    · subst hmembers
      rw [renderMembers] at hn ⊢
      simp only [List.length_cons, List.length_append] at hn
      have hread := hvalue.read m ('}' :: rest) (by omega) (by simp [endsValue])
      simp [readMembers, skipBlanks_cons, isBlank, take?_escape_append, hread]
    · rw [renderMembers_cons _ value hmembers] at hn ⊢
      simp only [List.length_cons, List.length_append] at hn
      have hread := hvalue.read m (',' :: (renderMembers members ++ '}' :: rest)) (by omega)
        (by simp [endsValue])
      have hrest := ih hrestKeys hrestValues hmembers (n := m) (by omega)
      simp [readMembers, skipBlanks_cons, isBlank, take?_escape_append, hread, hrest]

lemma readsBack_object {members : List (List Char × Json)}
    (hkeys : ∀ m ∈ members, ∃ text, m.1 = escape text) (h : ∀ m ∈ members, ReadsBack m.2) :
    ReadsBack (.object members) where
  read n rest hn _ := by
    rw [render] at hn ⊢
    simp only [List.length_cons, List.length_append, List.length_nil, List.cons_append] at hn
    obtain ⟨m, rfl⟩ : ∃ m, n = m + 1 := Nat.exists_eq_add_one.2 (by omega)
    by_cases hne : members = []
    · subst hne
      simp [renderMembers, readValue, skipBlanks_cons, isBlank]
    · have hread := readMembers_renderMembers hkeys h hne (n := m) (by omega) rest
      obtain ⟨tail, hstart⟩ : ∃ tail, renderMembers members = '"' :: tail := by
        obtain ⟨⟨key, value⟩, members, rfl⟩ := List.exists_cons_of_ne_nil hne
        cases members with
        | nil => exact ⟨_, by rw [renderMembers, List.cons_append]⟩
        | cons _ _ => exact ⟨_, by rw [renderMembers_cons key value (by simp), List.cons_append]; rfl⟩
      rw [hstart] at hread ⊢
      simp only [List.cons_append, List.append_assoc, List.nil_append] at hread ⊢
      simp [readValue, skipBlanks_cons, isBlank, hread]
  start := ⟨'{', _, by rw [render, List.cons_append], by decide, by decide⟩

lemma readsBack_ofFields {fields : List (String × Json)} (h : ∀ f ∈ fields, ReadsBack f.2) :
    ReadsBack (ofFields fields) := by
  apply readsBack_object
  · intro m hm
    obtain ⟨f, -, rfl⟩ := List.mem_map.1 hm
    exact ⟨f.1.toList, rfl⟩
  · intro m hm
    obtain ⟨f, hf, rfl⟩ := List.mem_map.1 hm
    exact h f hf

lemma readsBack_ofList {α : Type} {write : α → Json} (h : ∀ x, ReadsBack (write x)) (xs : List α) :
    ReadsBack (.array (xs.map write)) := by
  apply readsBack_array
  intro item hitem
  obtain ⟨x, -, rfl⟩ := List.mem_map.1 hitem
  exact h x

/-! ### Whole texts -/

lemma ReadsBack.ofText?_toText {j : Json} (h : ReadsBack j) : ofText? j.toText = some j := by
  have hread := h.read (j.render.length + 1) [] (by omega) rfl
  rw [List.append_nil] at hread
  simp [ofText?, toText, hread, skipBlanks]

end RequestTrail.Json
