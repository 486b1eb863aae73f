import Mathlib.Data.List.Induction
import Mathlib.Data.List.Nodup

/-!
# Passes over lists

What the phases of an analysis have in common: a pass that may fail at any element of a list, and
a list of which repetitions are dropped.
-/

namespace RequestTrail

/-! ### Passes that may fail -/

section Failure

variable {α β ε : Type} {f : α → Except ε β}

/-- A step after another succeeds if both do. -/
lemma bind_eq_ok_iff {x : Except ε α} {result : β} :
    (x >>= f) = .ok result ↔ ∃ a, x = .ok a ∧ f a = .ok result := by
  cases x <;> simp [bind, Except.bind]

/-- A step after another fails if one of them does. -/
lemma bind_eq_error_iff {x : Except ε α} {e : ε} :
    (x >>= f) = .error e ↔ x = .error e ∨ ∃ a, x = .ok a ∧ f a = .error e := by
  cases x <;> simp [bind, Except.bind]

lemma map_eq_ok_iff {x : Except ε α} {g : α → β} {b : β} :
    g <$> x = .ok b ↔ ∃ a, x = .ok a ∧ g a = b := by
  cases x <;> simp [Functor.map, Except.map]

lemma map_eq_error_iff {x : Except ε α} {g : α → β} {e : ε} :
    g <$> x = .error e ↔ x = .error e := by
  cases x <;> simp [Functor.map, Except.map]

lemma mapM_cons_eq_ok_iff {x : α} {xs : List α} {ys : List β} :
    (x :: xs).mapM f = .ok ys ↔
      ∃ y, f x = .ok y ∧ ∃ rest, xs.mapM f = .ok rest ∧ y :: rest = ys := by
  simp only [List.mapM_cons, bind_eq_ok_iff, pure, Except.pure, Except.ok.injEq]

/-- A pass succeeds if every element does. -/
lemma mapM_eq_ok_of_forall {g : α → β} {xs : List α} (h : ∀ x ∈ xs, f x = .ok (g x)) :
    xs.mapM f = .ok (xs.map g) := by
  induction xs with
  | nil => rfl
  | cons x xs ih =>
    rw [List.forall_mem_cons] at h
    exact mapM_cons_eq_ok_iff.2 ⟨g x, h.1, xs.map g, ih h.2, rfl⟩

/-- A pass that succeeds gathers what every element gives. -/
lemma forall_ok_of_mapM_eq_ok {xs : List α} {ys : List β} (h : xs.mapM f = .ok ys) :
    ∀ x ∈ xs, ∃ y ∈ ys, f x = .ok y := by
  induction xs generalizing ys with
  | nil => simp
  | cons x xs ih =>
    obtain ⟨y, hy, rest, hrest, rfl⟩ := mapM_cons_eq_ok_iff.1 h
    rw [List.forall_mem_cons]
    refine ⟨⟨y, List.mem_cons_self, hy⟩, ?_⟩
    intro z hz
    obtain ⟨w, hw, hf⟩ := ih hrest z hz
    exact ⟨w, List.mem_cons_of_mem y hw, hf⟩

/-- Whatever a pass gathers is given by an element. -/
lemma exists_of_mem_of_mapM_eq_ok {xs : List α} {ys : List β} (h : xs.mapM f = .ok ys) :
    ∀ y ∈ ys, ∃ x ∈ xs, f x = .ok y := by
  induction xs generalizing ys with
  | nil =>
    obtain rfl := Except.ok.inj h
    simp
  | cons x xs ih =>
    obtain ⟨y, hy, rest, hrest, rfl⟩ := mapM_cons_eq_ok_iff.1 h
    rw [List.forall_mem_cons]
    refine ⟨⟨x, List.mem_cons_self, hy⟩, ?_⟩
    intro z hz
    obtain ⟨w, hw, hf⟩ := ih hrest z hz
    exact ⟨w, List.mem_cons_of_mem x hw, hf⟩

/-- A pass that succeeds gathers what its elements give. -/
lemma exists_map_of_mapM_eq_ok [Inhabited β] {xs : List α} {ys : List β}
    (h : xs.mapM f = .ok ys) : ∃ g : α → β, (∀ x ∈ xs, f x = .ok (g x)) ∧ ys = xs.map g := by
  let g x := match f x with
    | .ok y => y
    | .error _ => default
  have hg : ∀ x ∈ xs, f x = .ok (g x) := by
    intro x hx
    obtain ⟨y, -, hy⟩ := forall_ok_of_mapM_eq_ok h x hx
    simp only [g, hy]
  exact ⟨g, hg, Except.ok.inj (h.symm.trans (mapM_eq_ok_of_forall hg))⟩

/-- What a step does not change, a pass does not change. -/
lemma map_eq_of_mapM_eq_ok {γ : Type} {before : α → γ} {after : β → γ}
    (hf : ∀ x y, f x = .ok y → after y = before x) {xs : List α} {ys : List β}
    (h : xs.mapM f = .ok ys) : ys.map after = xs.map before := by
  induction xs generalizing ys with
  | nil =>
    obtain rfl := Except.ok.inj h
    rfl
  | cons x xs ih =>
    obtain ⟨y, hy, rest, hrest, rfl⟩ := mapM_cons_eq_ok_iff.1 h
    rw [List.map_cons, List.map_cons, hf x y hy, ih hrest]

lemma length_of_mapM_eq_ok {xs : List α} {ys : List β} (h : xs.mapM f = .ok ys) :
    ys.length = xs.length := by
  have hmap : ys.map (fun _ => ()) = xs.map fun _ => () :=
    map_eq_of_mapM_eq_ok (fun _ _ _ => rfl) h
  simpa using congrArg List.length hmap

lemma mapM_congr {g : α → Except ε β} {xs : List α} (h : ∀ x ∈ xs, f x = g x) :
    xs.mapM f = xs.mapM g := by
  induction xs with
  | nil => rfl
  | cons x xs ih =>
    rw [List.forall_mem_cons] at h
    rw [List.mapM_cons, List.mapM_cons, h.1, ih h.2]

/-- A pass over the images of elements is the pass over the elements, if that is so for each. -/
lemma mapM_map_eq_map {γ δ : Type} {g : γ → Except ε δ} {i : α → γ} {j : β → δ} {xs : List α}
    (h : ∀ x ∈ xs, g (i x) = j <$> f x) : (xs.map i).mapM g = List.map j <$> xs.mapM f := by
  induction xs with
  | nil => rfl
  | cons x xs ih =>
    rw [List.forall_mem_cons] at h
    rw [List.map_cons, List.mapM_cons, List.mapM_cons, h.1, ih h.2]
    cases f x with
    | error e => rfl
    | ok y => cases xs.mapM f <;> rfl

/-- A pass over two lists, one behind the other, is a pass over each. -/
lemma mapM_append_eq_ok_iff {xs xs' : List α} {ys : List β} :
    (xs ++ xs').mapM f = .ok ys ↔
      ∃ zs zs', xs.mapM f = .ok zs ∧ xs'.mapM f = .ok zs' ∧ zs ++ zs' = ys := by
  rw [List.mapM_append, bind_eq_ok_iff]
  simp only [bind_eq_ok_iff, pure, Except.pure, Except.ok.injEq]
  constructor
  · rintro ⟨zs, hzs, zs', hzs', heq⟩
    exact ⟨zs, zs', hzs, hzs', heq⟩
  · rintro ⟨zs, zs', hzs, hzs', heq⟩
    exact ⟨zs, hzs, zs', hzs', heq⟩

/-- Two passes over one list give lists that are related wherever the elements' results are. -/
lemma forall₂_of_mapM_eq_ok {γ : Type} {g : α → Except ε γ} {R : β → γ → Prop}
    (hR : ∀ x y z, f x = .ok y → g x = .ok z → R y z) {xs : List α} {ys : List β} {zs : List γ}
    (hys : xs.mapM f = .ok ys) (hzs : xs.mapM g = .ok zs) : List.Forall₂ R ys zs := by
  induction xs generalizing ys zs with
  | nil =>
    obtain rfl := Except.ok.inj hys
    obtain rfl := Except.ok.inj hzs
    exact .nil
  | cons x xs ih =>
    obtain ⟨y, hy, rest, hrest, rfl⟩ := mapM_cons_eq_ok_iff.1 hys
    obtain ⟨z, hz, rest', hrest', rfl⟩ := mapM_cons_eq_ok_iff.1 hzs
    exact .cons (hR x y z hy hz) (ih hrest hrest')

/-- A pass fails only where an element does. -/
lemma exists_error_of_mapM_eq_error {xs : List α} {e : ε} (h : xs.mapM f = .error e) :
    ∃ x ∈ xs, f x = .error e := by
  induction xs with
  | nil => exact absurd h (by simp [pure, Except.pure])
  | cons x xs ih =>
    rw [List.mapM_cons, bind_eq_error_iff] at h
    rcases h with hx | ⟨y, -, h⟩
    · exact ⟨x, List.mem_cons_self, hx⟩
    · rw [bind_eq_error_iff] at h
      rcases h with hrest | ⟨_, -, h⟩
      · obtain ⟨z, hz, hfail⟩ := ih hrest
        exact ⟨z, List.mem_cons_of_mem x hz, hfail⟩
      · exact absurd h (by simp [pure, Except.pure])

/-- Where elements fail for one cause only, under a condition that they share and one of their own,
a pass fails for this cause if one of them does. -/
lemma mapM_eq_error_iff {common : Prop} {P : α → Prop} {cause : ε}
    (hf : ∀ x e, f x = .error e ↔ e = cause ∧ common ∧ P x) {xs : List α} {e : ε} :
    xs.mapM f = .error e ↔ e = cause ∧ common ∧ ∃ x ∈ xs, P x := by
  constructor
  · intro h
    obtain ⟨x, hx, hfail⟩ := exists_error_of_mapM_eq_error h
    obtain ⟨rfl, hcommon, hP⟩ := (hf x e).1 hfail
    exact ⟨rfl, hcommon, x, hx, hP⟩
  · rintro ⟨rfl, hcommon, x, hx, hP⟩
    cases h : xs.mapM f with
    | ok ys =>
      obtain ⟨y, -, hy⟩ := forall_ok_of_mapM_eq_ok h x hx
      rw [(hf x e).2 ⟨rfl, hcommon, hP⟩] at hy
      exact absurd hy (by simp)
    | error e' =>
      -- some element before `x` may be the one that failed, but for the same cause
      obtain ⟨z, _, hfail⟩ := exists_error_of_mapM_eq_error h
      rw [((hf z e').1 hfail).1]

end Failure

/-! ### Passes that may have no answer -/

/-- A pass reads back a list of which every element is read back. -/
lemma mapM_map_eq_some {α β : Type} {write : α → β} {read : β → Option α}
    (h : ∀ x, read (write x) = some x) (xs : List α) : (xs.map write).mapM read = some xs := by
  induction xs with
  | nil => rfl
  | cons x xs ih => simp [List.mapM_cons, h x, ih]

lemma findSome?_congr_of_mem {α β : Type} {f g : α → Option β} {xs : List α}
    (h : ∀ x ∈ xs, f x = g x) : xs.findSome? f = xs.findSome? g := by
  induction xs with
  | nil => rfl
  | cons x xs ih =>
    rw [List.forall_mem_cons] at h
    rw [List.findSome?_cons, List.findSome?_cons, h.1, ih h.2]

/-! ### Lists in parts -/

/-- A list with a first element splits there, or further on. -/
lemma exists_split_cons_iff {α : Type} {P Q : α → Prop} {x : α} {xs : List α} :
    (∃ before y after, x :: xs = before ++ y :: after ∧ (∀ z ∈ before, P z) ∧ Q y) ↔
      Q x ∨ P x ∧ ∃ before y after, xs = before ++ y :: after ∧ (∀ z ∈ before, P z) ∧ Q y := by
  constructor
  · rintro ⟨_ | ⟨z, before⟩, y, after, heq, hbefore, hy⟩
    · obtain ⟨rfl, -⟩ := List.cons.inj heq
      exact .inl hy
    · obtain ⟨rfl, rfl⟩ := List.cons.inj heq
      rw [List.forall_mem_cons] at hbefore
      exact .inr ⟨hbefore.1, before, y, after, rfl, hbefore.2, hy⟩
  · rintro (hx | ⟨hx, before, y, after, rfl, hbefore, hy⟩)
    · exact ⟨[], x, xs, rfl, by simp, hx⟩
    · exact ⟨x :: before, y, after, rfl, List.forall_mem_cons.2 ⟨hx, hbefore⟩, hy⟩

/-- A test that tells two parts of a list apart picks out either. -/
lemma filter_append_eq {α : Type} {p : α → Bool} {xs ys : List α} (hxs : ∀ x ∈ xs, p x = true)
    (hys : ∀ y ∈ ys, p y = false) :
    (xs ++ ys).filter p = xs ∧ (xs ++ ys).filter (fun x => !p x) = ys := by
  constructor
  · rw [List.filter_append, List.filter_eq_self.2 hxs,
      List.filter_eq_nil_iff.2 (by simpa using hys), List.append_nil]
  · rw [List.filter_append, List.filter_eq_nil_iff.2 (by simpa using hxs),
      List.filter_eq_self.2 (by simpa using hys), List.nil_append]

lemma flatMap_ite_eq_map_filter {α β : Type} (p : α → Prop) [DecidablePred p] (g : α → β)
    (xs : List α) : (xs.flatMap fun x => if p x then [g x] else []) = (xs.filter p).map g := by
  induction xs with
  | nil => rfl
  | cons x xs ih => by_cases h : p x <;> simp [h, ih]

/-! ### Searches that may be given up -/

section GivenUp

variable {α β : Type} {f : α → Option (Option β)} {g : α → Option β} {xs : List α}

lemma findSomeM?_cons (x : α) :
    (x :: xs).findSomeM? f = (f x).bind fun r => r.elim (xs.findSomeM? f) (some ∘ some) := by
  rw [List.findSomeM?]
  cases f x with
  | none => rfl
  | some r => cases r <;> rfl

/-- A search that is not given up finds what `g` finds, if its steps do. -/
lemma eq_findSome?_of_findSomeM? (hf : ∀ x ∈ xs, ∀ r, f x = some r → r = g x) {r : Option β}
    (h : xs.findSomeM? f = some r) : r = xs.findSome? g := by
  induction xs with
  | nil => exact (Option.some.inj h).symm
  | cons x xs ih =>
    rw [List.forall_mem_cons] at hf
    rw [findSomeM?_cons, Option.bind_eq_some_iff] at h
    obtain ⟨first, hx, h⟩ := h
    rw [List.findSome?_cons, ← hf.1 first hx]
    cases first with
    | none => exact ih hf.2 h
    | some b => exact (Option.some.inj h).symm

/-- A search is given up at a step to which it comes because `g` finds nothing before. -/
lemma findSomeM?_eq_none_iff (hf : ∀ x ∈ xs, ∀ r, f x = some r → r = g x) :
    xs.findSomeM? f = none ↔
      ∃ before x after, xs = before ++ x :: after ∧ (∀ y ∈ before, g y = none) ∧ f x = none := by
  induction xs with
  | nil => simp [List.findSomeM?]
  | cons x xs ih =>
    rw [List.forall_mem_cons] at hf
    rw [findSomeM?_cons, exists_split_cons_iff, ← ih hf.2]
    cases hx : f x with
    | none => simp
    | some r =>
      rw [← hf.1 r hx]
      cases r <;> simp

end GivenUp

/-! ### Repetitions -/

section Repetition

variable {α : Type} [BEq α] [LawfulBEq α]

/-- One more element changes nothing if it is there already, and comes last if it is not. -/
lemma eraseDups_concat (xs : List α) (x : α) :
    (xs ++ [x]).eraseDups = if x ∈ xs then xs.eraseDups else xs.eraseDups ++ [x] := by
  rw [List.eraseDups_append]
  by_cases h : x ∈ xs <;> simp [List.removeAll, List.eraseDups_cons, h]

/-- Nothing is left twice when repetitions are dropped. -/
lemma nodup_eraseDups (xs : List α) : xs.eraseDups.Nodup := by
  induction xs using List.reverseRecOn with
  | nil => simp
  | append_singleton xs x ih =>
    rw [eraseDups_concat]
    split
    · exact ih
    · rename_i hnew
      rw [← List.concat_eq_append]
      exact ih.concat (by rwa [List.mem_eraseDups])

lemma eraseDups_append_congr {xs ys : List α} (h : xs.eraseDups = ys.eraseDups) (zs : List α) :
    (xs ++ zs).eraseDups = (ys ++ zs).eraseDups := by
  have hmem : ∀ x, x ∈ xs ↔ x ∈ ys := by
    intro x
    rw [← List.mem_eraseDups, h, List.mem_eraseDups]
  have hremove : zs.removeAll xs = zs.removeAll ys := by
    simp only [List.removeAll, List.elem_eq_mem, hmem]
  rw [List.eraseDups_append, List.eraseDups_append, h, hremove]

/-- Nothing that is there already makes a difference when it comes again. -/
lemma eraseDups_append_of_subset {xs ys : List α} (h : ys ⊆ xs) :
    (xs ++ ys).eraseDups = xs.eraseDups := by
  have hremove : ys.removeAll xs = [] := by
    simp only [List.removeAll, List.filter_eq_nil_iff]
    intro y hy
    simp [h hy]
  rw [List.eraseDups_append, hremove]
  exact List.append_nil _

lemma filter_eraseDups (p : α → Bool) (xs : List α) :
    xs.eraseDups.filter p = (xs.filter p).eraseDups := by
  induction xs using List.reverseRecOn with
  | nil => rfl
  | append_singleton xs x ih =>
    rw [eraseDups_concat, List.filter_append, List.filter_singleton]
    by_cases hx : x ∈ xs <;> cases hp : p x <;> simp [hx, hp, ih, eraseDups_concat]

/-- The first element that has an answer comes before its repetitions. -/
lemma findSome?_eraseDups {β : Type} (f : α → Option β) (xs : List α) :
    xs.eraseDups.findSome? f = xs.findSome? f := by
  induction xs using List.reverseRecOn with
  | nil => rfl
  | append_singleton xs x ih =>
    rw [eraseDups_concat, List.findSome?_append, ← ih]
    split
    · rename_i hx
      cases h : xs.eraseDups.findSome? f with
      | some b => rfl
      | none =>
        have hnone := List.findSome?_eq_none_iff.1 h x (List.mem_eraseDups.2 hx)
        simp [hnone]
    · rw [List.findSome?_append]

/-- What is left when repetitions are dropped stands in the order of first occurrences. -/
lemma pairwise_idxOf_eraseDups (xs : List α) :
    xs.eraseDups.Pairwise fun a b => xs.idxOf a < xs.idxOf b := by
  induction xs using List.reverseRecOn with
  | nil => simp
  | append_singleton xs x ih =>
    -- earlier elements keep their places when one more comes last
    have hkept : xs.eraseDups.Pairwise fun a b => (xs ++ [x]).idxOf a < (xs ++ [x]).idxOf b := by
      refine ih.imp_of_mem ?_
      intro a b ha hb hlt
      rw [List.mem_eraseDups] at ha hb
      rwa [List.idxOf_append_of_mem ha, List.idxOf_append_of_mem hb]
    rw [eraseDups_concat]
    split
    · exact hkept
    · rename_i hnew
      refine List.pairwise_append.2 ⟨hkept, List.pairwise_singleton _ _, ?_⟩
      intro a ha b hb
      rw [List.mem_eraseDups] at ha
      rw [List.mem_singleton.1 hb, List.idxOf_append_of_mem ha, List.idxOf_append_of_notMem hnew]
      exact Nat.lt_of_lt_of_le (List.idxOf_lt_length_iff.2 ha) (Nat.le_add_right _ _)

/-- The order of first occurrences among the answers is the order of the first elements that give
them. -/
lemma findIdx_lt_of_idxOf_filterMap_lt {β : Type} {f : β → Option α} {xs : List β} {a b : α}
    (h : (xs.filterMap f).idxOf a < (xs.filterMap f).idxOf b) :
    xs.findIdx (fun x => f x == some a) < xs.findIdx fun x => f x == some b := by
  induction xs with
  | nil => simp at h
  | cons x xs ih =>
    rw [List.findIdx_cons, List.findIdx_cons]
    cases hx : f x with
    | none =>
      rw [List.filterMap_cons_none hx] at h
      simpa using ih h
    | some y =>
      -- the element is the first that gives one of the answers, or gives neither
      rw [List.filterMap_cons_some hx, List.idxOf_cons, List.idxOf_cons] at h
      simp only [Option.some_beq_some]
      cases ha : y == a <;> cases hb : y == b <;> simp_all

end Repetition

/-! ### Lists in a given order -/

/-- A list holds exactly the values with a property, in the given order. -/
structure Enumerates {α : Type} (P : α → Prop) (before : α → α → Prop) (xs : List α) : Prop where
  mem_iff : ∀ x, x ∈ xs ↔ P x
  ordered : xs.Pairwise before

namespace Enumerates

variable {α : Type} {P : α → Prop} {before : α → α → Prop} {xs : List α}

lemma nodup (hirrefl : ∀ x, ¬ before x x) (h : Enumerates P before xs) : xs.Nodup := by
  refine h.ordered.imp ?_
  rintro a _ hlt rfl
  exact hirrefl a hlt

/-- There is one such list at most. -/
lemma unique (hasymm : ∀ x y, before x y → ¬ before y x) {ys : List α}
    (hxs : Enumerates P before xs) (hys : Enumerates P before ys) : xs = ys := by
  have hirrefl : ∀ x, ¬ before x x := fun x hx => hasymm x x hx hx
  have hperm : xs.Perm ys := by
    rw [List.perm_ext_iff_of_nodup (hxs.nodup hirrefl) (hys.nodup hirrefl)]
    intro x
    rw [hxs.mem_iff, hys.mem_iff]
  refine hperm.eq_of_pairwise ?_ hxs.ordered hys.ordered
  intro x y _ _ hlt hgt
  exact absurd hgt (hasymm x y hlt)

lemma eq_nil_iff (h : Enumerates P before xs) : xs = [] ↔ ¬ ∃ x, P x := by
  rw [List.eq_nil_iff_forall_not_mem, not_exists]
  simp only [h.mem_iff]

lemma filter (h : xs.Pairwise before) (p : α → Bool) :
    Enumerates (fun x => x ∈ xs ∧ p x = true) before (xs.filter p) where
  mem_iff _ := List.mem_filter
  ordered := h.filter p

/-- The selected values of a list, without repetitions, in the order of first occurrences. -/
lemma eraseDups_filter [BEq α] [LawfulBEq α] (xs : List α) (p : α → Bool) :
    Enumerates (fun x => x ∈ xs ∧ p x = true) (fun a b => xs.idxOf a < xs.idxOf b)
      (xs.filter p).eraseDups where
  mem_iff x := by rw [List.mem_eraseDups, List.mem_filter]
  ordered := by
    rw [← filter_eraseDups]
    exact (pairwise_idxOf_eraseDups xs).filter p

end Enumerates

end RequestTrail
