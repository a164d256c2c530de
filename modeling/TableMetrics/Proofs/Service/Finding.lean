import TableMetrics.Proofs.Service.Violation

/-! What the checks of request bodies find. They find every violation of a value, at its place or at places inside of
    that, and find nothing else; and they show parts of the value alone. -/

namespace TableMetrics

/-! ### Parts of values -/

namespace Json

inductive IsPart (part : Json) : Json → Prop where
  | refl : IsPart part part
  | item {items : List Json} {value : Json} (hmem : value ∈ items) (h : IsPart part value) : IsPart part (.array items)
  | field {fields : List (String × Json)} {name : String} {value : Json} (hmem : (name, value) ∈ fields)
    (h : IsPart part value) : IsPart part (.object fields)

theorem isFinite_of_mem {items : List Json} {value : Json} (h : areFinite items = true) (hmem : value ∈ items) :
    value.isFinite = true := by
  induction items with
  | nil => exact absurd hmem List.not_mem_nil
  | cons item items ih =>
    rw [areFinite, Bool.and_eq_true] at h
    rcases List.mem_cons.mp hmem with rfl | hmem
    · exact h.1
    · exact ih h.2 hmem

theorem isFinite_of_field {fields : List (String × Json)} {name : String} {value : Json}
    (h : fieldsAreFinite fields = true) (hmem : (name, value) ∈ fields) : value.isFinite = true := by
  induction fields with
  | nil => exact absurd hmem List.not_mem_nil
  | cons field fields ih =>
    obtain ⟨name', value'⟩ := field
    rw [fieldsAreFinite, Bool.and_eq_true] at h
    rcases List.mem_cons.mp hmem with heq | hmem
    · cases heq
      exact h.1
    · exact ih h.2 hmem

theorem IsPart.isFinite {part value : Json} (h : IsPart part value) (hfinite : value.isFinite = true) :
    part.isFinite = true := by
  induction h with
  | refl => exact hfinite
  | item hmem _ ih => exact ih (isFinite_of_mem hfinite hmem)
  | field hmem _ ih => exact ih (isFinite_of_field hfinite hmem)

end Json

namespace Payload

/-! ### What checks find -/

def found {α : Type} : Checked α → List Finding
  | .ok _ => []
  | .error fs => fs

variable {α β : Type} {x : Checked α} {y : Checked β} {place : Place} {value : Json} {V W : Place → Prop}

theorem found_map (f : α → β) (x : Checked α) : found (x.map f) = found x := by
  cases x <;> rfl

theorem found_both (x : Checked α) (y : Checked β) : found (Checked.both x y) = found x ++ found y := by
  cases x <;> cases y <;> simp [Checked.both, found]

theorem map_ne_error_nil (f : α → β) (h : x ≠ .error []) : x.map f ≠ .error [] := by
  cases x with
  | ok a => rintro ⟨⟩
  | error fs => exact fun heq => h (congrArg Except.error (Except.error.inj heq))

theorem both_ne_error_nil (hx : x ≠ .error []) (hy : y ≠ .error []) : Checked.both x y ≠ .error [] := by
  intro heq
  cases x with
  | ok a =>
    cases y with
    | ok b => cases heq
    | error gs => exact hy (congrArg Except.error (Except.error.inj heq))
  | error fs =>
    cases y with
    | ok b => exact hx (congrArg Except.error (Except.error.inj heq))
    | error gs => exact hx (congrArg Except.error (List.append_eq_nil_iff.mp (Except.error.inj heq)).1)

/-- What a check of a value at a place finds is in the violations of the value, and none of these is missed. It shows a
    part of the value. A check that finds nothing does not fail. -/
structure Tells (x : Checked α) (place : Place) (value : Json) (V : Place → Prop) : Prop where
  told : x ≠ .error []
  complete : ∀ p, V p → ∃ f ∈ found x, place ++ p <+: f.place
  sound : ∀ f ∈ found x, (∃ p, V p ∧ place ++ p <+: f.place) ∧ f.input.IsPart value

namespace Tells

theorem congr (h : Tells x place value V) (hiff : ∀ p, V p ↔ W p) : Tells x place value W where
  told := h.told
  complete p hp := h.complete p ((hiff p).mpr hp)
  sound f hf := by
    obtain ⟨⟨p, hp, hplace⟩, hpart⟩ := h.sound f hf
    exact ⟨⟨p, (hiff p).mp hp, hplace⟩, hpart⟩

theorem ok (a : α) (h : ∀ p, ¬V p) : Tells (.ok a : Checked α) place value V where
  told := by rintro ⟨⟩
  complete p hp := absurd hp (h p)
  sound f hf := absurd hf List.not_mem_nil

/-- Findings that are all in one violation. -/
theorem error {fs : List Finding} {p : Place} (hne : fs ≠ []) (hV : ∀ q, V q ↔ q = p)
    (h : ∀ f ∈ fs, place ++ p <+: f.place ∧ f.input.IsPart value) : Tells (.error fs : Checked α) place value V where
  told heq := hne (Except.error.inj heq)
  complete q hq := by
    obtain rfl := (hV q).mp hq
    obtain ⟨f, fs, rfl⟩ := List.exists_cons_of_ne_nil hne
    exact ⟨f, List.mem_cons_self .., (h f (List.mem_cons_self ..)).1⟩
  sound f hf := ⟨⟨p, (hV p).mpr rfl, (h f hf).1⟩, (h f hf).2⟩

theorem fail {fault : Fault} (hV : ∀ p, V p ↔ p = []) : Tells (Checked.fail place fault value : Checked α) place value V :=
  .error (List.cons_ne_nil _ _) hV (List.forall_mem_singleton.mpr ⟨by simp, .refl⟩)

theorem map (h : Tells x place value V) (f : α → β) : Tells (x.map f) place value V where
  told := map_ne_error_nil f h.told
  complete p hp := found_map f x ▸ h.complete p hp
  sound g hg := h.sound g (found_map f x ▸ hg)

theorem both (hx : Tells x place value V) (hy : Tells y place value W) :
    Tells (Checked.both x y) place value fun p => V p ∨ W p where
  told := both_ne_error_nil hx.told hy.told
  complete p hp := by
    rw [found_both]
    rcases hp with hp | hp
    · obtain ⟨f, hf, hplace⟩ := hx.complete p hp
      exact ⟨f, List.mem_append_left _ hf, hplace⟩
    · obtain ⟨f, hf, hplace⟩ := hy.complete p hp
      exact ⟨f, List.mem_append_right _ hf, hplace⟩
  sound f hf := by
    rw [found_both] at hf
    rcases List.mem_append.mp hf with hf | hf
    · obtain ⟨⟨p, hp, hplace⟩, hpart⟩ := hx.sound f hf
      exact ⟨⟨p, Or.inl hp, hplace⟩, hpart⟩
    · obtain ⟨⟨p, hp, hplace⟩, hpart⟩ := hy.sound f hf
      exact ⟨⟨p, Or.inr hp, hplace⟩, hpart⟩

theorem append_cons (place p : Place) (step : Step) : place ++ step :: p = place ++ [step] ++ p := by
  rw [List.append_assoc, List.singleton_append]

/-- What is told of a part is told of the whole, at the place of the part. -/
theorem part {step : Step} {whole : Json} (h : Tells x (place ++ [step]) value V)
    (hpart : ∀ u : Json, u.IsPart value → u.IsPart whole) :
    Tells x place whole fun p => ∃ q, V q ∧ p = step :: q where
  told := h.told
  complete := by
    rintro _ ⟨q, hq, rfl⟩
    rw [append_cons]
    exact h.complete q hq
  sound f hf := by
    obtain ⟨⟨q, hq, hplace⟩, hfpart⟩ := h.sound f hf
    exact ⟨⟨_, ⟨q, hq, rfl⟩, append_cons place q step ▸ hplace⟩, hpart _ hfpart⟩

end Tells

section Checks
variable {V : Violations} {check : Check α} {fields : List (String × Json)} {name : String} {p : Place}

end Checks

end Payload
end TableMetrics
