import TableMetrics.Error

/-! Outcomes of computations that may fail: when two of them agree, and what the outcomes of a list come to. -/

namespace TableMetrics

/-- Two outcomes agree if they are one value or failures of one kind. Where `same` holds, the failures are equal in
    all that their messages tell. -/
inductive Agree (same : Prop) {α : Type} : Except MetricError α → Except MetricError α → Prop where
  | ok (a : α) : Agree same (.ok a) (.ok a)
  | error {x x' : MetricError} (hkind : x.kind = x'.kind) (hsame : same → x = x') : Agree same (.error x) (.error x')

namespace Agree
variable {same : Prop} {α β : Type} {r r' : Except MetricError α}

theorem refl (r : Except MetricError α) : Agree same r r := by
  cases r with
  | ok a => exact .ok a
  | error x => exact .error rfl fun _ => rfl

theorem of_eq (h : r = r') : Agree same r r' := h ▸ refl r

theorem eq (h : Agree same r r') (hs : same) : r = r' := by
  cases h with
  | ok a => rfl
  | error _ hsame => rw [hsame hs]

theorem bind {f f' : α → Except MetricError β} (h : Agree same r r') (hf : ∀ a, r = .ok a → Agree same (f a) (f' a)) :
    Agree same (r >>= f) (r' >>= f') := by
  cases h with
  | ok a => exact hf a rfl
  | error hkind hsame => exact .error hkind hsame

theorem map (h : Agree same r r') (f : α → β) : Agree same (r.map f) (r'.map f) := by
  cases h with
  | ok a => exact .ok (f a)
  | error hkind hsame => exact .error hkind hsame

theorem mapM {f f' : α → Except MetricError β} {as : List α} (h : ∀ a ∈ as, Agree same (f a) (f' a)) :
    Agree same (as.mapM f) (as.mapM f') := by
  induction as with
  | nil => exact .ok []
  | cons a as ih =>
    rw [List.mapM_cons, List.mapM_cons]
    refine (h a (List.mem_cons_self ..)).bind fun b _ => ?_
    exact (ih fun x hx => h x (List.mem_cons_of_mem a hx)).bind fun bs _ => .ok _

end Agree

section Steps
variable {ε α β : Type} {r : Except ε α}

theorem map_eq_ok_iff {g : α → β} {b : β} : r.map g = .ok b ↔ ∃ a, r = .ok a ∧ g a = b := by
  cases r <;> simp [Except.map]

theorem map_eq_error_iff {g : α → β} {x : ε} : r.map g = .error x ↔ r = .error x := by
  cases r <;> simp [Except.map]

theorem mapError_eq_ok_iff {ε' : Type} {g : ε → ε'} {a : α} : r.mapError g = .ok a ↔ r = .ok a := by
  cases r with
  | error x => exact iff_of_false (fun h => nomatch h) (fun h => nomatch h)
  | ok b =>
    constructor
    · rintro ⟨⟩
      rfl
    · rintro ⟨⟩
      rfl

theorem eq_ok_of_toOption {a : α} (h : r.toOption = some a) : r = .ok a := by
  cases r with
  | ok b => exact congrArg Except.ok (Option.some.inj h)
  | error x => cases h

theorem bind_eq_ok_iff {f : α → Except ε β} {b : β} : (r >>= f) = .ok b ↔ ∃ a, r = .ok a ∧ f a = .ok b := by
  cases r <;> simp [bind, Except.bind]

end Steps

/-! ### Lists of computations, one after the other -/

section Lists
variable {ε α β : Type} {f : α → Except ε β} {as : List α}

/-- A list of computations fails as the first of them that fails. -/
theorem mapM_eq_error_iff {x : ε} : as.mapM f = .error x ↔
    ∃ (i : Nat) (a : α), as[i]? = some a ∧ f a = .error x ∧
      ∀ j < i, ∀ a', as[j]? = some a' → ∃ b, f a' = .ok b := by
  induction as with
  | nil => simp [pure, Except.pure]
  | cons a as ih =>
    rw [List.mapM_cons]
    cases ha : f a with
    | error y =>
      constructor
      · intro h
        cases h
        exact ⟨0, a, rfl, ha, fun j hj => absurd hj (Nat.not_lt_zero j)⟩
      · rintro ⟨i, a', hi, ha', hbefore⟩
        cases i with
        | zero =>
          cases hi
          rw [ha] at ha'
          cases ha'
          rfl
        | succ i =>
          obtain ⟨b, hb⟩ := hbefore 0 (Nat.succ_pos i) a rfl
          rw [ha] at hb
          cases hb
    | ok b =>
      have htail : (as.mapM f >>= fun bs => pure (b :: bs)) = .error x ↔ as.mapM f = .error x := by
        cases as.mapM f with
        | error y => exact Iff.rfl
        | ok bs => exact iff_of_false (fun h => by cases h) (fun h => by cases h)
      refine htail.trans (ih.trans ⟨?_, ?_⟩)
      · rintro ⟨i, a', hi, ha', hbefore⟩
        refine ⟨i + 1, a', hi, ha', fun j hj => ?_⟩
        cases j with
        | zero =>
          rintro _ ⟨⟩
          exact ⟨b, ha⟩
        | succ j => exact hbefore j (Nat.lt_of_succ_lt_succ hj)
      · rintro ⟨i, a', hi, ha', hbefore⟩
        cases i with
        | zero =>
          cases hi
          rw [ha] at ha'
          cases ha'
        | succ i => exact ⟨i, a', hi, ha', fun j hj => hbefore (j + 1) (Nat.succ_lt_succ hj)⟩

theorem exists_of_mapM_eq_ok {bs : List β} (h : as.mapM f = .ok bs) : ∀ a ∈ as, ∃ b, f a = .ok b := by
  induction as generalizing bs with
  | nil => exact fun _ ha => nomatch ha
  | cons c as ih =>
    rw [List.mapM_cons] at h
    cases hc : f c with
    | error x =>
      rw [hc] at h
      cases h
    | ok b =>
      cases hs : as.mapM f with
      | error x =>
        rw [hc, hs] at h
        cases h
      | ok bs => exact List.forall_mem_cons.mpr ⟨⟨b, hc⟩, ih hs⟩

theorem length_of_mapM_eq_ok {bs : List β} (h : as.mapM f = .ok bs) : bs.length = as.length := by
  induction as generalizing bs with
  | nil =>
    cases h
    rfl
  | cons c as ih =>
    rw [List.mapM_cons] at h
    obtain ⟨b, -, h⟩ := bind_eq_ok_iff.mp h
    obtain ⟨cs, hcs, h⟩ := bind_eq_ok_iff.mp h
    cases h
    rw [List.length_cons, List.length_cons, ih hcs]

/-- A list of computations fails if one of them does. -/
theorem exists_mapM_eq_error_iff : (∃ x, as.mapM f = .error x) ↔ ∃ a ∈ as, ∃ x, f a = .error x := by
  constructor
  · rintro ⟨x, hx⟩
    obtain ⟨i, a, hi, ha, -⟩ := mapM_eq_error_iff.mp hx
    exact ⟨a, List.mem_of_getElem? hi, x, ha⟩
  · rintro ⟨a, ha, x, hx⟩
    cases h : as.mapM f with
    | error y => exact ⟨y, rfl⟩
    | ok bs =>
      obtain ⟨b, hb⟩ := exists_of_mapM_eq_ok h a ha
      rw [hx] at hb
      cases hb

/-- Computations that all succeed give their values. -/
theorem exists_mapM (h : ∀ a ∈ as, ∃ b, f a = .ok b) :
    ∃ bs, as.mapM f = .ok bs ∧ ∀ b, b ∈ bs ↔ ∃ a ∈ as, f a = .ok b := by
  induction as with
  | nil => exact ⟨[], rfl, by simp⟩
  | cons a as ih =>
    obtain ⟨b, hb⟩ := h a (List.mem_cons_self ..)
    obtain ⟨bs, hbs, hmem⟩ := ih fun x hx => h x (List.mem_cons_of_mem a hx)
    refine ⟨b :: bs, by rw [List.mapM_cons, hb, hbs]; rfl, fun c => ?_⟩
    simp only [List.mem_cons, exists_eq_or_imp, hmem, hb, Except.ok.injEq, @eq_comm _ c b]

theorem mapM_eq_ok_replicate {b : β} (h : ∀ a ∈ as, f a = .ok b) : as.mapM f = .ok (List.replicate as.length b) := by
  induction as with
  | nil => rfl
  | cons a as ih =>
    rw [List.mapM_cons, h a (List.mem_cons_self ..), ih fun x hx => h x (List.mem_cons_of_mem a hx)]
    rfl

/-- One computation made once or more often comes to its outcome. -/
theorem mapM_const {r : Except ε β} (h : ∀ a ∈ as, f a = r) (hne : as ≠ []) :
    as.mapM f = r.map (List.replicate as.length) := by
  cases r with
  | ok b => exact mapM_eq_ok_replicate h
  | error x =>
    obtain ⟨a, as, rfl⟩ := List.exists_cons_of_ne_nil hne
    rw [List.mapM_cons, h a (List.mem_cons_self ..)]
    rfl

/-- Computations at the places of a list are those of its members. -/
theorem mapM_range {g : Nat → Except ε β} (h : ∀ (i : Nat) (a : α), as[i]? = some a → g i = f a) :
    (List.range as.length).mapM g = as.mapM f := by
  induction as generalizing g with
  | nil => rfl
  | cons a as ih =>
    have htail := ih (g := g ∘ Nat.succ) fun i x hx => h (i + 1) x hx
    rw [List.length_cons, List.range_succ_eq_map, List.mapM_cons, List.mapM_cons, List.mapM_map, htail, h 0 a rfl]

end Lists

end TableMetrics
