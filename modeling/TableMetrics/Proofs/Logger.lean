import Mathlib.Data.List.Basic
import TableMetrics.Logger

/-! Runs of configurations of the log. A configuration fails if and only if the log does not know the level, and then
    changes nothing. After a run the log has the level that was set last, and from the first success on there is one
    handler for the output, and never another. -/

namespace TableMetrics
namespace Logger

/-! ### One configuration -/

/-- The level that a text names in any case, if the log knows it. -/
def level? (level : String) : Option LogLevel := LogLevel.names.lookup (upper level)

theorem level?_eq_none_iff {level : String} : level? level = none ↔ upper level ∉ LogLevel.names.map (·.1) := by
  rw [level?, List.lookup_eq_none_iff]
  constructor
  · intro h hmem
    obtain ⟨x, hx, heq⟩ := List.mem_map.mp hmem
    exact bne_iff_ne.mp (h x hx) heq.symm
  · exact fun h x hx => bne_iff_ne.mpr fun heq => h (heq ▸ List.mem_map_of_mem hx)

theorem configure_of_known {level : String} {known : LogLevel} (h : level? level = some known) (l : Logger) :
    configure level l = addOutput { l with level := known } := by
  unfold configure setLevel
  rw [level?] at h
  rw [h]
  rfl

theorem configure_of_unknown {level : String} (h : level? level = none) (l : Logger) :
    configure level l = .error ⟨upper level⟩ l := by
  unfold configure setLevel
  rw [level?] at h
  rw [h]
  rfl

/-! ### Runs -/

/-- The log after levels of which the last known one is `last`. -/
def ofLast : Option LogLevel → Logger
  | none => initial
  | some level => ⟨level, [outputHandler]⟩

theorem addOutput_ofLast (last : Option LogLevel) (level : LogLevel) :
    addOutput { ofLast last with level } = .ok () ⟨level, [outputHandler]⟩ := by
  cases last <;> rfl

/-- A configuration leaves the log as the level that it sets requires, or else as the last one before does. -/
theorem left_configure_ofLast (last : Option LogLevel) (level : String) :
    left (configure level (ofLast last)) = ofLast ((level? level).or last) := by
  cases h : level? level with
  | none =>
    rw [configure_of_unknown h, Option.none_or]
    rfl
  | some known =>
    rw [configure_of_known h, addOutput_ofLast, Option.some_or]
    rfl

/-- The last of the levels that the log knows. -/
def lastKnown? (levels : List String) : Option LogLevel := levels.reverse.findSome? level?

theorem lastKnown?_cons (level : String) (levels : List String) :
    lastKnown? (level :: levels) = (lastKnown? levels).or (level? level) := by
  rw [lastKnown?, List.reverse_cons, List.findSome?_append, List.findSome?_singleton]
  rfl

theorem after_ofLast (last : Option LogLevel) (levels : List String) :
    (ofLast last).after levels = ofLast ((lastKnown? levels).or last) := by
  induction levels generalizing last with
  | nil => rfl
  | cons level levels ih =>
    rw [after, List.foldl_cons, left_configure_ofLast, ← after, ih, lastKnown?_cons, Option.or_assoc]

/-- The log after a run follows from the last level that it knows. -/
theorem after_initial (levels : List String) : initial.after levels = ofLast (lastKnown? levels) := by
  rw [← Option.or_none (o := lastKnown? levels)]
  exact after_ofLast none levels

theorem lastKnown?_eq_none_iff {levels : List String} :
    lastKnown? levels = none ↔ ∀ (i : Nat) (level : String), levels[i]? = some level → level? level = none := by
  simp only [lastKnown?, List.findSome?_eq_none_iff, List.mem_reverse]
  constructor
  · exact fun h i level hi => h level (List.mem_of_getElem? hi)
  · intro h level hmem
    obtain ⟨i, hi⟩ := List.mem_iff_getElem?.mp hmem
    exact h i level hi

/-- A known level is the last one if those behind it are unknown. -/
theorem lastKnown?_eq_some {levels : List String} {i : Nat} {level : String} {known : LogLevel}
    (hi : levels[i]? = some level) (h : level? level = some known)
    (hbehind : ∀ (j : Nat) (level : String), i < j → levels[j]? = some level → level? level = none) :
    lastKnown? levels = some known := by
  have hnone : (levels.drop (i + 1)).reverse.findSome? level? = none := by
    rw [← lastKnown?, lastKnown?_eq_none_iff]
    intro j level hj
    rw [List.getElem?_drop] at hj
    exact hbehind _ level (by omega) hj
  obtain ⟨hlt, heq⟩ := List.getElem?_eq_some_iff.mp hi
  rw [lastKnown?, ← List.take_append_drop i levels, List.drop_eq_getElem_cons hlt, heq, List.reverse_append,
    List.reverse_cons, List.append_assoc, List.findSome?_append, hnone, Option.none_or]
  simp [h]

/-! ### The outcomes of a run -/

/-- The outcome of each configuration is that for the log which those before it leave. -/
theorem getElem?_configureAll (l : Logger) (levels : List String) (i : Nat) : (l.configureAll levels)[i]? =
    levels[i]?.map fun level => outcome (configure level (l.after (levels.take i))) := by
  induction levels generalizing l i with
  | nil => rfl
  | cons level levels ih =>
    cases i with
    | zero => rfl
    | succ i => exact ih (left (configure level l)) i

/-- The configuration at a place of a run succeeds. -/
def SucceedsAt (levels : List String) (i : Nat) : Prop := ∃ l, (initial.configureAll levels)[i]? = some (.ok l)

/-- The configuration at a place of a run fails. -/
def RefusedAt (levels : List String) (i : Nat) : Prop := ∃ e, (initial.configureAll levels)[i]? = some (.error e)

section Outcomes
variable {levels : List String} {k i : Nat} {level : String}

theorem outcome_of_known {known : LogLevel} (hi : levels[i]? = some level) (h : level? level = some known) :
    (initial.configureAll levels)[i]? = some (.ok ⟨known, [outputHandler]⟩) := by
  rw [getElem?_configureAll, hi, Option.map_some, configure_of_known h, after_initial, addOutput_ofLast]
  rfl

theorem outcome_of_unknown (hi : levels[i]? = some level) (h : level? level = none) :
    (initial.configureAll levels)[i]? = some (.error ⟨upper level⟩) := by
  rw [getElem?_configureAll, hi, Option.map_some, configure_of_unknown h]
  rfl

theorem succeedsAt_iff (hi : levels[i]? = some level) : SucceedsAt levels i ↔ level? level ≠ none := by
  cases h : level? level with
  | none =>
    refine iff_of_false ?_ (not_not.mpr rfl)
    rintro ⟨l, hl⟩
    rw [outcome_of_unknown hi h] at hl
    cases hl
  | some known => exact iff_of_true ⟨_, outcome_of_known hi h⟩ (Option.some_ne_none known)

theorem refusedAt_iff (hi : levels[i]? = some level) : RefusedAt levels i ↔ level? level = none := by
  cases h : level? level with
  | none => exact iff_of_true ⟨_, outcome_of_unknown hi h⟩ rfl
  | some known =>
    refine iff_of_false ?_ (Option.some_ne_none known)
    rintro ⟨e, he⟩
    rw [outcome_of_known hi h] at he
    cases he

theorem exists_of_succeedsAt (h : SucceedsAt levels i) :
    ∃ level known, levels[i]? = some level ∧ level? level = some known := by
  have hplace : levels[i]? ≠ none := fun hnone => by
    obtain ⟨l, hl⟩ := h
    rw [getElem?_configureAll, hnone] at hl
    cases hl
  obtain ⟨level, hi⟩ := Option.ne_none_iff_exists'.mp hplace
  obtain ⟨known, hknown⟩ := Option.ne_none_iff_exists'.mp ((succeedsAt_iff hi).mp h)
  exact ⟨level, known, hi, hknown⟩

theorem level?_of_take (h : ∀ j, i ≤ j → j < k → ¬SucceedsAt levels j) {j : Nat} (hij : i ≤ j)
    (hj : (levels.take k)[j]? = some level) : level? level = none := by
  rw [List.getElem?_take] at hj
  split at hj
  · next hjk => exact not_not.mp (mt (succeedsAt_iff hj).mpr (h j hij hjk))
  · cases hj

/-! ### The log after a part of a run -/

theorem after_take_of_none (h : ∀ i < k, ¬SucceedsAt levels i) : initial.after (levels.take k) = initial := by
  have hlast : lastKnown? (levels.take k) = none := lastKnown?_eq_none_iff.mpr fun i _ hi =>
    level?_of_take (fun j _ => h j) (Nat.zero_le i) hi
  rw [after_initial, hlast]
  rfl

theorem after_take_of_last {known : LogLevel} (hik : i < k) (hi : levels[i]? = some level)
    (hknown : level? level = some known) (hbehind : ∀ j, i < j → j < k → ¬SucceedsAt levels j) :
    initial.after (levels.take k) = ⟨known, [outputHandler]⟩ := by
  have htake : (levels.take k)[i]? = some level := by rw [List.getElem?_take_of_lt hik, hi]
  rw [after_initial, lastKnown?_eq_some htake hknown fun j _ hij hj => level?_of_take hbehind hij hj]
  rfl

theorem outputCount_after_take (hik : i < k) (h : SucceedsAt levels i) :
    (initial.after (levels.take k)).outputCount = 1 := by
  obtain ⟨level, known, hi, hknown⟩ := exists_of_succeedsAt h
  rw [after_initial]
  cases hlast : lastKnown? (levels.take k) with
  | none =>
    have htake : (levels.take k)[i]? = some level := by rw [List.getElem?_take_of_lt hik, hi]
    rw [lastKnown?_eq_none_iff.mp hlast i level htake] at hknown
    cases hknown
  | some last => exact List.count_singleton_self

theorem after_take_of_refusedAt (hi : levels[i]? = some level) (h : RefusedAt levels i) :
    initial.after (levels.take (i + 1)) = initial.after (levels.take i) := by
  rw [List.take_add_one, hi, after, List.foldl_append]
  exact congrArg left (configure_of_unknown ((refusedAt_iff hi).mp h) _)

end Outcomes

/-- Before the first configuration that succeeds there is no handler for the output and no level, and from then on there
    is one handler and the level that was set last. A configuration fails if and only if the log does not know the
    level, and leaves the log as it was. -/
theorem configureAll_runs (levels : List String) :
    (∀ k, ((∀ i < k, ¬SucceedsAt levels i) →
        (initial.after (levels.take k)).outputCount = 0 ∧ (initial.after (levels.take k)).level = .unset) ∧
      ∀ i < k, SucceedsAt levels i → (initial.after (levels.take k)).outputCount = 1 ∧
        ((∀ j, i < j → j < k → ¬SucceedsAt levels j) → ∃ level, levels[i]? = some level ∧
          LogLevel.names.lookup (upper level) = some (initial.after (levels.take k)).level)) ∧
    ∀ i level, levels[i]? = some level →
      (RefusedAt levels i ↔ ¬SucceedsAt levels i) ∧
      (RefusedAt levels i ↔ upper level ∉ LogLevel.names.map (·.1)) ∧
      (RefusedAt levels i → initial.after (levels.take (i + 1)) = initial.after (levels.take i)) := by
  refine ⟨fun k => ⟨fun hnone => ?_, fun i hik hi => ⟨outputCount_after_take hik hi, fun hbehind => ?_⟩⟩,
    fun i level hi => ⟨?_, ?_, after_take_of_refusedAt hi⟩⟩
  · rw [after_take_of_none hnone]
    exact ⟨rfl, rfl⟩
  · obtain ⟨level, known, hi, hknown⟩ := exists_of_succeedsAt hi
    refine ⟨level, hi, ?_⟩
    rw [after_take_of_last hik hi hknown hbehind]
    exact hknown
  · rw [refusedAt_iff hi, succeedsAt_iff hi, not_not]
  · rw [refusedAt_iff hi, level?_eq_none_iff]

end Logger
end TableMetrics
