import TableMetrics.Aggregate

/-! The functions of the language and their names. -/

namespace TableMetrics

/-- A function: an aggregate of a column, the choice by a condition, or the text of a column. -/
inductive Function where
  | aggregate (a : Aggregate)
  | choose
  | text
  deriving DecidableEq, Inhabited

namespace Function

abbrev statistic (s : Statistic) : Function := .aggregate (.statistic s)

def name : Function → String
  | .aggregate (.statistic .mean) => "MEAN"
  | .aggregate (.statistic .sum) => "SUM"
  | .aggregate (.statistic .minimum) => "MIN"
  | .aggregate (.statistic .maximum) => "MAX"
  | .aggregate (.statistic .deviation) => "STDDEV"
  | .aggregate .count => "COUNT"
  | .aggregate .countDistinct => "COUNT_DISTINCT"
  | .choose => "IF"
  | .text => "TEXT"

/-- All functions, in the order in which messages list them. -/
def all : List Function :=
  [statistic .sum, statistic .mean, statistic .minimum, statistic .maximum, statistic .deviation,
    .aggregate .count, .aggregate .countDistinct, .choose, .text]

/-- Every name of a function, first names included. -/
def names : List (String × Function) :=
  [("MEAN", statistic .mean), ("AVG", statistic .mean), ("AVERAGE", statistic .mean),
    ("SUM", statistic .sum),
    ("MIN", statistic .minimum), ("MINIMUM", statistic .minimum),
    ("MAX", statistic .maximum), ("MAXIMUM", statistic .maximum),
    ("STDDEV", statistic .deviation), ("STDEV", statistic .deviation),
    ("COUNT", .aggregate .count),
    ("COUNT_DISTINCT", .aggregate .countDistinct), ("COUNTDISTINCT", .aggregate .countDistinct),
    ("IF", .choose),
    ("TEXT", .text), ("FIRST_TEXT", .text)]

/-- The function that a name denotes, in any case. -/
def ofName? (name : String) : Option Function := names.lookup (upper name)

theorem ofName?_of_mem {name : String} {f : Function} (h : (name, f) ∈ names) : ofName? name = some f := by
  have hupper : names.all (fun x => x.1.toList.all (·.toNat < 97)) = true := by decide
  have hlookup : names.all (fun x => names.lookup x.1 == some x.2) = true := by decide
  rw [ofName?, upper_eq_self (List.all_eq_true.mp hupper _ h)]
  exact eq_of_beq (List.all_eq_true.mp hlookup _ h)

def supportedNames : List String := all.map name

/-- The kernels of the functions that reduce a column, each under the name of its function. -/
def kernels : List (String × Aggregate) :=
  [("MEAN", .statistic .mean), ("SUM", .statistic .sum), ("MIN", .statistic .minimum), ("MAX", .statistic .maximum),
    ("STDDEV", .statistic .deviation), ("COUNT", .count)]

/-- A function without a rule of its own: all it does is to reduce a column by its kernel. -/
structure IsReduction (f : Function) : Prop where
  ne_choose : f ≠ .choose
  ne_countDistinct : f ≠ .aggregate .countDistinct
  ne_text : f ≠ .text

theorem lookup_kernels {a : Aggregate} (h : a ≠ .countDistinct) : kernels.lookup (aggregate a).name = some a := by
  rcases a with s | _ | _
  · cases s <;> decide
  · decide
  · exact absurd rfl h

theorem IsReduction.exists_aggregate {f : Function} (h : f.IsReduction) : ∃ a, a ≠ .countDistinct ∧ f = aggregate a := by
  cases f with
  | aggregate a => exact ⟨a, fun ha => h.ne_countDistinct (congrArg _ ha), rfl⟩
  | choose => exact absurd rfl h.ne_choose
  | text => exact absurd rfl h.ne_text

/-- Every function that reduces a column has a kernel. -/
theorem IsReduction.isSome_lookup {f : Function} (h : f.IsReduction) : (kernels.lookup f.name).isSome = true := by
  obtain ⟨a, ha, rfl⟩ := h.exists_aggregate
  rw [lookup_kernels ha]
  rfl

def kernel (f : Function) (h : f.IsReduction) : Aggregate := (kernels.lookup f.name).get h.isSome_lookup

theorem isReduction_aggregate {a : Aggregate} (h : a ≠ .countDistinct) : (aggregate a).IsReduction :=
  ⟨by rintro ⟨⟩, fun ha => h (aggregate.inj ha), by rintro ⟨⟩⟩

@[simp] theorem kernel_aggregate {a : Aggregate} (h : (aggregate a).IsReduction) : (aggregate a).kernel h = a :=
  Option.get_of_eq_some _ (lookup_kernels fun ha => h.ne_countDistinct (congrArg _ ha))

end Function

end TableMetrics
