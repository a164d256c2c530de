import TableMetrics.Error

/-! Datasets: rows of cells under named columns. A row that is null or too short reads as null where it has no
    cell; the cells beyond the last column are never read. -/

namespace TableMetrics

structure Table where
  columns : List String
  rows : List (Option (List Value))
  deriving Inhabited

/-- A table whose columns have different names. -/
structure Dataset extends Table where
  distinct : columns.Nodup

/-- The first name that stands in `names` a second time, or in `seen` already. -/
def firstRepeated? (seen : List String) : List String → Option String
  | [] => none
  | name :: names => if name ∈ seen then some name else firstRepeated? (name :: seen) names

theorem firstRepeated?_eq_none {names : List String} :
    ∀ {seen : List String}, firstRepeated? seen names = none → names.Nodup ∧ ∀ name ∈ names, name ∉ seen := by
  induction names with
  | nil => simp
  | cons name names ih =>
    intro seen h
    unfold firstRepeated? at h
    split at h
    · simp at h
    · next hseen =>
      obtain ⟨hnodup, hnew⟩ := ih h
      refine ⟨List.nodup_cons.mpr ⟨fun hmem => hnew name hmem (List.mem_cons_self ..), hnodup⟩, ?_⟩
      intro other hother
      rcases List.mem_cons.mp hother with rfl | hother
      · exact hseen
      · exact fun hmem => hnew other hother (List.mem_cons_of_mem _ hmem)

def readCell (index : Nat) (row : Option (List Value)) : Value := (row.getD [])[index]?.getD .null

def firstNonNull (cells : List Value) : Value := (cells.find? (!·.isNull)).getD .null

namespace Dataset

/-- A table as a dataset, unless two columns have one name. -/
def ofTable (t : Table) : Except MetricError Dataset :=
  match h : firstRepeated? [] t.columns with
  | some name => .error (.duplicateColumn name)
  | none => .ok { t with distinct := (firstRepeated?_eq_none h).1 }

/-- The dataset of a table that may be missing or not be one. -/
def ofInput : Option Table → Except MetricError Dataset
  | some t => ofTable t
  | none => .error .malformedDataset

def size (d : Dataset) : Nat := d.rows.length

def hasColumn (d : Dataset) (column : String) : Bool := d.columns.contains column

def columnIndex (d : Dataset) (column : String) : Except MetricError Nat :=
  (MetricError.missingColumn column d.columns).require (d.columns.idxOf? column)

/-- The cell of a column in a row; outside of the rows, before the first as behind the last, it is null. -/
def cell (d : Dataset) (row : Int) (column : String) : Except MetricError Value :=
  (d.columnIndex column).map fun index =>
    if row < 0 then .null else (d.rows[row.toNat]?.map (readCell index)).getD .null

def columnValues (d : Dataset) (column : String) : Except MetricError (List Value) :=
  (d.columnIndex column).map fun index => d.rows.map (readCell index)

def firstValue (d : Dataset) (column : String) : Except MetricError Value :=
  (d.columnValues column).map firstNonNull

/-- How a dataset is shown: its columns, and the number of its rows. -/
def shown (d : Dataset) : String :=
  "Dataset(columns=[" ++ ", ".intercalate (d.columns.map quoted) ++ "], rows=" ++ integerText d.size ++ ")"

end Dataset

end TableMetrics
