import TableMetrics.Proofs.Expr.Mention
import TableMetrics.Proofs.Expr.Renaming
import TableMetrics.Proofs.Parser.Caseless

/-! Upper and lower case. The case of the letters does not matter in the names of functions and in the word for null: a
    text with other letters there is the same expression. In the names of columns it does: they are kept as they are
    written. -/

namespace TableMetrics

open Lexer

/-- A letter of ASCII in its other case; every other character stands for itself. -/
def otherCase (c : Char) : Char := if c.isLower then c.toUpper else if c.isUpper then c.toLower else c

theorem otherCase_of_le {c : Char} (h : 128 ≤ c.toNat) : otherCase c = c := by
  have hletter : ¬c.isAlpha = true := fun halpha => by
    obtain ⟨-, hhigh⟩ := toNat_of_nameStart (Bool.or_eq_true_iff.mpr (Or.inl halpha))
    omega
  rw [otherCase, if_neg fun hlower => hletter (Bool.or_eq_true_iff.mpr (Or.inr hlower)),
    if_neg fun hupper => hletter (Bool.or_eq_true_iff.mpr (Or.inl hupper))]

/-- What holds of a character in both cases if it does for those of ASCII and for one that has no other case. -/
theorem otherCase_cases {p : Char → Char → Prop} (hascii : ∀ n < 128, p (Char.ofNat n) (otherCase (Char.ofNat n)))
    (hself : ∀ c, p c c) (c : Char) : p c (otherCase c) := by
  by_cases h : c.toNat < 128
  · have hc := hascii c.toNat h
    rwa [Char.ofNat_toNat] at hc
  · rw [otherCase_of_le (by omega)]
    exact hself c

theorem sameClass_otherCase : ∀ c, SameClass c (otherCase c) := otherCase_cases (by decide) .refl

theorem upperChar_otherCase : ∀ c, upperChar (otherCase c) = upperChar c := by
  have hascii : ∀ n < 128, otherCase (Char.ofNat n) = Char.ofNat n ∨
      97 ≤ n ∧ n < 123 ∧ otherCase (Char.ofNat n) = Char.ofNat (65 + (n - 97)) ∨
      65 ≤ n ∧ n < 91 ∧ otherCase (Char.ofNat n) = Char.ofNat (97 + (n - 65)) := by decide
  refine otherCase_cases (p := fun c d => upperChar d = upperChar c) (fun n hn => ?_) fun _ => rfl
  rcases hascii n hn with heq | ⟨hle, hlt, heq⟩ | ⟨hle, hlt, heq⟩
  · rw [heq]
  · have hsmall := upperChar_small (n - 97) (by omega)
    rw [Nat.add_sub_cancel' hle] at hsmall
    rw [heq, hsmall, upperChar_capital (by omega)]
  · have hcapital := upperChar_capital (n := n - 65) (by omega)
    rw [Nat.add_sub_cancel' hle] at hcapital
    rw [heq, hcapital, upperChar_small (n - 65) (by omega), Nat.add_sub_cancel' hle]

namespace Lexer

/-- The text with letters in their other case: those at the places, counted from `start`, that are to be flipped. -/
def recase (flip : Nat → Bool) (start : Nat) : List Char → List Char
  | [] => []
  | c :: cs => (if flip start then otherCase c else c) :: recase flip (start + 1) cs

/-- The words of a cut, each with the word behind it. -/
def withNext : List Slice → List (Slice × Option Lexeme)
  | [] => []
  | x :: xs => (x, (xs.map (·.lexeme)).head?) :: withNext xs

/-- The character belongs to a name that is read in any case. -/
def IsCaselessPlace (xs : List Slice) (i : Nat) : Prop :=
  ∃ x next, (x, next) ∈ withNext xs ∧ x.lexeme.isCaseless next = true ∧ x.position ≤ i ∧ i < x.stop

variable {flip : Nat → Bool} {start : Nat} {text cs rest : List Char} {s : String} {x : Slice} {xs : List Slice}

/-! ### Characters of words -/

theorem recase_append :
    recase flip start (cs ++ rest) = recase flip start cs ++ recase flip (start + cs.length) rest := by
  induction cs generalizing start with
  | nil => rfl
  | cons c cs ih =>
    rw [List.cons_append, recase, recase, ih, List.length_cons, Nat.add_right_comm, Nat.add_assoc]
    rfl

theorem recase_eq_self (h : ∀ i, start ≤ i → i < start + cs.length → flip i = false) : recase flip start cs = cs := by
  induction cs generalizing start with
  | nil => rfl
  | cons c cs ih =>
    have hstart : flip start = false := h start (Nat.le_refl _) (by simp)
    have hcs := @ih (start + 1) fun i hi hlt => h i (by omega) (by rw [List.length_cons]; omega)
    rw [recase, hcs, hstart]
    rfl

theorem sameClass_flipped (c : Char) : SameClass c (if flip start then otherCase c else c) := by
  split
  · exact sameClass_otherCase c
  · exact .refl c

theorem head_recase : ∀ c ∈ (recase flip start cs).head?, ∃ d ∈ cs.head?, SameClass d c := by
  cases cs with
  | nil => exact fun _ hc => nomatch hc
  | cons d cs =>
    rintro c ⟨⟩
    exact ⟨d, rfl, sameClass_flipped d⟩

theorem isNameChar_recase (h : ∀ d ∈ cs, isNameChar d = true) : ∀ d ∈ recase flip start cs, isNameChar d = true := by
  induction cs generalizing start with
  | nil => exact fun _ hd => nomatch hd
  | cons c cs ih =>
    obtain ⟨hc, hcs⟩ := List.forall_mem_cons.mp h
    exact List.forall_mem_cons.mpr ⟨(sameClass_flipped c).isNameChar ▸ hc, ih hcs⟩

theorem writes_recase (h : Writes cs (.name s)) :
    Writes (recase flip start cs) (.name (String.ofList (recase flip start cs))) := by
  cases h with
  | name hc hcs => exact .name ((sameClass_flipped _).1 ▸ hc) (isNameChar_recase hcs)

theorem upper_recase : upper (String.ofList (recase flip start cs)) = upper (String.ofList cs) := by
  have hflat : (recase flip start cs).flatMap upperChar = cs.flatMap upperChar := by
    induction cs generalizing start with
    | nil => rfl
    | cons c cs ih =>
      rw [recase, List.flatMap_cons, List.flatMap_cons, ih]
      split
      · rw [upperChar_otherCase]
      · rfl
  rw [upper, upper, String.toList_ofList, String.toList_ofList, hflat]

theorem eq_ofList_of_writes (h : Writes cs (.name s)) : String.ofList cs = s := by
  cases h
  rfl

/-! ### Texts -/

theorem mem_of_mem_withNext {next : Option Lexeme} (h : (x, next) ∈ withNext xs) : x ∈ xs := by
  induction xs with
  | nil => cases h
  | cons y xs ih =>
    rcases List.mem_cons.mp h with heq | h
    · cases heq
      exact List.mem_cons_self ..
    · exact List.mem_cons_of_mem y (ih h)

theorem isSignPlace_congr {next : Option Lexeme} {w w' : Lexeme} (h : SameReading next w w') :
    IsSignPlace (some w') ↔ IsSignPlace (some w) := by
  cases h with
  | refl => exact Iff.rfl
  | name => simp [IsSignPlace]

/-- Where only letters of names that are read in any case are flipped, a word is the same or a name that is read alike,
    and it may stand where it stands. -/
theorem exists_word_recase {previous previous' : Option Lexeme} {next : Option Lexeme} (hw : Writes x.chars x.lexeme)
    (hs : Stands previous x.chars x.lexeme rest) (hplace : IsSignPlace previous' ↔ IsSignPlace previous)
    (hflip : x.lexeme.isCaseless next = true ∨ ∀ i, x.position ≤ i → i < x.stop → flip i = false) (place : Nat) :
    ∃ w, SameReading next x.lexeme w ∧ Writes (recase flip x.position x.chars) w ∧
      Stands previous' (recase flip x.position x.chars) w (recase flip place rest) := by
  have hs' : Stands previous' x.chars x.lexeme (recase flip place rest) :=
    hs.of_head hplace fun c hc => Or.inl (head_recase c hc)
  rcases hflip with hcaseless | hnone
  · cases hname : x.lexeme with
    | name s =>
      rw [hname] at hw hs' hcaseless
      have hupper : upper s = upper (String.ofList (recase flip x.position x.chars)) := by
        rw [upper_recase, eq_ofList_of_writes hw]
      exact ⟨_, .name hupper hcaseless, writes_recase hw, hs'⟩
    | _ =>
      rw [hname] at hcaseless
      cases hcaseless
  · rw [recase_eq_self hnone]
    exact ⟨x.lexeme, .refl _, hw, hs'⟩

/-- Words that are read alike spell the text with the letters flipped. -/
theorem exists_spells_recase {start : Nat} {previous previous' : Option Lexeme} (hcut : CutsFrom text start previous xs)
    (hflip : ∀ i, start ≤ i → flip i = true → IsCaselessPlace xs i)
    (hplace : IsSignPlace previous' ↔ IsSignPlace previous) :
    ∃ ws, Spells previous' (recase flip start (text.drop start)) ws ∧ SameWords (xs.map (·.lexeme)) ws := by
  induction start, previous, xs, hcut using CutsFrom.induction generalizing previous' with
  | stop start previous _ hdrop =>
    rw [hdrop]
    exact ⟨[], .nil previous', .nil⟩
  | blank start previous xs _ c cs hdrop hblank hcut ih =>
    obtain ⟨ws, hspells, hsame⟩ := ih (fun i hi => hflip i (by omega)) hplace
    have hstart : flip start = false := Bool.eq_false_iff.mpr fun hstart => by
      obtain ⟨x, next, hmem, -, hle, -⟩ := hflip start (Nat.le_refl _) hstart
      have hbehind := (hcut.placed x (mem_of_mem_withNext hmem)).1
      omega
    rw [← List.drop_drop, hdrop, List.drop_one, List.tail_cons] at hspells
    rw [hdrop, recase, hstart]
    exact ⟨ws, .blank hblank hspells, hsame⟩
  | word previous x xs _ rest hdrop hw hs hstop hcut ih =>
    have hstart : x.position ≤ x.stop := Nat.le_add_right ..
    -- A place in this word is in no other word, and a place behind it is not in this one.
    have hinside : x.lexeme.isCaseless (xs.map (·.lexeme)).head? = true ∨
        ∀ i, x.position ≤ i → i < x.stop → flip i = false := by
      refine Classical.or_iff_not_imp_left.mpr fun hcaseless i hi hlt => Bool.eq_false_iff.mpr fun htrue => ?_
      obtain ⟨y, next, hmem, hy, hle, -⟩ := hflip i hi htrue
      rcases List.mem_cons.mp hmem with heq | hmem
      · cases heq
        exact hcaseless hy
      · have hbehind := (hcut.placed y (mem_of_mem_withNext hmem)).1
        omega
    have hbehind : ∀ i, x.stop ≤ i → flip i = true → IsCaselessPlace xs i := fun i hi htrue => by
      obtain ⟨y, next, hmem, hy, hle, hlt⟩ := hflip i (by omega) htrue
      rcases List.mem_cons.mp hmem with heq | hmem
      · cases heq
        omega
      · exact ⟨y, next, hmem, hy, hle, hlt⟩
    obtain ⟨w, hreading, hw', hs'⟩ := exists_word_recase hw hs hplace hinside x.stop
    obtain ⟨ws, hspells, hsame⟩ := ih hbehind (isSignPlace_congr hreading)
    rw [hstop] at hspells
    rw [hdrop, recase_append]
    exact ⟨w :: ws, .word hw' hs' hspells, .cons hreading hsame⟩

end Lexer

/-! ### Names of columns -/

def Mention.column? : Mention → Option String
  | .column name => some name
  | _ => none

def Expr.columnName? : Expr → Option String
  | .column name => some name
  | _ => none

/-- The name of a column that a word of a cut is, as it is written: a name that is not read in any case. -/
def Lexer.Slice.columnName? (x : Slice) (next : Option Lexeme) : Option String :=
  match x.lexeme with
  | .name s => if (Lexeme.name s).isCaseless next then none else some (String.ofList x.chars)
  | _ => none

theorem Lexer.Slice.columnName?_eq {x : Slice} (hw : Writes x.chars x.lexeme) (next : Option Lexeme) :
    x.columnName? next = (x.lexeme.mention? next).bind Mention.column? := by
  unfold columnName? Lexeme.mention?
  cases hlexeme : x.lexeme with
  | name s =>
    rw [hlexeme] at hw
    rw [eq_ofList_of_writes hw]
    by_cases hopening : next = some .opening
    · simp [hopening, Lexeme.isCaseless, Mention.column?]
    · by_cases hnull : upper s = "NULL"
      · simp [hopening, hnull, Lexeme.isCaseless]
      · simp [hopening, hnull, Lexeme.isCaseless, Mention.column?]
  | _ => rfl

theorem filterMap_mentions {xs : List Slice} (hw : ∀ x ∈ xs, Writes x.chars x.lexeme) :
    (mentions (xs.map (·.lexeme))).filterMap Mention.column? =
      (withNext xs).filterMap fun x => x.1.columnName? x.2 := by
  induction xs with
  | nil => rfl
  | cons x xs ih =>
    obtain ⟨hx, hxs⟩ := List.forall_mem_cons.mp hw
    rw [List.map_cons, mentions, List.filterMap_append, ih hxs, withNext, List.filterMap_cons, Slice.columnName?_eq hx]
    cases x.lexeme.mention? (xs.map (·.lexeme)).head? with
    | none => rfl
    | some m => cases m <;> rfl

namespace Expr

/-- The columns of an expression are the names that are not read in any case, from left to right. -/
theorem columnNames_eq {xs : List Slice} {e : Expr} (hw : ∀ x ∈ xs, Writes x.chars x.lexeme)
    (h : Derives .expression (xs.map (·.lexeme)) e) :
    e.walk.filterMap columnName? = (withNext xs).filterMap fun x => x.1.columnName? x.2 := by
  have hcolumn : ∀ x : Expr, x.columnName? = x.mention?.bind Mention.column? := fun x => by
    cases x <;> rfl
  rw [← filterMap_mentions hw, ← h.mentions_eq, mentions, List.filterMap_filterMap]
  exact congrArg (e.walk.filterMap ·) (funext hcolumn)

/-- A text with letters in their other case: those at the places that are to be flipped. -/
def recased (flip : Nat → Bool) (s : String) : String := String.ofList (recase flip 0 s.toList)

/-- Where every call has another name of its function, or of no function, an expression comes to the same: to one value, or
    to failures of one kind. A text that is an expression is the same one with other cases of the letters in the names
    of functions and in the words for null, and its columns have the other names as they are written. -/
theorem functionNames_transparent :
    (∀ e e', SameFunctions e e' → ∀ d row, Agree False (eval d row e) (eval d row e')) ∧
    ∀ s e, ofText s = .ok e → ∃ xs, Cuts s.toList xs ∧
      (∀ flip, (∀ i, flip i = true → IsCaselessPlace xs i) → ofText (recased flip s) = .ok e) ∧
      e.walk.filterMap columnName? = (withNext xs).filterMap fun x => x.1.columnName? x.2 := by
  refine ⟨fun e e' h d row => h.sameValue d row, fun s e h => ?_⟩
  obtain ⟨ts, hts, he⟩ := exists_tokens_of_ofText h
  obtain ⟨xs, hcut, rfl⟩ := Token.ofText_eq_ok_iff.mp hts
  have hderives : Derives .expression (xs.map (·.lexeme)) e := by
    have hwords := derives_of_ofTokens he
    rwa [List.map_map] at hwords
  refine ⟨xs, hcut, fun flip hflip => ?_, columnNames_eq hcut.written hderives⟩
  obtain ⟨ws, hspells, hsame⟩ := exists_spells_recase hcut (fun i _ => hflip i) (Iff.refl (IsSignPlace none))
  refine ofText_eq_ok_iff.mpr ⟨ws, ?_, hderives.sameWords hsame⟩
  rw [recased, String.toList_ofList]
  exact hspells

/-- Another name of the least, and the other case of its first letter; the name of the column stays. -/
theorem functionNames_transparent_minimum :
    SameFunctions (.call "MIN" [.column "A"]) (.call "MINIMUM" [.column "A"]) ∧
    (∀ d row, Agree False (eval d row (.call "MIN" [.column "A"])) (eval d row (.call "MINIMUM" [.column "A"]))) ∧
    ∃ e, ofText "min(A)" = .ok e ∧ ofText "Min(A)" = .ok e ∧ e.walk.filterMap columnName? = ["A"] := by
  have hnames : Function.ofName? "MIN" = Function.ofName? "MINIMUM" := by
    rw [Function.ofName?_of_mem (f := Function.statistic .minimum) (by decide),
      Function.ofName?_of_mem (f := Function.statistic .minimum) (by decide)]
  have hsame : SameFunctions (.call "MIN" [.column "A"]) (.call "MINIMUM" [.column "A"]) :=
    .call hnames [(.column "A", .column "A")] (List.forall_mem_singleton.mpr (.column "A"))
  have hread : (ofText "min(A)").isOk = true := by decide +kernel
  cases he : ofText "min(A)" with
  | error x =>
    rw [he] at hread
    cases hread
  | ok e =>
    obtain ⟨xs, hcut, hrecase, hcolumns⟩ := functionNames_transparent.2 _ e he
    have hwords : Cuts "min(A)".toList [⟨0, ['m', 'i', 'n'], .name "min"⟩, ⟨3, ['('], .opening⟩, ⟨4, ['A'], .name "A"⟩,
        ⟨5, [')'], .closing⟩] := by
      refine .cons ⟨0, ['m', 'i', 'n'], .name "min"⟩ (by decide) (.name (by decide) (List.all_eq_true.mp (by decide))) ?_
        (.cons ⟨3, ['('], .opening⟩ (by decide) .opening trivial ?_)
      · rintro c ⟨⟩
        decide
      · refine .cons ⟨4, ['A'], .name "A"⟩ (by decide) (.name (by decide) (by simp)) ?_
          (.cons ⟨5, [')'], .closing⟩ (by decide) .closing trivial ((cutsFrom_end (by decide)).mpr rfl))
        rintro c ⟨⟩
        decide
    obtain rfl := hcut.unique hwords
    have hfirst : ofText (recased (· == 0) "min(A)") = .ok e := hrecase _ fun i hi => by
      obtain rfl := eq_of_beq hi
      exact ⟨_, _, List.mem_cons_self .., rfl, Nat.le_refl 0, by decide⟩
    have hnull : upper "A" ≠ "NULL" := by
      rw [upper_eq_self (by decide)]
      decide
    refine ⟨hsame, fun d row => functionNames_transparent.1 _ _ hsame d row, e, rfl, ?_, hcolumns.trans ?_⟩
    · rw [← hfirst]
      rfl
    · simp [withNext, Slice.columnName?, Lexeme.isCaseless, hnull]

end Expr

end TableMetrics
