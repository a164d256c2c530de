import Mathlib.Computability.Language
import Mathlib.Data.Nat.Digits.Defs
import TableMetrics.Number.Numeral
import TableMetrics.Proofs.Lexer.Scan

/-! The grammar of numeric text, which reading follows: what is read is written by the grammar, and only what the grammar
    writes is read. A pattern with the same parts, that lets a line end follow, matches the same texts if there is no
    blank at their ends. -/

namespace TableMetrics

open Numeral

/-! ### The grammar -/

/-- The characters are decimal digits, of any script, with the values `ds`. -/
def DigitsOf (ds : List Nat) (cs : List Char) : Prop := cs.map decimalDigit? = ds.map some

inductive SignOf : Bool → List Char → Prop where
  | absent : SignOf false []
  | plus : SignOf false ['+']
  | minus : SignOf true ['-']

/-- Digits before a point and behind it. The point can be missing behind digits, and digits on one side of it. -/
inductive MantissaOf : List Nat → List Nat → List Char → Prop where
  | whole {ds : List Nat} {cs : List Char} (hne : ds ≠ []) (h : DigitsOf ds cs) : MantissaOf ds [] cs
  | point {ds fs : List Nat} {cs cs' : List Char} (hne : ds ≠ []) (h : DigitsOf ds cs) (h' : DigitsOf fs cs') :
    MantissaOf ds fs (cs ++ '.' :: cs')
  | fraction {fs : List Nat} {cs : List Char} (hne : fs ≠ []) (h : DigitsOf fs cs) : MantissaOf [] fs ('.' :: cs)

inductive ExponentOf : Int → List Char → Prop where
  | absent : ExponentOf 0 []
  | power {e : Char} {negative : Bool} {sign cs : List Char} {ds : List Nat} (he : e = 'e' ∨ e = 'E')
    (hsign : SignOf negative sign) (hne : ds ≠ []) (h : DigitsOf ds cs) :
    ExponentOf (Binary64.signed negative (Nat.ofDigits 10 ds.reverse)) (e :: (sign ++ cs))

/-- A numeral is written as a sign, a mantissa and an exponent. -/
inductive Numeral.Writes : Numeral → List Char → Prop where
  | mk {negative : Bool} {whole fraction : List Nat} {e : Int} {sign mantissa rest : List Char}
    (hsign : SignOf negative sign) (hmantissa : MantissaOf whole fraction mantissa) (hexponent : ExponentOf e rest) :
    Numeral.Writes ⟨negative, whole, fraction, e⟩ (sign ++ (mantissa ++ rest))

theorem ofDigits_eq (ds : List Nat) : Decimal.ofDigits ds = Nat.ofDigits 10 ds.reverse := by
  rw [Nat.ofDigits_eq_foldr, List.foldr_reverse, Decimal.ofDigits]
  simp only [Nat.cast_id, Nat.add_comm]

/-! ### Digits -/

namespace DigitsOf
variable {c : Char} {d : Nat} {cs cs' : List Char} {ds ds' : List Nat}

theorem nil : DigitsOf [] [] := rfl

theorem cons_iff : DigitsOf (d :: ds) (c :: cs) ↔ decimalDigit? c = some d ∧ DigitsOf ds cs := by
  simp only [DigitsOf, List.map_cons, List.cons.injEq]

theorem cons (hc : decimalDigit? c = some d) (h : DigitsOf ds cs) : DigitsOf (d :: ds) (c :: cs) := cons_iff.mpr ⟨hc, h⟩

theorem append (h : DigitsOf ds cs) (h' : DigitsOf ds' cs') : DigitsOf (ds ++ ds') (cs ++ cs') := by
  rw [DigitsOf, List.map_append, List.map_append, h, h']

theorem eq_nil_iff (h : DigitsOf ds cs) : ds = [] ↔ cs = [] := by
  rw [← List.map_eq_nil_iff (f := some), ← h, List.map_eq_nil_iff]

theorem exists_digit (h : DigitsOf ds cs) (hc : c ∈ cs) : ∃ d, decimalDigit? c = some d := by
  have hmem : decimalDigit? c ∈ ds.map some := by
    rw [← h]
    exact List.mem_map_of_mem hc
  obtain ⟨d, -, hd⟩ := List.mem_map.mp hmem
  exact ⟨d, hd.symm⟩

end DigitsOf

theorem takeDigits_sound (cs : List Char) : ∃ digits, cs = digits ++ (takeDigits cs).2 ∧ DigitsOf (takeDigits cs).1 digits := by
  induction cs with
  | nil => exact ⟨[], rfl, .nil⟩
  | cons c cs ih =>
    unfold takeDigits
    split
    · next d hd =>
      obtain ⟨digits, hcs, hdigits⟩ := ih
      exact ⟨c :: digits, congrArg (c :: ·) hcs, hdigits.cons hd⟩
    · exact ⟨[], rfl, .nil⟩

theorem takeDigits_complete {ds : List Nat} {digits rest : List Char} (h : DigitsOf ds digits)
    (hrest : ∀ c ∈ rest.head?, decimalDigit? c = none) : takeDigits (digits ++ rest) = (ds, rest) := by
  induction digits generalizing ds with
  | nil =>
    obtain rfl := h.eq_nil_iff.mpr rfl
    cases rest with
    | nil => rfl
    | cons c rest => simp [takeDigits, hrest c rfl]
  | cons c digits ih =>
    cases ds with
    | nil => cases h.eq_nil_iff.mp rfl
    | cons d ds =>
      obtain ⟨hc, hdigits⟩ := DigitsOf.cons_iff.mp h
      simp [takeDigits, hc, ih hdigits]

/-! ### Signs -/

theorem takeSign_sound (cs : List Char) : ∃ sign, cs = sign ++ (takeSign cs).2 ∧ SignOf (takeSign cs).1 sign := by
  unfold takeSign
  split
  · exact ⟨['-'], rfl, .minus⟩
  · exact ⟨['+'], rfl, .plus⟩
  · exact ⟨[], rfl, .absent⟩

theorem takeSign_complete {negative : Bool} {sign rest : List Char} (h : SignOf negative sign)
    (hrest : ∀ c ∈ rest.head?, c ≠ '-' ∧ c ≠ '+') : takeSign (sign ++ rest) = (negative, rest) := by
  cases h with
  | plus => rfl
  | minus => rfl
  | absent =>
    rw [List.nil_append]
    unfold takeSign
    split
    · exact absurd rfl (hrest '-' rfl).1
    · exact absurd rfl (hrest '+' rfl).2
    · rfl

/-- A digit is no sign, and neither a point nor the letter of an exponent. -/
theorem ne_of_decimalDigit? {c : Char} {d : Nat} (h : decimalDigit? c = some d) :
    c ≠ '-' ∧ c ≠ '+' ∧ c ≠ '.' ∧ c ≠ 'e' ∧ c ≠ 'E' := by
  have hno : ∀ c', decimalDigit? c' = none → c ≠ c' := by
    rintro c' hnone rfl
    rw [hnone] at h
    cases h
  exact ⟨hno _ (by decide), hno _ (by decide), hno _ (by decide), hno _ (by decide), hno _ (by decide)⟩

theorem DigitsOf.head_ne {ds : List Nat} {cs : List Char} (h : DigitsOf ds cs) : ∀ c ∈ cs.head?, c ≠ '-' ∧ c ≠ '+' := by
  intro c hc
  obtain ⟨d, hd⟩ := h.exists_digit (List.mem_of_mem_head? hc)
  exact ⟨(ne_of_decimalDigit? hd).1, (ne_of_decimalDigit? hd).2.1⟩

theorem MantissaOf.head_ne {ds fs : List Nat} {cs : List Char} (h : MantissaOf ds fs cs) (rest : List Char) :
    ∀ c ∈ (cs ++ rest).head?, c ≠ '-' ∧ c ≠ '+' := by
  cases h with
  | whole hne h =>
    rw [List.head?_append_of_ne_nil _ (mt h.eq_nil_iff.mpr hne)]
    exact h.head_ne
  | point hne h _ =>
    rw [List.append_assoc, List.head?_append_of_ne_nil _ (mt h.eq_nil_iff.mpr hne)]
    exact h.head_ne
  | fraction _ _ =>
    rintro c ⟨⟩
    decide

/-! ### Exponents -/

theorem ExponentOf.head {e : Int} {cs : List Char} (h : ExponentOf e cs) :
    ∀ c ∈ cs.head?, decimalDigit? c = none ∧ c ≠ '.' := by
  cases h with
  | absent => rintro c ⟨⟩
  | power he _ _ _ =>
    rintro c ⟨⟩
    rcases he with rfl | rfl <;> decide

theorem exponent?_letter {e : Char} (he : e = 'e' ∨ e = 'E') (cs : List Char) : exponent? (e :: cs) =
    match takeDigits (takeSign cs).2 with
    | (d :: ds, []) => some (Binary64.signed (takeSign cs).1 (Decimal.ofDigits (d :: ds)))
    | _ => none :=
  if_pos he

theorem exponent?_eq_some_iff {cs : List Char} {e : Int} : exponent? cs = some e ↔ ExponentOf e cs := by
  constructor
  · intro h
    cases cs with
    | nil =>
      cases h
      exact .absent
    | cons c cs =>
      by_cases hletter : c = 'e' ∨ c = 'E'
      · rw [exponent?_letter hletter] at h
        obtain ⟨sign, hcs, hsign⟩ := takeSign_sound cs
        obtain ⟨digits, hdigits, hvalues⟩ := takeDigits_sound (takeSign cs).2
        split at h
        · next d ds hsome =>
          cases h
          rw [hsome] at hdigits hvalues
          rw [List.append_nil] at hdigits
          have htext : cs = sign ++ digits := hcs.trans (congrArg (sign ++ ·) hdigits)
          have hpower := ExponentOf.power hletter hsign (List.cons_ne_nil d ds) hvalues
          rwa [← htext, ← ofDigits_eq] at hpower
        · cases h
      · rw [exponent?, if_neg hletter] at h
        cases h
  · intro h
    cases h with
    | absent => rfl
    | @power _ negative sign cs ds he hsign hne h =>
      have hdigits : takeDigits (cs ++ []) = (ds, []) := takeDigits_complete h (by rintro c ⟨⟩)
      rw [List.append_nil] at hdigits
      obtain ⟨d, ds, rfl⟩ := List.exists_cons_of_ne_nil hne
      rw [exponent?_letter he, takeSign_complete hsign h.head_ne, hdigits, ← ofDigits_eq]

/-! ### Numerals -/

theorem takeFraction_complete {fs : List Nat} {digits rest : List Char} (h : DigitsOf fs digits)
    (hrest : ∀ c ∈ rest.head?, decimalDigit? c = none ∧ c ≠ '.') : takeFraction ('.' :: (digits ++ rest)) = (fs, rest) :=
  takeDigits_complete h fun c hc => (hrest c hc).1

theorem takeFraction_absent {rest : List Char} (hrest : ∀ c ∈ rest.head?, c ≠ '.') : takeFraction rest = ([], rest) := by
  unfold takeFraction
  split
  · exact absurd rfl (hrest '.' rfl)
  · rfl

/-- A mantissa in front of what neither is a digit nor a point is read up to its end. -/
theorem takeMantissa_complete {ds fs : List Nat} {mantissa rest : List Char} (h : MantissaOf ds fs mantissa)
    (hrest : ∀ c ∈ rest.head?, decimalDigit? c = none ∧ c ≠ '.') :
    ∃ middle, takeDigits (mantissa ++ rest) = (ds, middle) ∧ takeFraction middle = (fs, rest) ∧
      (ds.isEmpty && fs.isEmpty) = false := by
  cases h with
  | whole hne h =>
    refine ⟨rest, takeDigits_complete h fun c hc => (hrest c hc).1, takeFraction_absent fun c hc => (hrest c hc).2, ?_⟩
    simp [hne]
  | @point _ _ cs cs' hne h h' =>
    rw [List.append_assoc, List.cons_append]
    refine ⟨'.' :: (cs' ++ rest), takeDigits_complete h ?_, takeFraction_complete h' hrest, ?_⟩
    · rintro c ⟨⟩
      decide
    · simp [hne]
  | @fraction _ cs hne h =>
    refine ⟨'.' :: (cs ++ rest), rfl, takeFraction_complete h hrest, ?_⟩
    simp [hne]

theorem takeMantissa_sound (cs : List Char)
    (h : ((takeDigits cs).1.isEmpty && (takeFraction (takeDigits cs).2).1.isEmpty) = false) :
    ∃ mantissa, cs = mantissa ++ (takeFraction (takeDigits cs).2).2 ∧
      MantissaOf (takeDigits cs).1 (takeFraction (takeDigits cs).2).1 mantissa := by
  obtain ⟨digits, hcs, hdigits⟩ := takeDigits_sound cs
  generalize takeDigits cs = taken at h hcs hdigits ⊢
  obtain ⟨ds, rest⟩ := taken
  unfold takeFraction at h ⊢
  split at h
  · next rest' hpoint =>
    obtain rfl : rest = '.' :: rest' := hpoint
    obtain ⟨digits', hrest, hdigits'⟩ := takeDigits_sound rest'
    cases ds with
    | nil =>
      obtain rfl := hdigits.eq_nil_iff.mp rfl
      refine ⟨'.' :: digits', ?_, .fraction ?_ hdigits'⟩
      · rw [hcs, List.nil_append, List.cons_append, ← hrest]
      · simpa using h
    | cons d ds =>
      refine ⟨digits ++ '.' :: digits', ?_, .point (List.cons_ne_nil d ds) hdigits hdigits'⟩
      rw [hcs, List.append_assoc, List.cons_append, ← hrest]
  · refine ⟨digits, hcs, .whole ?_ hdigits⟩
    simpa using h

/-- The numerals that are read are those that the grammar writes. -/
theorem ofChars?_eq_some_iff {cs : List Char} {n : Numeral} : ofChars? cs = some n ↔ n.Writes cs := by
  constructor
  · intro h
    simp only [ofChars?] at h
    split at h
    · cases h
    · next hdigit =>
      obtain ⟨e, hexponent, rfl⟩ := Option.map_eq_some_iff.mp h
      obtain ⟨sign, hcs, hsign⟩ := takeSign_sound cs
      obtain ⟨mantissa, hrest, hmantissa⟩ := takeMantissa_sound (takeSign cs).2 (Bool.eq_false_iff.mpr hdigit)
      have hwrites := Writes.mk hsign hmantissa (exponent?_eq_some_iff.mp hexponent)
      rwa [← hrest, ← hcs] at hwrites
  · rintro ⟨hsign, hmantissa, hexponent⟩
    obtain ⟨middle, hdigits, hfraction, hdigit⟩ := takeMantissa_complete hmantissa hexponent.head
    simp only [ofChars?, takeSign_complete hsign (hmantissa.head_ne _), hdigits, hfraction, hdigit,
      exponent?_eq_some_iff.mpr hexponent]
    rfl

/-- The texts that the grammar writes. -/
def IsNumeric (cs : List Char) : Prop := ∃ n : Numeral, n.Writes cs

theorem ofChars?_eq_none_iff {cs : List Char} : ofChars? cs = none ↔ ¬IsNumeric cs := by
  rw [Option.eq_none_iff_forall_ne_some, IsNumeric, not_exists]
  exact forall_congr' fun n => not_congr ofChars?_eq_some_iff

/-! ### The pattern -/

namespace Pattern

open scoped Computability

def oneOf (cs : List Char) : Language Char := {w | ∃ c ∈ cs, w = [c]}

def digit : Language Char := {w | ∃ c d, decimalDigit? c = some d ∧ w = [c]}

def optional (l : Language Char) : Language Char := 1 + l

def oneOrMore (l : Language Char) : Language Char := l * l∗

def sign : Language Char := optional (oneOf ['+', '-'])

def mantissa : Language Char :=
  oneOrMore digit * optional (oneOf ['.']) * digit∗ + oneOf ['.'] * oneOrMore digit

def exponent : Language Char := optional (oneOf ['e', 'E'] * sign * oneOrMore digit)

/-- The pattern of numeric texts, up to the end of the text or to a line end before it. -/
def numeric : Language Char := sign * mantissa * exponent * optional (oneOf ['\n'])

variable {cs : List Char}

theorem mem_optional {l : Language Char} : cs ∈ optional l ↔ cs = [] ∨ cs ∈ l := Iff.rfl

theorem mem_digits : cs ∈ digit∗ ↔ ∃ ds, DigitsOf ds cs := by
  rw [Language.mem_kstar]
  constructor
  · rintro ⟨ws, rfl, hws⟩
    induction ws with
    | nil => exact ⟨[], .nil⟩
    | cons w ws ih =>
      obtain ⟨hw, hrest⟩ := List.forall_mem_cons.mp hws
      obtain ⟨c, d, hd, rfl⟩ := hw
      obtain ⟨ds, hds⟩ := ih hrest
      exact ⟨d :: ds, hds.cons hd⟩
  · rintro ⟨ds, hds⟩
    refine ⟨cs.map ([·]), by rw [← List.flatMap_def, List.flatMap_singleton'], ?_⟩
    intro w hw
    obtain ⟨c, hc, rfl⟩ := List.mem_map.mp hw
    obtain ⟨d, hd⟩ := hds.exists_digit hc
    exact ⟨c, d, hd, rfl⟩

theorem mem_oneOrMore_digit : cs ∈ oneOrMore digit ↔ ∃ ds, ds ≠ [] ∧ DigitsOf ds cs := by
  rw [oneOrMore, Language.mem_mul]
  constructor
  · rintro ⟨_, ⟨c, d, hd, rfl⟩, rest, hrest, rfl⟩
    obtain ⟨ds, hds⟩ := mem_digits.mp hrest
    exact ⟨d :: ds, List.cons_ne_nil d ds, hds.cons hd⟩
  · rintro ⟨ds, hne, hds⟩
    obtain ⟨d, ds, rfl⟩ := List.exists_cons_of_ne_nil hne
    obtain ⟨c, cs, rfl⟩ := List.exists_cons_of_ne_nil (mt hds.eq_nil_iff.mpr hne)
    obtain ⟨hc, hrest⟩ := DigitsOf.cons_iff.mp hds
    exact ⟨[c], ⟨c, d, hc, rfl⟩, cs, mem_digits.mpr ⟨ds, hrest⟩, rfl⟩

theorem mem_sign : cs ∈ sign ↔ ∃ negative, SignOf negative cs := by
  rw [sign, mem_optional]
  constructor
  · rintro (rfl | ⟨c, hc, rfl⟩)
    · exact ⟨false, .absent⟩
    · rcases List.mem_pair.mp hc with rfl | rfl
      · exact ⟨false, .plus⟩
      · exact ⟨true, .minus⟩
  · rintro ⟨negative, h⟩
    cases h with
    | absent => exact Or.inl rfl
    | plus => exact Or.inr ⟨'+', by decide, rfl⟩
    | minus => exact Or.inr ⟨'-', by decide, rfl⟩

theorem mem_mantissa : cs ∈ mantissa ↔ ∃ ds fs, MantissaOf ds fs cs := by
  rw [mantissa, Language.mem_add]
  constructor
  · rintro (⟨_, ⟨ws, hws, point, hpoint, rfl⟩, ws', hws', rfl⟩ | ⟨point, hpoint, ws, hws, rfl⟩)
    · obtain ⟨ds, hne, hds⟩ := mem_oneOrMore_digit.mp hws
      obtain ⟨fs, hfs⟩ := mem_digits.mp hws'
      rcases mem_optional.mp hpoint with rfl | ⟨c, hc, rfl⟩
      · have hall : DigitsOf (ds ++ fs) (ws ++ [] ++ ws') := by
          rw [List.append_nil]
          exact hds.append hfs
        exact ⟨ds ++ fs, [], .whole (List.append_ne_nil_of_left_ne_nil hne fs) hall⟩
      · obtain rfl := List.mem_singleton.mp hc
        refine ⟨ds, fs, ?_⟩
        show MantissaOf ds fs (ws ++ ['.'] ++ ws')
        rw [List.append_assoc]
        exact .point hne hds hfs
    · obtain ⟨c, hc, rfl⟩ := hpoint
      obtain rfl := List.mem_singleton.mp hc
      obtain ⟨fs, hne, hfs⟩ := mem_oneOrMore_digit.mp hws
      exact ⟨[], fs, .fraction hne hfs⟩
  · rintro ⟨ds, fs, h⟩
    cases h with
    | whole hne h =>
      refine Or.inl ⟨_, ⟨cs, mem_oneOrMore_digit.mpr ⟨ds, hne, h⟩, [], Or.inl rfl, rfl⟩, [], ?_, ?_⟩
      · exact Language.nil_mem_kstar digit
      · simp
    | @point _ _ ws ws' hne h h' =>
      refine Or.inl ⟨_, ⟨ws, mem_oneOrMore_digit.mpr ⟨ds, hne, h⟩, ['.'], ?_, rfl⟩, ws', mem_digits.mpr ⟨fs, h'⟩, ?_⟩
      · exact Or.inr ⟨'.', List.mem_singleton.mpr rfl, rfl⟩
      · simp
    | @fraction _ ws hne h =>
      refine Or.inr ⟨['.'], ⟨'.', List.mem_singleton.mpr rfl, rfl⟩, ws, mem_oneOrMore_digit.mpr ⟨fs, hne, h⟩, rfl⟩

theorem mem_exponent : cs ∈ exponent ↔ ∃ e, ExponentOf e cs := by
  rw [exponent, mem_optional]
  constructor
  · rintro (rfl | ⟨_, ⟨_, ⟨e, he, rfl⟩, ws, hws, rfl⟩, ws', hws', rfl⟩)
    · exact ⟨0, .absent⟩
    · obtain ⟨negative, hsign⟩ := mem_sign.mp hws
      obtain ⟨ds, hne, hds⟩ := mem_oneOrMore_digit.mp hws'
      exact ⟨_, .power (List.mem_pair.mp he) hsign hne hds⟩
  · rintro ⟨e, h⟩
    cases h with
    | absent => exact Or.inl rfl
    | @power letter negative ws ws' ds he hsign hne h =>
      refine Or.inr ⟨letter :: ws, ⟨[letter], ⟨letter, List.mem_pair.mpr he, rfl⟩, ws, mem_sign.mpr ⟨negative, hsign⟩, rfl⟩,
        ws', mem_oneOrMore_digit.mpr ⟨ds, hne, h⟩, rfl⟩

/-- The pattern matches the numeric texts, and these with a line end behind them. -/
theorem mem_numeric : cs ∈ numeric ↔ IsNumeric cs ∨ ∃ ws, cs = ws ++ ['\n'] ∧ IsNumeric ws := by
  have hparts : ∀ ws, ws ∈ sign * mantissa * exponent ↔ IsNumeric ws := by
    intro ws
    constructor
    · rintro ⟨_, ⟨ss, hss, ms, hms, rfl⟩, es, hes, rfl⟩
      obtain ⟨negative, hsign⟩ := mem_sign.mp hss
      obtain ⟨ds, fs, hmantissa⟩ := mem_mantissa.mp hms
      obtain ⟨e, hexponent⟩ := mem_exponent.mp hes
      refine ⟨⟨negative, ds, fs, e⟩, ?_⟩
      show Writes _ (ss ++ ms ++ es)
      rw [List.append_assoc]
      exact ⟨hsign, hmantissa, hexponent⟩
    · rintro ⟨n, hsign, hmantissa, hexponent⟩
      rw [← List.append_assoc]
      exact Language.append_mem_mul (Language.append_mem_mul (mem_sign.mpr ⟨_, hsign⟩) (mem_mantissa.mpr ⟨_, _, hmantissa⟩))
        (mem_exponent.mpr ⟨_, hexponent⟩)
  rw [numeric, Language.mem_mul]
  constructor
  · rintro ⟨ws, hws, _, hend, rfl⟩
    have hnumeric := (hparts ws).mp hws
    rcases mem_optional.mp hend with rfl | ⟨c, hc, rfl⟩
    · rw [List.append_nil]
      exact Or.inl hnumeric
    · obtain rfl := List.mem_singleton.mp hc
      exact Or.inr ⟨ws, rfl, hnumeric⟩
  · rintro (h | ⟨ws, rfl, h⟩)
    · exact ⟨cs, (hparts cs).mpr h, [], Or.inl rfl, List.append_nil cs⟩
    · exact ⟨ws, (hparts ws).mpr h, ['\n'], Or.inr ⟨'\n', List.mem_singleton.mpr rfl, rfl⟩, rfl⟩

end Pattern
end TableMetrics
