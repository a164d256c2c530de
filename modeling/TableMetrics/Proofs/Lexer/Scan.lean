import TableMetrics.Proofs.Lexer.Word

/-! Scanning a word to its end: a number up to what cannot belong to it, a string up to its closing quote. -/

namespace TableMetrics
namespace Lexer

/-! ### Numbers -/

theorem takeWhile_append_of_head {p : Char → Bool} {cs rest : List Char} (h : ∀ c ∈ cs, p c = true)
    (hrest : ∀ c ∈ rest.head?, p c = false) : (cs ++ rest).takeWhile p = cs := by
  rw [List.takeWhile_append_of_pos h]
  cases rest with
  | nil => simp
  | cons c rest => simp [hrest c rfl]

theorem exists_takeWhile (p : Char → Bool) (cs : List Char) :
    ∃ ds rest, cs = ds ++ rest ∧ (∀ c ∈ ds, p c = true) ∧ ∀ c ∈ rest.head?, p c = false := by
  refine ⟨cs.takeWhile p, cs.dropWhile p, List.takeWhile_append_dropWhile.symm, ?_, ?_⟩
  · exact fun c hc => List.all_eq_true.mp List.all_takeWhile c hc
  · intro c hc
    have h := List.head?_dropWhile_not p cs
    rw [Option.mem_def.mp hc] at h
    simpa using h

/-- What stops a number: neither a digit, nor a point if the number has none yet. -/
def EndsNumber (cs rest : List Char) : Prop := ∀ c ∈ rest.head?, isAsciiDigit c = false ∧ (c = '.' → '.' ∈ cs)

theorem number_append {cs ds fs rest : List Char} (h : IsNumber cs ds fs) (hrest : EndsNumber cs rest)
    (negative : Bool) : number negative (cs ++ rest) =
      (Numeral.toBinary64 ⟨negative, ds.map digitValue, fs.map digitValue, 0⟩, cs.length) := by
  cases h with
  | whole hne hall =>
    have hdigits : digits (cs ++ rest) = cs := takeWhile_append_of_head hall fun c hc => (hrest c hc).1
    simp only [number, hdigits, List.drop_left]
    cases rest with
    | nil => rfl
    | cons c rest =>
      have hc : c ≠ '.' := by
        intro hc
        have hmem := hall '.' ((hrest c rfl).2 hc)
        revert hmem
        decide
      split
      · next rest' heq =>
        cases heq
        exact absurd rfl hc
      · rfl
  | @point _ _ hne hall hall' =>
    have hdigits : digits (ds ++ '.' :: fs ++ rest) = ds := by
      rw [List.append_assoc]
      refine takeWhile_append_of_head hall ?_
      rintro c ⟨⟩
      decide
    have hfraction : digits (fs ++ rest) = fs := takeWhile_append_of_head hall' fun c hc => (hrest c hc).1
    have hdrop : (ds ++ '.' :: fs ++ rest).drop ds.length = '.' :: (fs ++ rest) := by simp
    simp only [number, hdigits, hdrop, hfraction, List.length_append, List.length_cons]
    rw [Nat.add_assoc, Nat.add_comm 1]

/-- A text that begins with a digit begins with a number that is as long as it can be. -/
theorem exists_isNumber {c : Char} (hc : isAsciiDigit c = true) (cs : List Char) :
    ∃ ns ds fs rest, c :: cs = ns ++ rest ∧ IsNumber ns ds fs ∧ EndsNumber ns rest := by
  obtain ⟨ds, rest, heq, hall, hrest⟩ := exists_takeWhile isAsciiDigit (c :: cs)
  have hne : ds ≠ [] := by
    rintro rfl
    cases heq
    rw [hrest c rfl] at hc
    cases hc
  by_cases hpoint : rest.head? = some '.'
  · obtain ⟨rest, rfl⟩ := List.head?_eq_some_iff.mp hpoint
    obtain ⟨fs, rest, rfl, hall', hrest'⟩ := exists_takeWhile isAsciiDigit rest
    refine ⟨ds ++ '.' :: fs, ds, fs, rest, by simpa using heq, .point hne hall hall', fun d hd => ?_⟩
    exact ⟨hrest' d hd, fun _ => by simp⟩
  · refine ⟨ds, ds, [], rest, heq, .whole hne hall, fun d hd => ⟨hrest d hd, ?_⟩⟩
    rintro rfl
    exact absurd hd hpoint

theorem takeDigits_append {ds : List Char} (h : ∀ c ∈ ds, isAsciiDigit c = true) (rest : List Char)
    (hrest : ∀ c ∈ rest.head?, decimalDigit? c = none) :
    Numeral.takeDigits (ds ++ rest) = (ds.map digitValue, rest) := by
  induction ds with
  | nil =>
    cases rest with
    | nil => rfl
    | cons c rest => simp [Numeral.takeDigits, hrest c rfl]
  | cons c ds ih =>
    have hc := decimalDigit?_of_isAsciiDigit (h c (List.mem_cons_self ..))
    have ih := ih fun d hd => h d (List.mem_cons_of_mem c hd)
    simp [Numeral.takeDigits, hc, ih, digitValue]

theorem IsNumber.head {cs ds fs : List Char} (h : IsNumber cs ds fs) :
    ∃ c rest, cs = c :: rest ∧ isAsciiDigit c = true := by
  cases h with
  | whole hne hall =>
    obtain ⟨c, rest, rfl⟩ := List.exists_cons_of_ne_nil hne
    exact ⟨c, rest, rfl, hall c (List.mem_cons_self ..)⟩
  | @point _ fs hne hall _ =>
    obtain ⟨c, rest, rfl⟩ := List.exists_cons_of_ne_nil hne
    exact ⟨c, rest ++ '.' :: fs, rfl, hall c (List.mem_cons_self ..)⟩

theorem IsNumber.isBlank {cs ds fs : List Char} (h : IsNumber cs ds fs) : ∀ c ∈ cs, isBlank c = false := by
  cases h with
  | whole hne hall => exact fun c hc => isBlank_of_digit (hall c hc)
  | point hne hall hall' =>
    intro c hc
    rcases List.mem_append.mp hc with hc | hc
    · exact isBlank_of_digit (hall c hc)
    · rcases List.mem_cons.mp hc with rfl | hc
      · decide
      · exact isBlank_of_digit (hall' c hc)

theorem trimChars_eq_self {cs : List Char} (h : ∀ c ∈ cs, isBlank c = false) : trimChars cs = cs := by
  have hdrop : ∀ ds : List Char, (∀ c ∈ ds, isBlank c = false) → ds.dropWhile isBlank = ds := by
    intro ds hds
    cases ds with
    | nil => rfl
    | cons c ds => simp [hds c (List.mem_cons_self ..)]
  unfold trimChars
  rw [hdrop cs h, hdrop cs.reverse fun c hc => h c (List.mem_reverse.mp hc), List.reverse_reverse]

theorem takeSign_number {cs ds fs : List Char} (h : IsNumber cs ds fs) (negative : Bool) (rest : List Char) :
    Numeral.takeSign (signChars negative ++ (cs ++ rest)) = (negative, cs ++ rest) := by
  cases negative with
  | true => rfl
  | false =>
    obtain ⟨c, cs, rfl, hc⟩ := h.head
    show Numeral.takeSign (c :: (cs ++ rest)) = (false, c :: (cs ++ rest))
    unfold Numeral.takeSign
    split
    · next heq =>
      cases heq
      exact absurd hc (by decide)
    · next heq =>
      cases heq
      exact absurd hc (by decide)
    · rfl

/-- A numeral is read up to what is neither a digit nor a point, and that is read as its exponent. -/
theorem ofChars?_append {cs ds fs : List Char} (h : IsNumber cs ds fs) (negative : Bool) (rest : List Char)
    (hrest : ∀ c ∈ rest.head?, decimalDigit? c = none ∧ c ≠ '.') : Numeral.ofChars? (signChars negative ++ (cs ++ rest)) =
      (Numeral.exponent? rest).map fun e => ⟨negative, ds.map digitValue, fs.map digitValue, e⟩ := by
  have hsign := takeSign_number h negative rest
  have hstop : ∀ c ∈ rest.head?, decimalDigit? c = none := fun c hc => (hrest c hc).1
  cases h with
  | whole hne hall =>
    have hdigits := takeDigits_append hall rest hstop
    have hfraction : Numeral.takeFraction rest = ([], rest) := by
      unfold Numeral.takeFraction
      split
      · next cs => exact absurd rfl (hrest '.' rfl).2
      · rfl
    simp [Numeral.ofChars?, hsign, hdigits, hfraction, hne]
  | @point _ fs hne hall hall' =>
    have hdigits := takeDigits_append hall ('.' :: (fs ++ rest)) fun c hc => by
      cases hc
      decide
    have hfraction := takeDigits_append hall' rest hstop
    rw [List.append_assoc, List.cons_append] at hsign ⊢
    simp [Numeral.ofChars?, hsign, hdigits, Numeral.takeFraction, hfraction, hne]

theorem ofChars?_number {cs ds fs : List Char} (h : IsNumber cs ds fs) (negative : Bool) :
    Numeral.ofChars? (signChars negative ++ cs) = some ⟨negative, ds.map digitValue, fs.map digitValue, 0⟩ := by
  have hread := ofChars?_append h negative [] (by simp)
  rwa [List.append_nil] at hread

theorem isBlank_signChars {negative : Bool} {c : Char} (h : c ∈ signChars negative) : isBlank c = false := by
  cases negative with
  | true =>
    obtain rfl := List.mem_singleton.mp h
    decide
  | false => cases h

theorem numericText?_of_numeral {cs : List Char} {n : Numeral} (hblank : ∀ c ∈ cs, isBlank c = false)
    (h : Numeral.ofChars? cs = some n) : numericText? (String.ofList cs) = some n.toBinary64 := by
  rw [numericText?, String.toList_ofList, trimChars_eq_self hblank, h]
  rfl

/-- The text of a number denotes the number that the lexer reads. -/
theorem numericText?_number {cs ds fs : List Char} (h : IsNumber cs ds fs) (negative : Bool) :
    numericText? (String.ofList (signChars negative ++ cs)) =
      some (Numeral.toBinary64 ⟨negative, ds.map digitValue, fs.map digitValue, 0⟩) := by
  refine numericText?_of_numeral (fun c hc => ?_) (ofChars?_number h negative)
  rcases List.mem_append.mp hc with hc | hc
  · exact isBlank_signChars hc
  · exact h.isBlank c hc

/-! ### Strings -/

theorem IsQuote.ne_backslash {q : Char} (h : IsQuote q) : q ≠ '\\' := by
  rcases h with rfl | rfl <;> decide

theorem string?_quote (q : Char) (cs : List Char) : string? q (q :: cs) = some ([], 1) := by
  unfold string?
  simp

theorem string?_escape {q : Char} (hq : q ≠ '\\') (c : Char) (cs : List Char) :
    string? q ('\\' :: c :: cs) = (string? q cs).map fun (content, n) => (unescape c :: content, n + 2) := by
  rw [string?.eq_def]
  simp [hq.symm]

theorem string?_plain {q c : Char} (hquote : c ≠ q) (hbackslash : c ≠ '\\') (cs : List Char) :
    string? q (c :: cs) = (string? q cs).map fun (content, n) => (c :: content, n + 1) := by
  rw [string?.eq_def]
  simp [hquote, hbackslash]

theorem string?_append {q : Char} (hq : q ≠ '\\') {body content : List Char} (h : IsBody q body content)
    (rest : List Char) : string? q (body ++ q :: rest) = some (content, body.length + 1) := by
  induction h with
  | nil => exact string?_quote q rest
  | plain hquote hbackslash _ ih => simp [string?_plain hquote hbackslash, ih]
  | newline _ ih => simp [string?_escape hq, ih, unescape]
  | tab _ ih => simp [string?_escape hq, ih, unescape]
  | escaped hn ht _ ih => simp [string?_escape hq, ih, unescape, hn, ht]

theorem isBody_escape {q : Char} {cs content : List Char} (c : Char) (h : IsBody q cs content) :
    IsBody q ('\\' :: c :: cs) (unescape c :: content) := by
  unfold unescape
  split
  · next hn =>
    rw [hn]
    exact .newline h
  · next hn =>
    split
    · next ht =>
      rw [ht]
      exact .tab h
    · next ht => exact .escaped hn ht h

def backslashesBefore (cs : List Char) (i : Nat) : Nat := ((cs.take i).reverse.takeWhile (· == '\\')).length

/-- A quote that ends a string: no backslash takes its meaning, since those before it take each other's. -/
def Closes (q : Char) (cs : List Char) (i : Nat) : Prop := cs[i]? = some q ∧ backslashesBefore cs i % 2 = 0

instance (q : Char) (cs : List Char) (i : Nat) : Decidable (Closes q cs i) := inferInstanceAs (Decidable (_ ∧ _))

theorem backslashesBefore_cons {c : Char} (hc : c ≠ '\\') (cs : List Char) (i : Nat) :
    backslashesBefore (c :: cs) (i + 1) = backslashesBefore cs i := by
  unfold backslashesBefore
  rw [List.take_succ_cons, List.reverse_cons, List.takeWhile_append]
  split
  · next hall => simp [hc, hall]
  · rfl

/-- An escape adds no backslash before a later place, or two. -/
theorem backslashesBefore_escape (c : Char) (cs : List Char) (i : Nat) :
    backslashesBefore ('\\' :: c :: cs) (i + 2) % 2 = backslashesBefore cs i % 2 := by
  unfold backslashesBefore
  rw [List.take_succ_cons, List.take_succ_cons, List.reverse_cons, List.reverse_cons, List.append_assoc,
    List.takeWhile_append]
  split
  · next hall =>
    rw [List.length_append, ← hall]
    by_cases hc : c = '\\'
    · simp [hc]
    · simp [hc]
  · rfl

theorem closes_quote (q : Char) (cs : List Char) : Closes q (q :: cs) 0 := ⟨rfl, rfl⟩

theorem not_closes_backslash {q : Char} (hq : q ≠ '\\') (i : Nat) : ¬Closes q ['\\'] i := by
  rintro ⟨hi, -⟩
  exact hq (List.mem_singleton.mp (List.mem_of_getElem? hi))

theorem closes_plain_iff {q c : Char} (hquote : c ≠ q) (hbackslash : c ≠ '\\') {cs : List Char} {i : Nat} :
    Closes q (c :: cs) i ↔ ∃ j, i = j + 1 ∧ Closes q cs j := by
  cases i with
  | zero => simp [Closes, hquote]
  | succ i => simp [Closes, backslashesBefore_cons hbackslash]

theorem closes_escape_iff {q : Char} (hq : q ≠ '\\') {c : Char} {cs : List Char} {i : Nat} :
    Closes q ('\\' :: c :: cs) i ↔ ∃ j, i = j + 2 ∧ Closes q cs j := by
  rcases i with _ | _ | i
  · simp [Closes, hq.symm]
  · simp [Closes, backslashesBefore]
  · simp [Closes, backslashesBefore_escape]

theorem Closes.split {q : Char} {cs : List Char} {i : Nat} (h : Closes q cs i) : cs = cs.take i ++ q :: cs.drop (i + 1) := by
  obtain ⟨hi, heq⟩ := List.getElem?_eq_some_iff.mp h.1
  rw [← heq, ← List.drop_eq_getElem_cons hi, List.take_append_drop]

/-- What the scan of a string finds: the first quote that closes it, and the text that stands before that quote; or no
    quote closes it. -/
inductive Finds (q : Char) (cs : List Char) : Option (List Char × Nat) → Prop where
  | quote {content : List Char} {i : Nat} (hcloses : Closes q cs i) (hfirst : ∀ j < i, ¬Closes q cs j)
    (hbody : IsBody q (cs.take i) content) : Finds q cs (some (content, i + 1))
  | nothing (h : ∀ i, ¬Closes q cs i) : Finds q cs none

/-- A scan passes over characters if what it finds behind them is what stands before them. -/
theorem Finds.pass {q : Char} (ds : List Char) {cs : List Char} {r : Option (List Char × Nat)}
    {f : List Char → List Char} (hcloses : ∀ i, Closes q (ds ++ cs) i ↔ ∃ j, i = j + ds.length ∧ Closes q cs j)
    (hbody : ∀ body content, IsBody q body content → IsBody q (ds ++ body) (f content)) (h : Finds q cs r) :
    Finds q (ds ++ cs) (r.map fun x => (f x.1, x.2 + ds.length)) := by
  cases h with
  | @quote content i hi hfirst hbefore =>
    rw [Option.map_some, Nat.add_right_comm]
    refine .quote ((hcloses _).mpr ⟨i, rfl, hi⟩) (fun j hj hclose => ?_) ?_
    · obtain ⟨k, rfl, hk⟩ := (hcloses j).mp hclose
      exact hfirst k (by omega) hk
    · rw [Nat.add_comm, List.take_length_add_append]
      exact hbody _ _ hbefore
  | nothing h =>
    refine .nothing fun i hclose => ?_
    obtain ⟨j, -, hj⟩ := (hcloses i).mp hclose
    exact h j hj

theorem finds_string? {q : Char} (hq : q ≠ '\\') (cs : List Char) : Finds q cs (string? q cs) := by
  induction cs using string?.induct q with
  | case1 =>
    refine .nothing ?_
    rintro i ⟨hi, -⟩
    cases hi
  | case2 cs =>
    rw [string?_quote]
    exact .quote (closes_quote q cs) (fun j hj => absurd hj (Nat.not_lt_zero j)) .nil
  | case3 =>
    rw [show string? q ['\\'] = none by unfold string?; simp [hq.symm]]
    exact .nothing (not_closes_backslash hq)
  | case4 c cs _ ih =>
    rw [string?_escape hq]
    exact ih.pass ['\\', c] (fun i => closes_escape_iff hq) fun body content h => isBody_escape c h
  | case5 c cs hquote hbackslash ih =>
    rw [string?_plain hquote hbackslash]
    exact ih.pass [c] (fun i => closes_plain_iff hquote hbackslash) fun body content h => .plain hquote hbackslash h

end Lexer
end TableMetrics
