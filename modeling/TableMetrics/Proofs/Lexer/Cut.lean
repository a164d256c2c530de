import TableMetrics.Proofs.Lexer.Place

/-! Cutting a text into words and white space. There is one way at most to cut a text into words that may stand where
    they stand, and the tokens are that cut. Where the lexer fails, the text before the place can be cut. -/

namespace TableMetrics
namespace Lexer

/-- A word of a text: the number of characters before it, its characters, and what they write. -/
structure Slice where
  position : Nat
  chars : List Char
  lexeme : Lexeme

namespace Slice

def stop (x : Slice) : Nat := x.position + x.chars.length

def token (x : Slice) : Token := ⟨x.lexeme, x.position⟩

end Slice

/-- Each word may stand behind the one before it, the first behind `previous`. -/
def Follow (text : List Char) : Option Lexeme → List Slice → Prop
  | _, [] => True
  | previous, x :: xs =>
    Stands previous x.chars x.lexeme (text.drop x.stop) ∧ Follow text (some x.lexeme) xs

/-- The words cut the text from `start` on, behind the word `previous`: each word has its characters at its place,
    the words do not overlap, and all that is outside of them is white space. -/
structure CutsFrom (text : List Char) (start : Nat) (previous : Option Lexeme) (xs : List Slice) : Prop where
  placed : ∀ x ∈ xs, start ≤ x.position ∧ x.chars <+: text.drop x.position
  written : ∀ x ∈ xs, Writes x.chars x.lexeme
  ordered : xs.Pairwise fun x y => x.stop ≤ y.position
  blank : ∀ i c, start ≤ i → text[i]? = some c → (∀ x ∈ xs, i < x.position ∨ x.stop ≤ i) → isBlank c = true
  follow : Follow text previous xs

abbrev Cuts (text : List Char) (xs : List Slice) : Prop := CutsFrom text 0 none xs

variable {text : List Char} {start : Nat} {previous : Option Lexeme} {xs : List Slice}

theorem Slice.exists_head {x : Slice} (hx : x.chars <+: text.drop x.position) (hw : Writes x.chars x.lexeme) :
    ∃ c, text[x.position]? = some c ∧ isBlank c = false ∧ x.position < x.stop := by
  obtain ⟨c, ds, hc, hblank⟩ := hw.head_not_blank
  rw [hc] at hx
  obtain ⟨rest, hrest⟩ := hx
  refine ⟨c, ?_, hblank, by simp [stop, hc]⟩
  rw [← List.head?_drop, ← hrest]
  rfl

theorem Slice.drop_stop {x : Slice} {rest : List Char} (h : x.chars ++ rest = text.drop x.position) :
    text.drop x.stop = rest := by
  have hdrop := congrArg (List.drop x.chars.length) h
  rw [List.drop_left, List.drop_drop] at hdrop
  exact hdrop.symm

theorem cutsFrom_end (h : text.length ≤ start) : CutsFrom text start previous xs ↔ xs = [] := by
  constructor
  · intro hcut
    cases xs with
    | nil => rfl
    | cons x xs =>
      obtain ⟨hstart, hx⟩ := hcut.placed x (List.mem_cons_self ..)
      obtain ⟨c, hc, -⟩ := Slice.exists_head hx (hcut.written x (List.mem_cons_self ..))
      rw [List.getElem?_eq_none (by omega)] at hc
      cases hc
  · rintro rfl
    refine ⟨by simp, by simp, .nil, fun i c hi hc _ => ?_, trivial⟩
    rw [List.getElem?_eq_none (by omega)] at hc
    cases hc

/-- White space belongs to no word. -/
theorem cutsFrom_blank {c : Char} (hc : text[start]? = some c) (hblank : isBlank c = true) :
    CutsFrom text start previous xs ↔ CutsFrom text (start + 1) previous xs := by
  constructor
  · intro h
    refine ⟨fun x hx => ⟨?_, (h.placed x hx).2⟩, h.written, h.ordered, ?_, h.follow⟩
    · have hle := (h.placed x hx).1
      obtain ⟨d, hd, hvisible, -⟩ := Slice.exists_head (h.placed x hx).2 (h.written x hx)
      rcases Nat.eq_or_lt_of_le hle with heq | hlt
      · rw [← heq, hc] at hd
        cases hd
        rw [hblank] at hvisible
        cases hvisible
      · exact hlt
    · exact fun i d hi hd => h.blank i d (by omega) hd
  · intro h
    refine ⟨fun x hx => ⟨Nat.le_of_succ_le (h.placed x hx).1, (h.placed x hx).2⟩, h.written, h.ordered, ?_, h.follow⟩
    intro i d hi hd hout
    rcases Nat.eq_or_lt_of_le hi with rfl | hlt
    · rw [hc] at hd
      cases hd
      exact hblank
    · exact h.blank i d hlt hd hout

/-- Where no white space stands, the first word begins, and the others cut the text behind it. -/
theorem cutsFrom_word {c : Char} (hc : text[start]? = some c) (hvisible : isBlank c = false) :
    CutsFrom text start previous xs ↔ ∃ x rest, xs = x :: rest ∧ x.position = start ∧ x.chars <+: text.drop start ∧
      Writes x.chars x.lexeme ∧ Stands previous x.chars x.lexeme (text.drop x.stop) ∧
      CutsFrom text x.stop (some x.lexeme) rest := by
  constructor
  · intro h
    -- The character at `start` is not blank, so it lies in a word, and no word begins before `start`.
    obtain ⟨y, hy, hle, hlt⟩ : ∃ y ∈ xs, y.position ≤ start ∧ start < y.stop := by
      refine Classical.byContradiction fun hnone => ?_
      have hblank := h.blank start c (Nat.le_refl _) hc fun x hx => by
        have hout : ¬(x.position ≤ start ∧ start < x.stop) := fun hin => hnone ⟨x, hx, hin⟩
        omega
      rw [hvisible] at hblank
      cases hblank
    cases xs with
    | nil => cases hy
    | cons x rest =>
      obtain ⟨hstart, hx⟩ := h.placed x (List.mem_cons_self ..)
      obtain ⟨hbefore, hrest⟩ := List.pairwise_cons.mp h.ordered
      have hposition : x.position = start := by
        rcases List.mem_cons.mp hy with rfl | hy
        · omega
        · have hle' := hbefore y hy
          have hx' := (Slice.exists_head hx (h.written x (List.mem_cons_self ..))).choose_spec.2.2
          omega
      refine ⟨x, rest, rfl, hposition, hposition ▸ hx, h.written x (List.mem_cons_self ..), h.follow.1, ?_⟩
      refine ⟨fun z hz => ⟨hbefore z hz, (h.placed z (List.mem_cons_of_mem x hz)).2⟩,
        fun z hz => h.written z (List.mem_cons_of_mem x hz), hrest, fun i d hi hd hout => ?_, h.follow.2⟩
      refine h.blank i d (by unfold Slice.stop at hi; omega) hd fun z hz => ?_
      rcases List.mem_cons.mp hz with rfl | hz
      · exact Or.inr hi
      · exact hout z hz
  · rintro ⟨x, rest, rfl, rfl, hx, hw, hs, h⟩
    refine ⟨fun z hz => ?_, fun z hz => ?_, ?_, fun i d hi hd hout => ?_, hs, h.follow⟩
    · rcases List.mem_cons.mp hz with rfl | hz
      · exact ⟨Nat.le_refl _, hx⟩
      · have hle := (h.placed z hz).1
        exact ⟨by unfold Slice.stop at hle; omega, (h.placed z hz).2⟩
    · rcases List.mem_cons.mp hz with rfl | hz
      · exact hw
      · exact h.written z hz
    · exact List.pairwise_cons.mpr ⟨fun z hz => (h.placed z hz).1, h.ordered⟩
    · have hstop : x.stop ≤ i := by
        rcases hout x (List.mem_cons_self ..) with hlt | hle
        · omega
        · exact hle
      exact h.blank i d hstop hd fun z hz => hout z (List.mem_cons_of_mem x hz)

/-- A word before a cut cuts the text from its place on. -/
theorem CutsFrom.cons (x : Slice) (hx : x.chars <+: text.drop x.position) (hw : Writes x.chars x.lexeme)
    (hs : Stands previous x.chars x.lexeme (text.drop x.stop)) (h : CutsFrom text x.stop (some x.lexeme) xs) :
    CutsFrom text x.position previous (x :: xs) := by
  obtain ⟨c, hc, hvisible, -⟩ := Slice.exists_head hx hw
  exact (cutsFrom_word hc hvisible).mpr ⟨x, xs, rfl, rfl, hx, hw, hs, h⟩

theorem getElem?_of_drop_eq_cons {text : List Char} {start : Nat} {c : Char} {cs : List Char}
    (h : text.drop start = c :: cs) : start < text.length ∧ text[start]? = some c := by
  have hc : text[start]? = some c := by
    rw [← List.head?_drop, h]
    rfl
  exact ⟨(List.getElem?_eq_some_iff.mp hc).1, hc⟩

/-- What holds at the end of a text, and before a white space or a word whenever it holds behind it, holds of every
    cut. -/
@[elab_as_elim]
theorem CutsFrom.induction {text : List Char}
    {motive : ∀ start previous xs, CutsFrom text start previous xs → Prop}
    (stop : ∀ start previous h, text.drop start = [] → motive start previous [] h)
    (blank : ∀ start previous xs h c cs, text.drop start = c :: cs → isBlank c = true →
      (hrest : CutsFrom text (start + 1) previous xs) → motive (start + 1) previous xs hrest →
      motive start previous xs h)
    (word : ∀ previous x xs h rest, text.drop x.position = x.chars ++ rest → Writes x.chars x.lexeme →
      Stands previous x.chars x.lexeme rest → text.drop x.stop = rest →
      (hrest : CutsFrom text x.stop (some x.lexeme) xs) → motive x.stop (some x.lexeme) xs hrest →
      motive x.position previous (x :: xs) h)
    (start : Nat) (previous : Option Lexeme) (xs : List Slice) (h : CutsFrom text start previous xs) :
    motive start previous xs h := by
  cases hdrop : text.drop start with
  | nil =>
    obtain rfl := (cutsFrom_end (List.drop_eq_nil_iff.mp hdrop)).mp h
    exact stop start previous h hdrop
  | cons c cs =>
    obtain ⟨hlt, hc⟩ := getElem?_of_drop_eq_cons hdrop
    cases hvisible : isBlank c with
    | true =>
      have hrest := (cutsFrom_blank hc hvisible).mp h
      exact blank start previous xs h c cs hdrop hvisible hrest
        (CutsFrom.induction stop blank word (start + 1) previous xs hrest)
    | false =>
      obtain ⟨x, ys, hxs, hposition, hx, hw, hs, hys⟩ := (cutsFrom_word hc hvisible).mp h
      obtain ⟨-, -, -, hprogress⟩ := Slice.exists_head (hposition ▸ hx) hw
      have hrest := CutsFrom.induction stop blank word x.stop (some x.lexeme) ys hys
      subst hxs hposition
      obtain ⟨rest, hx⟩ := hx
      have hstop := Slice.drop_stop hx
      exact word previous x ys h rest hx.symm hw (hstop ▸ hs) hstop hys hrest
termination_by text.length - start
decreasing_by all_goals omega

/-! ### The tokens are the cut -/

theorem tokensFrom_blank {c : Char} (hblank : isBlank c = true) (cs : List Char) :
    tokensFrom previous start (c :: cs) = tokensFrom previous (start + 1) cs := by
  rw [tokensFrom, if_pos hblank]

theorem tokensFrom_word {c : Char} (hvisible : isBlank c = false) {ds rest : List Char} {w : Lexeme}
    (hw : Writes (c :: ds) w) (hs : Stands previous (c :: ds) w rest) :
    tokensFrom previous start (c :: ds ++ rest) =
      (tokensFrom (some w) (start + (c :: ds).length) rest).map (⟨w, start⟩ :: ·) := by
  rw [List.cons_append, tokensFrom, if_neg (by simp [hvisible]), word_of_writes hw hs]
  simp only [bind, Except.bind, List.drop_left, pure, Except.pure]
  rw [List.length_cons, Nat.add_comm ds.length, ← Nat.add_assoc]
  cases tokensFrom (some w) (start + 1 + ds.length) rest <;> rfl

theorem tokensFrom_error {c : Char} (hvisible : isBlank c = false) {cs : List Char} {e : LexError}
    (h : word previous start c cs = .error e) : tokensFrom previous start (c :: cs) = .error e := by
  rw [tokensFrom, if_neg (by simp [hvisible]), h]
  rfl

/-- One word at most may stand at a place. -/
theorem Stands.unique {us vs rest rest' : List Char} {w w' : Lexeme} (hw : Writes us w) (hw' : Writes vs w')
    (hs : Stands previous us w rest) (hs' : Stands previous vs w' rest') (h : us ++ rest = vs ++ rest') :
    us = vs ∧ w = w' := by
  obtain ⟨c, ds, rfl, -⟩ := hw.head_not_blank
  obtain ⟨c', ds', rfl, -⟩ := hw'.head_not_blank
  obtain ⟨rfl, htail⟩ := List.cons.inj h
  have hword : word previous 0 c (ds ++ rest) = .ok (w, ds.length) := word_of_writes hw hs
  have hword' : word previous 0 c (ds' ++ rest') = .ok (w', ds'.length) := word_of_writes hw' hs'
  rw [show ds ++ rest = ds' ++ rest' from htail, hword'] at hword
  obtain ⟨rfl, hlength⟩ := Prod.mk.inj (Except.ok.inj hword)
  exact ⟨congrArg (c :: ·) (List.append_inj htail hlength.symm).1, rfl⟩

/-- At the place of a failure no word begins, or a string begins and no quote behind it closes it. -/
def FailsAt (text : List Char) : LexError → Prop
  | .unexpectedChar c p =>
    text[p]? = some c ∧ isBlank c = false ∧ ∀ chars w, Writes chars w → ¬chars <+: text.drop p
  | .unclosedString p => ∃ q, IsQuote q ∧ text[p]? = some q ∧ ∀ i, ¬Closes q (text.drop (p + 1)) i

def failurePosition : LexError → Nat
  | .unexpectedChar _ p => p
  | .unclosedString p => p

/-- What the tokens of the text from `start` on say: they are its only cut; or there is none, and the text can be cut
    up to the place of the failure. -/
def Tells (text : List Char) (start : Nat) (previous : Option Lexeme) : Except LexError (List Token) → Prop
  | .ok ts => ∃ xs, ts = xs.map Slice.token ∧ CutsFrom text start previous xs ∧
    ∀ ys, CutsFrom text start previous ys → ys = xs
  | .error e => (∀ xs, ¬CutsFrom text start previous xs) ∧ start ≤ failurePosition e ∧ FailsAt text e ∧
    ∃ xs, CutsFrom (text.take (failurePosition e)) start previous xs

theorem tells_blank {c : Char} {r : Except LexError (List Token)} (hc : text[start]? = some c)
    (hblank : isBlank c = true) (h : Tells text (start + 1) previous r) : Tells text start previous r := by
  cases r with
  | ok ts =>
    obtain ⟨xs, hts, hcut, hunique⟩ := h
    exact ⟨xs, hts, (cutsFrom_blank hc hblank).mpr hcut, fun ys hys => hunique ys ((cutsFrom_blank hc hblank).mp hys)⟩
  | error e =>
    obtain ⟨hnone, hle, hfails, xs, hcut⟩ := h
    have hc' : (text.take (failurePosition e))[start]? = some c := by
      rw [List.getElem?_take_of_lt (by omega), hc]
    refine ⟨fun ys hys => hnone ys ((cutsFrom_blank hc hblank).mp hys), by omega, hfails, xs, ?_⟩
    exact (cutsFrom_blank hc' hblank).mpr hcut

theorem tells_word {c : Char} {ds rest : List Char} {w : Lexeme} {r : Except LexError (List Token)}
    (hvisible : isBlank c = false) (hc : text[start]? = some c) (hrest : c :: ds ++ rest = text.drop start)
    (hw : Writes (c :: ds) w) (hs : Stands previous (c :: ds) w rest)
    (h : Tells text (start + (c :: ds).length) (some w) r) :
    Tells text start previous (r.map (⟨w, start⟩ :: ·)) := by
  have hstop : text.drop (start + (c :: ds).length) = rest := Slice.drop_stop (x := ⟨start, c :: ds, w⟩) hrest
  -- Any cut begins with this word, since no other may stand here.
  have hfirst : ∀ ys, CutsFrom text start previous ys → ∃ zs, ys = ⟨start, c :: ds, w⟩ :: zs ∧
      CutsFrom text (start + (c :: ds).length) (some w) zs := by
    intro ys hys
    obtain ⟨⟨_, chars, w'⟩, zs, rfl, rfl, ⟨rest', hrest'⟩, hw', hs', hzs⟩ := (cutsFrom_word hc hvisible).mp hys
    rw [Slice.drop_stop hrest'] at hs'
    obtain ⟨rfl, rfl⟩ := Stands.unique hw hw' hs hs' (hrest.trans hrest'.symm)
    exact ⟨zs, rfl, hzs⟩
  cases r with
  | ok ts =>
    obtain ⟨xs, rfl, hcut, hunique⟩ := h
    refine ⟨⟨start, c :: ds, w⟩ :: xs, rfl, ?_, fun ys hys => ?_⟩
    · exact (cutsFrom_word hc hvisible).mpr ⟨_, xs, rfl, rfl, ⟨rest, hrest⟩, hw, hstop ▸ hs, hcut⟩
    · obtain ⟨zs, rfl, hzs⟩ := hfirst ys hys
      rw [hunique zs hzs]
  | error e =>
    obtain ⟨hnone, hle, hfails, xs, hcut⟩ := h
    refine ⟨fun ys hys => ?_, by omega, hfails, ⟨start, c :: ds, w⟩ :: xs, ?_⟩
    · obtain ⟨zs, rfl, hzs⟩ := hfirst ys hys
      exact hnone zs hzs
    · have hc' : (text.take (failurePosition e))[start]? = some c := by
        rw [List.getElem?_take_of_lt (by simp at hle; omega), hc]
      refine (cutsFrom_word hc' hvisible).mpr ⟨_, xs, rfl, rfl, ?_, hw, ?_, hcut⟩
      · rw [List.drop_take]
        have hfits : (c :: ds).length ≤ failurePosition e - start := by omega
        exact List.prefix_take_iff.mpr ⟨⟨rest, hrest⟩, hfits⟩
      · show Stands previous (c :: ds) w ((text.take _).drop (start + (c :: ds).length))
        rw [List.drop_take, hstop]
        exact hs.take _

/-- Where the lexer finds no word there is no cut, and nothing of the text before is missing. -/
theorem tells_error {c : Char} {cs : List Char} {e : LexError} (hvisible : isBlank c = false)
    (hc : text[start]? = some c) (hdrop : text.drop start = c :: cs) (hword : word previous start c cs = .error e)
    (hposition : failurePosition e = start) (hfails : FailsAt text e) : Tells text start previous (.error e) := by
  refine ⟨fun ys hys => ?_, by omega, hfails, [], ?_⟩
  · obtain ⟨⟨_, chars, w⟩, zs, rfl, rfl, ⟨rest, hrest⟩, hw, hs, -⟩ := (cutsFrom_word hc hvisible).mp hys
    obtain ⟨d, ds, rfl, -⟩ := hw.head_not_blank
    rw [Slice.drop_stop hrest] at hs
    rw [hdrop, List.cons_append] at hrest
    obtain ⟨rfl, rfl⟩ := List.cons.inj hrest
    rw [word_of_writes hw hs] at hword
    cases hword
  · rw [hposition]
    exact (cutsFrom_end (by rw [List.length_take]; omega)).mpr rfl

/-- The tokens of a text from a place on are its only cut, or tell where it fails. -/
theorem tokensFrom_tells (text : List Char) (start : Nat) (previous : Option Lexeme) :
    Tells text start previous (tokensFrom previous start (text.drop start)) := by
  -- The recursion follows the lexer: one white space or one word is taken at a time.
  cases hdrop : text.drop start with
  | nil =>
    have hend : text.length ≤ start := List.drop_eq_nil_iff.mp hdrop
    rw [tokensFrom]
    exact ⟨[], rfl, (cutsFrom_end hend).mpr rfl, fun ys hys => (cutsFrom_end hend).mp hys⟩
  | cons c cs =>
    obtain ⟨hlt, hc⟩ := getElem?_of_drop_eq_cons hdrop
    cases hvisible : isBlank c with
    | true =>
      rw [tokensFrom_blank hvisible]
      have ih := tokensFrom_tells text (start + 1) previous
      rw [← List.drop_drop, hdrop, List.drop_one, List.tail_cons] at ih
      exact tells_blank hc hvisible ih
    | false =>
      rcases word_cases previous start c cs with ⟨ds, rest, w, rfl, hw, hs⟩ | ⟨herror, hnone⟩ | ⟨herror, hq, hnone⟩
      · have ih := tokensFrom_tells text (start + (c :: ds).length) (some w)
        rw [← List.drop_drop, hdrop, ← List.cons_append, List.drop_left] at ih
        rw [← List.cons_append, tokensFrom_word hvisible hw hs]
        exact tells_word hvisible hc hdrop.symm hw hs ih
      · rw [tokensFrom_error hvisible herror]
        exact tells_error hvisible hc hdrop herror rfl ⟨hc, hvisible, hdrop ▸ hnone⟩
      · rw [tokensFrom_error hvisible herror]
        refine tells_error hvisible hc hdrop herror rfl ⟨c, hq, hc, ?_⟩
        rw [← List.drop_drop, hdrop]
        exact hnone
termination_by text.length - start

end Lexer

open Lexer

theorem Token.ofText_tells (s : String) : Tells s.toList 0 none (Token.ofText s) := tokensFrom_tells s.toList 0 none

theorem Token.ofText_eq_ok_iff {s : String} {ts : List Token} :
    Token.ofText s = .ok ts ↔ ∃ xs, Cuts s.toList xs ∧ ts = xs.map Slice.token := by
  have h := Token.ofText_tells s
  constructor
  · intro hok
    rw [hok] at h
    obtain ⟨xs, hts, hcut, -⟩ := h
    exact ⟨xs, hcut, hts⟩
  · rintro ⟨xs, hcut, rfl⟩
    cases hread : Token.ofText s with
    | ok ts =>
      rw [hread] at h
      obtain ⟨ys, rfl, -, hunique⟩ := h
      rw [hunique xs hcut]
    | error e =>
      rw [hread] at h
      exact absurd hcut (h.1 xs)

theorem Lexer.Cuts.unique {s : String} {xs ys : List Slice} (h : Cuts s.toList xs) (h' : Cuts s.toList ys) :
    xs = ys := by
  have htells := Token.ofText_tells s
  rw [Token.ofText_eq_ok_iff.mpr ⟨xs, h, rfl⟩] at htells
  obtain ⟨zs, -, -, hunique⟩ := htells
  rw [hunique xs h, hunique ys h']

theorem Lexer.Cuts.increasing {text : List Char} {xs : List Slice} (h : Cuts text xs) :
    (xs.map (·.token.position)).Pairwise (· < ·) := by
  rw [List.pairwise_map]
  refine h.ordered.imp_of_mem fun {x y} hx _ hle => ?_
  obtain ⟨-, -, -, hlt⟩ := Slice.exists_head (h.placed x hx).2 (h.written x hx)
  exact Nat.lt_of_lt_of_le hlt hle

theorem Token.ofText_failure {s : String} {e : LexError} (h : Token.ofText s = .error e) :
    FailsAt s.toList e ∧ ∃ ts, Token.ofText (String.ofList (s.toList.take (failurePosition e))) = .ok ts := by
  have htells := Token.ofText_tells s
  rw [h] at htells
  obtain ⟨-, -, hfails, xs, hcut⟩ := htells
  refine ⟨hfails, _, Token.ofText_eq_ok_iff.mpr ⟨xs, ?_, rfl⟩⟩
  rw [String.toList_ofList]
  exact hcut

/-- The tokens of a text are its one cut into words and white space. A text that has none fails at a place up to
    which it can be cut: no word begins there, or a string begins that no quote closes. -/
theorem tokens_exact (s : String) :
    (∀ ts, Token.ofText s = .ok ts ↔ ∃ xs, Cuts s.toList xs ∧ ts = xs.map Slice.token) ∧
    (∀ xs ys, Cuts s.toList xs → Cuts s.toList ys → xs = ys) ∧
    (∀ ts, Token.ofText s = .ok ts → (ts.map (·.position)).Pairwise (· < ·)) ∧
    (∀ c p, Token.ofText s = .error (.unexpectedChar c p) →
      (∃ ts, Token.ofText (String.ofList (s.toList.take p)) = .ok ts) ∧ s.toList[p]? = some c ∧ isBlank c = false ∧
        ∀ chars w, Writes chars w → ¬chars <+: s.toList.drop p) ∧
    (∀ p, Token.ofText s = .error (.unclosedString p) →
      (∃ ts, Token.ofText (String.ofList (s.toList.take p)) = .ok ts) ∧
        ∃ q, IsQuote q ∧ s.toList[p]? = some q ∧ ∀ i, ¬Closes q (s.toList.drop (p + 1)) i) := by
  refine ⟨fun ts => Token.ofText_eq_ok_iff, fun xs ys => Cuts.unique, fun ts hts => ?_, fun c p h => ?_, fun p h => ?_⟩
  · obtain ⟨xs, hcut, rfl⟩ := Token.ofText_eq_ok_iff.mp hts
    rw [List.map_map]
    exact hcut.increasing
  · obtain ⟨hfails, hbefore⟩ := Token.ofText_failure h
    exact ⟨hbefore, hfails⟩
  · obtain ⟨hfails, hbefore⟩ := Token.ofText_failure h
    exact ⟨hbefore, hfails⟩

end TableMetrics
