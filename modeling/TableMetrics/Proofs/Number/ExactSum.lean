import Mathlib.Algebra.BigOperators.Ring.List
import Mathlib.Data.Nat.Size
import TableMetrics.Number.Sum
import TableMetrics.Proofs.Number.Exact
import TableMetrics.Proofs.Number.Nearest

/-! Exact sums. The parts of a sum do not overlap: each is less than a power of two that divides all later ones. So all
    but the last are small beside the numbers that can be held, and no partial sum is much larger than the exact one.
    Below half of the magnitude at which numbers end none overflows, however many summands there are and in whatever
    order. -/

namespace TableMetrics

/-! ### What rounding leaves over -/

theorem twoPow_dvd_roundPrecise (n : Nat) : Nat.pow 2 (droppedBits n) ∣ roundPrecise n 1 := by
  rw [roundPrecise, Nat.div_one]
  exact Nat.dvd_mul_left _ _

theorem dvd_roundPrecise {n i : Nat} (h : 2 ^ i ∣ n) : 2 ^ i ∣ roundPrecise n 1 := by
  rcases Nat.le_total i (droppedBits n) with hle | hle
  · exact Nat.dvd_trans (Nat.pow_dvd_pow 2 hle) (twoPow_dvd_roundPrecise n)
  · have hprecise : Precise n := Nat.dvd_trans (Nat.pow_dvd_pow 2 hle) h
    rw [roundPrecise_self hprecise]
    exact h

theorem two_mul_dist_roundPrecise_le (n : Nat) : 2 * Nat.dist (roundPrecise n 1) n ≤ 2 ^ droppedBits n := by
  have hnear := (roundHalfEven_near n (twoPow_pos (droppedBits n))).1
  rwa [roundPrecise, Nat.div_one, Nat.one_mul]

namespace Binary64
variable {x t : Int}

theorem natAbs_roundTotal (t : Int) : (roundTotal t).natAbs = roundPrecise t.natAbs 1 := by
  rw [roundTotal, natAbs_signed]

theorem natAbs_sub_roundTotal (t : Int) : (t - roundTotal t).natAbs = Nat.dist (roundPrecise t.natAbs 1) t.natAbs := by
  have hsub : ∀ (s : Bool) (u v : Nat), (signed s u - signed s v).natAbs = Nat.dist v u := by
    intro s u v
    unfold Nat.dist
    cases s with
    | false =>
      rw [signed_false, signed_false]
      omega
    | true =>
      rw [signed_true, signed_true]
      omega
  have ht := hsub (decide (t < 0)) t.natAbs (roundPrecise t.natAbs 1)
  rwa [signed_natAbs] at ht

theorem dvd_roundTotal {i : Nat} (h : ((2 ^ i : Nat) : Int) ∣ t) : ((2 ^ i : Nat) : Int) ∣ roundTotal t := by
  rw [Int.natCast_dvd] at h ⊢
  rw [natAbs_roundTotal]
  exact dvd_roundPrecise h

theorem precise_roundTotal (t : Int) : Precise (roundTotal t).natAbs := by
  rw [natAbs_roundTotal]
  exact precise_roundPrecise _ _

/-- What rounding leaves over of a sum is not more than either summand, if the other one is precise. -/
theorem natAbs_sub_roundTotal_le (hx : Precise x.natAbs) (part : Int) :
    (x + part - roundTotal (x + part)).natAbs ≤ part.natAbs := by
  have hnear := (roundPrecise_nearest (x + part).natAbs Nat.one_pos hx).1
  rw [natAbs_sub_roundTotal]
  rw [Nat.mul_one, Nat.mul_one] at hnear
  refine Nat.le_trans hnear ?_
  unfold Nat.dist
  omega

/-- What rounding leaves over is less than the power of two that rounding goes by. -/
theorem natAbs_sub_roundTotal_lt (t : Int) : (t - roundTotal t).natAbs < 2 ^ droppedBits t.natAbs := by
  have hhalf := two_mul_dist_roundPrecise_le t.natAbs
  have hpos := Nat.two_pow_pos (droppedBits t.natAbs)
  rw [natAbs_sub_roundTotal]
  omega

/-! ### Parts that do not overlap -/

/-- A power of two above the magnitude of `p` divides `q`. -/
def Below (p q : Int) : Prop := ((2 ^ p.natAbs.size : Nat) : Int) ∣ q

theorem below_iff {p q : Int} : Below p q ↔ ∃ i, p.natAbs < 2 ^ i ∧ ((2 ^ i : Nat) : Int) ∣ q := by
  constructor
  · exact fun h => ⟨p.natAbs.size, Nat.lt_size_self _, h⟩
  · rintro ⟨i, hlt, hdvd⟩
    refine Int.dvd_trans (Int.natCast_dvd_natCast.mpr ?_) hdvd
    exact Nat.pow_dvd_pow 2 (Nat.size_le.mpr hlt)

/-- The sum of parts that do not overlap is below the power of two that all of them are below. -/
theorem natAbs_sum_lt {parts : List Int} (h : parts.Pairwise Below) {k : Nat} (hlt : ∀ p ∈ parts, p.natAbs < 2 ^ k) :
    parts.sum.natAbs < 2 ^ k := by
  induction parts with
  | nil => exact Nat.two_pow_pos k
  | cons p parts ih =>
    obtain ⟨hp, hparts⟩ := List.pairwise_cons.mp h
    obtain ⟨hlt, hrest⟩ := List.forall_mem_cons.mp hlt
    have ih := ih hparts hrest
    have hsize : p.natAbs < 2 ^ p.natAbs.size := Nat.lt_size_self _
    have hdvd : 2 ^ p.natAbs.size ∣ parts.sum.natAbs := Int.natCast_dvd.mp (List.dvd_sum hp)
    have hpow : 2 ^ p.natAbs.size ∣ 2 ^ k := Nat.pow_dvd_pow 2 (Nat.size_le.mpr hlt)
    -- A multiple of the power that is above `p`, below another multiple of it, leaves room for `p`.
    have hroom : parts.sum.natAbs + 2 ^ p.natAbs.size ≤ 2 ^ k := by
      generalize 2 ^ p.natAbs.size = m at hdvd hpow hsize
      obtain ⟨a, ha⟩ := hdvd
      obtain ⟨b, hb⟩ := hpow
      rw [ha, hb] at ih ⊢
      rw [← Nat.mul_succ]
      exact Nat.mul_le_mul_left m (Nat.lt_of_mul_lt_mul_left ih)
    rw [List.sum_cons]
    omega

/-! ### Taking in a summand -/

section Accumulate
variable {part : Int} {parts parts' : List Int}

theorem accumulate_cons (h : accumulate x (part :: parts) = some parts') :
    (roundTotal (x + part)).natAbs < unitsOfInfinity ∧ ∃ rest, accumulate (roundTotal (x + part)) parts = some rest ∧
      parts' = if x + part = roundTotal (x + part) then rest else (x + part - roundTotal (x + part)) :: rest := by
  simp only [accumulate] at h
  split at h
  · next hlt =>
    obtain ⟨rest, hrest, heq⟩ := Option.map_eq_some_iff.mp h
    exact ⟨hlt, rest, hrest, heq.symm⟩
  · cases h

/-- The parts have the sum of the summands. -/
theorem sum_accumulate (h : accumulate x parts = some parts') : parts'.sum = x + parts.sum := by
  induction parts generalizing x parts' with
  | nil =>
    cases h
    split
    · next hzero => rw [hzero, List.sum_nil, Int.add_zero]
    · next hzero => rw [List.sum_singleton, List.sum_nil, Int.add_zero]
  | cons part parts ih =>
    obtain ⟨-, rest, hrest, rfl⟩ := accumulate_cons h
    have ih := ih hrest
    rw [List.sum_cons]
    split
    · next hexact =>
      rw [ih]
      omega
    · next hexact =>
      rw [List.sum_cons, ih]
      omega

/-- A power of two that divides the summand and all parts divides the new parts. -/
theorem dvd_accumulate {i : Nat} (h : accumulate x parts = some parts') (hx : ((2 ^ i : Nat) : Int) ∣ x)
    (hparts : ∀ p ∈ parts, ((2 ^ i : Nat) : Int) ∣ p) : ∀ p ∈ parts', ((2 ^ i : Nat) : Int) ∣ p := by
  induction parts generalizing x parts' with
  | nil =>
    cases h
    split
    · simp
    · simpa using hx
  | cons part parts ih =>
    obtain ⟨-, rest, hrest, rfl⟩ := accumulate_cons h
    obtain ⟨hpart, hparts⟩ := List.forall_mem_cons.mp hparts
    have htotal := Int.dvd_add hx hpart
    have hhigh := dvd_roundTotal htotal
    have ih := ih hrest hhigh hparts
    split
    · exact ih
    · exact List.forall_mem_cons.mpr ⟨Int.dvd_sub htotal hhigh, ih⟩

/-- What is left over of the summand and the first part is below what goes on and below the later parts. -/
theorem below_left_over (hx : Precise x.natAbs) (hparts : (part :: parts).Pairwise Below) :
    ∃ i, (x + part - roundTotal (x + part)).natAbs < 2 ^ i ∧ ((2 ^ i : Nat) : Int) ∣ roundTotal (x + part) ∧
      ∀ p ∈ parts, ((2 ^ i : Nat) : Int) ∣ p := by
  refine ⟨(x + part - roundTotal (x + part)).natAbs.size, Nat.lt_size_self _, ?_, fun p hp => ?_⟩
  · have hsize := Nat.size_le.mpr (natAbs_sub_roundTotal_lt (x + part))
    rw [Int.natCast_dvd, natAbs_roundTotal]
    exact Nat.dvd_trans (Nat.pow_dvd_pow 2 hsize) (twoPow_dvd_roundPrecise _)
  · have hsize := Nat.size_le_size (natAbs_sub_roundTotal_le hx part)
    have hbelow : Below part p := (List.pairwise_cons.mp hparts).1 p hp
    exact Int.dvd_trans (Int.natCast_dvd_natCast.mpr (Nat.pow_dvd_pow 2 hsize)) hbelow

theorem pairwise_accumulate (h : accumulate x parts = some parts') (hx : Precise x.natAbs)
    (hparts : parts.Pairwise Below) : parts'.Pairwise Below := by
  induction parts generalizing x parts' with
  | nil =>
    cases h
    split <;> simp
  | cons part parts ih =>
    obtain ⟨-, rest, hrest, rfl⟩ := accumulate_cons h
    have ih := ih hrest (precise_roundTotal _) (List.pairwise_cons.mp hparts).2
    split
    · exact ih
    · obtain ⟨i, hlt, hhigh, hlater⟩ := below_left_over hx hparts
      exact List.pairwise_cons.mpr ⟨fun p hp => below_iff.mpr ⟨i, hlt, dvd_accumulate hrest hhigh hlater p hp⟩, ih⟩

/-! ### Sums that do not overflow -/

/-- What rounding leaves over of a number that can be held has at most so many bits. -/
@[irreducible]
def restBits : Nat := allBits - 53

theorem unitsOfInfinity_eq : unitsOfInfinity = 2 ^ (restBits + 53) := by
  have hbits : allBits = restBits + 53 := by
    unfold restBits
    decide
  unfold unitsOfInfinity
  rw [hbits, Nat.pow_eq]

theorem natAbs_left_over_lt {t : Int} (h : (roundTotal t).natAbs < unitsOfInfinity) :
    (t - roundTotal t).natAbs < 2 ^ restBits := by
  have hlt : t.natAbs < 2 ^ (restBits + 53) := by
    refine Nat.lt_of_not_le fun hle => ?_
    rw [unitsOfInfinity_eq, natAbs_roundTotal] at h
    exact absurd h (Nat.not_lt.mpr (twoPow_le_roundPrecise (by rwa [Nat.div_one])))
  have hbits : droppedBits t.natAbs ≤ restBits := by
    rcases Nat.eq_zero_or_pos t.natAbs with hzero | hpos
    · simp [hzero, droppedBits]
    · have hlog := (Nat.log2_lt (Nat.ne_of_gt hpos)).mpr hlt
      unfold droppedBits
      omega
  exact Nat.lt_of_lt_of_le (natAbs_sub_roundTotal_lt t) (Nat.pow_le_pow_right (by decide) hbits)

/-- All parts but the last are what rounding left over. -/
theorem small_accumulate (h : accumulate x parts = some parts') : ∀ p ∈ parts'.dropLast, p.natAbs < 2 ^ restBits := by
  induction parts generalizing x parts' with
  | nil =>
    cases h
    split <;> simp
  | cons part parts ih =>
    obtain ⟨hlt, rest, hrest, rfl⟩ := accumulate_cons h
    have ih := ih hrest
    split
    · exact ih
    · cases rest with
      | nil => simp
      | cons p rest =>
        rw [List.dropLast_cons_cons]
        exact List.forall_mem_cons.mpr ⟨natAbs_left_over_lt hlt, ih⟩

/-- A rounded sum is finite if its exact value is little more than half of the magnitude at which numbers end. -/
theorem natAbs_roundTotal_lt {t : Int} (h : t.natAbs ≤ 2 ^ (restBits + 52) + 2 * 2 ^ restBits) :
    (roundTotal t).natAbs < unitsOfInfinity := by
  have hprecise : Precise (3 * Nat.pow 2 (restBits + 51)) := precise_mul_two_pow (by decide)
  have hpow : 2 ^ (restBits + 51) = 2 ^ 51 * 2 ^ restBits := by rw [Nat.add_comm, Nat.pow_add]
  have hpow' : 2 ^ (restBits + 52) = 2 * 2 ^ (restBits + 51) := Nat.pow_succ'
  have hinfinity : 2 ^ (restBits + 53) = 4 * 2 ^ (restBits + 51) := by rw [Nat.pow_succ', Nat.pow_succ', ← Nat.mul_assoc]
  have hpos := Nat.two_pow_pos restBits
  have hle : t.natAbs ≤ 3 * Nat.pow 2 (restBits + 51) * 1 := by
    rw [Nat.pow_eq]
    omega
  rw [natAbs_roundTotal, unitsOfInfinity_eq]
  refine Nat.lt_of_le_of_lt (roundPrecise_le Nat.one_pos hprecise hle) ?_
  rw [Nat.pow_eq]
  omega

/-- No partial sum overflows if the exact sums of the summand and the first parts are at most about half of the magnitude
    at which numbers end. The left-overs `es` of the steps before do not overlap either, so that they stay small. -/
theorem exists_accumulate (es : List Int) (hx : Precise x.natAbs) (hparts : parts.Pairwise Below)
    (hes : es.Pairwise Below) (hsmall : ∀ e ∈ es, e.natAbs < 2 ^ restBits)
    (hbelow : ∀ e ∈ es, Below e x ∧ ∀ p ∈ parts, Below e p)
    (hinit : ∀ ps, ps <+: parts → (x + es.sum + ps.sum).natAbs ≤ 2 ^ (restBits + 52) + 2 ^ restBits) :
    ∃ parts', accumulate x parts = some parts' := by
  induction parts generalizing x es with
  | nil => exact ⟨_, rfl⟩
  | cons part parts ih =>
    have hsum := natAbs_sum_lt hes hsmall
    have htotal := hinit [part] ⟨parts, rfl⟩
    rw [List.sum_singleton] at htotal
    have hhigh : (roundTotal (x + part)).natAbs < unitsOfInfinity := natAbs_roundTotal_lt (by omega)
    obtain ⟨i, hlt, hdvd, hlater⟩ := below_left_over hx hparts
    have hkept : ∀ e ∈ es, Below e (x + part - roundTotal (x + part)) ∧ Below e (roundTotal (x + part)) := fun e he => by
      have htotal := Int.dvd_add (hbelow e he).1 ((hbelow e he).2 part (List.mem_cons_self ..))
      exact ⟨Int.dvd_sub htotal (dvd_roundTotal htotal), dvd_roundTotal htotal⟩
    -- What this step leaves over joins the left-overs of the steps before.
    have hes' : (es ++ [x + part - roundTotal (x + part)]).Pairwise Below := by
      refine List.pairwise_append.mpr ⟨hes, List.pairwise_singleton .., fun e he last hlast => ?_⟩
      rw [List.mem_singleton.mp hlast]
      exact (hkept e he).1
    have hsmall' : ∀ e ∈ es ++ [x + part - roundTotal (x + part)], e.natAbs < 2 ^ restBits := by
      refine List.forall_mem_append.mpr ⟨hsmall, List.forall_mem_singleton.mpr ?_⟩
      exact natAbs_left_over_lt hhigh
    have hbelow' : ∀ e ∈ es ++ [x + part - roundTotal (x + part)],
        Below e (roundTotal (x + part)) ∧ ∀ p ∈ parts, Below e p := by
      refine List.forall_mem_append.mpr ⟨fun e he => ⟨(hkept e he).2, fun p hp => ?_⟩, List.forall_mem_singleton.mpr ?_⟩
      · exact (hbelow e he).2 p (List.mem_cons_of_mem _ hp)
      · exact ⟨below_iff.mpr ⟨i, hlt, hdvd⟩, fun p hp => below_iff.mpr ⟨i, hlt, hlater p hp⟩⟩
    have hinit' : ∀ ps, ps <+: parts → (roundTotal (x + part) + (es ++ [x + part - roundTotal (x + part)]).sum +
        ps.sum).natAbs ≤ 2 ^ (restBits + 52) + 2 ^ restBits := fun ps hps => by
      have hnext := hinit (part :: ps) (List.cons_prefix_cons.mpr ⟨rfl, hps⟩)
      rw [List.sum_cons] at hnext
      rw [List.sum_append, List.sum_singleton]
      convert hnext using 2
      omega
    obtain ⟨rest, hrest⟩ := ih _ (precise_roundTotal _) (List.pairwise_cons.mp hparts).2 hes' hsmall' hbelow' hinit'
    simp only [accumulate, if_pos hhigh, hrest, Option.map_some]
    exact ⟨_, rfl⟩

end Accumulate

/-- Parts of a sum: they have the exact sum and do not overlap, and all but the last are small. -/
structure IsExpansion (parts : List Int) (total : Int) : Prop where
  sum_eq : parts.sum = total
  pairwise : parts.Pairwise Below
  small : ∀ p ∈ parts.dropLast, p.natAbs < 2 ^ restBits

namespace IsExpansion
variable {parts ps : List Int} {total : Int}

theorem nil : IsExpansion [] 0 := ⟨rfl, .nil, by simp⟩

/-- The first parts have the exact sum, or a small one. -/
theorem natAbs_sum_le (h : IsExpansion parts total) (hinit : ps <+: parts) :
    ps.sum = total ∨ ps.sum.natAbs < 2 ^ restBits := by
  obtain ⟨rest, rfl⟩ := hinit
  rcases List.eq_nil_or_concat rest with rfl | ⟨rest, p, rfl⟩
  · refine Or.inl ?_
    rw [← h.sum_eq, List.append_nil]
  · refine Or.inr (natAbs_sum_lt (List.pairwise_append.mp h.pairwise).1 fun q hq => h.small q ?_)
    rw [List.concat_eq_append, ← List.append_assoc, List.dropLast_concat]
    exact List.mem_append_left _ hq

/-- A summand is taken in if it and the sum so far come to no more than half of the magnitude at which numbers end. -/
theorem accumulate (h : IsExpansion parts total) (hx : Precise x.natAbs)
    (hbound : total.natAbs + x.natAbs ≤ 2 ^ (restBits + 52)) :
    ∃ parts', Binary64.accumulate x parts = some parts' ∧ IsExpansion parts' (total + x) := by
  have hinit : ∀ ps, ps <+: parts →
      (x + ([] : List Int).sum + ps.sum).natAbs ≤ 2 ^ (restBits + 52) + 2 ^ restBits := fun ps hps => by
    rw [List.sum_nil]
    have hpos := Nat.two_pow_pos restBits
    rcases h.natAbs_sum_le hps with hsum | hsum <;> omega
  obtain ⟨parts', hparts⟩ := exists_accumulate [] hx h.pairwise .nil (by simp) (by simp) hinit
  refine ⟨parts', hparts, ?_, pairwise_accumulate hparts hx h.pairwise, small_accumulate hparts⟩
  rw [sum_accumulate hparts, h.sum_eq, Int.add_comm]

end IsExpansion

/-- Units are taken in one after the other if their magnitudes come to no more than half of that at which numbers end. -/
theorem exists_foldlM_accumulate {us : List Int} (hus : ∀ u ∈ us, Precise u.natAbs) {parts : List Int} {total : Int}
    (h : IsExpansion parts total) (hbound : total.natAbs + (us.map Int.natAbs).sum ≤ 2 ^ (restBits + 52)) :
    ∃ parts', us.foldlM (fun parts u => accumulate u parts) parts = some parts' ∧ IsExpansion parts' (total + us.sum) := by
  induction us generalizing parts total with
  | nil => exact ⟨parts, rfl, by rwa [List.sum_nil, Int.add_zero]⟩
  | cons u us ih =>
    obtain ⟨hu, hus⟩ := List.forall_mem_cons.mp hus
    rw [List.map_cons, List.sum_cons] at hbound
    obtain ⟨parts₁, hparts₁, h₁⟩ := h.accumulate hu (by omega)
    obtain ⟨parts', hparts', h'⟩ := ih hus h₁ (by omega)
    refine ⟨parts', ?_, by rwa [List.sum_cons, ← Int.add_assoc]⟩
    rw [List.foldlM_cons, hparts₁]
    exact hparts'

/-- The sum of parts is that of the units that were taken in. -/
theorem sum_foldlM_accumulate {us parts parts' : List Int}
    (h : us.foldlM (fun parts u => accumulate u parts) parts = some parts') : parts'.sum = parts.sum + us.sum := by
  induction us generalizing parts with
  | nil =>
    cases h
    rw [List.sum_nil, Int.add_zero]
  | cons u us ih =>
    rw [List.foldlM_cons] at h
    obtain ⟨parts₁, hparts₁, h⟩ := Option.bind_eq_some_iff.mp h
    rw [ih h, sum_accumulate hparts₁, List.sum_cons]
    omega

/-! ### Sums of floating-point numbers -/

/-- The units of a finite number with its sign. -/
def signedUnits (x : Binary64) : Int := x.units?.getD 0

theorem exists_eq_finite {x : Binary64} (h : x.isFinite = true) : ∃ s u hu, x = .finite s u hu := by
  cases x with
  | nan => cases h
  | infinite s => cases h
  | finite s u hu => exact ⟨s, u, hu, rfl⟩

section Sum
variable {xs ys : List Binary64}

theorem mapM_units? (h : ∀ x ∈ xs, x.isFinite = true) : xs.mapM units? = some (xs.map signedUnits) := by
  induction xs with
  | nil => rfl
  | cons x xs ih =>
    obtain ⟨hx, hxs⟩ := List.forall_mem_cons.mp h
    obtain ⟨s, u, hu, rfl⟩ := exists_eq_finite hx
    rw [List.mapM_cons, ih hxs]
    rfl

theorem precise_signedUnits {x : Binary64} (h : x.isFinite = true) : Precise x.signedUnits.natAbs := by
  obtain ⟨s, u, hu, rfl⟩ := exists_eq_finite h
  show Precise (signed s u).natAbs
  rw [natAbs_signed]
  exact hu.2

theorem exactSum?_of_finite (h : ∀ x ∈ xs, x.isFinite = true) : exactSum? xs =
    ((xs.map signedUnits).foldlM (fun parts u => accumulate u parts) []).map List.sum := by
  have hsum : (List.sum : List Int → Int) = fun parts => parts.foldl (· + ·) 0 := funext fun _ => List.sum_eq_foldl
  rw [exactSum?, mapM_units? h, hsum, Option.map_eq_bind]
  rfl

/-- If there is an exact sum, it is that of the units. -/
theorem exactSum?_eq {total : Int} (hfinite : ∀ x ∈ xs, x.isFinite = true) (h : exactSum? xs = some total) :
    total = (xs.map signedUnits).sum := by
  rw [exactSum?_of_finite hfinite] at h
  obtain ⟨parts, hparts, rfl⟩ := Option.map_eq_some_iff.mp h
  rw [sum_foldlM_accumulate hparts, List.sum_nil, Int.zero_add]

/-- Numbers whose magnitudes come to no more than half of that at which numbers end have an exact sum. -/
theorem exactSum?_of_le (hfinite : ∀ x ∈ xs, x.isFinite = true)
    (hbound : ((xs.map signedUnits).map Int.natAbs).sum ≤ 2 ^ (restBits + 52)) :
    exactSum? xs = some (xs.map signedUnits).sum := by
  have hprecise : ∀ u ∈ xs.map signedUnits, Precise u.natAbs := fun u hu => by
    obtain ⟨x, hx, rfl⟩ := List.mem_map.mp hu
    exact precise_signedUnits (hfinite x hx)
  obtain ⟨parts, hparts, h⟩ := exists_foldlM_accumulate hprecise .nil (by simpa using hbound)
  rw [exactSum?_of_finite hfinite, hparts, Option.map_some, h.sum_eq, Int.zero_add]

end Sum

end Binary64
end TableMetrics
