/-
# Rounding to doubles

What is rounded is a quotient, and only its value counts (`nearest_congr`).  A quotient that
lies within half the spacing of a multiple of the spacing is rounded to it, a tie to the even
multiple (`nearestEven_eq`).  So every quotient in the basin of a magnitude is rounded to
that magnitude (`nearest_of_has`); there the spacing below a power of two is half of the one
above, and it is the quotient whose spacing decides.

Reading a numeral has shortcuts for those far too large and far too small, which only save
work: the double is in any case the rounded quotient (`toBinary64_eq_rounded`).
-/
import Mathlib.Tactic
import Reshape.Binary64.Decimal
import Reshape.Json.Basic

namespace Reshape

/-! ## Nearest whole numbers -/

namespace Magnitude

theorem nearestEven_mul_mul (num den : Nat) {k : Nat} (hk : 0 < k) :
    nearestEven (num * k) (den * k) = nearestEven num den := by
  have hlt : ∀ a b : Nat, a * k < b * k ↔ a < b := fun a b => Nat.mul_lt_mul_right hk
  have hassoc : 2 * (num % den * k) = 2 * (num % den) * k := by ring
  simp only [nearestEven, Nat.mul_div_mul_right num den hk, Nat.mul_mod_mul_right, hassoc, hlt]

theorem nearest_mul_mul (num den : Nat) {k : Nat} (hk : 0 < k) :
    nearest (num * k) (den * k) = nearest num den := by
  have hden : ∀ s, den * k * s = den * s * k := fun s => by ring
  rw [nearest, nearest, Nat.mul_div_mul_right num den hk, hden, nearestEven_mul_mul _ _ hk]

/-- Only the value of a quotient counts. -/
theorem nearest_congr {num den num' den' : Nat} (hden : 0 < den) (hden' : 0 < den')
    (h : num * den' = num' * den) : nearest num den = nearest num' den' := by
  rw [← nearest_mul_mul num den hden', h, Nat.mul_comm den den', nearest_mul_mul _ _ hden]

/-- A quotient at most a half from a whole number is rounded to it, if that is even or the
quotient is nearer than a half. -/
theorem nearestEven_eq {num den m : Nat} (hden : 0 < den)
    (hlo : 2 * (m * den) ≤ 2 * num + den) (hhi : 2 * num ≤ 2 * (m * den) + den)
    (htie : m % 2 = 1 → 2 * (m * den) < 2 * num + den ∧ 2 * num < 2 * (m * den) + den) :
    nearestEven num den = m := by
  have hdiv : num / den * den + num % den = num := by
    rw [Nat.mul_comm]
    exact Nat.div_add_mod num den
  have hlt : num % den < den := Nat.mod_lt num hden
  unfold nearestEven
  simp only
  generalize num / den = q at hdiv ⊢
  generalize num % den = r at hdiv hlt ⊢
  -- the truncated quotient is the whole number or the one before it
  have hq : q ≤ m := by
    by_contra hm
    have hmul := Nat.mul_le_mul_right den (Nat.lt_of_not_le hm)
    rw [Nat.succ_mul] at hmul
    omega
  have hm : m ≤ q + 1 := by
    by_contra hq
    have hmul := Nat.mul_le_mul_right den (Nat.lt_of_not_le hq)
    rw [Nat.succ_mul, Nat.succ_mul] at hmul
    omega
  obtain rfl | rfl : m = q ∨ m = q + 1 := by omega
  · split_ifs <;> omega
  · have hsucc : (q + 1) * den = q * den + den := Nat.succ_mul q den
    rw [hsucc] at hlo hhi htie
    split_ifs <;> omega

/-! ## Spacing -/

theorem spacing_eq (u : Nat) : spacing u = 2 ^ (u.log2 - 52) := rfl

theorem spacing_congr {u v : Nat} (h : u.log2 = v.log2) : spacing u = spacing v := by
  rw [spacing_eq, spacing_eq, h]

theorem spacing_zero : spacing 0 = 1 := rfl

variable {u q : Nat}

/-- Different multiples are at least one step apart. -/
theorem add_le_of_dvd {s v : Nat} (hu : s ∣ u) (hv : s ∣ v) (h : u < v) : u + s ≤ v := by
  obtain ⟨a, rfl⟩ := hu
  obtain ⟨b, rfl⟩ := hv
  have hab : a < b := Nat.lt_of_mul_lt_mul_left h
  calc s * a + s = s * (a + 1) := (Nat.mul_succ s a).symm
    _ ≤ s * b := Nat.mul_le_mul_left s hab

/-- Between a magnitude and the next one the spacing stays the same. -/
theorem spacing_above (hu : u % spacing u = 0) (hpos : 0 < u) (hlo : u ≤ q)
    (hhi : q < u + spacing u) : spacing q = spacing u := by
  have hnext : u + spacing u ≤ 2 ^ (u.log2 + 1) :=
    add_le_of_dvd (Nat.dvd_of_mod_eq_zero hu) (Nat.pow_dvd_pow 2 (by omega)) Nat.lt_log2_self
  have hlog : q.log2 = u.log2 := by
    rw [Nat.log2_eq_iff (by omega)]
    exact ⟨(Nat.log2_self_le (by omega)).trans hlo, hhi.trans_le hnext⟩
  exact spacing_congr hlog

/-- Right below a magnitude the spacing stays the same, if it is not a power of two. -/
theorem spacing_below (hu : u % spacing u = 0) (hne : u ≠ 2 ^ u.log2 ∨ spacing u = 1)
    (hlo : u - spacing u ≤ q) (hhi : q < u) : spacing q = spacing u := by
  have hpos : 0 < u := by omega
  by_cases hone : spacing u = 1
  · have hlog : q.log2 ≤ u.log2 := by
      by_cases hq : q = 0
      · rw [hq, Nat.log2_zero]
        exact Nat.zero_le _
      · rw [Nat.le_log2 (by omega)]
        exact (Nat.log2_self_le hq).trans hhi.le
    have hu52 : u.log2 - 52 = 0 := by
      rw [spacing_eq] at hone
      by_contra h
      exact absurd hone (Nat.one_lt_two_pow h).ne'
    rw [hone, spacing_eq, show q.log2 - 52 = 0 by omega, Nat.pow_zero]
  · have hpow : 2 ^ u.log2 + spacing u ≤ u := by
      have hle : 2 ^ u.log2 ≤ u := Nat.log2_self_le (by omega)
      have hlt : 2 ^ u.log2 < u := lt_of_le_of_ne hle (hne.resolve_right hone).symm
      exact add_le_of_dvd (Nat.pow_dvd_pow 2 (by omega)) (Nat.dvd_of_mod_eq_zero hu) hlt
    have hpow0 : 0 < 2 ^ u.log2 := Nat.two_pow_pos _
    refine spacing_congr ((Nat.log2_eq_iff (by omega)).2 ⟨by omega, ?_⟩)
    exact hhi.trans Nat.lt_log2_self

/-- Right below a power of two the spacing is half as large. -/
theorem spacing_below_pow {k : Nat} (hlo : 2 ^ (53 + k) - 2 ^ k ≤ q) (hhi : q < 2 ^ (53 + k)) :
    spacing q = 2 ^ k := by
  have hhalf : 2 ^ (52 + k) ≤ 2 ^ (53 + k) - 2 ^ k := by
    rw [Nat.pow_add, Nat.pow_add 2 53]
    omega
  have hpos : 0 < 2 ^ (52 + k) := Nat.two_pow_pos _
  have hlog : q.log2 = 52 + k := by
    rw [Nat.log2_eq_iff (by omega)]
    exact ⟨hhalf.trans hlo, by rwa [show 52 + k + 1 = 53 + k by omega]⟩
  rw [spacing_eq, hlog, Nat.add_sub_cancel_left]

/-! ## Basins -/

/-- A quotient is rounded to a multiple of its spacing from which it is at most half of that
away, if the multiple is even or the quotient is nearer. -/
theorem nearest_eq {num den m s : Nat} (hden : 0 < den) (hs : spacing (num / den) = s)
    (hlo : 2 * (m * s * den) ≤ 2 * num + s * den) (hhi : 2 * num ≤ 2 * (m * s * den) + s * den)
    (htie : m % 2 = 1 →
      2 * (m * s * den) < 2 * num + s * den ∧ 2 * num < 2 * (m * s * den) + s * den) :
    nearest num den = m * s := by
  have hpos : 0 < s := hs ▸ spacing_pos _
  have hassoc : m * s * den = m * (den * s) := by ring
  rw [hassoc, Nat.mul_comm s den] at hlo hhi htie
  rw [nearest, hs, nearestEven_eq (Nat.mul_pos hden hpos) hlo hhi htie]

open Decimal (basin Basin.has)

/-- What it means that a quotient lies in a basin, on either side of the magnitude. -/
theorem bounds_of_has {num den : Nat} (h : (basin u).has u num den = true) :
    (4 * u - (basin u).below) * den ≤ 4 * num ∧ 4 * num ≤ (4 * u + 2 * spacing u) * den ∧
      (u / spacing u % 2 = 1 → (4 * u - (basin u).below) * den < 4 * num ∧
        4 * num < (4 * u + 2 * spacing u) * den) := by
  have habove : (basin u).above = 2 * spacing u := rfl
  have hclosed : (basin u).closed = (u / spacing u % 2 == 0) := rfl
  unfold Basin.has at h
  simp only [habove, hclosed] at h
  split at h
  · rename_i heven
    rw [beq_iff_eq] at heven
    rw [Bool.and_eq_true, decide_eq_true_iff, decide_eq_true_iff] at h
    exact ⟨h.1, h.2, fun hodd => by omega⟩
  · rw [Bool.and_eq_true, decide_eq_true_iff, decide_eq_true_iff] at h
    exact ⟨h.1.le, h.2.le, fun _ => h⟩

/-- Right below a power of two the basin reaches down by half as much. -/
theorem below_of_pow {k : Nat} (hu : u = 2 ^ (53 + k)) : (basin u).below = 2 * 2 ^ k := by
  have hlog : u.log2 = 53 + k := by rw [hu, Nat.log2_two_pow]
  have hspacing : spacing u = 2 * 2 ^ k := by
    rw [spacing_eq, hlog, show 53 + k - 52 = k + 1 by omega, Nat.pow_succ, Nat.mul_comm]
  have hcond : (u == Nat.pow 2 u.log2 && decide (1 < spacing u)) = true := by
    have hpos := Nat.two_pow_pos k
    rw [Bool.and_eq_true, beq_iff_eq, decide_eq_true_iff, hlog, hspacing]
    exact ⟨hu, by omega⟩
  show (if (u == Nat.pow 2 u.log2 && decide (1 < spacing u)) = true
    then spacing u else 2 * spacing u) = _
  rw [if_pos hcond, hspacing]

/-- Otherwise it reaches down by half the spacing, which is two quarters of it. -/
theorem below_of_ne (h : u ≠ 2 ^ u.log2 ∨ spacing u = 1) : (basin u).below = 2 * spacing u := by
  have hcond : ¬ (u == Nat.pow 2 u.log2 && decide (1 < spacing u)) = true := by
    rw [Bool.and_eq_true, beq_iff_eq, decide_eq_true_iff]
    rintro ⟨hpow, hone⟩
    exact h.elim (fun hne => hne hpow) fun hs => by omega
  show (if (u == Nat.pow 2 u.log2 && decide (1 < spacing u)) = true
    then spacing u else 2 * spacing u) = _
  rw [if_neg hcond]

variable {num den : Nat}

/-- A quotient below a power of two: counted in the smaller spacing, the power is even. -/
theorem nearest_of_has_pow {k : Nat} (hpow : u = 2 ^ (53 + k)) (hden : 0 < den)
    (h : (basin u).has u num den = true) (hlt : num / den < u) : nearest num den = u := by
  obtain ⟨hlo, -, -⟩ := bounds_of_has h
  have hnum : num < u * den := (Nat.div_lt_iff_lt_mul hden).1 hlt
  have h4 : 4 * u * den = 4 * (u * den) := Nat.mul_assoc _ _ _
  have h2 : 2 * 2 ^ k * den = 2 * (2 ^ k * den) := Nat.mul_assoc _ _ _
  rw [below_of_pow hpow, Nat.sub_mul, h4, h2] at hlo
  have hspace : spacing (num / den) = 2 ^ k := by
    refine spacing_below_pow ?_ (hpow ▸ hlt)
    rw [← hpow, Nat.le_div_iff_mul_le hden, Nat.sub_mul]
    omega
  have hmul : 2 ^ 53 * 2 ^ k = u := by rw [hpow, Nat.pow_add]
  rw [← hmul]
  refine nearest_eq hden hspace ?_ ?_ (fun hodd => absurd hodd (by decide))
  · rw [hmul]
    omega
  · rw [hmul]
    omega

/-- A quotient below another magnitude has the spacing of the magnitude. -/
theorem nearest_of_has_below (hu : u % spacing u = 0) (hne : u ≠ 2 ^ u.log2 ∨ spacing u = 1)
    (hden : 0 < den) (h : (basin u).has u num den = true) (hlt : num / den < u) :
    nearest num den = u := by
  obtain ⟨hlo, -, hstrict⟩ := bounds_of_has h
  have hm : u / spacing u * spacing u = u := Nat.div_mul_cancel (Nat.dvd_of_mod_eq_zero hu)
  have hnum : num < u * den := (Nat.div_lt_iff_lt_mul hden).1 hlt
  have h4 : 4 * u * den = 4 * (u * den) := Nat.mul_assoc _ _ _
  have h2 : 2 * spacing u * den = 2 * (spacing u * den) := Nat.mul_assoc _ _ _
  rw [below_of_ne hne, Nat.sub_mul, h4, h2] at hlo hstrict
  have hspace : spacing (num / den) = spacing u := by
    refine spacing_below hu hne ?_ hlt
    rw [Nat.le_div_iff_mul_le hden, Nat.sub_mul]
    omega
  rw [← hm]
  refine nearest_eq hden hspace ?_ ?_ ?_
  · rw [hm]
    omega
  · rw [hm]
    omega
  · intro hodd
    have hodd := hstrict hodd
    rw [hm]
    omega

/-- So has a quotient that is not below it. -/
theorem nearest_of_has_above (hu : u % spacing u = 0) (hpos : 0 < u) (hden : 0 < den)
    (h : (basin u).has u num den = true) (hge : u ≤ num / den) : nearest num den = u := by
  obtain ⟨-, hhi, hstrict⟩ := bounds_of_has h
  have hm : u / spacing u * spacing u = u := Nat.div_mul_cancel (Nat.dvd_of_mod_eq_zero hu)
  have hnum : u * den ≤ num := (Nat.le_div_iff_mul_le hden).1 hge
  have h4 : (4 * u + 2 * spacing u) * den = 4 * (u * den) + 2 * (spacing u * den) := by ring
  rw [h4] at hhi hstrict
  have hsden : 0 < spacing u * den := Nat.mul_pos (spacing_pos u) hden
  have hspace : spacing (num / den) = spacing u := by
    refine spacing_above hu hpos hge ?_
    rw [Nat.div_lt_iff_lt_mul hden, Nat.add_mul]
    omega
  rw [← hm]
  refine nearest_eq hden hspace ?_ ?_ ?_
  · rw [hm]
    omega
  · rw [hm]
    omega
  · intro hodd
    have hodd := hstrict hodd
    rw [hm]
    omega

/-- **Every quotient in the basin of a magnitude is rounded to that magnitude.** -/
theorem nearest_of_has (hu : u % spacing u = 0) (hpos : 0 < u) (hden : 0 < den)
    (h : (basin u).has u num den = true) : nearest num den = u := by
  rcases Nat.lt_or_ge (num / den) u with hlt | hge
  · by_cases hpow : u = 2 ^ u.log2 ∧ spacing u ≠ 1
    · obtain ⟨k, hk⟩ : ∃ k, u.log2 = 53 + k := by
        have hlog : u.log2 - 52 ≠ 0 := by
          intro hzero
          rw [spacing_eq, hzero] at hpow
          exact hpow.2 rfl
        exact ⟨u.log2 - 53, by omega⟩
      exact nearest_of_has_pow (hk ▸ hpow.1) hden h hlt
    · rw [not_and_or, not_not] at hpow
      exact nearest_of_has_below hu hpow hden h hlt
  · exact nearest_of_has_above hu hpos hden h hge

/-! ## Very large and very small quotients -/

-- The exponents are kept out of sight, since powers with such exponents are computed at once.
theorem exists_one_eq : ∃ k, k = 1074 ∧ one = 2 ^ k := by
  unfold one
  generalize (1074 : Nat) = k
  exact ⟨k, rfl, Nat.pow_eq⟩

theorem exists_limit_eq : ∃ k, k = 2098 ∧ limit = 2 ^ k := by
  unfold limit
  generalize (2098 : Nat) = k
  exact ⟨k, rfl, Nat.pow_eq⟩

/-- Powers of two and of ten compared, with 93 / 28 for the number of binary digits of ten. -/
theorem two_pow_le_ten_pow {k l : Nat} (h : 28 * k ≤ 93 * l) : 2 ^ k ≤ 10 ^ l := by
  refine le_of_pow_le_pow_left₀ (by decide : 28 ≠ 0) (Nat.zero_le _) ?_
  calc (2 ^ k) ^ 28 = 2 ^ (28 * k) := by rw [← pow_mul, Nat.mul_comm]
    _ ≤ 2 ^ (93 * l) := Nat.pow_le_pow_right (by decide) h
    _ = (2 ^ 93) ^ l := pow_mul _ _ _
    _ ≤ (10 ^ 28) ^ l := Nat.pow_le_pow_left (by decide) l
    _ = (10 ^ l) ^ 28 := by rw [← pow_mul, ← pow_mul, Nat.mul_comm]

/-- What is at least a power of two is rounded to no less. -/
theorem two_pow_le_nearest {num den k : Nat} (h : 2 ^ k * den ≤ num) (hden : 0 < den) :
    2 ^ k ≤ nearest num den := by
  have hq : 2 ^ k ≤ num / den := (Nat.le_div_iff_mul_le hden).2 h
  have hq0 : num / den ≠ 0 := ((Nat.two_pow_pos k).trans_le hq).ne'
  have hlog : k ≤ (num / den).log2 := (Nat.le_log2 hq0).2 hq
  have hfloor : num / den / spacing (num / den) ≤
      nearestEven num (den * spacing (num / den)) := by
    rw [Nat.div_div_eq_div_mul]
    exact le_nearestEven _ _
  -- the power of two at or below the quotient is a multiple of the spacing
  have hpow : 2 ^ (num / den).log2 / spacing (num / den) * spacing (num / den) =
      2 ^ (num / den).log2 :=
    Nat.div_mul_cancel (Nat.pow_dvd_pow 2 (by omega))
  calc 2 ^ k ≤ 2 ^ (num / den).log2 := Nat.pow_le_pow_right (by decide) hlog
    _ = 2 ^ (num / den).log2 / spacing (num / den) * spacing (num / den) := hpow.symm
    _ ≤ nearest num den := by
      refine Nat.mul_le_mul_right _ (le_trans ?_ hfloor)
      exact Nat.div_le_div_right (Nat.log2_self_le hq0)

/-- What is at least the limit is rounded to no less. -/
theorem limit_le_nearest {num den : Nat} (h : limit * den ≤ num) (hden : 0 < den) :
    limit ≤ nearest num den := by
  obtain ⟨k, -, hk⟩ := exists_limit_eq
  rw [hk] at h ⊢
  exact two_pow_le_nearest h hden

/-- What is less than half a unit is rounded to zero. -/
theorem nearest_eq_zero {num den : Nat} (h : 2 * num < den) : nearest num den = 0 := by
  have hspace : spacing (num / den) = 1 := by
    rw [Nat.div_eq_of_lt (by omega), spacing_zero]
  have hzero := nearest_eq (m := 0) (by omega : 0 < den) hspace (by omega) (by omega) (by simp)
  rw [hzero, Nat.zero_mul]

end Magnitude

namespace Binary64

open Magnitude

/-- Only the value of a quotient counts. -/
theorem rounded_congr (negative : Bool) {num den num' den' : Nat} (hden : 0 < den)
    (hden' : 0 < den') (h : num * den' = num' * den) :
    rounded negative num den = rounded negative num' den' := by
  simp only [rounded, nearest_congr hden hden' h]

/-- A quotient rounded to the magnitude of a finite double is that double. -/
theorem rounded_eq_finite {x : Finite} {num den : Nat} (h : nearest num den = x.units) :
    rounded x.negative num den = .finite x := by
  have hlt : nearest num den < limit := h ▸ x.representable.1
  rw [rounded, dif_pos hlt]
  congr 1
  cases x
  simp_all

theorem rounded_eq_infinite {num den : Nat} (negative : Bool) (h : limit ≤ nearest num den) :
    rounded negative num den = .infinite negative := by
  rw [rounded, dif_neg (Nat.not_lt.2 h)]

/-- Whole numbers below 2⁵³ are doubles. -/
theorem representable_whole {n : Nat} (h : n < Number.exactLimit) :
    Representable (n * one) := by
  have hexact : Number.exactLimit = 2 ^ 53 := rfl
  obtain ⟨k, hk, hone⟩ := exists_one_eq
  obtain ⟨l, hl, hlimit⟩ := exists_limit_eq
  have hlt : n * one < 2 ^ (53 + k) := by
    rw [hexact] at h
    rw [hone, Nat.pow_add]
    exact Nat.mul_lt_mul_of_pos_right h (Nat.two_pow_pos _)
  constructor
  · rw [hlimit]
    exact hlt.trans_le (Nat.pow_le_pow_right (by decide) (by omega))
  · by_cases hn : n = 0
    · rw [hn, Nat.zero_mul, Nat.zero_mod]
    · have hlog : (n * one).log2 < 53 + k :=
        (Nat.log2_lt (Nat.mul_ne_zero hn Magnitude.one_pos.ne')).2 hlt
      refine Nat.mod_eq_zero_of_dvd (Dvd.dvd.mul_left ?_ n)
      rw [spacing_eq, hone] at *
      exact Nat.pow_dvd_pow 2 (by omega)

/-- A whole number below 2⁵³ is taken as the double that it is. -/
theorem ofInt_eq_finite {n : Int} (h : n.natAbs < Number.exactLimit) :
    ofInt n = .finite ⟨n < 0, n.natAbs * one, representable_whole h⟩ :=
  rounded_units ⟨n < 0, n.natAbs * one, representable_whole h⟩

end Binary64

/-! ## Numerals -/

namespace Decimal

open Magnitude Binary64

theorem lt_pow_width (n : Nat) : n < 10 ^ width n :=
  (Nat.length_toDigits_le_iff (by decide) Nat.length_toDigits_pos).1 le_rfl

/-- **A numeral denotes the double nearest to it**, also where reading takes a shortcut. -/
theorem toBinary64_eq_rounded (negative : Bool) (d : Decimal) :
    d.toBinary64 negative =
      rounded negative (d.digits * 10 ^ d.exponent.toNat * one) (10 ^ (-d.exponent).toNat) := by
  obtain ⟨n, e⟩ := d
  have hden : 0 < 10 ^ (-e).toNat := Nat.pow_pos (by decide)
  have hpow : ∀ k : Nat, Nat.pow 10 k = 10 ^ k := fun _ => rfl
  unfold toBinary64
  simp only [hpow, beq_iff_eq]
  split_ifs with hzero hlarge hsmall hwhole
  · -- zero
    rw [hzero, Nat.zero_mul, Nat.zero_mul]
    exact (rounded_eq_finite (x := .zero negative) (nearest_eq_zero (by omega))).symm
  · -- far too large
    have hneg : (-e).toNat = 0 := by omega
    obtain ⟨k, hk, hone⟩ := exists_one_eq
    obtain ⟨l, hl, hlimit⟩ := exists_limit_eq
    rw [hneg, Nat.pow_zero]
    refine (rounded_eq_infinite negative (limit_le_nearest ?_ (by decide))).symm
    have hten : 2 ^ (l - k) ≤ n * 10 ^ e.toNat :=
      (two_pow_le_ten_pow (by omega)).trans (Nat.le_mul_of_pos_left _ (Nat.pos_of_ne_zero hzero))
    calc limit * 1 = 2 ^ (l - k) * one := by
          rw [hone, hlimit, ← Nat.pow_add, Nat.mul_one, Nat.sub_add_cancel (by omega)]
      _ ≤ n * 10 ^ e.toNat * one := Nat.mul_le_mul_right _ hten
  · -- far too small
    have hpos : e.toNat = 0 := by omega
    obtain ⟨k, hk, hone⟩ := exists_one_eq
    rw [hpos, Nat.pow_zero, Nat.mul_one]
    refine (rounded_eq_finite (x := .zero negative) (nearest_eq_zero ?_)).symm
    calc 2 * (n * one) = n * 2 ^ (k + 1) := by
          rw [hone, Nat.pow_succ]
          ring
      _ < 10 ^ width n * 2 ^ (k + 1) :=
          Nat.mul_lt_mul_of_pos_right (lt_pow_width n) (Nat.two_pow_pos _)
      _ ≤ 10 ^ width n * 10 ^ ((-e).toNat - width n) :=
          Nat.mul_le_mul_left _ (two_pow_le_ten_pow (by omega))
      _ = 10 ^ (-e).toNat := by rw [← Nat.pow_add, Nat.add_sub_of_le (by omega)]
  · -- whole
    have hneg : (-e).toNat = 0 := by omega
    rw [hneg, Nat.pow_zero]
  · -- with places
    have hpos : e.toNat = 0 := by omega
    rw [hpos, Nat.pow_zero, Nat.mul_one]

/-- Zeros put behind the digits of a numeral are made up for by its exponent. -/
theorem toBinary64_scaled (negative : Bool) (n k : Nat) (e : Int) :
    toBinary64 negative ⟨10 ^ k * n, e - k⟩ = toBinary64 negative ⟨n, e⟩ := by
  rw [toBinary64_eq_rounded, toBinary64_eq_rounded]
  refine rounded_congr negative (Nat.pow_pos (by decide)) (Nat.pow_pos (by decide)) ?_
  simp only
  have hexp : k + (e - k).toNat + (-e).toNat = e.toNat + (-(e - k)).toNat := by omega
  calc 10 ^ k * n * 10 ^ (e - k).toNat * one * 10 ^ (-e).toNat
      = n * one * 10 ^ (k + (e - k).toNat + (-e).toNat) := by
        rw [Nat.pow_add, Nat.pow_add]
        ring
    _ = n * one * 10 ^ (e.toNat + (-(e - k)).toNat) := by rw [hexp]
    _ = n * 10 ^ e.toNat * one * 10 ^ (-(e - k)).toNat := by
        rw [Nat.pow_add]
        ring

/-- A whole number below 2⁵³ is read as the double that it is. -/
theorem toBinary64_whole {n : Nat} (h : n < Number.exactLimit) (negative : Bool) :
    toBinary64 negative ⟨n, 0⟩ = .finite ⟨negative, n * one, representable_whole h⟩ := by
  rw [toBinary64_eq_rounded]
  have hone : n * 10 ^ (0 : Int).toNat * one = n * one := by simp
  show rounded negative (n * 10 ^ (0 : Int).toNat * one) 1 = _
  rw [hone]
  exact rounded_units ⟨negative, n * one, representable_whole h⟩

end Decimal

end Reshape
