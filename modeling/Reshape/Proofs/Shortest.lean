/-
# The shortest numeral reads back

The search for the shortest numeral ends at a grid that has a point in the basin of the
magnitude (`gridPoint?_searchFrom`).  There is such a grid within reach: a grid whose
points are less than three quarters of the spacing apart has one (`exists_gridPoint`), since
the basin is at least that wide, and twenty-one grids below the topmost the points are that
close (`four_mul_grid_lt`).  So what is written for a finite double is read as that double
(`toBinary64_shortest`).
-/
import Reshape.Proofs.Rounding

namespace Reshape.Decimal

open Magnitude

/-! ## Grid points -/

/-- The distance of the points of the grid of `10^exponent`, times its `scale`. -/
def grid (exponent : Int) : Nat := 10 ^ exponent.toNat * one

/-- The denominator of a grid. -/
def scale (exponent : Int) : Nat := 10 ^ (-exponent).toNat

theorem grid_pos (e : Int) : 0 < grid e := by
  rw [grid]
  exact Nat.mul_pos (Nat.pow_pos (by decide)) Magnitude.one_pos

theorem scale_pos (e : Int) : 0 < scale e := Nat.pow_pos (by decide)

theorem gridPoint?_eq (u : Nat) (e : Int) :
    gridPoint? u e =
      match (basin u).has u (u * scale e / grid e * grid e) (scale e),
        (basin u).has u ((u * scale e / grid e + 1) * grid e) (scale e) with
      | true, true =>
        some (if 2 * (u * scale e % grid e) < grid e then u * scale e / grid e
          else if grid e < 2 * (u * scale e % grid e) then u * scale e / grid e + 1
          else u * scale e / grid e + u * scale e / grid e % 2)
      | true, false => some (u * scale e / grid e)
      | false, true => some (u * scale e / grid e + 1)
      | false, false => none := by
  have hgrid : (if 0 ≤ e then Nat.pow 10 e.toNat * one else one) = grid e := by
    split
    · rfl
    · rename_i he
      rw [grid, Int.toNat_of_nonpos (by omega), Nat.pow_zero, Nat.one_mul]
  have hscale : (if 0 ≤ e then 1 else Nat.pow 10 (-e).toNat) = scale e := by
    split
    · rw [scale, Int.toNat_of_nonpos (by omega), Nat.pow_zero]
    · rfl
  rw [← hgrid, ← hscale]
  rfl

/-- The point of a grid lies in the basin. -/
theorem has_of_gridPoint? {u n : Nat} {e : Int} (h : gridPoint? u e = some n) :
    (basin u).has u (n * grid e) (scale e) = true := by
  rw [gridPoint?_eq] at h
  split at h
  · rename_i hlower hupper
    have hn : n = u * scale e / grid e ∨ n = u * scale e / grid e + 1 := by
      rw [← Option.some.inj h]
      split_ifs <;> omega
    obtain hn | hn := hn
    · rw [hn]
      exact hlower
    · rw [hn]
      exact hupper
  · rename_i hlower _
    rw [← Option.some.inj h]
    exact hlower
  · rename_i _ hupper
    rw [← Option.some.inj h]
    exact hupper
  · exact absurd h.symm (Option.some_ne_none n)

theorem le_below (u : Nat) : spacing u ≤ (basin u).below := by
  show spacing u ≤ if (u == Nat.pow 2 u.log2 && decide (1 < spacing u)) = true
    then spacing u else 2 * spacing u
  split <;> omega

/-- A point strictly inside the interval lies in the basin, whether its ends do or not. -/
theorem has_of_lt {u point scale : Nat} (hlo : (4 * u - (basin u).below) * scale < 4 * point)
    (hhi : 4 * point < (4 * u + (basin u).above) * scale) :
    (basin u).has u point scale = true := by
  unfold Basin.has
  split
  · rw [Bool.and_eq_true, decide_eq_true_iff, decide_eq_true_iff]
    exact ⟨hlo.le, hhi.le⟩
  · rw [Bool.and_eq_true, decide_eq_true_iff, decide_eq_true_iff]
    exact ⟨hlo, hhi⟩

/-- A grid whose points are less than three quarters of the spacing apart has a point. -/
theorem exists_gridPoint {u : Nat} {e : Int} (hu : u % spacing u = 0) (hpos : 0 < u)
    (h : 4 * grid e < 3 * spacing u * scale e) : gridPoint? u e ≠ none := by
  have hsu : spacing u ≤ u := Nat.le_of_dvd hpos (Nat.dvd_of_mod_eq_zero hu)
  have hdiv : grid e * (u * scale e / grid e) + u * scale e % grid e = u * scale e :=
    Nat.div_add_mod _ _
  have hmod : u * scale e % grid e < grid e := Nat.mod_lt _ (grid_pos e)
  have hsucc : (u * scale e / grid e + 1) * grid e =
      grid e * (u * scale e / grid e) + grid e := by ring
  have hlo : (4 * u - (basin u).below) * scale e ≤ 4 * (u * scale e) - spacing u * scale e := by
    calc (4 * u - (basin u).below) * scale e ≤ (4 * u - spacing u) * scale e :=
          Nat.mul_le_mul_right _ (Nat.sub_le_sub_left (le_below u) _)
      _ = 4 * (u * scale e) - spacing u * scale e := by rw [Nat.sub_mul, Nat.mul_assoc]
  have hhi : (4 * u + (basin u).above) * scale e =
      4 * (u * scale e) + 2 * (spacing u * scale e) := by
    show (4 * u + 2 * spacing u) * scale e = _
    ring
  have hscaled : spacing u * scale e ≤ u * scale e := Nat.mul_le_mul_right _ hsu
  rw [Nat.mul_assoc] at h
  rw [gridPoint?_eq]
  -- the two points around the magnitude are too close together to both miss the basin
  rcases Nat.lt_or_ge (4 * (u * scale e % grid e)) (spacing u * scale e) with hnear | hfar
  · have hlower : (basin u).has u (u * scale e / grid e * grid e) (scale e) = true := by
      refine has_of_lt ?_ ?_
      · rw [Nat.mul_comm (u * scale e / grid e)]
        omega
      · rw [hhi, Nat.mul_comm (u * scale e / grid e)]
        omega
    rw [hlower]
    split <;> simp_all
  · have hupper : (basin u).has u ((u * scale e / grid e + 1) * grid e) (scale e) = true := by
      refine has_of_lt ?_ ?_
      · rw [hsucc]
        omega
      · rw [hsucc, hhi]
        omega
    rw [hupper]
    split <;> simp_all

/-! ## The search -/

/-- A search with a grid in reach that has a point ends at a grid point. -/
theorem gridPoint?_searchFrom {u : Nat} {steps i : Nat} {e : Int} (hi : i < steps)
    (h : gridPoint? u (e - i) ≠ none) :
    gridPoint? u (searchFrom u steps e).exponent = some (searchFrom u steps e).digits := by
  induction steps generalizing e i with
  | zero => exact absurd hi (Nat.not_lt_zero i)
  | succ steps ih =>
    rw [searchFrom]
    split
    · rename_i n hn
      exact hn
    · rename_i hnone
      cases i with
      | zero =>
        rw [Int.natCast_zero, Int.sub_zero] at h
        exact absurd hnone h
      | succ i =>
        refine ih (Nat.lt_of_succ_lt_succ hi) ?_
        rwa [show e - 1 - (i : Int) = e - (i + 1 : Nat) by omega]

/-- Powers of ten and of two compared, with 10 / 3 for the number of binary digits of ten. -/
theorem ten_pow_le_two_pow {k l : Nat} (h : 10 * l ≤ 3 * k) : 10 ^ l ≤ 2 ^ k := by
  refine le_of_pow_le_pow_left₀ (by decide : 3 ≠ 0) (Nat.zero_le _) ?_
  calc (10 ^ l) ^ 3 = (10 ^ 3) ^ l := by rw [← pow_mul, ← pow_mul, Nat.mul_comm]
    _ ≤ (2 ^ 10) ^ l := Nat.pow_le_pow_left (by decide) l
    _ = 2 ^ (10 * l) := (pow_mul _ _ _).symm
    _ ≤ 2 ^ (3 * k) := Nat.pow_le_pow_right (by decide) h
    _ = (2 ^ k) ^ 3 := by rw [← pow_mul, Nat.mul_comm]

/-- The topmost grid but twenty-one is fine enough for every double. -/
theorem four_mul_grid_lt {u : Nat} (hu : Representable u) (hpos : 0 < u) :
    4 * grid (topExponent u - 21) < 3 * spacing u * scale (topExponent u - 21) := by
  obtain ⟨k, hk, hone⟩ := exists_one_eq
  obtain ⟨l, hl, hlimit⟩ := exists_limit_eq
  have hlog : u.log2 < l := (Nat.log2_lt hpos.ne').2 (hlimit ▸ hu.1)
  rw [grid, scale, hone, spacing_eq, topExponent]
  generalize he : ((u.log2 : Int) - 1073) * 30103 / 100000 + 1 - 21 = e
  generalize u.log2 = b at *
  -- it is enough to compare the powers, with a factor of two for 4 / 3
  suffices hpow : 2 ^ (k + 1) * 10 ^ e.toNat ≤ 2 ^ (b - 52) * 10 ^ (-e).toNat by
    have hpos : 0 < 2 ^ (b - 52) * 10 ^ (-e).toNat :=
      Nat.mul_pos (Nat.two_pow_pos _) (Nat.pow_pos (by decide))
    rw [Nat.pow_succ] at hpow
    calc 4 * (10 ^ e.toNat * 2 ^ k) = 2 * (2 ^ k * 2 * 10 ^ e.toNat) := by ring
      _ < 3 * (2 ^ (b - 52) * 10 ^ (-e).toNat) := by omega
      _ = 3 * 2 ^ (b - 52) * 10 ^ (-e).toNat := (Nat.mul_assoc _ _ _).symm
  rcases Int.lt_or_le 0 e with hepos | heneg
  · have hneg : (-e).toNat = 0 := by omega
    rw [hneg, Nat.pow_zero, Nat.mul_one]
    calc 2 ^ (k + 1) * 10 ^ e.toNat ≤ 2 ^ (k + 1) * 2 ^ (b - 52 - (k + 1)) :=
          Nat.mul_le_mul_left _ (ten_pow_le_two_pow (by omega))
      _ = 2 ^ (b - 52) := by rw [← Nat.pow_add, Nat.add_sub_of_le (by omega)]
  · have hzero : e.toNat = 0 := by omega
    rw [hzero, Nat.pow_zero, Nat.mul_one]
    calc 2 ^ (k + 1) ≤ 2 ^ (b - 52) * 2 ^ (k + 1 - (b - 52)) := by
          rw [← Nat.pow_add]
          exact Nat.pow_le_pow_right (by decide) (by omega)
      _ ≤ 2 ^ (b - 52) * 10 ^ (-e).toNat :=
          Nat.mul_le_mul_left _ (two_pow_le_ten_pow (by omega))

/-! ## The round trip -/

/-- **The shortest numeral of a finite double is read as that double.** -/
theorem toBinary64_shortest (x : Finite) :
    (shortest x.units).toBinary64 x.negative = .finite x := by
  have hx := x.representable
  by_cases hzero : x.units = 0
  · have hs : shortest x.units = ⟨0, 0⟩ := by rw [shortest, hzero]; rfl
    rw [hs, toBinary64_eq_rounded]
    refine Binary64.rounded_eq_finite ?_
    rw [hzero]
    exact nearest_eq_zero (by simp)
  · have hpos : 0 < x.units := Nat.pos_of_ne_zero hzero
    have hs : shortest x.units = searchFrom x.units 22 (topExponent x.units) := by
      rw [shortest, if_neg (by simpa using hzero)]
    have hpoint : gridPoint? x.units (shortest x.units).exponent =
        some (shortest x.units).digits := by
      rw [hs]
      exact gridPoint?_searchFrom (by decide : 21 < 22)
        (exists_gridPoint hx.2 hpos (four_mul_grid_lt hx hpos))
    rw [toBinary64_eq_rounded, Nat.mul_assoc]
    exact Binary64.rounded_eq_finite
      (nearest_of_has hx.2 hpos (scale_pos _) (has_of_gridPoint? hpoint))

/-- Only zero is written with the digit zero, and then without places. -/
theorem shortest_eq_of_digits {x : Finite} (h : (shortest x.units).digits = 0) :
    x.units = 0 ∧ shortest x.units = ⟨0, 0⟩ := by
  have hx := toBinary64_shortest x
  rw [toBinary64, if_pos (by rw [h]; rfl)] at hx
  have hzero : x.units = 0 := by
    rw [← Binary64.finite.inj hx]
    rfl
  exact ⟨hzero, by rw [shortest, hzero]; rfl⟩

theorem pow_width_le {n : Nat} (h : 0 < n) : 10 ^ (width n - 1) ≤ n := by
  by_cases hone : width n - 1 = 0
  · rw [hone]
    exact h
  · by_contra hlt
    have hle : width n ≤ width n - 1 :=
      (Nat.length_toDigits_le_iff (by decide) (Nat.pos_of_ne_zero hone)).2 (Nat.not_le.1 hlt)
    omega

/-- A numeral that denotes a finite double other than zero starts within 330 places of the
point. -/
theorem exponent_bounds {d : Decimal} {negative : Bool} {x : Finite}
    (h : d.toBinary64 negative = .finite x) (hx : x.units ≠ 0) :
    -330 ≤ d.exponent + width d.digits ∧ d.exponent + width d.digits ≤ 330 := by
  have hdigits : d.digits ≠ 0 := by
    intro hzero
    rw [toBinary64, if_pos (by rw [hzero]; rfl)] at h
    exact hx (by rw [← Binary64.finite.inj h]; rfl)
  constructor
  · by_contra hsmall
    have hwidth : ¬ 310 < d.exponent := by omega
    rw [toBinary64, if_neg (by simpa using hdigits), if_neg hwidth,
      if_pos (Int.not_le.1 hsmall)] at h
    exact hx (by rw [← Binary64.finite.inj h]; rfl)
  · by_contra hlarge
    rw [toBinary64_eq_rounded, Binary64.rounded_eq_infinite] at h
    · exact absurd h (by simp)
    obtain ⟨k, hk, hone⟩ := exists_one_eq
    obtain ⟨l, hl, hlimit⟩ := exists_limit_eq
    have hwidth : 10 ^ (width d.digits - 1) ≤ d.digits :=
      pow_width_le (Nat.pos_of_ne_zero hdigits)
    obtain ⟨m, hm⟩ : ∃ m, m + (-d.exponent).toNat = width d.digits - 1 + d.exponent.toNat :=
      ⟨width d.digits - 1 + d.exponent.toNat - (-d.exponent).toNat, by omega⟩
    refine limit_le_nearest ?_ (Nat.pow_pos (by decide))
    calc limit * 10 ^ (-d.exponent).toNat
        = 2 ^ (l - k) * (one * 10 ^ (-d.exponent).toNat) := by
          rw [hlimit, hone, ← Nat.mul_assoc, ← Nat.pow_add, Nat.sub_add_cancel (by omega)]
      _ ≤ 10 ^ m * (one * 10 ^ (-d.exponent).toNat) :=
          Nat.mul_le_mul_right _ (two_pow_le_ten_pow (by omega))
      _ = 10 ^ (m + (-d.exponent).toNat) * one := by
          rw [Nat.pow_add]
          ring
      _ = 10 ^ (width d.digits - 1) * (10 ^ d.exponent.toNat * one) := by
          rw [hm, Nat.pow_add, Nat.mul_assoc]
      _ ≤ d.digits * (10 ^ d.exponent.toNat * one) := Nat.mul_le_mul_right _ hwidth
      _ = d.digits * 10 ^ d.exponent.toNat * one := (Nat.mul_assoc _ _ _).symm

end Reshape.Decimal
