import FormulaEngine.Special.Quadrature
import Mathlib.Analysis.SpecialFunctions.Integrals.Basic
import Mathlib.Topology.Algebra.Polynomial

/-!
# Simpson's rule is exact on cubics

Over exact numbers the composite rule gives the integral of every polynomial of degree at most three,
whatever the ends are and however many panels are asked for.

- `Special.evenPanels_eq_panelWord`: the number of panels, worked out on a machine word;
- `Special.PairRule`: over two panels the rule gives the difference of a primitive;
- `Special.addInnerPoints_pairs`: so it does over any number of pairs of panels;
- `Special.simpson_eq_sub`: and so does the composite rule, between its ends;
- `Special.cubic_pairRule`: the rule over two panels is right for cubics;
- `Special.integral_cubic`: the difference of the primitive is the integral;
- `Special.simpson_cubic`: the integral, which does not depend on the number of panels.
-/

namespace FormulaEngine.Special

/-! ## Panels -/

/-- The number of panels on a machine word: one more than asked for, with the last bit cleared. -/
def panelWord (n : UInt64) : UInt64 := (max n 2 + 1) &&& ~~~1

theorem toNat_clearBit (word : UInt64) : (word &&& ~~~1).toNat = word.toNat / 2 * 2 := by
  have hshift : word.toBitVec &&& ~~~1#64 = (word.toBitVec >>> 1) <<< 1 := by
    ext i hi
    rw [BitVec.getElem_and, BitVec.getElem_not, BitVec.getElem_one, BitVec.getElem_shiftLeft,
      BitVec.getElem_ushiftRight]
    cases i with
    | zero => simp
    | succ i => simp [Nat.add_comm, BitVec.getLsbD_eq_getElem hi]
  have hword : (word &&& ~~~1).toBitVec = word.toBitVec &&& ~~~1#64 := rfl
  have hlt := word.toNat_lt
  rw [← UInt64.toNat_toBitVec, hword, hshift, BitVec.toNat_shiftLeft, BitVec.toNat_ushiftRight,
    UInt64.toNat_toBitVec, Nat.shiftLeft_eq, Nat.shiftRight_eq_div_pow, Nat.mod_eq_of_lt (by omega)]

theorem toNat_max_two (n : UInt64) : (max n 2).toNat = max n.toNat 2 := by
  show (if n.toNat ≤ 2 then (2 : UInt64) else n).toNat = max n.toNat 2
  rw [apply_ite UInt64.toNat]
  exact (max_def n.toNat 2).symm

/-- Below `2 ^ 63` nothing overflows, and the word is the number of panels. -/
theorem evenPanels_eq_panelWord {n : ℕ} (h : n < 2 ^ 63) :
    evenPanels n = (panelWord (UInt64.ofNat n)).toNat := by
  have hn : (UInt64.ofNat n).toNat = n := UInt64.toNat_ofNat_of_lt (Nat.lt_trans h (by decide))
  have hone : (1 : UInt64).toNat = 1 := rfl
  rw [panelWord, toNat_clearBit, UInt64.toNat_add, toNat_max_two, hn, hone,
    Nat.mod_eq_of_lt (by omega), evenPanels]

/-! ## The composite rule -/

section Composite

variable {f F : ℚ → ℚ} {a step : ℚ}

/-- Over two panels the rule gives the difference of `F`. -/
def PairRule (f F : ℚ → ℚ) : Prop :=
  ∀ x step : ℚ, (f x + 4 * f (x + step) + f (x + 2 * step)) * step / 3 = F (x + 2 * step) - F x

/-- The `i`-th of the points that divide an interval from `a` on into panels. -/
def point (a step : ℚ) (i : ℕ) : ℚ := a + step * i

theorem PairRule.at_point (h : PairRule f F) (a step : ℚ) (i : ℕ) :
    (f (point a step i) + 4 * f (point a step (i + 1)) + f (point a step (i + 2))) * step / 3 =
      F (point a step (i + 2)) - F (point a step i) := by
  have hnext : point a step (i + 1) = point a step i + step := by
    simp only [point]
    push_cast
    ring
  have hlast : point a step (i + 2) = point a step i + 2 * step := by
    simp only [point]
    push_cast
    ring
  rw [hnext, hlast]
  exact h _ _

theorem addInnerPoints_odd {i : ℕ} (hi : i % 2 = 1) (count : ℕ) (sum : ℚ) :
    addInnerPoints Nat.cast f a step (count + 1) i sum =
      addInnerPoints Nat.cast f a step count (i + 1) (sum + 4 * f (point a step i)) := by
  rw [addInnerPoints, if_pos hi]
  rfl

theorem addInnerPoints_even {i : ℕ} (hi : i % 2 = 0) (count : ℕ) (sum : ℚ) :
    addInnerPoints Nat.cast f a step (count + 1) i sum =
      addInnerPoints Nat.cast f a step count (i + 1) (sum + 2 * f (point a step i)) := by
  rw [addInnerPoints, if_neg (by omega)]
  rfl

/-- The inner points of some pairs of panels, the first of which starts at an even point. What they
add, with the values at both ends, gives the difference of `F`. Each round of the induction takes one
pair off the front; the point behind it has weight two, one for each pair that it is an end of. -/
theorem addInnerPoints_pairs (h : PairRule f F) (a step : ℚ) (pairs : ℕ) {i : ℕ} (hi : i % 2 = 0)
    (sum : ℚ) :
    (addInnerPoints Nat.cast f a step (2 * pairs + 1) (i + 1) sum - sum + f (point a step i) +
        f (point a step (i + 2 * pairs + 2))) * step / 3 =
      F (point a step (i + 2 * pairs + 2)) - F (point a step i) := by
  induction pairs generalizing i sum with
  | zero =>
    rw [addInnerPoints_odd (by omega), addInnerPoints, ← h.at_point]
    ring
  | succ pairs ih =>
    have hpair := h.at_point a step i
    have hrest := ih (i := i + 2) (by omega)
      (sum + 4 * f (point a step (i + 1)) + 2 * f (point a step (i + 2)))
    have hcount : 2 * (pairs + 1) + 1 = 2 * pairs + 1 + 1 + 1 := by omega
    have hlast : i + 2 + 2 * pairs + 2 = i + 2 * (pairs + 1) + 2 := by omega
    rw [hlast] at hrest
    rw [hcount, addInnerPoints_odd (by omega), addInnerPoints_even (by omega)]
    linear_combination hrest + hpair

/-- The composite rule gives the difference of `F` between its ends, whatever they are and however
many panels are asked for. -/
theorem simpson_eq_sub (h : PairRule f F) (a b : ℚ) (n : ℕ) :
    simpson Nat.cast f a b n = F b - F a := by
  obtain ⟨pairs, hpanels⟩ : ∃ pairs, evenPanels n = 2 * pairs + 2 :=
    ⟨(max n 2 + 1) / 2 - 1, by rw [evenPanels]; omega⟩
  have hinner : evenPanels n - 1 = 2 * pairs + 1 := by omega
  have hfirst : point a ((b - a) / evenPanels n) 0 = a := by simp [point]
  have hlast : point a ((b - a) / evenPanels n) (0 + 2 * pairs + 2) = b := by
    have hpos : (evenPanels n : ℚ) ≠ 0 := by
      rw [hpanels]
      positivity
    rw [point, Nat.zero_add, ← hpanels, div_mul_cancel₀ _ hpos]
    ring
  have hsum := addInnerPoints_pairs h a ((b - a) / evenPanels n) pairs (i := 0) rfl (f a + f b)
  rw [hfirst, hlast] at hsum
  rw [← hsum, simpson, hinner]
  ring

end Composite

/-! ## Cubics -/

/-- A primitive of the cubic with the coefficients `c`. -/
def cubicPrimitive {K : Type} [Field K] (c : ℕ → K) (x : K) : K :=
  c 0 * x + c 1 / 2 * x ^ 2 + c 2 / 3 * x ^ 3 + c 3 / 4 * x ^ 4

theorem hasDerivAt_cubicPrimitive (c : ℕ → ℝ) (x : ℝ) :
    HasDerivAt (cubicPrimitive c) (c 0 + c 1 * x + c 2 * x ^ 2 + c 3 * x ^ 3) x := by
  have hconstant := (hasDerivAt_id x).const_mul (c 0)
  have hlinear := (hasDerivAt_pow 2 x).const_mul (c 1 / 2)
  have hsquare := (hasDerivAt_pow 3 x).const_mul (c 2 / 3)
  have hcube := (hasDerivAt_pow 4 x).const_mul (c 3 / 4)
  refine (((hconstant.add hlinear).add hsquare).add hcube).congr_deriv ?_
  push_cast
  ring

section Cubic

open Polynomial

theorem eval_cubic {K : Type} [Field K] {p : K[X]} (hp : p.natDegree ≤ 3) (x : K) :
    p.eval x = p.coeff 0 + p.coeff 1 * x + p.coeff 2 * x ^ 2 + p.coeff 3 * x ^ 3 := by
  rw [eval_eq_sum_range' (Nat.lt_succ_of_le hp)]
  simp [Finset.sum_range_succ]

variable {p : ℚ[X]} (hp : p.natDegree ≤ 3)

include hp

theorem cubic_pairRule : PairRule p.eval (cubicPrimitive p.coeff) := by
  intro x step
  simp only [eval_cubic hp, cubicPrimitive]
  ring

/-- The fundamental theorem of calculus, for the cubic read over the reals. -/
theorem integral_cubic (a b : ℚ) : ∫ x in (a : ℝ)..b, (p.map (algebraMap ℚ ℝ)).eval x =
    ((cubicPrimitive p.coeff b - cubicPrimitive p.coeff a : ℚ) : ℝ) := by
  have hdegree : (p.map (algebraMap ℚ ℝ)).natDegree ≤ 3 := natDegree_map_le.trans hp
  have hderiv : ∀ x : ℝ, HasDerivAt (cubicPrimitive (p.map (algebraMap ℚ ℝ)).coeff)
      ((p.map (algebraMap ℚ ℝ)).eval x) x := by
    intro x
    rw [eval_cubic hdegree]
    exact hasDerivAt_cubicPrimitive _ x
  rw [intervalIntegral.integral_eq_sub_of_hasDerivAt (fun x _ => hderiv x)
    ((p.map (algebraMap ℚ ℝ)).continuous.intervalIntegrable _ _)]
  simp only [cubicPrimitive, coeff_map, eq_ratCast]
  push_cast
  rfl

/-- Over exact numbers the composite rule gives the integral of every polynomial of degree at most
three. So the number of panels makes no difference, and exchanging the ends changes the sign. -/
theorem simpson_cubic (a b : ℚ) (n : ℕ) :
    (n < 2 ^ 63 → evenPanels n = (panelWord (UInt64.ofNat n)).toNat) ∧
      ((simpson Nat.cast p.eval a b n : ℚ) : ℝ) =
        ∫ x in (a : ℝ)..b, (p.map (algebraMap ℚ ℝ)).eval x ∧
      (∀ m, simpson Nat.cast p.eval a b m = simpson Nat.cast p.eval a b n) ∧
      simpson Nat.cast p.eval b a n = -simpson Nat.cast p.eval a b n := by
  have hexact := simpson_eq_sub (cubic_pairRule hp)
  refine ⟨evenPanels_eq_panelWord, ?integral, fun m => ?panels, ?ends⟩
  case integral => rw [hexact, integral_cubic hp]
  case panels => rw [hexact, hexact]
  case ends => rw [hexact, hexact, neg_sub]

omit hp in
theorem simpson_cubic_backwards :
    (X ^ 3 - C 2 * X : ℚ[X]).natDegree ≤ 3 ∧
      simpson Nat.cast (X ^ 3 - C 2 * X : ℚ[X]).eval 2 (-1) 5 = -3 / 4 ∧
      ((-3 / 4 : ℚ) : ℝ) = ∫ x in ((2 : ℚ) : ℝ)..((-1 : ℚ) : ℝ),
        ((X ^ 3 - C 2 * X : ℚ[X]).map (algebraMap ℚ ℝ)).eval x := by
  have hdegree : (X ^ 3 - C 2 * X : ℚ[X]).natDegree ≤ 3 := by compute_degree
  obtain ⟨-, hintegral, hpanels, -⟩ := simpson_cubic hdegree 2 (-1) 5
  have hvalue : simpson Nat.cast (X ^ 3 - C 2 * X : ℚ[X]).eval 2 (-1) 5 = -3 / 4 := by
    rw [← hpanels 0]
    norm_num [simpson, evenPanels, addInnerPoints]
  exact ⟨hdegree, hvalue, hvalue ▸ hintegral⟩

end Cubic

end FormulaEngine.Special
