import Mathlib.Algebra.BigOperators.Group.List.Basic
import WideDecimal.Proofs.Product

namespace WideDecimal.Coefficient

variable {op : Coefficient → Coefficient → Coefficient} {exact : Int → Int → Int}

/-- A fold whose steps wrap is the wrapped exact fold, when the exact operation sees its first
operand modulo `2 ^ 128` only. The total is that of exact steps, which may have left the range. -/
theorem toInt_foldl (hop : ∀ a b, (op a b).toInt = (exact a.toInt b.toInt).bmod (2 ^ 128))
    (hwrap : ∀ m n, (exact (m.bmod (2 ^ 128)) n).bmod (2 ^ 128) = (exact m n).bmod (2 ^ 128))
    (vs : List Coefficient) {start : Coefficient} {total : Int}
    (h : start.toInt = total.bmod (2 ^ 128)) :
    (vs.foldl op start).toInt = ((vs.map toInt).foldl exact total).bmod (2 ^ 128) := by
  induction vs generalizing start total with
  | nil => exact h
  | cons v vs ih =>
    rw [List.foldl_cons, List.map_cons, List.foldl_cons]
    apply ih
    rw [hop, h, hwrap]

theorem toInt_sum (vs : List Coefficient) :
    (sum vs).toInt = (vs.map toInt).sum.bmod (2 ^ 128) := by
  have hwrap (m n : Int) : (m.bmod (2 ^ 128) + n).bmod (2 ^ 128) = (m + n).bmod (2 ^ 128) :=
    Int.bmod_add_bmod
  rw [sum, toInt_foldl toInt_add hwrap vs (by decide : zero.toInt = Int.bmod 0 (2 ^ 128)),
    List.sum_eq_foldl]

theorem toInt_product (vs : List Coefficient) :
    (product vs).toInt = (vs.map toInt).prod.bmod (2 ^ 128) := by
  have hwrap (m n : Int) : (m.bmod (2 ^ 128) * n).bmod (2 ^ 128) = (m * n).bmod (2 ^ 128) :=
    Int.bmod_mul_bmod
  rw [product, toInt_foldl toInt_mul hwrap vs (by decide : one.toInt = Int.bmod 1 (2 ^ 128)),
    List.prod_eq_foldl]

theorem sum_append (vs ws : List Coefficient) : sum (vs ++ ws) = sum vs + sum ws := by
  rw [← toInt_inj, toInt_add, toInt_sum, toInt_sum, toInt_sum, List.map_append, List.sum_append,
    Int.bmod_add_bmod, Int.add_bmod_bmod]

theorem product_append (vs ws : List Coefficient) :
    product (vs ++ ws) = product vs * product ws := by
  rw [← toInt_inj, toInt_mul, toInt_product, toInt_product, toInt_product, List.map_append,
    List.prod_append, Int.bmod_mul_bmod, Int.mul_bmod_bmod]

theorem sum_perm {vs ws : List Coefficient} (h : vs.Perm ws) : sum vs = sum ws := by
  rw [← toInt_inj, toInt_sum, toInt_sum, (h.map toInt).sum_eq]

theorem product_perm {vs ws : List Coefficient} (h : vs.Perm ws) : product vs = product ws := by
  rw [← toInt_inj, toInt_product, toInt_product, (h.map toInt).prod_eq]

/-- Sum and product of a list are the exact ones modulo `2 ^ 128`, whatever wrapped before. They do
not depend on the order of the list, and those of a list in two parts come from the parts. -/
theorem aggregates_exact_modulo (vs ws : List Coefficient) :
    (sum vs).toInt = (vs.map toInt).sum.bmod (2 ^ 128) ∧
      (product vs).toInt = (vs.map toInt).prod.bmod (2 ^ 128) ∧
      (sum []).toInt = 0 ∧ (product []).toInt = 1 ∧
      (vs.Perm ws → sum vs = sum ws ∧ product vs = product ws) ∧
      sum (vs ++ ws) = sum vs + sum ws ∧
      product (vs ++ ws) = product vs * product ws := by
  refine ⟨toInt_sum vs, toInt_product vs, by decide, by decide, ?_, ?_, ?_⟩
  · intro h
    exact ⟨sum_perm h, product_perm h⟩
  · exact sum_append vs ws
  · exact product_append vs ws

/-- The first sum leaves the range on the way and comes back, the second does not. -/
theorem aggregates_exact_modulo_reordered :
    [greatest, one, negOne].Perm [negOne, greatest, one] ∧
      sum [greatest, one, negOne] = sum [negOne, greatest, one] ∧
      product [greatest, one, negOne] = product [negOne, greatest, one] ∧
      (sum [greatest, one, negOne]).toInt = 2 ^ 127 - 1 := by
  obtain ⟨hsum, -, -, -, hperm, -⟩ :=
    aggregates_exact_modulo [greatest, one, negOne] [negOne, greatest, one]
  have hreordered : [greatest, one, negOne].Perm [negOne, greatest, one] := by decide
  obtain ⟨hs, hp⟩ := hperm hreordered
  exact ⟨hreordered, hs, hp, hsum.trans (by decide)⟩

end WideDecimal.Coefficient
