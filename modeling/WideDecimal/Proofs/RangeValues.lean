import Mathlib.Data.Int.Interval
import WideDecimal.Proofs.Rejection

namespace WideDecimal.Sampling

section

variable (low high : Coefficient) (inclusive : Bool)

/-- The values of a range, in the order of coefficients. -/
def values : Set Coefficient := {v | low ≤ v ∧ if inclusive then v ≤ high else v < high}

/-- The integer behind the last value of a range. -/
def stop : Int := high.toInt + if inclusive then 1 else 0

end

variable {low high : Coefficient} {inclusive : Bool}

theorem mem_values_iff {v : Coefficient} :
    v ∈ values low high inclusive ↔ low.toInt ≤ v.toInt ∧ v.toInt < stop high inclusive := by
  change (low ≤ v ∧ if inclusive then v ≤ high else v < high) ↔ _
  unfold stop
  rw [Coefficient.le_iff, Coefficient.le_iff, Coefficient.lt_iff]
  split <;> omega

theorem stop_le : stop high inclusive ≤ 2 ^ 127 := by
  have := high.toInt_bounds
  unfold stop
  split <;> omega

theorem image_toInt_values :
    Coefficient.toInt '' values low high inclusive =
      {n | low.toInt ≤ n ∧ n < stop high inclusive} := by
  have hlow := low.toInt_bounds
  have hstop : stop high inclusive ≤ 2 ^ 127 := stop_le
  apply Set.Subset.antisymm
  · rintro _ ⟨v, hv, rfl⟩
    exact mem_values_iff.mp hv
  · rintro n ⟨hge, hlt⟩
    have hvalue := Coefficient.toInt_ofInt_of_bounds (n := n) (by omega) (by omega)
    exact ⟨.ofInt n, mem_values_iff.mpr (by rw [hvalue]; exact ⟨hge, hlt⟩), hvalue⟩

theorem ncard_values :
    (values low high inclusive).ncard = (stop high inclusive - low.toInt).toNat := by
  have hinj : Function.Injective Coefficient.toInt := fun _ _ h => Coefficient.toInt_inj.mp h
  have hinterval : {n | low.toInt ≤ n ∧ n < stop high inclusive} =
      ↑(Finset.Ico low.toInt (stop high inclusive)) := (Finset.coe_Ico _ _).symm
  rw [← Set.ncard_image_of_injective _ hinj, image_toInt_values, hinterval,
    Set.ncard_coe_finset, Int.card_Ico]

theorem values_nonempty_iff :
    (values low high inclusive).Nonempty ↔ low.toInt < stop high inclusive := by
  constructor
  · rintro ⟨v, hv⟩
    have := mem_values_iff.mp hv
    omega
  · intro h
    exact ⟨low, mem_values_iff.mpr ⟨Int.le_refl _, h⟩⟩

theorem nonempty_iff : nonempty low high inclusive ↔ (values low high inclusive).Nonempty := by
  rw [values_nonempty_iff]
  unfold nonempty stop
  split <;> rw [decide_eq_true_iff]
  · rw [Coefficient.le_iff]
    omega
  · rw [Coefficient.lt_iff]
    omega

theorem bounds_iff :
    (if inclusive then low.toInt ≤ high.toInt else low.toInt < high.toInt) ↔
      (values low high inclusive).Nonempty := by
  rw [values_nonempty_iff]
  unfold stop
  split <;> omega

variable (low high inclusive) in
theorem cast_size_between :
    ((Range.between low.toInt high.toInt inclusive).size : Int) =
      (stop high inclusive - low.toInt) % 2 ^ 128 := by
  have hnonneg := Int.emod_nonneg (high.toInt - low.toInt + if inclusive then 1 else 0)
    (by decide : (modulus : Int) ≠ 0)
  rw [Range.between, Int.toNat_of_nonneg hnonneg, stop]
  congr 1
  omega

theorem size_between (hne : (values low high inclusive).Nonempty)
    (hpart : (values low high inclusive).ncard < 2 ^ 128) :
    (Range.between low.toInt high.toInt inclusive).size = (values low high inclusive).ncard := by
  have hsize := cast_size_between low high inclusive
  rw [values_nonempty_iff] at hne
  rw [ncard_values] at hpart ⊢
  omega

theorem proper_between (hne : (values low high inclusive).Nonempty)
    (hpart : (values low high inclusive).ncard < 2 ^ 128) :
    (Range.between low.toInt high.toInt inclusive).Proper := by
  have hlow := low.toInt_bounds
  have hstop : stop high inclusive ≤ 2 ^ 127 := stop_le
  have hsize := size_between hne hpart
  rw [values_nonempty_iff] at hne
  rw [ncard_values] at hsize
  refine ⟨by omega, hlow.1, ?_⟩
  change low.toInt + _ ≤ _
  omega

theorem values_eq_univ (h : ¬(values low high inclusive).ncard < 2 ^ 128) :
    values low high inclusive = Set.univ := by
  have hlow := low.toInt_bounds
  have hstop : stop high inclusive ≤ 2 ^ 127 := stop_le
  rw [ncard_values] at h
  apply Set.eq_univ_of_forall
  intro v
  have hv := v.toInt_bounds
  rw [mem_values_iff]
  omega

theorem mem_values_iff_of_size {v : Coefficient} (hne : (values low high inclusive).Nonempty)
    (hpart : (values low high inclusive).ncard < 2 ^ 128) :
    v ∈ values low high inclusive ↔ low.toInt ≤ v.toInt ∧
      v.toInt < low.toInt + (Range.between low.toInt high.toInt inclusive).size := by
  have hsize := size_between hne hpart
  rw [values_nonempty_iff] at hne
  rw [ncard_values] at hsize
  rw [mem_values_iff, hsize]
  omega

theorem count_pick_between (hpart : (values low high inclusive).ncard < 2 ^ 128)
    {v : Coefficient} (hv : v ∈ values low high inclusive) :
    Nat.count (fun n => (Range.between low.toInt high.toInt inclusive).pick n = some v.toInt)
      (2 ^ 128) = 2 ^ 128 / (values low high inclusive).ncard := by
  have hne : (values low high inclusive).Nonempty := ⟨v, hv⟩
  obtain ⟨hlow, hhigh⟩ := (mem_values_iff_of_size hne hpart).mp hv
  rw [← size_between hne hpart]
  exact (proper_between hne hpart).count_pick hlow hhigh

theorem mem_values_of_pick (hne : (values low high inclusive).Nonempty) {n : Nat}
    (hn : n < modulus) {m : Int}
    (hm : (Range.between low.toInt high.toInt inclusive).pick n = some m) :
    .ofInt m ∈ values low high inclusive := by
  by_cases hpart : (values low high inclusive).ncard < 2 ^ 128
  · have hproper := proper_between hne hpart
    have hbounds := hproper.bounds_of_pick hn hm
    rw [mem_values_iff_of_size hne hpart, Coefficient.toInt_ofInt_of_bounds
      (Int.le_trans hproper.lower hbounds.1) (Int.lt_of_lt_of_le hbounds.2 hproper.upper)]
    exact hbounds
  · rw [values_eq_univ hpart]
    exact Set.mem_univ _

end WideDecimal.Sampling
