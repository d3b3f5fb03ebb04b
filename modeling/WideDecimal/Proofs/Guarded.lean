import Mathlib.Data.Part
import WideDecimal.Guarded

namespace WideDecimal

namespace Word

theorem toNat_low (w : UInt64) : (w &&& 0xFFFFFFFF).toNat = w.toNat % 2 ^ 32 := by
  rw [UInt64.toNat_and]
  exact Nat.and_two_pow_sub_one_eq_mod w.toNat 32

theorem toNat_high (w : UInt64) : (w >>> 32).toNat = w.toNat / 2 ^ 32 := by
  rw [UInt64.toNat_shiftRight]
  exact Nat.shiftRight_eq_div_pow w.toNat 32

theorem toNat_raised (w : UInt64) : (w <<< 32).toNat = w.toNat % 2 ^ 32 * 2 ^ 32 := by
  have h : w.toNat <<< ((32 : UInt64).toNat % 64) = w.toNat * 2 ^ 32 := Nat.shiftLeft_eq _ _
  rw [UInt64.toNat_shiftLeft, h]
  omega

theorem toNat_or_raised {a w : UInt64} (h : a.toNat < 2 ^ 32) :
    (a ||| w <<< 32).toNat = a.toNat + w.toNat % 2 ^ 32 * 2 ^ 32 := by
  rw [UInt64.toNat_or, toNat_raised, Nat.or_comm, ← Nat.shiftLeft_eq,
    ← Nat.shiftLeft_add_eq_or_of_lt h, Nat.shiftLeft_eq, Nat.add_comm]

end Word

namespace Guarded

variable {α β : Type}

/-- Every step stays in bounds, and the value has the property `p`. -/
def Holds (x : Guarded α) (p : α → Prop) : Prop := x.intact ∧ p x.value

theorem Holds.intact {x : Guarded α} {p : α → Prop} (h : x.Holds p) : x.intact := h.1

theorem Holds.value {x : Guarded α} {p : α → Prop} (h : x.Holds p) : p x.value := h.2

theorem Holds.imp {x : Guarded α} {p q : α → Prop} (h : x.Holds p) (hq : ∀ a, p a → q a) :
    x.Holds q :=
  ⟨h.1, hq _ h.2⟩

theorem Holds.pure {a : α} {p : α → Prop} (h : p a) : Holds (Pure.pure a) p := ⟨trivial, h⟩

theorem Holds.bind {x : Guarded α} {f : α → Guarded β} {p : α → Prop} {q : β → Prop}
    (hx : x.Holds p) (hf : ∀ a, p a → (f a).Holds q) : Holds (x >>= f) q :=
  ⟨⟨hx.1, (hf _ hx.2).1⟩, (hf _ hx.2).2⟩

/-- The computation where every step checks its bounds first, and outside of them there is no
result. -/
def checked (x : Guarded α) : Part α := ⟨x.intact, fun _ => x.value⟩

@[simp] theorem checked_pure (a : α) : (Pure.pure a : Guarded α).checked = Part.some a := rfl

@[simp] theorem checked_bind (x : Guarded α) (f : α → Guarded β) :
    (x >>= f).checked = x.checked.bind fun a => (f a).checked := by
  apply Part.ext'
  · exact ⟨fun h => ⟨h.1, h.2⟩, fun ⟨hx, hf⟩ => ⟨hx, hf⟩⟩
  · intro _ _
    rfl

theorem Holds.checked {x : Guarded α} {p : α → Prop} (h : x.Holds p) :
    x.checked = Part.some x.value := by
  apply Part.ext'
  · exact ⟨fun _ => trivial, fun _ => h.intact⟩
  · intro _ _
    rfl

theorem Holds.checked_eq {x : Guarded α} {a : α} (h : x.Holds (· = a)) :
    x.checked = Part.some a := by
  rw [h.checked, h.value]

theorem holds_require {p : Prop} (h : p) : (require p).Holds fun _ => p := ⟨h, h⟩

theorem holds_add {a b : UInt64} (h : a.toNat + b.toNat < 2 ^ 64) :
    (add a b).Holds fun c => c.toNat = a.toNat + b.toNat := by
  refine ⟨h, ?_⟩
  change (a + b).toNat = _
  rw [UInt64.toNat_add, Nat.mod_eq_of_lt h]

theorem holds_sub {a b : UInt64} (h : b.toNat ≤ a.toNat) :
    (sub a b).Holds fun c => c.toNat = a.toNat - b.toNat :=
  ⟨h, UInt64.toNat_sub_of_le a b (UInt64.le_iff_toNat_le.mpr h)⟩

theorem holds_mul {a b : UInt64} (h : a.toNat * b.toNat < 2 ^ 64) :
    (mul a b).Holds fun c => c.toNat = a.toNat * b.toNat := by
  refine ⟨h, ?_⟩
  change (a * b).toNat = _
  rw [UInt64.toNat_mul, Nat.mod_eq_of_lt h]

theorem holds_div {a b : UInt64} (h : 0 < b.toNat) :
    (div a b).Holds fun c => c.toNat = a.toNat / b.toNat := by
  refine ⟨?_, UInt64.toNat_div a b⟩
  rintro rfl
  exact absurd h (by decide)

theorem holds_mod {a b : UInt64} (h : 0 < b.toNat) :
    (mod a b).Holds fun c => c.toNat = a.toNat % b.toNat := by
  refine ⟨?_, UInt64.toNat_mod a b⟩
  rintro rfl
  exact absurd h (by decide)

theorem holds_raise {a : UInt64} (h : a.toNat < 2 ^ 32) :
    (raise a).Holds fun c => c.toNat = a.toNat * 2 ^ 32 := by
  refine ⟨h, ?_⟩
  change (a <<< 32).toNat = _
  rw [Word.toNat_raised, Nat.mod_eq_of_lt h]

theorem holds_narrow {a : UInt64} (h : a.toNat < 2 ^ 32) :
    (narrow a).Holds fun c => c.toNat = a.toNat := by
  refine ⟨h, ?_⟩
  change a.toUInt32.toNat = _
  rw [UInt64.toNat_toUInt32, Nat.mod_eq_of_lt h]

theorem holds_signedWord {n : Int} (hl : -2 ^ 63 ≤ n) (hu : n < 2 ^ 63) :
    (signedWord n).Holds fun w => w.toInt = n :=
  ⟨⟨hl, hu⟩, Int64.toInt_ofInt_of_le hl hu⟩

end Guarded

end WideDecimal
