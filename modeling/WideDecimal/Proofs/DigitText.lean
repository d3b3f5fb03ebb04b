namespace WideDecimal.DigitText

theorem isDigit_iff (c : Char) : c.isDigit = true ↔ 48 ≤ c.toNat ∧ c.toNat ≤ 57 := by
  simp only [Char.isDigit, Bool.and_eq_true, decide_eq_true_eq, UInt32.le_iff_toNat_le]
  exact Iff.rfl

theorem digitChar_sub {c : Char} (h : c.isDigit) : Nat.digitChar (c.toNat - '0'.toNat) = c := by
  have hrange := (isDigit_iff c).mp h
  have hzero : '0'.toNat = 48 := rfl
  apply Char.toNat_inj.mp
  rw [hzero, Nat.toNat_digitChar_of_lt_ten (by omega)]
  omega

theorem sub_lt_ten {c : Char} (h : c.isDigit) : c.toNat - '0'.toNat < 10 := by
  have hrange := (isDigit_iff c).mp h
  have hzero : '0'.toNat = 48 := rfl
  omega

theorem toDigits_ofDigitChars_of_pos {digits : List Char} (h : ∀ c ∈ digits, c.isDigit)
    {n : Nat} (hn : 0 < n) :
    Nat.toDigits 10 (Nat.ofDigitChars 10 digits n) = Nat.toDigits 10 n ++ digits := by
  induction digits generalizing n with
  | nil => simp
  | cons c digits ih =>
    have hc : c.isDigit := h c (by simp)
    have hlt := sub_lt_ten hc
    have happend := Nat.toDigits_append_toDigits (b := 10) (by decide) hn hlt
    rw [Nat.toDigits_of_lt_base hlt, digitChar_sub hc] at happend
    rw [Nat.ofDigitChars_cons, ih (fun d hd => h d (by simp [hd])) (by omega), ← happend,
      List.append_assoc, List.singleton_append]

theorem ofDigitChars_lt {digits : List Char} (h : ∀ c ∈ digits, c.isDigit) :
    Nat.ofDigitChars 10 digits 0 < 10 ^ digits.length := by
  induction digits with
  | nil => simp
  | cons c digits ih =>
    have hlt := sub_lt_ten (h c (by simp))
    have hrest := ih fun d hd => h d (by simp [hd])
    have hmul : 10 ^ digits.length * (c.toNat - '0'.toNat) ≤ 10 ^ digits.length * 9 :=
      Nat.mul_le_mul_left _ (by omega)
    rw [Nat.ofDigitChars_cons, Nat.mul_zero, Nat.zero_add, Nat.ofDigitChars_eq_ofDigitChars_zero,
      List.length_cons, Nat.pow_succ]
    omega

theorem le_ofDigitChars_init (digits : List Char) (n : Nat) : n ≤ Nat.ofDigitChars 10 digits n := by
  rw [Nat.ofDigitChars_eq_ofDigitChars_zero]
  exact Nat.le_add_right_of_le (Nat.le_mul_of_pos_left _ (Nat.pow_pos (by decide)))

theorem isDigit_of_mem_toDigits {n : Nat} {c : Char} (h : c ∈ Nat.toDigits 10 n) : c.isDigit :=
  Nat.isDigit_of_mem_toDigits (by decide) (by decide) h

theorem toDigits_head_ne_zero {n : Nat} (hn : 0 < n) {c : Char} {digits : List Char}
    (h : Nat.toDigits 10 n = c :: digits) : c ≠ '0' := by
  rintro rfl
  have hvalue := Nat.ofDigitChars_ten_toDigits (n := n)
  have hlt : n < 10 ^ digits.length := by
    rw [← hvalue, h, Nat.ofDigitChars_cons]
    exact ofDigitChars_lt fun c hc => isDigit_of_mem_toDigits (n := n) (by simp [h, hc])
  have hpos : 0 < digits.length := by
    rcases Nat.eq_zero_or_pos digits.length with hzero | hpos
    · rw [hzero] at hlt
      omega
    · exact hpos
  have hle := (Nat.length_toDigits_le_iff (b := 10) (by decide) hpos).mpr hlt
  rw [h, List.length_cons] at hle
  omega

theorem toDigits_eq_zero {n : Nat} {digits : List Char}
    (h : Nat.toDigits 10 n = '0' :: digits) : digits = [] := by
  rcases Nat.eq_zero_or_pos n with rfl | hpos
  · exact (List.cons.inj h).2.symm
  · exact absurd rfl (toDigits_head_ne_zero hpos h)

theorem toDigits_ofDigitChars_of_head {c : Char} {digits : List Char}
    (h : ∀ d ∈ c :: digits, d.isDigit) (hc : c ≠ '0') :
    Nat.toDigits 10 (Nat.ofDigitChars 10 (c :: digits) 0) = c :: digits := by
  have hdigit := h c List.mem_cons_self
  have hpos : 0 < c.toNat - '0'.toNat := by
    have hrange := (isDigit_iff c).mp hdigit
    have hne : c.toNat ≠ '0'.toNat := fun heq => hc (Char.toNat_inj.mp heq)
    have hzero : '0'.toNat = 48 := rfl
    omega
  rw [Nat.ofDigitChars_cons, Nat.mul_zero, Nat.zero_add,
    toDigits_ofDigitChars_of_pos (fun d hd => h d (List.mem_cons_of_mem c hd)) hpos,
    Nat.toDigits_of_lt_base (sub_lt_ten hdigit), digitChar_sub hdigit, List.singleton_append]

theorem eq_leftpad_toDigits {digits : List Char} (h : ∀ c ∈ digits, c.isDigit)
    (hne : digits ≠ []) :
    digits = (Nat.toDigits 10 (Nat.ofDigitChars 10 digits 0)).leftpad digits.length '0' := by
  induction digits with
  | nil => exact absurd rfl hne
  | cons c digits ih =>
    by_cases hc : c = '0'
    · subst hc
      by_cases hnil : digits = []
      · subst hnil
        rfl
      · have hrest := ih (fun d hd => h d (List.mem_cons_of_mem _ hd)) hnil
        have hlength := congrArg List.length hrest
        rw [List.length_leftpad] at hlength
        change _ = List.leftpad _ _ (Nat.toDigits 10 (Nat.ofDigitChars 10 digits 0))
        rw [List.leftpad, List.length_cons, Nat.succ_sub (by omega), List.replicate_succ,
          List.cons_append]
        exact congrArg _ hrest
    · rw [toDigits_ofDigitChars_of_head h hc, List.leftpad, Nat.sub_self]
      rfl

theorem ofDigitChars_leftpad (k : Nat) (digits : List Char) (n : Nat) :
    Nat.ofDigitChars 10 (digits.leftpad k '0') n =
      Nat.ofDigitChars 10 digits (10 ^ (k - digits.length) * n) := by
  rw [List.leftpad, Nat.ofDigitChars_append, Nat.ofDigitChars_replicate_zero]

theorem ofDigitChars_zeros {zeros : List Char} (h : ∀ c ∈ zeros, c = '0') (digits : List Char) :
    Nat.ofDigitChars 10 (zeros ++ digits) 0 = Nat.ofDigitChars 10 digits 0 := by
  rw [List.eq_replicate_of_mem h, Nat.ofDigitChars_append, Nat.ofDigitChars_replicate_zero,
    Nat.mul_zero]

theorem isDigit_of_mem_zeros {k : Nat} {c : Char} (h : c ∈ List.replicate k '0') : c.isDigit := by
  rw [List.eq_of_mem_replicate h]
  rfl

theorem isDigit_of_mem_leftpad {k : Nat} {digits : List Char} (h : ∀ c ∈ digits, c.isDigit)
    {c : Char} (hc : c ∈ digits.leftpad k '0') : c.isDigit := by
  rw [List.leftpad, List.mem_append] at hc
  rcases hc with hc | hc
  · exact isDigit_of_mem_zeros hc
  · exact h c hc

theorem toDigits_mul_pow_add {q r k : Nat} (hq : 0 < q) (hk : 0 < k) (hr : r < 10 ^ k) :
    Nat.toDigits 10 (q * 10 ^ k + r) =
      Nat.toDigits 10 q ++ (Nat.toDigits 10 r).leftpad k '0' := by
  have hlength := (Nat.length_toDigits_le_iff (b := 10) (by decide) hk).mpr hr
  rw [← toDigits_ofDigitChars_of_pos
    (fun c hc => isDigit_of_mem_leftpad (fun _ hd => isDigit_of_mem_toDigits hd) hc) hq,
    ofDigitChars_leftpad, Nat.ofDigitChars_eq_ofDigitChars_zero, Nat.ofDigitChars_ten_toDigits,
    ← Nat.mul_assoc, ← Nat.pow_add, Nat.add_sub_cancel' hlength, Nat.mul_comm]

theorem toDigits_mul_pow {n : Nat} (hn : 0 < n) (k : Nat) :
    Nat.toDigits 10 (n * 10 ^ k) = Nat.toDigits 10 n ++ List.replicate k '0' := by
  rw [← toDigits_ofDigitChars_of_pos (fun _ => isDigit_of_mem_zeros) hn,
    Nat.ofDigitChars_replicate_zero, Nat.mul_comm]

theorem ofDigitChars_eq_zero_iff {digits : List Char} (h : ∀ c ∈ digits, c.isDigit) :
    Nat.ofDigitChars 10 digits 0 = 0 ↔ ∀ c ∈ digits, c = '0' := by
  constructor
  · intro hzero
    by_cases hnil : digits = []
    · simp [hnil]
    · have hpad := eq_leftpad_toDigits h hnil
      rw [hzero] at hpad
      intro c hc
      rw [hpad, List.leftpad, List.mem_append] at hc
      rcases hc with hc | hc
      · exact List.eq_of_mem_replicate hc
      · simpa using hc
  · intro hzeros
    have hvalue := ofDigitChars_zeros hzeros []
    simpa using hvalue

theorem pow_dvd_ofDigitChars_iff (front : List Char) {back : List Char}
    (h : ∀ c ∈ back, c.isDigit) :
    10 ^ back.length ∣ Nat.ofDigitChars 10 (front ++ back) 0 ↔ ∀ c ∈ back, c = '0' := by
  have hlt := ofDigitChars_lt h
  rw [Nat.ofDigitChars_append, Nat.ofDigitChars_eq_ofDigitChars_zero,
    Nat.dvd_add_right (Nat.dvd_mul_right _ _), ← ofDigitChars_eq_zero_iff h]
  constructor
  · intro hdvd
    exact Nat.eq_zero_of_dvd_of_lt hdvd hlt
  · intro hzero
    rw [hzero]
    exact Nat.dvd_zero _

end WideDecimal.DigitText
