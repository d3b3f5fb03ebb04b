import WideDecimal.Proofs.Digits

namespace WideDecimal.Coefficient

open DigitText

/-- Digits appended to an integer one at a time, away from zero on the side of a sign. -/
def appendDigits (negative : Bool) (n : Int) (digits : List Char) : Int :=
  digits.foldl (fun n c => 10 * n + signed negative (digitValue c)) n

/-- Digits in any chunks, each appended to a value at once. -/
def pushChunks (negative : Bool) (value : Coefficient) (chunks : List (List Char)) :
    Option Coefficient :=
  chunks.foldlM (fun value chunk =>
    (pushChunk negative value (.ofNat (Nat.ofDigitChars 10 chunk 0)) chunk.length).value) value

theorem appendDigits_signed (negative : Bool) (n : Nat) (digits : List Char) :
    appendDigits negative (signed negative n) digits =
      signed negative (Nat.ofDigitChars 10 digits n) := by
  induction digits generalizing n with
  | nil => rfl
  | cons c digits ih =>
    have hstep : 10 * signed negative n + signed negative (digitValue c) =
        signed negative (10 * n + (c.toNat - '0'.toNat)) := by
      unfold signed digitValue
      split <;> omega
    rw [appendDigits, List.foldl_cons, hstep, Nat.ofDigitChars_cons]
    exact ih _

theorem toNat_chunk {chunk : List Char} (hdigits : ∀ c ∈ chunk, c.isDigit)
    (hlength : chunk.length ≤ chunkDigits) :
    (UInt64.ofNat (Nat.ofDigitChars 10 chunk 0)).toNat = Nat.ofDigitChars 10 chunk 0 := by
  have hlt := ofDigitChars_lt hdigits
  have hpow : 10 ^ chunk.length ≤ 10 ^ chunkDigits := Nat.pow_le_pow_right (by decide) hlength
  have hlimit : 10 ^ chunkDigits < 2 ^ 64 := by decide
  exact Nat.mod_eq_of_lt (by omega)

theorem pushChunks_eq {negative : Bool} {value : Coefficient} {n : Nat}
    {chunks : List (List Char)} (hvalue : value.toInt = signed negative n)
    (hdigits : ∀ c ∈ chunks.flatten, c.isDigit)
    (hlength : ∀ chunk ∈ chunks, chunk.length ≤ chunkDigits) :
    pushChunks negative value chunks =
      ofInt? (signed negative (Nat.ofDigitChars 10 chunks.flatten n)) := by
  induction chunks generalizing value n with
  | nil =>
    change some value = ofInt? (signed negative n)
    rw [← hvalue, ofInt?_toInt]
  | cons chunk chunks ih =>
    obtain ⟨hchunk, hrest⟩ := List.forall_mem_append.mp hdigits
    obtain ⟨hshort, hothers⟩ := List.forall_mem_cons.mp hlength
    have hpushed : (pushChunk negative value (.ofNat (Nat.ofDigitChars 10 chunk 0))
        chunk.length).value = _ := (pushChunk_holds hvalue hshort).value
    rw [toNat_chunk hchunk hshort, Nat.mul_comm, ← Nat.ofDigitChars_eq_ofDigitChars_zero]
      at hpushed
    rw [pushChunks, List.foldlM_cons, hpushed, List.flatten_cons, Nat.ofDigitChars_append]
    cases hnext : ofInt? (signed negative (Nat.ofDigitChars 10 chunk n)) with
    | none =>
      have hnone := ofInt?_eq_none_iff.mp hnext
      exact (ofInt?_eq_none_iff.mpr (not_fits_ofDigitChars hnone _)).symm
    | some next => exact ih (ofInt?_eq_some_iff.mp hnext) hrest hothers

/-- Digits before and behind a point are read within bounds. They have a coefficient exactly where
the integer that they write with the sign is in range, and it denotes that integer; one digit at a
time or in chunks cut anywhere, the result is the same. -/
theorem ofDigits?_exact (negative : Bool) {whole fraction : List Char}
    (hwhole : ∀ c ∈ whole, c.isDigit) (hfraction : ∀ c ∈ fraction, c.isDigit) :
    (guardedAccumulate negative zero 0 0 (whole ++ fraction)).checked =
      Part.some (ofDigits? negative (whole ++ fraction)) ∧
    ((ofDigits? negative (whole ++ fraction)).isSome ↔
      -2 ^ 127 ≤ signed negative (Nat.ofDigitChars 10 (whole ++ fraction) 0) ∧
        signed negative (Nat.ofDigitChars 10 (whole ++ fraction) 0) < 2 ^ 127) ∧
    (∀ v, ofDigits? negative (whole ++ fraction) = some v →
      v.toInt = signed negative (Nat.ofDigitChars 10 (whole ++ fraction) 0)) ∧
    signed negative (Nat.ofDigitChars 10 (whole ++ fraction) 0) =
      appendDigits negative 0 (whole ++ fraction) ∧
    ∀ chunks : List (List Char), chunks.flatten = whole ++ fraction →
      (∀ chunk ∈ chunks, chunk.length ≤ chunkDigits) →
        pushChunks negative zero chunks = ofDigits? negative (whole ++ fraction) := by
  have hdigits := List.forall_mem_append.mpr ⟨hwhole, hfraction⟩
  have hresult := ofDigits?_eq negative hdigits
  refine ⟨(guardedAccumulate_zero_holds negative hdigits).checked, ?_, ?_, ?_, ?_⟩
  · rw [hresult, Option.isSome_iff_ne_none, ne_eq, ofInt?_eq_none_iff, not_not]
    exact Iff.rfl
  · intro v hv
    exact ofInt?_eq_some_iff.mp (hresult.symm.trans hv)
  · rw [← appendDigits_signed, signed_zero]
  · intro chunks hflatten hlength
    rw [hresult, ← hflatten]
    exact pushChunks_eq (toInt_zero_eq_signed negative) (hflatten ▸ hdigits) hlength

theorem ofDigits?_exact_least :
    ofDigits? true ("170141183460".toList ++ "469231731687303715884105728".toList) =
        some least ∧
      pushChunks true zero ["1701411834".toList, "".toList, "60469231731687303".toList,
        "715884105728".toList] = some least := by
  have hwhole : ∀ c ∈ "170141183460".toList, c.isDigit := List.all_eq_true.mp (by rfl)
  have hfraction : ∀ c ∈ "469231731687303715884105728".toList, c.isDigit :=
    List.all_eq_true.mp (by rfl)
  obtain ⟨-, hsome, hvalue, -, hchunks⟩ := ofDigits?_exact true hwhole hfraction
  obtain ⟨v, hv⟩ := Option.isSome_iff_exists.mp (hsome.mpr ⟨by decide, by decide⟩)
  have hleast : v = least := toInt_inj.mp ((hvalue v hv).trans (by decide))
  rw [hleast] at hv
  exact ⟨hv, (hchunks _ (by rfl) (by simp [chunkDigits])).trans hv⟩

end WideDecimal.Coefficient
