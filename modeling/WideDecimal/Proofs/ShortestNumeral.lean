import WideDecimal.Exchange.Value
import WideDecimal.Proofs.ScaledText

namespace WideDecimal

open DigitText
open Literal (Sign)

/-- A text that writes an integer with base-ten digits, behind a sign or none. -/
def IsNumeral (text : List Char) (n : Int) : Prop :=
  ∃ (sign : Sign) (digits : List Char), text = sign.text ++ digits ∧ digits ≠ [] ∧
    (∀ c ∈ digits, c.isDigit) ∧ signed sign.isMinus (Nat.ofDigitChars 10 digits 0) = n

/-- A numeral of an integer than which every other one is longer. -/
def IsShortestNumeral (text : List Char) (n : Int) : Prop :=
  IsNumeral text n ∧ ∀ other, IsNumeral other n → other = text ∨ text.length < other.length

theorem toList_toString (n : Int) :
    (toString n).toList = (if n < 0 then ['-'] else []) ++ Nat.toDigits 10 n.natAbs := by
  rw [Int.toString_eq_repr, Int.repr_eq_if]
  by_cases hneg : n < 0
  · have habs : (-n).toNat = n.natAbs := by omega
    rw [if_neg (Int.not_le.mpr hneg), if_pos hneg, String.toList_append, Nat.toList_repr, habs]
    rfl
  · have habs : n.toNat = n.natAbs := by omega
    rw [if_pos (Int.not_lt.mp hneg), if_neg hneg, Nat.toList_repr, habs]
    rfl

theorem isNumeral_toString (n : Int) : IsNumeral (toString n).toList n := by
  have hdigits : ∀ c ∈ Nat.toDigits 10 n.natAbs, c.isDigit := fun _ => isDigit_of_mem_toDigits
  rw [toList_toString]
  by_cases hneg : n < 0
  · refine ⟨.minus, _, by rw [if_pos hneg]; rfl, Nat.toDigits_ne_nil, hdigits, ?_⟩
    rw [Nat.ofDigitChars_ten_toDigits]
    change -(n.natAbs : Int) = n
    omega
  · refine ⟨.absent, _, by rw [if_neg hneg]; rfl, Nat.toDigits_ne_nil, hdigits, ?_⟩
    rw [Nat.ofDigitChars_ten_toDigits]
    change (n.natAbs : Int) = n
    omega

namespace Coefficient

/-- The chunks of a coefficient below `10 ^ 36`. -/
def lowChunks (v : Coefficient) : List Coefficient :=
  let (middle, tail) := (guardedSplit v tenTo18).value
  if middle.isZero then [tail] else [middle, tail.abs]

/-- The chunks of a coefficient from its multiples of `10 ^ 36` and the rest. -/
def highChunks (top rest : Coefficient) : List Coefficient :=
  let (middle, tail) := (guardedSplit rest.abs tenTo18).value
  [top, middle, tail.abs]

/-- The chunks that a numeral is written from, most significant first. -/
def chunks (v : Coefficient) : List Coefficient :=
  let (top, rest) := (guardedSplit v tenTo36).value
  if top.isZero then lowChunks rest else highChunks top rest

/-- The text of chunks, of which each is read from its low word. -/
def chunksText : List Coefficient → List Char
  | [] => []
  | first :: rest =>
    chunkText first.low.toInt64.toInt true ++
      rest.flatMap fun c => chunkText c.low.toInt64.toInt false

/-- Whether the first chunk alone has the sign of a coefficient, and is not zero unless that is. -/
structure Leads (v first : Coefficient) (rest : List Coefficient) : Prop where
  ne_zero : v.toInt ≠ 0 → first.toInt ≠ 0
  neg_iff : first.toInt < 0 ↔ v.toInt < 0
  nonneg : ∀ c ∈ rest, 0 ≤ c.toInt

theorem intact_guardedChunk (v : Coefficient) (first : Bool) :
    (guardedChunk v first).intact ↔ v.toInt.natAbs < 10 ^ chunkDigits := by
  rw [guardedChunk, Guarded.intact_bind, Guarded.intact_pure, and_true]
  rfl

theorem value_guardedChunk (v : Coefficient) (first : Bool) :
    (guardedChunk v first).value = chunkText v.low.toInt64.toInt first := rfl

theorem guardedLowChunks_eq {v : Coefficient} (h : (guardedLowChunks v).intact) :
    (guardedLowChunks v).value = chunksText v.lowChunks ∧
      ∀ c ∈ v.lowChunks, c.toInt.natAbs < 10 ^ chunkDigits := by
  rw [guardedLowChunks, Guarded.intact_bind] at h
  rw [guardedLowChunks, Guarded.value_bind, lowChunks]
  generalize (guardedSplit v tenTo18).value = parts at h ⊢
  obtain ⟨middle, tail⟩ := parts
  dsimp only at h ⊢
  split
  next hzero =>
    rw [if_pos hzero, intact_guardedChunk] at h
    simp [chunksText, value_guardedChunk, h.2]
  next hne =>
    rw [if_neg hne, Guarded.intact_bind, Guarded.intact_bind, intact_guardedChunk,
      intact_guardedChunk] at h
    simp [chunksText, value_guardedChunk, h.2.1, h.2.2.1]

theorem guardedChunks_eq {v : Coefficient} (h : (guardedChunks v).intact) :
    (guardedChunks v).value = chunksText v.chunks ∧
      ∀ c ∈ v.chunks, c.toInt.natAbs < 10 ^ chunkDigits := by
  rw [guardedChunks, Guarded.intact_bind] at h
  rw [guardedChunks, Guarded.value_bind, chunks]
  generalize (guardedSplit v tenTo36).value = parts at h ⊢
  obtain ⟨top, rest⟩ := parts
  dsimp only at h ⊢
  split
  next hzero =>
    rw [if_pos hzero] at h
    exact guardedLowChunks_eq h.2
  next hne =>
    rw [if_neg hne, Guarded.intact_bind] at h
    rw [Guarded.value_bind, highChunks]
    generalize (guardedSplit rest.abs tenTo18).value = parts at h ⊢
    obtain ⟨middle, tail⟩ := parts
    dsimp only at h ⊢
    rw [Guarded.intact_bind, Guarded.intact_bind, Guarded.intact_bind, intact_guardedChunk,
      intact_guardedChunk, intact_guardedChunk] at h
    simp [chunksText, value_guardedChunk, h.2.2.1, h.2.2.2.1, h.2.2.2.2.1]

theorem abs_nonneg_of_tmod {v r : Coefficient} {unit : Int} (hr : r.toInt = v.toInt.tmod unit)
    (hpos : 0 < unit.natAbs) (hle : unit.natAbs ≤ 2 ^ 127) : 0 ≤ r.abs.toInt := by
  have hlt : r.toInt.natAbs < unit.natAbs := by
    rw [natAbs_of_tmod hr]
    exact Nat.mod_lt _ hpos
  rw [toInt_abs (Nat.lt_of_lt_of_le hlt hle)]
  exact Int.natCast_nonneg _

theorem leads_lowChunks {v : Coefficient} (h : v.toInt.natAbs < 10 ^ (2 * chunkDigits)) :
    ∃ first rest, v.lowChunks = first :: rest ∧ Leads v first rest := by
  have hparts := (guardedSplit_holds v (show 1 < tenTo18.toInt by decide)).value
  rw [lowChunks]
  generalize (guardedSplit v tenTo18).value = parts at hparts ⊢
  obtain ⟨middle, tail⟩ := parts
  obtain ⟨hmiddle, htail⟩ := hparts
  dsimp only at hmiddle htail ⊢
  split
  next hzero =>
    obtain rfl : tail = v := eq_of_tmod htail (natAbs_lt_of_tdiv_isZero hmiddle (by decide) hzero)
    exact ⟨tail, [], rfl, id, Iff.rfl, List.forall_mem_nil _⟩
  next hne =>
    rw [isZero_iff] at hne
    refine ⟨middle, [tail.abs], rfl, fun _ => hne, neg_iff_of_tdiv (by decide) hmiddle hne, ?_⟩
    intro c hc
    rw [List.mem_singleton.mp hc]
    exact abs_nonneg_of_tmod htail (by decide) (by decide)

theorem leads_chunks (v : Coefficient) :
    ∃ first rest, v.chunks = first :: rest ∧ Leads v first rest := by
  have hparts := (guardedSplit_holds v (show 1 < tenTo36.toInt by decide)).value
  rw [chunks]
  generalize (guardedSplit v tenTo36).value = parts at hparts ⊢
  obtain ⟨top, remainder⟩ := parts
  obtain ⟨htop, hremainder⟩ := hparts
  dsimp only at htop hremainder ⊢
  split
  next hzero =>
    have hlt := natAbs_lt_of_tdiv_isZero htop (by decide) hzero
    obtain rfl : remainder = v := eq_of_tmod hremainder hlt
    rw [natAbs_tenTo36] at hlt
    exact leads_lowChunks hlt
  next hne =>
    rw [isZero_iff] at hne
    have hlower := (guardedSplit_holds remainder.abs (show 1 < tenTo18.toInt by decide)).value
    rw [highChunks]
    generalize (guardedSplit remainder.abs tenTo18).value = parts at hlower ⊢
    obtain ⟨middle, tail⟩ := parts
    obtain ⟨hmiddle, htail⟩ := hlower
    dsimp only at hmiddle htail ⊢
    refine ⟨top, [middle, tail.abs], rfl, fun _ => hne, neg_iff_of_tdiv (by decide) htop hne, ?_⟩
    intro c hc
    rcases List.mem_cons.mp hc with rfl | hc
    · rw [hmiddle]
      exact Int.tdiv_nonneg (abs_nonneg_of_tmod hremainder (by decide) (by decide)) (by decide)
    · rw [List.mem_singleton.mp hc]
      exact abs_nonneg_of_tmod htail (by decide) (by decide)

theorem toString_eq (v : Coefficient) : toString v = toString v.toInt := by
  apply String.toList_inj.mp
  change (String.ofList v.numeral).toList = _
  rw [String.toList_ofList, toList_toString, numeral_eq, signText,
    if_congr v.isNegative_iff rfl rfl]

theorem isNumeral_numeral (v : Coefficient) : IsNumeral v.numeral v.toInt := by
  have hnumeral := isNumeral_toString v.toInt
  rw [← toString_eq] at hnumeral
  change IsNumeral (String.ofList v.numeral).toList v.toInt at hnumeral
  rwa [String.toList_ofList] at hnumeral

/-- A minus is due to the integer, and any other sign is not needed. -/
theorem writtenSign_shortest {v : Coefficient} {sign : Sign} {n : Nat}
    (h : signed sign.isMinus n = v.toInt) :
    sign = v.writtenSign ∨ v.writtenSign.text.length < sign.text.length := by
  by_cases hneg : v.toInt < 0
  · left
    rw [writtenSign, if_pos (v.isNegative_iff.mpr hneg)]
    rw [← h] at hneg
    cases sign with
    | minus => rfl
    | absent => exact absurd hneg (Int.not_lt.mpr (Int.natCast_nonneg n))
    | plus => exact absurd hneg (Int.not_lt.mpr (Int.natCast_nonneg n))
  · rw [writtenSign, if_neg (mt v.isNegative_iff.mp hneg)]
    cases sign with
    | absent => exact Or.inl rfl
    | minus => exact Or.inr Nat.zero_lt_one
    | plus => exact Or.inr Nat.zero_lt_one

theorem numeral_eq_or_length_lt {v : Coefficient} {text : List Char}
    (h : IsNumeral text v.toInt) : text = v.numeral ∨ v.numeral.length < text.length := by
  obtain ⟨sign, digits, rfl, hne, hdigits, hvalue⟩ := h
  have habs : v.toInt.natAbs = Nat.ofDigitChars 10 digits 0 := by rw [← hvalue, natAbs_signed]
  have hpadded := eq_leftpad_toDigits hdigits hne
  rw [← habs] at hpadded
  have hlength := congrArg List.length hpadded
  rw [List.length_leftpad] at hlength
  rw [numeral_eq, ← text_writtenSign, List.length_append, List.length_append]
  rcases writtenSign_shortest hvalue with rfl | hlonger
  · by_cases hsame : (Nat.toDigits 10 v.toInt.natAbs).length = digits.length
    · left
      rw [List.leftpad, hsame, Nat.sub_self] at hpadded
      rw [hpadded]
      rfl
    · right
      omega
  · right
    omega

theorem isShortestNumeral_numeral (v : Coefficient) : IsShortestNumeral v.numeral v.toInt :=
  ⟨v.isNumeral_numeral, fun _ => numeral_eq_or_length_lt⟩

theorem minus_mem_numeral_iff (v : Coefficient) : '-' ∈ v.numeral ↔ v.toInt < 0 := by
  have hdigits : '-' ∉ Nat.toDigits 10 v.toInt.natAbs :=
    fun hmem => absurd (isDigit_of_mem_toDigits hmem) (by decide)
  rw [numeral_eq, List.mem_append, or_iff_left hdigits, ← isNegative_iff, signText]
  split <;> simp_all

theorem digits_eq_zero_of_head {v : Coefficient} (h : v.digits.head? = some '0') :
    v.digits = ['0'] := by
  obtain ⟨digits, hdigits⟩ := List.head?_eq_some_iff.mp h
  rw [digits_eq] at hdigits ⊢
  rw [hdigits, toDigits_eq_zero hdigits]

theorem length_numeral_le (v : Coefficient) : v.numeral.length ≤ numeralCapacity :=
  (guardedNumeral_holds v).intact.2.1

theorem numeral_eq_signText_append (v : Coefficient) : v.numeral = v.signText ++ v.digits := by
  rw [numeral_eq, digits_eq]

theorem display_eq_toString (v : Coefficient) : v.display {} = toString v := by
  have hsign : Padding.sign {} v.isNegative = v.signText := rfl
  have hunpadded : Padding.number {} v.isNegative v.digits = v.signText ++ v.digits := by
    simp [Padding.number, Padding.surround, hsign]
  rw [display, hunpadded, ← numeral_eq_signText_append]
  rfl

theorem exists_divide_of_pos (v : Coefficient) {unit : Coefficient} (h : 1 < unit.toInt) :
    ∃ parts, divide v unit = .ok parts := by
  obtain ⟨q, r, hdivide, -, -⟩ := (divide_result v unit).exact h
  exact ⟨(q, r), hdivide⟩

/-- The numeral of a coefficient is the one shortest text that writes its integer. It is put
together without a failed division from chunks that fit one word, of which the first alone has the
sign, and it fits its buffer. Shown or inspected without padding, and exchanged, a coefficient is
its numeral. -/
theorem numeral_shortest (v : Coefficient) :
    IsShortestNumeral v.numeral v.toInt ∧
    ('-' ∈ v.numeral ↔ v.toInt < 0) ∧
    (v.numeral = v.signText ++ v.digits ∧ (v.digits.head? = some '0' → v.digits = ['0'])) ∧
    ((guardedNumeral v).intact ∧ v.numeral.length ≤ numeralCapacity ∧
      ∀ u : Coefficient, (∃ parts, divide u tenTo36 = .ok parts) ∧
        ∃ parts, divide u tenTo18 = .ok parts) ∧
    (∃ first rest, v.chunks = first :: rest ∧ v.numeral = chunksText v.chunks ∧
      (∀ c ∈ v.chunks, c.toInt.natAbs < 10 ^ chunkDigits ∧ c.low.toInt64.toInt = c.toInt) ∧
      Leads v first rest) ∧
    (v.display {} = String.ofList v.numeral ∧ v.inspect {} = String.ofList v.numeral) ∧
    ∃ s, Exchange.ofCoefficient v = .text s ∧ s = String.ofList v.numeral ∧
      IsShortestNumeral s.toList v.toInt := by
  have hintact := (guardedNumeral_holds v).intact
  have hchunks := guardedChunks_eq hintact.1
  obtain ⟨first, rest, hcons, hleads⟩ := v.leads_chunks
  refine ⟨v.isShortestNumeral_numeral, v.minus_mem_numeral_iff,
    ⟨v.numeral_eq_signText_append, digits_eq_zero_of_head⟩,
    ⟨hintact, v.length_numeral_le, fun u => ⟨?_, ?_⟩⟩, ⟨first, rest, hcons, hchunks.1, ?_, hleads⟩,
    ⟨v.display_eq_toString, v.display_eq_toString⟩, _, rfl, rfl, ?_⟩
  · exact exists_divide_of_pos u (by decide)
  · exact exists_divide_of_pos u (by decide)
  · intro c hc
    exact ⟨hchunks.2 c hc, toInt_low (hchunks.2 c hc)⟩
  · change IsShortestNumeral (String.ofList v.numeral).toList v.toInt
    rw [String.toList_ofList]
    exact v.isShortestNumeral_numeral

end Coefficient

end WideDecimal
