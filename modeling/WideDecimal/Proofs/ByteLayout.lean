import WideDecimal.Bytes.Layout
import WideDecimal.Proofs.TwosComplement

namespace WideDecimal

namespace Bytes

theorem toNat_lt (bytes : List UInt8) : toNat bytes < 256 ^ bytes.length := by
  induction bytes with
  | nil => decide
  | cons b bytes ih =>
    have hb := b.toNat_lt
    rw [toNat, List.length_cons, Nat.pow_succ]
    omega

theorem toNat_append (front back : List UInt8) :
    toNat (front ++ back) = toNat front + 256 ^ front.length * toNat back := by
  induction front with
  | nil => rw [List.nil_append, toNat, List.length_nil, Nat.pow_zero, Nat.one_mul, Nat.zero_add]
  | cons b front ih =>
    rw [List.cons_append, toNat, toNat, ih, List.length_cons, Nat.pow_succ', Nat.mul_add,
      Nat.mul_assoc, Nat.add_assoc]

theorem map_toNat_ofNat (count n : Nat) :
    (ofNat count n).map UInt8.toNat = (List.range count).map fun k => n / 256 ^ k % 256 := by
  induction count generalizing n with
  | zero => rfl
  | succ count ih =>
    rw [ofNat, List.map_cons, ih, List.range_succ_eq_map, List.map_cons, List.map_map]
    congr 1
    · rw [Nat.pow_zero, Nat.div_one, UInt8.toNat_ofNat']
    · apply List.map_congr_left
      intro k _
      rw [Function.comp_apply, Nat.pow_succ', Nat.div_div_eq_div_mul]

theorem emod_digit (n : Int) {k count : Nat} (h : k < count) :
    n % 256 ^ count / 256 ^ k % 256 = n / 256 ^ k % 256 := by
  have hpower : (256 : Int) ^ count = 256 ^ k * (256 * 256 ^ (count - k - 1)) := by
    rw [← Int.pow_succ', ← Int.pow_add]
    congr 1
    omega
  have hpos : (256 : Int) ^ k ≠ 0 := Int.ne_of_gt (Int.pow_pos (by decide))
  have hn := Int.emod_add_mul_ediv n (256 ^ count)
  generalize n % 256 ^ count = r at hn ⊢
  rw [← hn, hpower, Int.mul_assoc, Int.add_mul_ediv_left _ _ hpos, Int.mul_assoc,
    Int.add_mul_emod_self_left]

theorem toNat_ofWord (w : UInt64) : toNat (ofWord w) = w.toNat := by
  rw [ofWord, toNat_ofNat, Nat.mod_eq_of_lt w.toNat_lt]

theorem toNat_toWord {bytes : List UInt8} (h : bytes.length ≤ 8) :
    (toWord bytes).toNat = toNat bytes := by
  have hlt : toNat bytes < 256 ^ 8 :=
    Nat.lt_of_lt_of_le (toNat_lt bytes) (Nat.pow_le_pow_right (by decide) h)
  exact UInt64.toNat_ofNat_of_lt' hlt

end Bytes

namespace Coefficient

theorem length_toBytes (v : Coefficient) : v.toBytes.length = 16 := by
  rw [toBytes, List.length_append, Bytes.ofWord, Bytes.ofWord, Bytes.length_ofNat,
    Bytes.length_ofNat]

theorem toNat_toBytes (v : Coefficient) : Bytes.toNat v.toBytes = v.residue := by
  have hlength : (Bytes.ofWord v.low).length = 8 := Bytes.length_ofNat 8 _
  rw [toBytes, Bytes.toNat_append, Bytes.toNat_ofWord, Bytes.toNat_ofWord, hlength, residue,
    Nat.add_comm, Nat.mul_comm]

theorem toBytes_eq_ofNat (v : Coefficient) : v.toBytes = Bytes.ofNat 16 v.residue := by
  rw [← toNat_toBytes, ← length_toBytes v, Bytes.ofNat_toNat]

theorem residue_ofBytes {bytes : List UInt8} (h : bytes.length = 16) :
    (ofBytes bytes).residue = Bytes.toNat bytes := by
  have hlow : (bytes.take 8).length = 8 := by
    rw [List.length_take]
    omega
  have hhigh : (bytes.drop 8).length = 8 := by
    rw [List.length_drop]
    omega
  have hsplit := Bytes.toNat_append (bytes.take 8) (bytes.drop 8)
  rw [List.take_append_drop, hlow] at hsplit
  rw [residue, ofBytes, UInt64.toUInt64_toInt64, List.take_of_length_le (Nat.le_of_eq hhigh),
    Bytes.toNat_toWord (Nat.le_of_eq hhigh), Bytes.toNat_toWord (Nat.le_of_eq hlow), hsplit]
  omega

theorem ofBytes_toBytes (v : Coefficient) : ofBytes v.toBytes = v := by
  apply residue_inj
  rw [residue_ofBytes v.length_toBytes, toNat_toBytes]

theorem toBytes_ofBytes {bytes : List UInt8} (h : bytes.length = 16) :
    (ofBytes bytes).toBytes = bytes := by
  rw [toBytes_eq_ofNat, residue_ofBytes h, ← h, Bytes.ofNat_toNat]

/-- The bytes are the base-256 digits of the integer itself, rounded down where it is negative. -/
theorem map_toInt_toBytes (v : Coefficient) :
    v.toBytes.map (fun b => (b.toNat : Int)) =
      (List.range 16).map fun k => v.toInt / 256 ^ k % 256 := by
  have hdigits := congrArg (List.map (Nat.cast : Nat → Int)) (Bytes.map_toNat_ofNat 16 v.residue)
  rw [List.map_map, List.map_map, ← toBytes_eq_ofNat] at hdigits
  refine hdigits.trans (List.map_congr_left fun k hk => ?_)
  rw [Function.comp_apply, Int.natCast_emod, Int.natCast_ediv, residue_eq, Int.natCast_pow]
  exact Bytes.emod_digit v.toInt (List.mem_range.mp hk)

theorem takeBytes_eq_ok_iff {v : Coefficient} {bytes rest : List UInt8} :
    takeBytes bytes = .ok (v, rest) ↔ bytes = v.toBytes ++ rest := by
  unfold takeBytes byteSize
  split
  next hshort =>
    refine ⟨nofun, ?_⟩
    rintro rfl
    rw [List.length_append, length_toBytes] at hshort
    omega
  next hlong =>
    have hlength : (bytes.take 16).length = 16 := by
      rw [List.length_take]
      omega
    rw [Except.ok.injEq, Prod.mk.injEq]
    constructor
    · rintro ⟨rfl, rfl⟩
      rw [toBytes_ofBytes hlength, List.take_append_drop]
    · rintro rfl
      rw [List.take_left' v.length_toBytes, List.drop_left' v.length_toBytes, ofBytes_toBytes]
      exact ⟨rfl, rfl⟩

theorem takeBytes_eq_error_iff {bytes : List UInt8} {e : Bytes.Failure} :
    takeBytes bytes = .error e ↔ bytes.length < 16 ∧ e = .tooShort := by
  unfold takeBytes byteSize
  split
  next hshort => rw [Except.error.injEq, and_iff_right hshort, eq_comm]
  next hlong => exact ⟨nofun, fun h => absurd h.1 hlong⟩

theorem ofAllBytes_eq_ite (bytes : List UInt8) :
    ofAllBytes bytes =
      if bytes.length < 16 then .error .tooShort
      else if 16 < bytes.length then .error .tooLong
      else .ok (ofBytes bytes) := by
  unfold ofAllBytes
  split
  next v hread =>
    rw [takeBytes_eq_ok_iff, List.append_nil] at hread
    rw [hread, length_toBytes, if_neg (Nat.lt_irrefl 16), if_neg (Nat.lt_irrefl 16),
      ofBytes_toBytes]
  next v b rest hread =>
    have hlength : bytes.length = 16 + (rest.length + 1) := by
      rw [takeBytes_eq_ok_iff.mp hread, List.length_append, length_toBytes, List.length_cons]
    rw [if_neg (by omega), if_pos (by omega)]
  next e hread =>
    obtain ⟨hshort, rfl⟩ := takeBytes_eq_error_iff.mp hread
    rw [if_pos hshort]

theorem ofAllBytes_eq_ok_iff {v : Coefficient} {bytes : List UInt8} :
    ofAllBytes bytes = .ok v ↔ bytes = v.toBytes := by
  rw [ofAllBytes_eq_ite]
  constructor
  · intro h
    split at h
    next => cases h
    next hshort =>
      split at h
      next => cases h
      next hlong =>
        cases h
        exact (toBytes_ofBytes (by omega)).symm
  · rintro rfl
    rw [length_toBytes, if_neg (Nat.lt_irrefl 16), if_neg (Nat.lt_irrefl 16), ofBytes_toBytes]

theorem ofAllBytes_eq_tooShort_iff {bytes : List UInt8} :
    ofAllBytes bytes = .error .tooShort ↔ bytes.length < 16 := by
  rw [ofAllBytes_eq_ite]
  grind

theorem ofAllBytes_eq_tooLong_iff {bytes : List UInt8} :
    ofAllBytes bytes = .error .tooLong ↔ 16 < bytes.length := by
  rw [ofAllBytes_eq_ite]
  grind

/-- What is relied on of a reader of whole byte strings: it takes the bytes of a coefficient, passes
a failure on and leaves no byte over. -/
structure ReadsWhole (read : List UInt8 → Except Bytes.Failure Coefficient) : Prop where
  failed {bytes : List UInt8} {e : Bytes.Failure} (h : takeBytes bytes = .error e) :
    read bytes = .error e
  leftover {bytes rest : List UInt8} {v : Coefficient} {b : UInt8}
    (h : takeBytes bytes = .ok (v, b :: rest)) : read bytes = .error .tooLong
  whole {bytes : List UInt8} {v : Coefficient} (h : takeBytes bytes = .ok (v, [])) :
    read bytes = .ok v

theorem readsWhole_ofAllBytes : ReadsWhole ofAllBytes where
  failed h := by rw [ofAllBytes, h]
  leftover h := by rw [ofAllBytes, h]
  whole h := by rw [ofAllBytes, h]

theorem ReadsWhole.eq_ofAllBytes {read : List UInt8 → Except Bytes.Failure Coefficient}
    (h : ReadsWhole read) (bytes : List UInt8) : read bytes = ofAllBytes bytes := by
  cases htake : takeBytes bytes with
  | error e => rw [h.failed htake, readsWhole_ofAllBytes.failed htake]
  | ok taken =>
    obtain ⟨v, rest⟩ := taken
    cases rest with
    | nil => rw [h.whole htake, readsWhole_ofAllBytes.whole htake]
    | cons b rest => rw [h.leftover htake, readsWhole_ofAllBytes.leftover htake]

/-- The bytes of a coefficient are the base-256 digits of its integer in two's complement, sixteen
of them and the least significant one first. Encoding and decoding are inverse to each other over
all coefficients and all sixteen bytes. Exactly these are read, and other bytes are refused as too
few or too many, by any reader of whole byte strings. -/
theorem bytes_encode_integer (v : Coefficient) (bytes : List UInt8) :
    v.toBytes.map (fun b => (b.toNat : Int)) =
      (List.range 16).map (fun k => v.toInt / 256 ^ k % 256) ∧
    ofBytes v.toBytes = v ∧
    ((ofBytes bytes).toBytes = bytes ↔ bytes.length = 16) ∧
    (ofAllBytes bytes = .ok v ↔ bytes = v.toBytes) ∧
    ((∃ w, ofAllBytes bytes = .ok w) ↔ bytes.length = 16) ∧
    (ofAllBytes bytes = .error .tooShort ↔ bytes.length < 16) ∧
    (ofAllBytes bytes = .error .tooLong ↔ 16 < bytes.length) ∧
    ∀ read, ReadsWhole read → read bytes = ofAllBytes bytes := by
  refine ⟨v.map_toInt_toBytes, v.ofBytes_toBytes, ⟨fun h => ?_, toBytes_ofBytes⟩,
    ofAllBytes_eq_ok_iff, ⟨?_, fun h => ?_⟩, ofAllBytes_eq_tooShort_iff, ofAllBytes_eq_tooLong_iff,
    fun _ hread => hread.eq_ofAllBytes bytes⟩
  · rw [← h, length_toBytes]
  · rintro ⟨w, hw⟩
    rw [ofAllBytes_eq_ok_iff.mp hw, length_toBytes]
  · exact ⟨ofBytes bytes, ofAllBytes_eq_ok_iff.mpr (toBytes_ofBytes h).symm⟩

/-- All bits set denote minus one, and with one byte fewer or more they denote nothing. -/
theorem bytes_encode_integer_negOne :
    ReadsWhole ofAllBytes ∧ ofAllBytes (List.replicate 16 0xFF) = .ok negOne ∧
      ofAllBytes (List.replicate 15 0xFF) = .error .tooShort ∧
      ofAllBytes (List.replicate 17 0xFF) = .error .tooLong := by
  have hread (bytes : List UInt8) := bytes_encode_integer negOne bytes
  refine ⟨readsWhole_ofAllBytes, ?_, ?_, ?_⟩
  · obtain ⟨-, -, -, hok, -, -, -, hwhole⟩ := hread (List.replicate 16 0xFF)
    exact (hwhole _ readsWhole_ofAllBytes).trans (hok.mpr (by decide))
  · exact (hread _).2.2.2.2.2.1.mpr (by decide)
  · exact (hread _).2.2.2.2.2.2.1.mpr (by decide)

end Coefficient

end WideDecimal
