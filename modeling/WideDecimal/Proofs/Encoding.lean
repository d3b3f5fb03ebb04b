import WideDecimal.Proofs.Guarded
import WideDecimal.Text.Encoding

namespace WideDecimal.Encoding

open Guarded (Holds holds_require)

def IsAscii (text : List Char) : Prop := ∀ c ∈ text, c.toNat < 128

theorem isAscii_append {front back : List Char} :
    IsAscii (front ++ back) ↔ IsAscii front ∧ IsAscii back := List.forall_mem_append

theorem bytes_cons (c : Char) (text : List Char) :
    bytes (c :: text) = (String.utf8EncodeChar c).map Char.ofUInt8 ++ bytes text :=
  List.flatMap_cons

theorem utf8Size_of_ascii {c : Char} (h : c.toNat < 128) : c.utf8Size = 1 :=
  Char.utf8Size_eq_one_iff.mpr (UInt32.le_iff_toNat_le.mpr (Nat.le_of_lt_succ h))

theorem bytes_cons_of_ascii {c : Char} (h : c.toNat < 128) (text : List Char) :
    bytes (c :: text) = c :: bytes text := by
  have hbyte : Char.ofUInt8 c.val.toUInt8 = c := by
    apply Char.toNat_inj.mp
    change c.val.toNat % 256 = c.val.toNat
    exact Nat.mod_eq_of_lt (Nat.lt_trans h (by decide))
  rw [bytes_cons, String.utf8EncodeChar_eq_singleton (utf8Size_of_ascii h), List.map_singleton,
    hbyte, List.singleton_append]

theorem bytes_cons_of_not_ascii {c : Char} (h : ¬c.toNat < 128) (text : List Char) :
    ∃ b rest, bytes (c :: text) = b :: rest ∧ ¬b.toNat < 128 := by
  have hlarge : ¬c.val.toNat ≤ 127 := fun hle => h (Nat.lt_succ_of_le hle)
  have hbyte (n : Nat) (hn : 128 ≤ n % 256) : ¬(Char.ofUInt8 (UInt8.ofNat n)).toNat < 128 := by
    change ¬(UInt8.ofNat n).toNat < 128
    rw [UInt8.toNat_ofNat']
    omega
  rw [bytes_cons, String.utf8EncodeChar, if_neg hlarge]
  split
  next => exact ⟨_, _, rfl, hbyte _ (by omega)⟩
  next =>
    split
    next => exact ⟨_, _, rfl, hbyte _ (by omega)⟩
    next => exact ⟨_, _, rfl, hbyte _ (by omega)⟩

theorem bytes_eq_self {text : List Char} (h : IsAscii text) : bytes text = text := by
  induction text with
  | nil => rfl
  | cons c text ih =>
    obtain ⟨hc, htext⟩ := List.forall_mem_cons.mp h
    rw [bytes_cons_of_ascii hc, ih htext]

theorem exists_of_bytes_eq_append {text front rest : List Char} (hfront : IsAscii front)
    (h : bytes text = front ++ rest) : ∃ back, text = front ++ back ∧ bytes back = rest := by
  induction front generalizing text with
  | nil => exact ⟨text, rfl, h⟩
  | cons a front ih =>
    obtain ⟨ha, hothers⟩ := List.forall_mem_cons.mp hfront
    cases text with
    | nil => cases h
    | cons c text =>
      by_cases hc : c.toNat < 128
      · rw [bytes_cons_of_ascii hc] at h
        obtain ⟨rfl, htext⟩ := List.cons.inj h
        obtain ⟨back, rfl, hback⟩ := ih hothers htext
        exact ⟨back, rfl, hback⟩
      · obtain ⟨b, others, hbytes, hb⟩ := bytes_cons_of_not_ascii hc text
        rw [hbytes] at h
        obtain ⟨rfl, -⟩ := List.cons.inj h
        exact absurd ha hb

theorem eq_of_bytes_ascii {text ascii : List Char} (hascii : IsAscii ascii)
    (h : bytes text = ascii) : text = ascii := by
  obtain ⟨back, rfl, hback⟩ := exists_of_bytes_eq_append hascii
    (h.trans (List.append_nil ascii).symm)
  cases back with
  | nil => exact List.append_nil ascii
  | cons c back =>
    by_cases hc : c.toNat < 128
    · rw [bytes_cons_of_ascii hc] at hback
      cases hback
    · obtain ⟨b, rest, hbytes, -⟩ := bytes_cons_of_not_ascii hc back
      rw [hbytes] at hback
      cases hback

/-- The first byte of a text is its first character, or a part of one that is none of ASCII. -/
theorem exists_of_bytes_eq_cons {text rest : List Char} {b : Char} (h : bytes text = b :: rest) :
    ∃ c back, text = c :: back ∧ (c = b ∨ ¬c.toNat < 128) := by
  cases text with
  | nil => cases h
  | cons c back =>
    refine ⟨c, back, rfl, ?_⟩
    by_cases hc : c.toNat < 128
    · left
      rw [bytes_cons_of_ascii hc] at h
      exact (List.cons.inj h).1
    · exact Or.inr hc

/-- What stands in the bytes of a text behind ASCII characters is a character of it, or the first
byte of one. -/
theorem exists_of_bytes_eq_append_cons {text front rest : List Char} {b : Char}
    (hfront : IsAscii front) (h : bytes text = front ++ b :: rest) :
    ∃ c back, text = front ++ c :: back ∧ bytes (c :: back) = b :: rest ∧
      (c = b ∨ ¬c.toNat < 128) := by
  obtain ⟨back, rfl, hback⟩ := exists_of_bytes_eq_append hfront h
  obtain ⟨c, back, rfl, hc⟩ := exists_of_bytes_eq_cons hback
  exact ⟨c, back, rfl, hback, hc⟩

theorem bytes_append_of_ascii {front : List Char} (h : IsAscii front) (back : List Char) :
    bytes (front ++ back) = front ++ bytes back := by
  have happend : bytes (front ++ back) = bytes front ++ bytes back := List.flatMap_append
  rw [happend, bytes_eq_self h]

theorem dropBytes?_of_ascii {front : List Char} (h : IsAscii front) (back : List Char) :
    dropBytes? front.length (front ++ back) = some back := by
  induction front with
  | nil =>
    rw [List.nil_append, List.length_nil, dropBytes?.eq_def]
  | cons c front ih =>
    obtain ⟨hc, hfront⟩ := List.forall_mem_cons.mp h
    rw [List.cons_append, List.length_cons, dropBytes?, utf8Size_of_ascii hc,
      if_pos (Nat.le_add_left 1 _), Nat.add_sub_cancel, ih hfront]

theorem characterAt_holds {front : List Char} (h : IsAscii front) (c : Char) (back : List Char) :
    (characterAt (front ++ c :: back) (bytes (c :: back))).Holds fun found => found = c := by
  have hbytes := bytes_append_of_ascii h (c :: back)
  have hlength := congrArg List.length hbytes
  rw [List.length_append] at hlength
  refine Holds.bind (holds_require (by omega)) fun _ _ => ?_
  have hcount : (bytes (front ++ c :: back)).length - (bytes (c :: back)).length =
      front.length := by omega
  rw [hcount, dropBytes?_of_ascii h]
  exact Holds.pure rfl

end WideDecimal.Encoding
