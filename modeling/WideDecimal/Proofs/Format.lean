import Mathlib.Data.List.Forall2
import WideDecimal.Json.Document

namespace WideDecimal

namespace Exchange

/-- What is relied on of a visit of values: a visitor is asked for wide integers and for texts
directly, for a narrow integer as for a word of its signedness, and for a character as for a text.
-/
structure Visitor.Forwards {α : Type} (r : Visitor α) (visit : Value → Except Refusal α) :
    Prop where
  signed {t : IntegerType} (hsigned : t.isSigned = true) (hword : t.width ≤ 64) (n : Int) :
    visit (.integer t n) = r.int64 n
  unsigned {t : IntegerType} (hunsigned : t.isSigned = false) (hword : t.width ≤ 64) (n : Int) :
    visit (.integer t n) = r.uint64 n
  int128 (n : Int) : visit (.integer .int128 n) = r.int128 n
  uint128 (n : Int) : visit (.integer .uint128 n) = r.uint128 n
  text (s : String) : visit (.text s) = r.text s
  character (c : Char) : visit (.character c) = r.text c.toString

theorem Visitor.forwards_visit {α : Type} (r : Visitor α) : r.Forwards r.visit where
  signed {t} hsigned hword n := by
    cases t with
    | int8 | int16 | int32 | int64 | intSize => rfl
    | int128 => exact absurd hword (by decide)
    | uint8 | uint16 | uint32 | uint64 | uint128 | uintSize => cases hsigned
  unsigned {t} hunsigned hword n := by
    cases t with
    | uint8 | uint16 | uint32 | uint64 | uintSize => rfl
    | uint128 => exact absurd hword (by decide)
    | int8 | int16 | int32 | int64 | int128 | intSize => cases hunsigned
  int128 _ := rfl
  uint128 _ := rfl
  text _ := rfl
  character _ := rfl

/-- Whether a text needs no escapes. -/
def Plain (s : String) : Prop := ∀ c ∈ s.toList, c ≠ '"' ∧ c ≠ '\\' ∧ 0x20 ≤ c.toNat

/-- What is relied on of a format: a text without escapes is handed over as it was written, and the
elements of a list of such texts are read as each of them alone. -/
structure Format.Verbatim (f : Format) : Prop where
  read_writeText {α : Type} {visit : Value → Except Refusal α} {s : String} {a : α}
    (hs : Plain s) (h : visit (.text s) = .ok a) : f.read visit (f.writeText s) = .ok a
  readList_writeTexts {α : Type} {visit : Value → Except Refusal α} {texts : List String}
    {as : List α} (htexts : ∀ s ∈ texts, Plain s)
    (h : List.Forall₂ (fun s a => f.read visit (f.writeText s) = .ok a) texts as) :
    f.readList visit (f.writeTexts texts) = .ok as

end Exchange

namespace Json

open Exchange (Plain Value Refusal)

section

variable {α : Type} {visit : Value → Except Refusal α}

theorem readString_plain {s : List Char}
    (h : ∀ c ∈ s, c ≠ '"' ∧ c ≠ '\\' ∧ 0x20 ≤ c.toNat) (rest : List Char) :
    readString .plain (s ++ '"' :: rest) = .ok (s, rest) := by
  induction s with
  | nil => rfl
  | cons c s ih =>
    obtain ⟨⟨hquote, hescape, hcontrol⟩, hs⟩ := List.forall_mem_cons.mp h
    rw [List.cons_append, readString, if_neg hquote, if_neg hescape,
      if_neg (Nat.not_lt_of_le hcontrol), ih hs]
    rfl

theorem readScalar_quote {s : String} (h : Plain s) (rest : List Char) :
    readScalar (skipSpace (quote s.toList ++ rest)) = .ok (.text s.toList, rest) := by
  change (readString .plain (s.toList ++ ['"'] ++ rest)).map _ = _
  rw [List.append_assoc, List.singleton_append, readString_plain h]
  rfl

theorem readValue_quote (visit : Value → Except Refusal α) {s : String} (hs : Plain s)
    (rest : List Char) : readValue (Scalar.accept visit) (quote s.toList ++ rest) =
      ((visit (.text s)).map fun a => (a, rest)).mapError fun _ => .data := by
  unfold readValue
  rw [readScalar_quote hs]
  dsimp only [bind, Except.bind]
  rw [Scalar.accept, String.ofList_toList]
  cases visit (.text s) <;> rfl

theorem readValue_quote_of_ok {s : String} (hs : Plain s) {a : α} (h : visit (.text s) = .ok a)
    (rest : List Char) :
    readValue (Scalar.accept visit) (quote s.toList ++ rest) = .ok (a, rest) := by
  rw [readValue_quote visit hs, h]
  rfl

theorem read_writeText_iff {s : String} (hs : Plain s) {a : α} :
    format.read visit (format.writeText s) = .ok a ↔ visit (.text s) = .ok a := by
  have hread := readValue_quote visit hs []
  rw [List.append_nil] at hread
  change readDocument (readValue (Scalar.accept visit)) (String.ofList (quote s.toList)) = _ ↔ _
  rw [readDocument, String.toList_ofList, hread]
  cases visit (.text s) with
  | error e => exact iff_of_false nofun nofun
  | ok b =>
    change Except.ok b = Except.ok a ↔ _
    rw [Except.ok.injEq, Except.ok.injEq]

/-- As many elements are read as there are, whatever more could be. -/
theorem readElements_quoteRest {s : String} (hs : Plain s) {a : α} (ha : visit (.text s) = .ok a)
    {texts : List String} {as : List α}
    (h : List.Forall₂ (fun s a => Plain s ∧ visit (.text s) = .ok a) texts as) {count : Nat}
    (hcount : texts.length < count) :
    readElements (Scalar.accept visit) count (quote s.toList ++ quoteRest texts) =
      .ok (a :: as, []) := by
  induction h generalizing s a count with
  | nil =>
    obtain ⟨count, rfl⟩ := Nat.exists_eq_add_one_of_ne_zero (Nat.ne_zero_of_lt hcount)
    rw [readElements, readValue_quote_of_ok hs ha]
    rfl
  | @cons t b texts as hnext _ ih =>
    obtain ⟨count, rfl⟩ := Nat.exists_eq_add_one_of_ne_zero (Nat.ne_zero_of_lt hcount)
    rw [readElements, readValue_quote_of_ok hs ha]
    change (readElements (Scalar.accept visit) count (quote t.toList ++ quoteRest texts) >>= _) = _
    rw [ih hnext.1 hnext.2 (Nat.lt_of_succ_lt_succ hcount)]
    rfl

theorem length_lt_quoteRest (texts : List String) : texts.length < (quoteRest texts).length := by
  induction texts with
  | nil => decide
  | cons s texts ih =>
    rw [quoteRest, List.cons_append, List.length_cons, List.length_cons, List.length_append]
    omega

theorem readList_quoteList {texts : List String} {as : List α}
    (h : List.Forall₂ (fun s a => Plain s ∧ visit (.text s) = .ok a) texts as) :
    readList (Scalar.accept visit) (quoteList texts) = .ok (as, []) := by
  cases h with
  | nil => rfl
  | @cons s a texts as hfirst hrest =>
    have hlength : texts.length < (quote s.toList ++ quoteRest texts).length :=
      Nat.lt_of_lt_of_le (length_lt_quoteRest texts) (by simp)
    exact readElements_quoteRest hfirst.1 hfirst.2 hrest hlength

end

theorem verbatim_format : format.Verbatim where
  read_writeText hs h := (read_writeText_iff hs).mpr h
  readList_writeTexts {α visit texts as} htexts h := by
    have hread := (List.forall₂_and_left texts as).mpr ⟨htexts, h⟩
    have hvisit := hread.imp fun s a hs => And.intro hs.1 ((read_writeText_iff hs.1).mp hs.2)
    change readDocument (readList (Scalar.accept visit)) (String.ofList (quoteList texts)) = _
    rw [readDocument, String.toList_ofList, readList_quoteList hvisit]
    rfl

end Json

end WideDecimal
