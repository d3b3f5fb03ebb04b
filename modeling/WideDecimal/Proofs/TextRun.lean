import Mathlib.Data.List.TakeDrop
import Mathlib.Data.List.TakeWhile

namespace WideDecimal

/-- A text that starts with no character of a kind. -/
def Clear (p : Char → Bool) (text : List Char) : Prop := ∀ c ∈ text.head?, p c = false

theorem clear_nil (p : Char → Bool) : Clear p [] := fun _ hc => nomatch hc

theorem clear_cons {p : Char → Bool} {c : Char} (h : p c = false) (text : List Char) :
    Clear p (c :: text) := by
  intro d hd
  cases hd
  exact h

theorem clear_append_iff {p : Char → Bool} {front : List Char} (hne : front ≠ [])
    (back : List Char) : Clear p (front ++ back) ↔ Clear p front := by
  obtain ⟨c, front, rfl⟩ := List.exists_cons_of_ne_nil hne
  exact Iff.rfl

theorem span_append {p : Char → Bool} {run text : List Char} (hrun : ∀ c ∈ run, p c)
    (htext : Clear p text) : (run ++ text).span p = (run, text) := by
  have hstop : text.takeWhile p = [] ∧ text.dropWhile p = text := by
    cases text with
    | nil => exact ⟨rfl, rfl⟩
    | cons c text => simp [htext c rfl]
  rw [List.span_eq_takeWhile_dropWhile, List.takeWhile_append_of_pos hrun,
    List.dropWhile_append_of_pos hrun, hstop.1, hstop.2, List.append_nil]

theorem span_spec (p : Char → Bool) (text : List Char) :
    text = (text.span p).1 ++ (text.span p).2 ∧ (∀ c ∈ (text.span p).1, p c) ∧
      Clear p (text.span p).2 := by
  rw [List.span_eq_takeWhile_dropWhile]
  refine ⟨List.takeWhile_append_dropWhile.symm, fun c hc => List.mem_takeWhile_imp hc, ?_⟩
  intro c hc
  have hstop := List.head?_dropWhile_not p text
  rw [Option.mem_def.mp hc] at hstop
  simpa using hstop

end WideDecimal
