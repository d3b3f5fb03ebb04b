import WideDecimal.Proofs.Rescale

namespace WideDecimal.Coefficient

/-- A coefficient on its way through scales, with the scale it has reached. -/
structure Stage where
  value : Coefficient
  scale : Int32
  deriving DecidableEq

namespace Stage

def decimal (a : Stage) : ℚ := a.value.decimal a.scale

/-- One move to another scale, which succeeds. -/
def LeadsTo (a b : Stage) : Prop := rescale a.value a.scale b.scale = .ok b.value

instance (a b : Stage) : Decidable (a.LeadsTo b) :=
  inferInstanceAs (Decidable (rescale a.value a.scale b.scale = .ok b.value))

theorem leadsTo_iff {a b : Stage} :
    a.LeadsTo b ↔ InReach a.scale b.scale ∧ b.decimal = a.decimal := rescale_eq_ok_iff

end Stage

open Stage

theorem decimal_of_isChain {first : Stage} {route : List Stage}
    (h : (first :: route).IsChain LeadsTo) {a : Stage} (ha : a ∈ first :: route) :
    a.decimal = first.decimal := by
  induction route generalizing first with
  | nil =>
    obtain rfl : a = first := List.mem_singleton.mp ha
    rfl
  | cons next route ih =>
    obtain ⟨hmove, hrest⟩ := List.isChain_cons_cons.mp h
    rcases List.mem_cons.mp ha with rfl | hmem
    · rfl
    · exact (ih hrest hmem).trans (leadsTo_iff.mp hmove).2

theorem value_eq_of_decimal_eq {a b : Stage} (hdecimal : a.decimal = b.decimal)
    (hscale : a.scale = b.scale) : a.value = b.value := by
  unfold Stage.decimal at hdecimal
  rw [hscale] at hdecimal
  exact decimal_inj.mp hdecimal

/-- However many scales a value is moved through, the number stays the same at each of them. Where
the first scale returns, so does the value; where the last scale is in reach of the first, one move
leads there as well, to the same value; and any other way there ends with the same value. -/
theorem rescale_route_independent {first last : Stage} {route : List Stage}
    (h : (first :: route).IsChain LeadsTo) (hlast : (first :: route).getLast? = some last) :
    (∀ a ∈ first :: route, a.decimal = first.decimal) ∧
    (last.scale = first.scale → last.value = first.value) ∧
    (InReach first.scale last.scale →
      rescale first.value first.scale last.scale = .ok last.value) ∧
    ∀ (other : List Stage) (a : Stage), (first :: other).IsChain LeadsTo →
      (first :: other).getLast? = some a → a.scale = last.scale → a.value = last.value := by
  have hend := decimal_of_isChain h (List.mem_of_getLast? hlast)
  refine ⟨fun a ha => decimal_of_isChain h ha, ?_, ?_, ?_⟩
  · intro hscale
    exact value_eq_of_decimal_eq hend hscale
  · intro hreach
    exact leadsTo_iff.mpr ⟨hreach, hend⟩
  · intro other a hother ha hscale
    have hsame := decimal_of_isChain hother (List.mem_of_getLast? ha)
    exact value_eq_of_decimal_eq (hsame.trans hend.symm) hscale

/-- A hundred goes to 36 places, further than the coefficient of a thousand could, and down again to
tens, which one move reaches from where it started. -/
theorem rescale_route_independent_hundred :
    [(⟨⟨0, 100⟩, 0⟩ : Stage), ⟨powersOfTen.getD 38 one, 36⟩, ⟨powersOfTen.getD 30 one, 28⟩,
        ⟨powersOfTen.getD 21 one, 19⟩, ⟨powersOfTen.getD 12 one, 10⟩, ⟨⟨0, 1000⟩, 1⟩,
        ⟨⟨0, 10⟩, -1⟩].IsChain LeadsTo ∧
      InReach 0 (-1) ∧ rescale ⟨0, 100⟩ 0 (-1) = .ok ⟨0, 10⟩ := by
  have hchain : [(⟨⟨0, 100⟩, 0⟩ : Stage), ⟨powersOfTen.getD 38 one, 36⟩,
      ⟨powersOfTen.getD 30 one, 28⟩, ⟨powersOfTen.getD 21 one, 19⟩,
      ⟨powersOfTen.getD 12 one, 10⟩, ⟨⟨0, 1000⟩, 1⟩, ⟨⟨0, 10⟩, -1⟩].IsChain LeadsTo := by
    decide
  have hreach : InReach 0 (-1) := by
    unfold InReach
    decide
  exact ⟨hchain, hreach, (rescale_route_independent hchain rfl).2.2.1 hreach⟩

end WideDecimal.Coefficient
