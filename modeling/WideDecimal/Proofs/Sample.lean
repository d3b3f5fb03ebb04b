import WideDecimal.Proofs.Draw
import WideDecimal.Proofs.RangeValues

namespace WideDecimal.Sampling

/-- A run of draws, each from what the one before has left of the source. -/
inductive Range.Runs (r : Range) : Source → List Coefficient → Source → Prop
  | done (s : Source) : Runs r s [] s
  | draw {s next rest : Source} {m : Int} {vs : List Coefficient} (h : r.Draws s m next)
      (hnext : Runs r next vs rest) : Runs r s (.ofInt m :: vs) rest

section Repeat

variable {draw : Source → Coefficient × Source}

theorem length_repeatDraw (draw : Source → Coefficient × Source) (count : Nat) (s : Source) :
    (repeatDraw draw count s).1.length = count := by
  induction count generalizing s with
  | zero => rfl
  | succ count ih => exact congrArg Nat.succ (ih _)

theorem repeatDraw_succ {s next : Source} {v : Coefficient} (h : draw s = (v, next))
    (count : Nat) : repeatDraw draw (count + 1) s =
      (v :: (repeatDraw draw count next).1, (repeatDraw draw count next).2) := by
  rw [repeatDraw, h]

variable {r : Range}

theorem repeatDraw_of_runs (hdraw : ∀ {s rest m}, r.Draws s m rest → draw s = (.ofInt m, rest))
    {s rest : Source} {vs : List Coefficient} (h : r.Runs s vs rest) :
    repeatDraw draw vs.length s = (vs, rest) := by
  induction h with
  | done s => rfl
  | draw h _ ih => rw [List.length_cons, repeatDraw_succ (hdraw h), ih]

theorem runs_repeatDraw (hdraw : ∀ {s rest m}, r.Draws s m rest → draw s = (.ofInt m, rest))
    (count : Nat) (s : Source) :
    r.Runs s (repeatDraw draw count s).1 (repeatDraw draw count s).2 := by
  induction count generalizing s with
  | zero => exact .done s
  | succ count ih =>
    have hdraws := r.draws_draw s
    rw [repeatDraw_succ (hdraw hdraws)]
    exact .draw hdraws (ih _)

theorem repeatDraw_eq_iff (hdraw : ∀ {s rest m}, r.Draws s m rest → draw s = (.ofInt m, rest))
    {count : Nat} {s rest : Source} {vs : List Coefficient} :
    repeatDraw draw count s = (vs, rest) ↔ vs.length = count ∧ r.Runs s vs rest := by
  constructor
  · intro h
    have hlength := length_repeatDraw draw count s
    have hruns := runs_repeatDraw hdraw count s
    rw [h] at hlength hruns
    exact ⟨hlength, hruns⟩
  · rintro ⟨rfl, h⟩
    exact repeatDraw_of_runs hdraw h

end Repeat

variable {low high : Coefficient} {inclusive : Bool} {request : Request}

theorem mem_values_of_runs (hne : (values low high inclusive).Nonempty) {s rest : Source}
    {vs : List Coefficient}
    (h : (Range.between low.toInt high.toInt inclusive).Runs s vs rest) :
    ∀ v ∈ vs, v ∈ values low high inclusive := by
  induction h with
  | done => exact fun v hv => absurd hv List.not_mem_nil
  | draw h _ ih =>
    obtain ⟨n, hn, hpick⟩ := h.exists_pick
    exact List.forall_mem_cons.mpr ⟨mem_values_of_pick hne hn hpick, ih⟩

theorem runs_singleton_iff {r : Range} {s rest : Source} {v : Coefficient} :
    r.Runs s [v] rest ↔ ∃ m, r.Draws s m rest ∧ .ofInt m = v := by
  constructor
  · intro h
    cases h with
    | draw h hnext =>
      cases hnext
      exact ⟨_, h, rfl⟩
  · rintro ⟨m, h, rfl⟩
    exact .draw h (.done rest)

namespace Sampler

variable {u : Sampler}

theorem Lawful.ofRange_eq_error_iff (hu : u.Lawful) :
    (∃ trap, u.ofRange request low high inclusive = .error trap) ↔
      values low high inclusive = ∅ := by
  have hbounds : (∃ trap, u.ofBounds low.toInt high.toInt inclusive = .error trap) ↔
      values low high inclusive = ∅ := by
    rw [hu.refuses_iff, bounds_iff, Set.not_nonempty_iff_eq_empty]
  cases request with
  | distribution => exact hbounds
  | single =>
    change (∃ trap, (if nonempty low high inclusive then
      u.ofBounds low.toInt high.toInt inclusive else .error .emptyRange) = .error trap) ↔ _
    split
    next => exact hbounds
    next h =>
      rw [nonempty_iff, Set.not_nonempty_iff_eq_empty] at h
      exact iff_of_true ⟨_, rfl⟩ h

theorem ofBounds_of_ofRange {state : u.State}
    (h : u.ofRange request low high inclusive = .ok state) :
    u.ofBounds low.toInt high.toInt inclusive = .ok state := by
  cases request with
  | distribution => exact h
  | single =>
    unfold ofRange at h
    dsimp only at h
    split at h
    next => exact h
    next => cases h

theorem Lawful.drawCoefficient_eq (hu : u.Lawful) {state : u.State}
    (h : u.ofRange request low high inclusive = .ok state) {s rest : Source} {m : Int}
    (hdraws : (Range.between low.toInt high.toInt inclusive).Draws s m rest) :
    u.drawCoefficient state s = (.ofInt m, rest) := by
  rw [drawCoefficient, hu.draw_eq (ofBounds_of_ofRange h) hdraws]

end Sampler

variable {u : Sampler}

theorem sample_succ (request : Request) (low high : Coefficient) (inclusive : Bool) (count : Nat)
    (s : Source) : sample request low high inclusive (count + 1) s u =
      (u.ofRange request low high inclusive).map fun state =>
        repeatDraw (u.drawCoefficient state) (count + 1) s := by
  cases request <;> rfl

theorem sample_eq_error_iff (hu : u.Lawful) {count : Nat} {s : Source} :
    (∃ trap, sample request low high inclusive (count + 1) s u = .error trap) ↔
      values low high inclusive = ∅ := by
  have hrefused : (∃ trap, u.ofRange request low high inclusive = .error trap) ↔
      values low high inclusive = ∅ := hu.ofRange_eq_error_iff
  rw [sample_succ, ← hrefused]
  cases u.ofRange request low high inclusive <;> simp [Except.map]

theorem sample_eq_ok_iff (hu : u.Lawful) (hne : (values low high inclusive).Nonempty) {count : Nat}
    {s rest : Source} {vs : List Coefficient} :
    sample request low high inclusive (count + 1) s u = .ok (vs, rest) ↔
      vs.length = count + 1 ∧ (Range.between low.toInt high.toInt inclusive).Runs s vs rest := by
  rw [sample_succ]
  cases hstate : u.ofRange request low high inclusive with
  | error trap =>
    have hempty := hu.ofRange_eq_error_iff.mp ⟨trap, hstate⟩
    exact absurd hempty hne.ne_empty
  | ok state =>
    rw [← repeatDraw_eq_iff (hu.drawCoefficient_eq hstate), Except.map, Except.ok.injEq]

theorem sample_withNumber_eq_ok_iff (hu : u.Lawful) (hne : (values low high inclusive).Nonempty)
    {s : Source} {n : Nat} (hn : n < modulus) {v : Coefficient} :
    sample request low high inclusive 1 (s.withNumber n) u = .ok ([v], ⟨s.words, s.used + 2⟩) ↔
      (Range.between low.toInt high.toInt inclusive).pick n = some v.toInt := by
  rw [sample_eq_ok_iff hu hne, runs_singleton_iff]
  simp only [Range.draws_withNumber_iff hn]
  constructor
  · rintro ⟨-, m, hpick, rfl⟩
    have hfits := Range.fits_of_pick hpick
    rwa [Coefficient.toInt_ofInt_of_bounds hfits.1 hfits.2]
  · intro hpick
    exact ⟨rfl, v.toInt, hpick, Coefficient.ofInt_toInt v⟩

theorem ncard_sample_withNumber (hu : u.Lawful)
    (hpart : (values low high inclusive).ncard < 2 ^ 128) (s : Source) {v : Coefficient}
    (hv : v ∈ values low high inclusive) :
    {n | n < 2 ^ 128 ∧ sample request low high inclusive 1 (s.withNumber n) u =
      .ok ([v], ⟨s.words, s.used + 2⟩)}.ncard = 2 ^ 128 / (values low high inclusive).ncard := by
  rw [← count_pick_between hpart hv, Nat.count_eq_card_filter_range, ← Set.ncard_coe_finset]
  congr 1
  ext n
  rw [Finset.mem_coe, Finset.mem_filter, Finset.mem_range]
  exact and_congr_right fun hn => sample_withNumber_eq_ok_iff hu ⟨v, hv⟩ hn

/-- Sampling traps exactly where the range holds no value. Otherwise it gives what as many draws
give, one after another: each of them takes numbers until one is kept, which comes to an end
whatever the source, and each gives a value of the range. Zero is always kept at once, and a range
that leaves values out keeps equally many of the `2 ^ 128` numbers for each of its own. -/
theorem sample_unbiased {u : Sampler} (hu : u.Lawful) (request : Request) (low high : Coefficient)
    (inclusive : Bool) :
    (∀ count s, (∃ trap, sample request low high inclusive (count + 1) s u = .error trap) ↔
      values low high inclusive = ∅) ∧
    ((values low high inclusive).Nonempty →
      (∀ count s vs rest, sample request low high inclusive (count + 1) s u = .ok (vs, rest) ↔
        vs.length = count + 1 ∧ (Range.between low.toInt high.toInt inclusive).Runs s vs rest) ∧
      (∀ s, ∃! drawn : Int × Source,
        (Range.between low.toInt high.toInt inclusive).Draws s drawn.1 drawn.2) ∧
      (∀ count s vs rest, sample request low high inclusive (count + 1) s u = .ok (vs, rest) →
        ∀ v ∈ vs, v ∈ values low high inclusive) ∧
      (∀ s : Source, ∃ v, sample request low high inclusive 1 (s.withNumber 0) u =
        .ok ([v], ⟨s.words, s.used + 2⟩)) ∧
      ((values low high inclusive).ncard < 2 ^ 128 →
        ∀ s : Source, ∀ v ∈ values low high inclusive, {n | n < 2 ^ 128 ∧
          sample request low high inclusive 1 (s.withNumber n) u =
            .ok ([v], ⟨s.words, s.used + 2⟩)}.ncard =
          2 ^ 128 / (values low high inclusive).ncard)) := by
  refine ⟨fun _ _ => sample_eq_error_iff hu, fun hne => ⟨fun _ _ _ _ => sample_eq_ok_iff hu hne,
    fun s => ?_, fun _ _ _ _ h => ?_, fun s => ?_, fun hpart s v hv => ?_⟩⟩
  · refine ⟨_, Range.draws_draw _ s, fun drawn hdrawn => ?_⟩
    obtain ⟨hm, hrest⟩ := hdrawn.unique (Range.draws_draw _ s)
    exact Prod.ext hm hrest
  · exact mem_values_of_runs hne ((sample_eq_ok_iff hu hne).mp h).2
  · obtain ⟨m, hpick⟩ := Option.isSome_iff_exists.mp (Range.isSome_pick_zero _)
    have hdraws := (Range.draws_withNumber_iff (s := s) (by decide)).mpr hpick
    exact ⟨.ofInt m, (sample_eq_ok_iff hu hne).mpr ⟨rfl, .draw hdraws (.done _)⟩⟩
  · exact ncard_sample_withNumber hu hpart s hv

/-- Of the three values from `-2` to `0` two are drawn from five words, of which the first two make
a number that is not kept. Of all values but the greatest each is drawn from one number. -/
theorem sample_unbiased_widest :
    sample .distribution (.ofInt (-2)) .one false 2
        ⟨[0x5555555555555555, 0x5555555555555555, 0, 0x8000000000000000, 7], 0⟩ =
      .ok ([.negOne, .ofInt (-2)], ⟨[], 6⟩) ∧
    (∃ trap, sample .single .one .zero true 1 ⟨[], 0⟩ = .error trap) ∧
    {n | n < 2 ^ 128 ∧ sample .single .least .greatest false 1 (Source.withNumber ⟨[], 0⟩ n) =
      .ok ([.zero], ⟨[], 2⟩)}.ncard = 1 := by
  refine ⟨?_, ?_, ?_⟩
  · have hne : (values (.ofInt (-2)) .one false).Nonempty := values_nonempty_iff.mpr (by decide)
    have hrange : Range.between (Coefficient.ofInt (-2)).toInt Coefficient.one.toInt false =
      ⟨-2, 3⟩ := by rfl
    have hfirst : (⟨[0x5555555555555555, 0x5555555555555555, 0, 0x8000000000000000, 7], 0⟩ :
        Source).number = (0x55555555555555555555555555555555, ⟨[0, 0x8000000000000000, 7], 2⟩) := by
      rw [Source.number_pair]
      rfl
    have hsecond : (⟨[0, 0x8000000000000000, 7], 2⟩ : Source).number = (2 ^ 127, ⟨[7], 4⟩) := by
      rw [Source.number_pair]
      rfl
    have hagain : (⟨-2, 3⟩ : Range).pick 0x55555555555555555555555555555555 = none := by decide
    have hmiddle : (⟨-2, 3⟩ : Range).pick (2 ^ 127) = some (-1) := by decide
    have hleast : (⟨-2, 3⟩ : Range).pick 7 = some (-2) := by decide
    obtain ⟨hsample, -⟩ :=
      (sample_unbiased lawful_widening .distribution (.ofInt (-2)) .one false).2 hne
    rw [hrange] at hsample
    refine (hsample 1 _ _ _).mpr ⟨rfl, ?_⟩
    exact .draw (.again hfirst hagain (.kept hsecond hmiddle))
      (.draw (.kept (Source.number_single 7 4) hleast) (.done _))
  · have hempty : values .one .zero true = ∅ := by
      rw [← Set.not_nonempty_iff_eq_empty, values_nonempty_iff]
      decide
    exact ((sample_unbiased lawful_widening .single .one .zero true).1 0 _).mpr hempty
  · have hzero : .zero ∈ values .least .greatest false := mem_values_iff.mpr (by decide)
    have hncard : (values .least .greatest false).ncard = 2 ^ 128 - 1 := by
      rw [ncard_values]
      decide
    obtain ⟨-, -, -, -, hcount⟩ :=
      (sample_unbiased lawful_widening .single .least .greatest false).2 ⟨_, hzero⟩
    have hone := hcount (by rw [hncard]; decide) ⟨[], 0⟩ .zero hzero
    rw [hncard] at hone
    exact hone.trans (by decide)

end WideDecimal.Sampling
