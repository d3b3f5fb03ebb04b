import WideDecimal.Proofs.Rescale
import WideDecimal.Proofs.RoundTrip
import WideDecimal.Register

namespace WideDecimal.Register

variable {r next : Register} {s : Step} {detail : Detail}

/-- The register after a step, which is the one before it where the step fails. -/
def after (r : Register) (s : Step) : Register :=
  match r.step s with
  | .ok (next, _) => next
  | .error _ => r

theorem after_of_ok (h : r.step s = .ok (next, detail)) : r.after s = next := by
  unfold after
  rw [h]

theorem after_of_error {e : Failure} (h : r.step s = .error e) : r.after s = r := by
  unfold after
  rw [h]

/-- The register that the steps leave, one after the other. -/
def last (r : Register) (steps : List Step) : Register := steps.foldl after r

theorem last_cons (steps : List Step) : r.last (s :: steps) = (r.after s).last steps := rfl

theorem last_append (steps more : List Step) :
    r.last (steps ++ more) = (r.last steps).last more := List.foldl_append

theorem run_cons (steps : List Step) :
    r.run (s :: steps) = r.step s :: (r.after s).run steps := by
  cases h : r.step s with
  | ok result =>
    obtain ⟨next, detail⟩ := result
    rw [after_of_ok h, run, h]
  | error e => rw [after_of_error h, run, h]

theorem length_run (steps : List Step) : (r.run steps).length = steps.length := by
  induction steps generalizing r with
  | nil => rfl
  | cons s steps ih => rw [run_cons, List.length_cons, List.length_cons, ih]

/-- The steps after some others do what they do from the register that those leave. -/
theorem run_append (steps more : List Step) :
    r.run (steps ++ more) = r.run steps ++ (r.last steps).run more := by
  induction steps generalizing r with
  | nil => rfl
  | cons s steps ih => rw [List.cons_append, run_cons, run_cons, ih, last_cons, List.cons_append]

/-- A step that fails, wherever it stands, takes nothing from the steps around it: their outcomes
and the register at the end are those without it. -/
theorem run_append_cons_of_error {steps : List Step} {e : Failure}
    (h : (r.last steps).step s = .error e) (more : List Step) :
    r.run (steps ++ s :: more) = r.run steps ++ .error e :: (r.last steps).run more ∧
      r.last (steps ++ s :: more) = r.last (steps ++ more) := by
  constructor
  · rw [run_append, run_cons, h, after_of_error h]
  · rw [last_append, last_cons, after_of_error h, last_append]

/-- What the first register has and every step keeps, all registers of a run have. -/
theorem forall_run {p : Register → Prop} {steps : List Step} (hfirst : p r)
    (hkeeps : ∀ s ∈ steps, ∀ r, p r → p (r.after s)) :
    p (r.last steps) ∧ ∀ next detail, .ok (next, detail) ∈ r.run steps → p next := by
  induction steps generalizing r with
  | nil => exact ⟨hfirst, fun _ _ hmem => nomatch hmem⟩
  | cons s steps ih =>
    obtain ⟨hs, hsteps⟩ := List.forall_mem_cons.mp hkeeps
    have hnext := hs r hfirst
    obtain ⟨hlast, hrun⟩ := ih hnext hsteps
    refine ⟨hlast, fun next detail hmem => ?_⟩
    rw [run_cons] at hmem
    rcases List.mem_cons.mp hmem with hstep | hmem
    · exact after_of_ok hstep.symm ▸ hnext
    · exact hrun next detail hmem

/-- A step keeps what it keeps where it succeeds. -/
theorem after_induction {p : Register → Prop} (hfirst : p r)
    (h : ∀ next detail, r.step s = .ok (next, detail) → p next) : p (r.after s) := by
  cases hstep : r.step s with
  | ok result =>
    rw [after_of_ok hstep]
    exact h result.1 result.2 hstep
  | error e => rwa [after_of_error hstep]

theorem mapError_eq_ok {α ε : Type} {x : Except ε α} {f : ε → Failure} {a : α}
    (h : x.mapError f = .ok a) : x = .ok a := by
  cases x with
  | error e => cases h
  | ok b => cases h; rfl

theorem parse_eq_ok {text : String} (h : r.parse text = .ok (next, detail)) :
    ∃ l, Literal.ofString text = .ok l ∧ next = { r with value := l.value, scale := l.scale } ∧
      detail = .precision l.precision := by
  obtain ⟨l, hl, hnext⟩ := bind_eq_ok_iff.mp h
  cases hnext
  exact ⟨l, mapError_eq_ok hl, rfl, rfl⟩

def Step.WritesMemory : Step → Prop
  | .store | .swap => True
  | _ => False

def Step.WritesScale : Step → Prop
  | .setScale _ | .parse _ | .reparse | .rescale _ => True
  | _ => False

/-- Only storing and swapping write the memory, and no operation on values writes the scale. -/
theorem step_frame (h : r.step s = .ok (next, detail)) :
    (¬s.WritesMemory → next.memory = r.memory) ∧ (¬s.WritesScale → next.scale = r.scale) := by
  cases s with
  | set x => cases h; exact ⟨fun _ => rfl, fun _ => rfl⟩
  | setScale scale => cases h; exact ⟨fun _ => rfl, fun hs => absurd trivial hs⟩
  | store => cases h; exact ⟨fun hs => absurd trivial hs, fun _ => rfl⟩
  | swap => cases h; exact ⟨fun hs => absurd trivial hs, fun _ => rfl⟩
  | parse text =>
    obtain ⟨l, -, rfl, -⟩ := parse_eq_ok h
    exact ⟨fun _ => rfl, fun hs => absurd trivial hs⟩
  | reparse =>
    obtain ⟨l, -, rfl, -⟩ := parse_eq_ok h
    exact ⟨fun _ => rfl, fun hs => absurd trivial hs⟩
  | rescale scale =>
    obtain ⟨v, -, hnext⟩ := bind_eq_ok_iff.mp h
    cases hnext
    exact ⟨fun _ => rfl, fun hs => absurd trivial hs⟩
  | divide x =>
    obtain ⟨result, -, hnext⟩ := bind_eq_ok_iff.mp h
    cases hnext
    exact ⟨fun _ => rfl, fun _ => rfl⟩
  | binary operation x =>
    obtain ⟨v, -, hnext⟩ := bind_eq_ok_iff.mp h
    cases hnext
    exact ⟨fun _ => rfl, fun _ => rfl⟩
  | unary operation =>
    obtain ⟨v, -, hnext⟩ := bind_eq_ok_iff.mp h
    cases hnext
    exact ⟨fun _ => rfl, fun _ => rfl⟩

theorem memory_run {steps : List Step} (h : ∀ s ∈ steps, ¬s.WritesMemory) :
    (r.last steps).memory = r.memory ∧
      ∀ next detail, .ok (next, detail) ∈ r.run steps → next.memory = r.memory :=
  forall_run (p := (·.memory = r.memory)) rfl fun s hs _ hp =>
    after_induction hp fun _ _ hstep => ((step_frame hstep).1 (h s hs)).trans hp

theorem scale_run {steps : List Step} (h : ∀ s ∈ steps, ¬s.WritesScale) :
    (r.last steps).scale = r.scale ∧
      ∀ next detail, .ok (next, detail) ∈ r.run steps → next.scale = r.scale :=
  forall_run (p := (·.scale = r.scale)) rfl fun s hs _ hp =>
    after_induction hp fun _ _ hstep => ((step_frame hstep).2 (h s hs)).trans hp

/-- The number that the value denotes at the scale. -/
def decimal (r : Register) : ℚ := r.value.decimal r.scale

def Step.KeepsNumber : Step → Prop
  | .store | .reparse | .rescale _ => True
  | _ => False

theorem step_reparse (h : r.step .reparse = .ok (next, detail)) : next = r := by
  obtain ⟨l, hl, rfl, -⟩ := parse_eq_ok h
  obtain ⟨hvalue, hscale, -, -⟩ := Coefficient.ofString_scaledText_iff.mp hl
  rw [hvalue, hscale]

theorem step_rescale {scale : Int32} (h : r.step (.rescale scale) = .ok (next, detail)) :
    next.scale = scale ∧ next.decimal = r.decimal := by
  obtain ⟨v, hv, hnext⟩ := bind_eq_ok_iff.mp h
  cases hnext
  exact ⟨rfl, (Coefficient.rescale_eq_ok_iff.mp (mapError_eq_ok hv)).2⟩

theorem decimal_step (hs : s.KeepsNumber) (h : r.step s = .ok (next, detail)) :
    next.decimal = r.decimal := by
  cases s with
  | store => cases h; rfl
  | reparse => rw [step_reparse h]
  | rescale scale => exact (step_rescale h).2
  | set | setScale | swap | parse | divide | binary | unary => exact hs.elim

/-- However often a register is moved to other scales, written out and read back, it holds the
number it started with. -/
theorem decimal_run {steps : List Step} (h : ∀ s ∈ steps, s.KeepsNumber) :
    (r.last steps).decimal = r.decimal ∧
      ∀ next detail, .ok (next, detail) ∈ r.run steps → next.decimal = r.decimal :=
  forall_run (p := (·.decimal = r.decimal)) rfl fun s hs _ hp =>
    after_induction hp fun _ _ hstep => (decimal_step (h s hs) hstep).trans hp

end WideDecimal.Register
