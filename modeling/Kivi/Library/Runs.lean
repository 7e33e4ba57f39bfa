import Mathlib

/-!
# Runs of a deterministic machine

`run step s inputs` feeds a list of inputs to a machine one at a time. `run_invariant` carries
what every step preserves to whole runs, `run_invariant_along` does so when only the steps that
meet a guard preserve it (`forall_states_iff_along` when no other step does), and `run_relation`
relates the two ends of a run by any relation that is reflexive, transitive and contains every
step. `collect` lists what a run gives out, and `run_simulates` reads that list as the run of an
abstract machine.
-/

namespace Kivi.Library.Runs

universe u v w x

variable {σ : Type u} {ι : Type v} {ο : Type w} {α : Type x} (step : σ → ι → σ)

/-- The state after all inputs, in order. -/
def run (s : σ) (inputs : List ι) : σ := inputs.foldl step s

/-- The states some run from `init` ends in. -/
def Reachable (init s : σ) : Prop := ∃ inputs, run step init inputs = s

/-- Every step of the run from `s` meets `guard` in the state it starts from. -/
def Along (guard : σ → ι → Prop) : σ → List ι → Prop
  | _, [] => True
  | s, input :: rest => guard s input ∧ Along guard (step s input) rest

/-- What the steps of the run from `s` give out, in order. -/
def collect (out : σ → ι → Option ο) : σ → List ι → List ο
  | _, [] => []
  | s, input :: rest => (out s input).toList ++ collect out (step s input) rest

instance {guard : σ → ι → Prop} [∀ s input, Decidable (guard s input)] :
    ∀ s inputs, Decidable (Along step guard s inputs)
  | _, [] => isTrue trivial
  | s, input :: rest =>
    have : Decidable (Along step guard (step s input) rest) :=
      instDecidableAlong (step s input) rest
    inferInstanceAs (Decidable (_ ∧ _))

variable {step}

@[simp] theorem run_nil (s : σ) : run step s [] = s := rfl

@[simp] theorem run_cons (s : σ) (input : ι) (rest : List ι) :
    run step s (input :: rest) = run step (step s input) rest := rfl

theorem run_append (s : σ) (first second : List ι) :
    run step s (first ++ second) = run step (run step s first) second :=
  List.foldl_append

theorem Reachable.refl (init : σ) : Reachable step init init := ⟨[], rfl⟩

variable {s : σ}

theorem Reachable.run {init : σ} (h : Reachable step init s) (inputs : List ι) :
    Reachable step init (Runs.run step s inputs) := by
  obtain ⟨before, rfl⟩ := h
  exact ⟨before ++ inputs, run_append init before inputs⟩

/-- What every step preserves, every run preserves. -/
theorem run_invariant {P : σ → Prop} (hstep : ∀ s input, P s → P (step s input)) (hs : P s)
    (inputs : List ι) : P (run step s inputs) := by
  induction inputs generalizing s with
  | nil => exact hs
  | cons input rest ih => exact ih (hstep s input hs)

theorem Reachable.invariant {P : σ → Prop} {init : σ} (hinit : P init)
    (hstep : ∀ s input, P s → P (step s input)) (h : Reachable step init s) : P s := by
  obtain ⟨inputs, rfl⟩ := h
  exact run_invariant hstep hinit inputs

variable {guard : σ → ι → Prop} {inputs : List ι}

/-- What every guarded step preserves, every run of guarded steps preserves. -/
theorem run_invariant_along {P : σ → Prop}
    (hstep : ∀ s input, guard s input → P s → P (step s input)) (hs : P s)
    (halong : Along step guard s inputs) :
    P (run step s inputs) := by
  induction inputs generalizing s with
  | nil => exact hs
  | cons input rest ih => exact ih (hstep s input halong.1 hs) halong.2

theorem along_append {first second : List ι} :
    Along step guard s (first ++ second) ↔
      Along step guard s first ∧ Along step guard (run step s first) second := by
  induction first generalizing s with
  | nil => simp [Along]
  | cons input rest ih => simp [Along, ih, and_assoc]

/-- A guard along a run is a guard behind every beginning of it. -/
theorem along_iff_forall_splits :
    Along step guard s inputs ↔
      ∀ front input back, inputs = front ++ input :: back → guard (run step s front) input := by
  constructor
  · rintro halong front input back rfl
    exact (along_append.mp halong).2.1
  · intro h
    induction inputs generalizing s with
    | nil => trivial
    | cons first rest ih =>
      refine ⟨h [] first rest rfl, ih fun front input back hrest ↦ ?_⟩
      exact h (first :: front) input back (congrArg (first :: ·) hrest)

theorem Along.mono {weaker : σ → ι → Prop} (himp : ∀ s input, guard s input → weaker s input)
    (h : Along step guard s inputs) : Along step weaker s inputs := by
  induction inputs generalizing s with
  | nil => trivial
  | cons input rest ih => exact ⟨himp s input h.1, ih h.2⟩

/-- An invariant of the guarded steps holds in every state that a guarded run reaches. -/
theorem Along.and_invariant {P : σ → Prop}
    (hstep : ∀ s input, guard s input → P s → P (step s input)) (hs : P s)
    (h : Along step guard s inputs) :
    Along step (fun s input ↦ guard s input ∧ P s) s inputs := by
  induction inputs generalizing s with
  | nil => trivial
  | cons input rest ih => exact ⟨⟨h.1, hs⟩, ih (hstep s input h.1 hs) h.2⟩

/-- When the steps that keep `P` are those that meet the guard, `P` holds in every state of a run
exactly if every step of it meets the guard. -/
theorem forall_states_iff_along {P : σ → Prop}
    (hstep : ∀ s input, P s → (P (step s input) ↔ guard s input)) (hs : P s) :
    (∀ front back, inputs = front ++ back → P (run step s front)) ↔ Along step guard s inputs := by
  induction inputs generalizing s with
  | nil =>
    refine ⟨fun _ ↦ trivial, fun _ front back hsplit ↦ ?_⟩
    rw [(List.append_eq_nil_iff.mp hsplit.symm).1]
    exact hs
  | cons input rest ih =>
    constructor
    · intro hall
      have hnext : P (step s input) := hall [input] rest rfl
      refine ⟨(hstep s input hs).mp hnext, (ih hnext).mp fun front back hsplit ↦ ?_⟩
      exact hall (input :: front) back (by rw [hsplit]; rfl)
    · rintro ⟨hguard, halong⟩ front back hsplit
      rcases List.append_eq_cons_iff.mp hsplit.symm with ⟨rfl, -⟩ | ⟨others, rfl, hrest⟩
      · exact hs
      · exact (ih ((hstep s input hs).mpr hguard)).mpr halong others back hrest

/-- A guard on the inputs alone holds along every run of inputs that meet it. -/
theorem along_of_forall {guard : ι → Prop} (s : σ) (h : ∀ input ∈ inputs, guard input) :
    Along step (fun _ input ↦ guard input) s inputs := by
  induction inputs generalizing s with
  | nil => trivial
  | cons input rest ih =>
    exact ⟨h input List.mem_cons_self,
      ih (step s input) fun other hmem ↦ h other (List.mem_cons_of_mem _ hmem)⟩

/-- A preorder that contains every guarded step relates the two ends of a guarded run. -/
theorem run_relation {R : σ → σ → Prop} (hrefl : ∀ s, R s s)
    (htrans : ∀ {a b c}, R a b → R b c → R a c)
    (hstep : ∀ s input, guard s input → R s (step s input)) (halong : Along step guard s inputs) :
    R s (run step s inputs) := by
  induction inputs generalizing s with
  | nil => exact hrefl s
  | cons input rest ih => exact htrans (hstep s input halong.1) (ih halong.2)

/-- What every guarded step preserves of the state and of what was given out so far, every run
of guarded steps preserves. -/
theorem collect_invariant_along {P : List ο → σ → Prop} {out : σ → ι → Option ο}
    (hstep : ∀ given s input, guard s input → P given s →
      P (given ++ (out s input).toList) (step s input))
    {given : List ο} (hs : P given s) (halong : Along step guard s inputs) :
    P (given ++ collect step out s inputs) (run step s inputs) := by
  induction inputs generalizing given s with
  | nil => simpa [collect] using hs
  | cons input rest ih =>
    have hrest := ih (hstep given s input halong.1 hs) halong.2
    rwa [List.append_assoc] at hrest

/-- When each guarded step is seen as the abstract steps that its output names, a guarded run is
seen as the abstract run of everything it gives out. -/
theorem run_simulates (view : σ → α) (out : σ → ι → Option ο) {abstractStep : α → ο → α}
    {abstractGuard : α → ο → Prop}
    (hstep : ∀ s input, guard s input →
      view (step s input) = run abstractStep (view s) (out s input).toList ∧
        Along abstractStep abstractGuard (view s) (out s input).toList)
    (halong : Along step guard s inputs) :
    view (run step s inputs) = run abstractStep (view s) (collect step out s inputs) ∧
      Along abstractStep abstractGuard (view s) (collect step out s inputs) := by
  induction inputs generalizing s with
  | nil => exact ⟨rfl, trivial⟩
  | cons input rest ih =>
    obtain ⟨hview, hguard⟩ := hstep s input halong.1
    obtain ⟨hrun, hrest⟩ := ih halong.2
    rw [hview] at hrun hrest
    exact ⟨hrun.trans (run_append _ _ _).symm, along_append.mpr ⟨hguard, hrest⟩⟩

end Kivi.Library.Runs
