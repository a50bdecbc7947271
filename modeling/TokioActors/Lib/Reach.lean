/-
# Runs of a labelled machine

A machine is a partial step function: the label carries whatever the machine
does not decide itself. A run is a list of labels; a conditional run is one
whose steps all meet a condition on the state they leave and the label they
take. The rules below carry a property along runs, and turn a computed run into
a reached state.
-/

import Mathlib.Logic.Relation

namespace Machine

universe u v

variable {σ : Type u} {α : Type v}

/-- Takes the labels in order, stopping at the first one that is not enabled. -/
def run (step : σ → α → Option σ) : σ → List α → Option σ
  | state, [] => some state
  | state, label :: labels => (step state label).bind fun next => run step next labels

/-- The states reached from `start` by steps that all meet `allowed`. -/
inductive Reaches (step : σ → α → Option σ) (allowed : σ → α → Prop) (start : σ) : σ → Prop
  | refl : Reaches step allowed start start
  | tail {state next : σ} {label : α} (before : Reaches step allowed start state)
      (meets : allowed state label) (taken : step state label = some next) :
      Reaches step allowed start next

/-- The condition every step meets. -/
def always (_ : σ) (_ : α) : Prop := True

variable {step : σ → α → Option σ} {allowed : σ → α → Prop} {start state next : σ}

/-- The invariant rule: what holds at the start and survives each allowed step
holds in every reached state. -/
theorem Reaches.invariant {inv : σ → Prop} (hstart : inv start)
    (hstep : ∀ state label next, inv state → allowed state label →
      step state label = some next → inv next)
    (hreach : Reaches step allowed start state) : inv state := by
  induction hreach with
  | refl => exact hstart
  | tail _ meets taken ih => exact hstep _ _ _ ih meets taken

/-- The simulation rule: when each allowed step from a fitting state is a sequence
of abstract steps and leaves a fitting state, so is every run. -/
theorem Reaches.simulation {κ : Type*} {view : σ → κ} {rel : κ → κ → Prop} {fit : σ → Prop}
    (hstart : fit start)
    (hstep : ∀ state label next, fit state → allowed state label →
      step state label = some next →
        Relation.ReflTransGen rel (view state) (view next) ∧ fit next)
    (hreach : Reaches step allowed start state) :
    Relation.ReflTransGen rel (view start) (view state) ∧ fit state := by
  induction hreach with
  | refl => exact ⟨.refl, hstart⟩
  | tail _ meets taken ih =>
    obtain ⟨hrel, hfit⟩ := ih
    obtain ⟨hnext, hfits⟩ := hstep _ _ _ hfit meets taken
    exact ⟨hrel.trans hnext, hfits⟩

/-- Weakening the condition keeps every run. -/
theorem Reaches.mono {weaker : σ → α → Prop}
    (himp : ∀ state label, allowed state label → weaker state label)
    (hreach : Reaches step allowed start state) : Reaches step weaker start state := by
  induction hreach with
  | refl => exact .refl
  | tail _ meets taken ih => exact .tail ih (himp _ _ meets) taken

theorem Reaches.head {label : α} (meets : allowed start label)
    (taken : step start label = some next) (hreach : Reaches step allowed next state) :
    Reaches step allowed start state := by
  induction hreach with
  | refl => exact .tail .refl meets taken
  | tail _ hmeets htaken ih => exact .tail ih hmeets htaken

theorem Reaches.trans (hfirst : Reaches step allowed start state)
    (hreach : Reaches step allowed state next) : Reaches step allowed start next := by
  induction hreach with
  | refl => exact hfirst
  | tail _ meets taken ih => exact .tail ih meets taken

theorem reaches_of_run {labels : List α} (hrun : run step start labels = some state) :
    Reaches step always start state := by
  induction labels generalizing start with
  | nil =>
    obtain rfl : start = state := by simpa [run] using hrun
    exact .refl
  | cons label labels ih =>
    obtain ⟨next, htaken, hrest⟩ := Option.bind_eq_some_iff.mp hrun
    exact .head trivial htaken (ih hrest)

/-- The last state of a run that goes through. -/
theorem reaches_get {labels : List α} (hrun : (run step start labels).isSome = true) :
    Reaches step always start ((run step start labels).get hrun) :=
  reaches_of_run (Option.some_get hrun).symm

/-- Takes the labels in order and checks the condition before each step. -/
def runWhere (step : σ → α → Option σ) (allowed : σ → α → Prop)
    [∀ state label, Decidable (allowed state label)] : σ → List α → Option σ
  | state, [] => some state
  | state, label :: labels =>
    if allowed state label then
      (step state label).bind fun next => runWhere step allowed next labels
    else none

/-- A computed run that checked its condition is a conditional run. -/
theorem reaches_of_runWhere [∀ state label, Decidable (allowed state label)] {labels : List α}
    (hrun : runWhere step allowed start labels = some state) :
    Reaches step allowed start state := by
  induction labels generalizing start with
  | nil =>
    obtain rfl : start = state := by simpa [runWhere] using hrun
    exact .refl
  | cons label labels ih =>
    unfold runWhere at hrun
    split at hrun
    · obtain ⟨next, htaken, hrest⟩ := Option.bind_eq_some_iff.mp hrun
      exact .head ‹_› htaken (ih hrest)
    · cases hrun

theorem reaches_getWhere [∀ state label, Decidable (allowed state label)] {labels : List α}
    (hrun : (runWhere step allowed start labels).isSome = true) :
    Reaches step allowed start ((runWhere step allowed start labels).get hrun) :=
  reaches_of_runWhere (Option.some_get hrun).symm

end Machine
