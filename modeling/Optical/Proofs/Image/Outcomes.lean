import Mathlib.Data.List.Forall2
import Optical.Source.Memory

/-!
# Outcomes of programs on an image

Two ways to speak about the outcome of a program that may fail, without a look at the program:

* Lockstep relates the outcomes of two programs that fail together, with the same error, or succeed
  together, with related values;
* FailsOnly bounds the errors with which a program can fail.

Each is kept by sequencing, so both can be followed through a program step by step.
-/

namespace Optical

section Lockstep

variable {ε α β γ δ : Type}

/-- Two outcomes are the same failure, or they are values that are related. -/
inductive Lockstep (R : α → β → Prop) : Except ε α → Except ε β → Prop
  | failed (error : ε) : Lockstep R (.error error) (.error error)
  | done {first : α} {second : β} : R first second → Lockstep R (.ok first) (.ok second)

namespace Lockstep

variable {R : α → β → Prop}
variable {first : Except ε α}
variable {second : Except ε β}

theorem mono
    {S : α → β → Prop}
    (h : Lockstep R first second)
    (himp : ∀ a b, R a b → S a b) :
    Lockstep S first second := by
  cases h with
  | failed error => exact .failed error
  | done hvalues => exact .done (himp _ _ hvalues)

/-- What holds of a value of the first outcome may be added. -/
theorem and_left
    {P : α → Prop}
    (h : Lockstep R first second)
    (hleft : ∀ a, first = .ok a → P a) :
    Lockstep (fun a b => P a ∧ R a b) first second := by
  cases h with
  | failed error => exact .failed error
  | done hvalues => exact .done ⟨hleft _ rfl, hvalues⟩

/-- Steps in lockstep are followed by steps in lockstep. -/
theorem bind
    {S : γ → δ → Prop}
    {f : α → Except ε γ}
    {g : β → Except ε δ}
    (h : Lockstep R first second)
    (hnext : ∀ a b, R a b → Lockstep S (f a) (g b)) :
    Lockstep S (first >>= f) (second >>= g) := by
  cases h with
  | failed error => exact .failed error
  | done hvalues => exact hnext _ _ hvalues

/-- Steps for the elements of a list are in lockstep if those for each element are. -/
theorem mapM
    {f : γ → Except ε α}
    {g : γ → Except ε β}
    {elements : List γ}
    (h : ∀ element ∈ elements, Lockstep R (f element) (g element)) :
    Lockstep (List.Forall₂ R) (elements.mapM f) (elements.mapM g) := by
  induction elements with
  | nil => exact .done .nil
  | cons element elements ih =>
      rw [List.forall_mem_cons] at h
      rw [List.mapM_cons, List.mapM_cons]
      refine h.1.bind fun a b hfirst => ?_
      exact (ih h.2).bind fun as bs hlater => .done (.cons hfirst hlater)

/-- If the first of two outcomes in lockstep is a value, the second is a related one. -/
theorem exists_right
    (h : Lockstep R first second)
    {a : α}
    (ha : first = .ok a) :
    ∃ b, second = .ok b ∧ R a b := by
  cases h with
  | failed error => cases ha
  | @done a b hvalues =>
      cases ha
      exact ⟨b, rfl, hvalues⟩

/-- If the second of two outcomes in lockstep is a value, the first is a related one. -/
theorem exists_left
    (h : Lockstep R first second)
    {b : β}
    (hb : second = .ok b) :
    ∃ a, first = .ok a ∧ R a b := by
  cases h with
  | failed error => cases hb
  | @done a b hvalues =>
      cases hb
      exact ⟨a, rfl, hvalues⟩

/-- One of two outcomes in lockstep is a value if the other is. -/
theorem exists_ok_iff
    (h : Lockstep R first second) :
    (∃ a, first = .ok a) ↔ ∃ b, second = .ok b := by
  constructor
  · rintro ⟨a, ha⟩
    obtain ⟨b, hb, -⟩ := h.exists_right ha
    exact ⟨b, hb⟩
  · rintro ⟨b, hb⟩
    obtain ⟨a, ha, -⟩ := h.exists_left hb
    exact ⟨a, ha⟩

end Lockstep

end Lockstep

namespace Image

section FailsOnly

variable {α β : Type}

/-- Every error with which a program fails on an image has a property. -/
def FailsOnly (image : Image) (P : Error → Prop) (program : ReadM α) : Prop :=
  ∀ error, image.eval program = .error error → P error

variable {image : Image}
variable {P : Error → Prop}

theorem failsOnly_pure
    (value : α) :
    image.FailsOnly P (pure value : ReadM α) := by
  intro error h
  cases h

theorem FailsOnly.bind
    {program : ReadM α}
    {f : α → ReadM β}
    (h : image.FailsOnly P program)
    (hnext : ∀ value, image.FailsOnly P (f value)) :
    image.FailsOnly P (program >>= f) := by
  intro error herror
  rw [eval_bind] at herror
  cases houtcome : image.eval program with
  | error found =>
      rw [houtcome] at herror
      cases herror
      exact h _ houtcome
  | ok value =>
      rw [houtcome] at herror
      exact hnext value error herror

/-- A read of exactly a count of bytes fails only where the image ends. -/
theorem failsOnly_readExact
    (offset count : Nat) :
    image.FailsOnly (·.isUnexpectedEnd = true) (ReadM.readExact offset count) := by
  intro error herror
  rw [eval_readExact] at herror
  split at herror
  · cases herror
    rfl
  · cases herror

end FailsOnly

end Image
end Optical
