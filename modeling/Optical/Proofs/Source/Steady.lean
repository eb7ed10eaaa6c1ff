import Optical.Source.Memory

/-!
# Sources that answer as an image

A source may keep a state that every answer changes. If an invariant of that state makes each answer
the answer of an image, and each answer keeps the invariant, then every program gives on the source
what it gives on the image.

The state has two layers: what the source itself remembers, and the state of what it reads from.
-/

namespace Optical

variable {σ δ α β : Type}

/-- From each state with an invariant an action gives one value, and the invariant is kept. -/
def Gives (inv : σ → δ → Prop) (action : StateT σ (StateM δ) α) (value : α) : Prop :=
  ∀ memory state, inv memory state →
    ∃ nextMemory nextState,
      (action.run memory).run state = ((value, nextMemory), nextState) ∧ inv nextMemory nextState

namespace Gives

variable {inv : σ → δ → Prop}

theorem of_pure
    (value : α) :
    Gives inv (pure value) value := by
  intro memory state h
  exact ⟨memory, state, rfl, h⟩

theorem bind
    {action : StateT σ (StateM δ) α}
    {value : α}
    {next : α → StateT σ (StateM δ) β}
    {result : β}
    (h : Gives inv action value)
    (hnext : Gives inv (next value) result) :
    Gives inv (action >>= next) result := by
  intro memory state hinv
  obtain ⟨middleMemory, middleState, hfirst, hmiddle⟩ := h memory state hinv
  obtain ⟨lastMemory, lastState, hsecond, hlast⟩ := hnext middleMemory middleState hmiddle
  refine ⟨lastMemory, lastState, ?_, hlast⟩
  rw [StateT.run_bind, StateT.run_bind, hfirst]
  exact hsecond

end Gives

/-- As long as an invariant of its state holds, a source answers as an image does. -/
structure Source.AnswersAs
    (source : Source (StateT σ (StateM δ)))
    (image : Image)
    (inv : σ → δ → Prop) : Prop where
  size : Gives inv source.size (.ok image.size)
  read : ∀ offset count, Gives inv (source.read offset count) (.ok (image.part offset count))

/-- Every program gives on such a source what it gives on the image. -/
theorem Source.AnswersAs.gives_ask
    {source : Source (StateT σ (StateM δ))}
    {image : Image}
    {inv : σ → δ → Prop}
    (h : source.AnswersAs image inv)
    (program : Query α) :
    Gives inv (program.run source) (image.ask program) := by
  induction program with
  | done value => exact .of_pure value
  | size next ih => exact h.size.bind (ih _)
  | read offset count next ih => exact (h.read offset count).bind (ih _)

section Calls

variable {inv : σ → δ → Prop}
variable {ε : Type}

theorem Gives.andThen
    {call : ExceptT ε (StateT σ (StateM δ)) α}
    {value : α}
    {next : α → ExceptT ε (StateT σ (StateM δ)) β}
    {outcome : Except ε β}
    (h : Gives inv call.run (.ok value))
    (hnext : Gives inv (next value).run outcome) :
    Gives inv (call >>= next).run outcome := by
  rw [ExceptT.run_bind]
  exact h.bind hnext

end Calls
end Optical
