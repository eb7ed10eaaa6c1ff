import Optical.Proofs.Source.Portions
import Optical.Proofs.Window.OnImage

/-!
# Windows on a worn image

An extent is read at once or as a stream of chunks. On a worn image the one asks for the bad bytes
and for the end of the image in a single call, the other finds them chunk by chunk. Both come to the
same: they give the same bytes, or they fail for a reason of the same kind.

Offsets are counted without a bound. For the extents that a volume names they are numbers of 64 bits,
since those are addressable.

* outcome_eq_ok_iff and failsWith_outcome_iff tell from the image what becomes of a read;
* received_transferChunks follows a stream through its chunks;
* contents_agree compares the reads of an extent: at once, as a stream, and into a buffer.
-/

namespace Optical

/-- A failure of the medium of a kind. -/
def FailsWith {α : Type} (outcome : Except Error α) (kind : FaultKind) : Prop :=
  ∃ fault : MediumFault, outcome = .error (.medium fault) ∧ fault.kind = kind

/-- The bytes that a transfer has handed over, if it is complete. -/
def Transfer.received (ended : Transfer) : Except Error Bytes :=
  ended.outcome.map fun () => ended.sink.held

namespace WornImage

section Outcomes

variable (worn : WornImage)

/-- A byte of an extent is there and cannot be read. -/
def Overlaps (extent : Extent) : Prop :=
  ∃ position, extent.byteOffset ≤ position ∧ position < extent.byteOffset + extent.length ∧
    position < worn.bytes.size ∧ worn.BadAt position

/-- The image ends before an extent does, and the extent has bytes. -/
def CutsOff (extent : Extent) : Prop :=
  0 < extent.length ∧ worn.bytes.size < extent.byteOffset + extent.length

/--
The outcome of a call for all bytes of a range that must be there. The fault for a medium that ends
too soon may tell how many bytes there were.
-/
def outcome (start length : Nat) (early : Nat → MediumFault) : Except Error Bytes :=
  (worn.single start length).bind fun bytes =>
    if bytes.length < length then .error (.medium (early bytes.length)) else .ok bytes

theorem outcome_of_touchesBad
    {start length : Nat}
    (h : worn.touchesBad start length)
    (early : Nat → MediumFault) :
    worn.outcome start length early = .error (.medium fault) := by
  rw [outcome, single_eq, if_pos h]
  rfl

theorem outcome_of_not_touchesBad
    {start length : Nat}
    (h : ¬ worn.touchesBad start length)
    (early : Nat → MediumFault) :
    worn.outcome start length early =
      if (worn.bytes.part start length).length < length then
        .error (.medium (early (worn.bytes.part start length).length))
      else .ok (worn.bytes.part start length) := by
  rw [outcome, single_eq, if_neg h]
  rfl

variable (extent : Extent)

theorem part_short_iff :
    (worn.bytes.part extent.byteOffset extent.length).length < extent.length
      ↔
    worn.CutsOff extent := by
  rw [Image.part_length, CutsOff]
  omega

variable {early : Nat → MediumFault}

theorem outcome_eq_ok_iff
    (bytes : Bytes) :
    worn.outcome extent.byteOffset extent.length early = .ok bytes
      ↔
    ¬ worn.Overlaps extent ∧
      ¬ worn.CutsOff extent ∧
      bytes = worn.bytes.part extent.byteOffset extent.length := by
  rw [Overlaps, ← touchesBad_iff, ← part_short_iff]
  by_cases hbad : worn.touchesBad extent.byteOffset extent.length
  · rw [outcome_of_touchesBad worn hbad]
    exact iff_of_false nofun fun h => h.1 hbad
  · rw [outcome_of_not_touchesBad worn hbad]
    split
    · next hshort => exact iff_of_false nofun fun h => h.2.1 hshort
    · next hwhole =>
        constructor
        · intro h
          exact ⟨hbad, hwhole, (Except.ok.inj h).symm⟩
        · rintro ⟨-, -, rfl⟩
          rfl

theorem failsWith_outcome_iff
    (hearly : ∀ got, (early got).kind = .unexpectedEnd)
    (kind : FaultKind) :
    FailsWith (worn.outcome extent.byteOffset extent.length early) kind
      ↔
    kind = .permissionDenied ∧ worn.Overlaps extent ∨
      kind = .unexpectedEnd ∧ ¬ worn.Overlaps extent ∧ worn.CutsOff extent := by
  rw [Overlaps, ← touchesBad_iff, ← part_short_iff]
  by_cases hbad : worn.touchesBad extent.byteOffset extent.length
  · rw [outcome_of_touchesBad worn hbad]
    constructor
    · rintro ⟨_, ⟨⟩, rfl⟩
      exact Or.inl ⟨rfl, hbad⟩
    · rintro (⟨rfl, -⟩ | ⟨-, hgood, -⟩)
      · exact ⟨fault, rfl, rfl⟩
      · exact absurd hbad hgood
  · rw [outcome_of_not_touchesBad worn hbad]
    split
    · next hshort =>
        constructor
        · rintro ⟨_, ⟨⟩, rfl⟩
          exact Or.inr ⟨hearly _, hbad, hshort⟩
        · rintro (⟨-, hoverlap⟩ | ⟨rfl, -⟩)
          · exact absurd hoverlap hbad
          · exact ⟨_, rfl, hearly _⟩
    · next hwhole =>
        constructor
        · rintro ⟨_, ⟨⟩, -⟩
        · rintro (⟨-, hoverlap⟩ | ⟨-, -, hshort⟩)
          · exact absurd hoverlap hbad
          · exact absurd hshort hwhole

end Outcomes

section Programs

variable {α β : Type}
variable (worn : WornImage)

/-- The result of a program on a worn image. -/
def ask (program : Query α) : α :=
  (program.run worn.source).run

theorem ask_bind
    (program : Query α)
    (f : α → Query β) :
    worn.ask (program >>= f) = worn.ask (f (worn.ask program)) := by
  simp [ask]

theorem ask_read
    (offset count : Nat)
    (next : Except Error Bytes → Query α) :
    worn.ask (.read offset count next) = worn.ask (next (worn.single offset count)) :=
  rfl

/-- The outcome on a worn image of a program that may fail. -/
def eval (program : ReadM α) : Except Error α :=
  worn.ask program.run

theorem eval_bind
    (program : ReadM α)
    (f : α → ReadM β) :
    worn.eval (program >>= f) = (worn.eval program).bind fun value => worn.eval (f value) := by
  rw [eval, eval, ExceptT.run_bind, ask_bind]
  cases worn.ask program.run <;> rfl

theorem eval_readExact
    (offset count : Nat) :
    worn.eval (ReadM.readExact offset count) =
      worn.outcome offset count (.shortRead offset count) := by
  rw [ReadM.readExact, eval_bind, outcome]
  refine congrArg (Except.bind (worn.single offset count)) (funext fun bytes => ?_)
  split <;> rfl

end Programs

section Streams

variable (worn : WornImage)

/-- A range is taken apart where a call stopped. -/
theorem outcome_split
    (start : Nat)
    {first length : Nat}
    (h : first ≤ length)
    (early : Nat → MediumFault) :
    worn.outcome start length early =
      (worn.single start first).bind fun got =>
        (worn.outcome (start + got.length) (length - got.length) fun more =>
          early (got.length + more)).map (got ++ ·) := by
  rw [outcome, worn.single_split start h]
  cases hgot : worn.single start first with
  | error error => rfl
  | ok got =>
      have hlength := worn.length_of_single hgot
      simp only [Except.bind, outcome]
      cases worn.single (start + got.length) (length - got.length) with
      | error error => rfl
      | ok more =>
          simp only [List.length_append]
          by_cases hshort : more.length < length - got.length
          · rw [if_pos hshort, if_pos (by omega)]
            rfl
          · rw [if_neg hshort, if_neg (by omega)]
            rfl

/-- Where there is nothing more the end comes too soon, unless nothing more is asked for. -/
theorem outcome_of_nothing
    {start length : Nat}
    (h : min length (worn.bytes.size - start) = 0)
    (early : Nat → MediumFault) :
    worn.outcome start length early =
      if 0 < length then .error (.medium (early 0)) else .ok [] := by
  rw [outcome, worn.single_of_nothing h]
  rfl

theorem received_endTransfer
    (w : Window)
    (held : Bytes) :
    (w.endTransfer ⟨none, held⟩).received =
      if 0 < w.available then .error (.medium (.shortWindow w.available)) else .ok held := by
  have hend : w.atEnd = true ↔ ¬ 0 < w.available := by
    rw [Window.atEnd, Window.available, decide_eq_true_eq]
    omega
  rw [Window.endTransfer]
  by_cases hmissing : 0 < w.available
  · rw [if_neg (fun h => hend.mp h hmissing), if_pos hmissing]
    rfl
  · rw [if_pos (hend.mpr hmissing), if_neg hmissing]
    rfl

/--
A transfer without bound on its sink hands over what one call for the rest of the window would give,
and fails as that call would.
-/
theorem received_transferChunks
    {chunk : Nat}
    (hchunk : 0 < chunk)
    (w : Window)
    (held : Bytes) :
    (worn.ask (w.transferChunks chunk ⟨none, held⟩)).received =
      (worn.outcome (w.start + w.position) w.available fun got =>
        .shortWindow (w.available - got)).map (held ++ ·) := by
  induction hleft : w.available using Nat.strongRecOn generalizing w held with
  | _ left ih =>
      subst hleft
      rw [Window.transferChunks]
      split
      · next hdone =>
          have hnone : w.available = 0 := by omega
          rw [worn.outcome_of_nothing (by omega), if_neg (by omega)]
          show (w.endTransfer ⟨none, held⟩).received = .ok (held ++ [])
          rw [received_endTransfer, if_neg (by omega), List.append_nil]
      · next hmore =>
          rw [worn.outcome_split _ (Nat.min_le_right chunk w.available)]
          rw [ask_read]
          cases hgot : worn.single (w.start + w.position) (min chunk w.available) with
          | error error => rfl
          | ok got =>
              have hlength := worn.length_of_single hgot
              simp only [Except.bind]
              split
              · next hend =>
                  -- A call that asks for bytes and gives none has met the end of the image.
                  rw [hend, Nat.add_zero, Nat.sub_zero, worn.outcome_of_nothing (by omega),
                    if_pos (by omega)]
                  show (w.endTransfer ⟨none, held⟩).received = _
                  rw [received_endTransfer, if_pos (by omega)]
                  rfl
              · next hsome =>
                  have hless : (w.advance got.length).available < w.available := by
                    rw [Window.available_advance]
                    omega
                  have hagain := ih _ hless (w.advance got.length) (held ++ got) rfl
                  have hplace : (w.advance got.length).start + (w.advance got.length).position =
                      w.start + w.position + got.length :=
                    (Nat.add_assoc w.start w.position got.length).symm
                  simp only [Sink.write]
                  rw [hagain, hplace, Window.available_advance]
                  simp only [Nat.sub_sub]
                  cases worn.outcome (w.start + w.position + got.length) (w.available - got.length)
                      fun more => .shortWindow (w.available - (got.length + more)) with
                  | error error => rfl
                  | ok more => exact congrArg Except.ok (List.append_assoc held got more)

end Streams

section Extents

variable (worn : WornImage)
variable (extent : Extent)

/-- The outcome of a read of an extent at once. -/
def readWhole : Except Error Bytes :=
  worn.eval extent.contents

/-- The outcome of a fresh stream over an extent. -/
def readStream : Except Error Bytes :=
  (worn.ask (Window.ofExtent extent).readRemaining).1

theorem readWhole_eq :
    worn.readWhole extent =
      worn.outcome extent.byteOffset extent.length
        (.shortRead extent.byteOffset extent.length) := by
  rw [readWhole, Extent.contents, eval_readExact]

theorem readStream_eq :
    worn.readStream extent =
      worn.outcome extent.byteOffset extent.length
        fun got => .shortWindow (extent.length - got) := by
  have hchunk : 0 < max 1 (min Window.chunkSize (Window.ofExtent extent).available) := by omega
  rw [readStream, Window.readRemaining, ask_bind, Window.transfer, Sink.empty]
  generalize max 1 (min Window.chunkSize (Window.ofExtent extent).available) = chunk at hchunk ⊢
  refine (worn.received_transferChunks hchunk (Window.ofExtent extent) []).trans ?_
  simp only [Window.available, Window.ofExtent, Window.ofRange, Nat.add_zero, Nat.sub_zero]
  cases worn.outcome extent.byteOffset extent.length fun got =>
    .shortWindow (extent.length - got) <;> rfl

theorem eval_contentsInto
    {buffer : Bytes}
    (h : extent.length ≤ buffer.length) :
    worn.eval (extent.contentsInto buffer) =
      (worn.readWhole extent).map fun bytes =>
        (extent.length, bytes ++ buffer.drop extent.length) := by
  rw [Extent.contentsInto, if_neg (Nat.not_lt.mpr h), eval_bind, readWhole]
  cases worn.eval extent.contents <;> rfl

theorem length_of_readWhole
    {bytes : Bytes}
    (h : worn.readWhole extent = .ok bytes) :
    bytes.length = extent.length := by
  rw [readWhole_eq, outcome_eq_ok_iff, ← part_short_iff] at h
  obtain ⟨-, hwhole, rfl⟩ := h
  have hmost := worn.bytes.part_length extent.byteOffset extent.length
  omega

/-- A read into a buffer puts the bytes of an extent at its front and keeps what is behind them. -/
theorem eval_contentsInto_eq_ok_iff
    {buffer : Bytes}
    (h : extent.length ≤ buffer.length)
    (count : Nat)
    (filled : Bytes) :
    worn.eval (extent.contentsInto buffer) = .ok (count, filled)
      ↔
    count = extent.length ∧ worn.readWhole extent = .ok (filled.take extent.length) ∧
      filled.drop extent.length = buffer.drop extent.length := by
  rw [eval_contentsInto worn extent h]
  cases hwhole : worn.readWhole extent with
  | error error => exact iff_of_false nofun nofun
  | ok bytes =>
      have hlength := length_of_readWhole worn extent hwhole
      constructor
      · rintro ⟨⟩
        rw [← hlength, List.take_left, List.drop_left]
        exact ⟨rfl, rfl, rfl⟩
      · rintro ⟨rfl, hfront, hback⟩
        rw [Except.ok.inj hfront, Except.map, ← hback, List.take_append_drop]

theorem eval_contentsInto_eq_error_iff
    {buffer : Bytes}
    (h : extent.length ≤ buffer.length)
    (error : Error) :
    worn.eval (extent.contentsInto buffer) = .error error
      ↔
    worn.readWhole extent = .error error := by
  rw [eval_contentsInto worn extent h]
  cases worn.readWhole extent with
  | error other =>
      constructor
      · rintro ⟨⟩
        rfl
      · rintro ⟨⟩
        rfl
  | ok bytes => exact iff_of_false nofun nofun

/-- An image of three bytes, the last of which cannot be read. -/
def scratched : WornImage := ⟨#[1, 2, 3], some (2, 3)⟩

end Extents

end WornImage

end Optical
