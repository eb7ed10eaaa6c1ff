import Optical.Content
import Optical.Proofs.Image.Parts
import Optical.Window.Transfer

/-!
# Windows on an image

An image gives every read all the bytes that it has, so a window on an image holds one run of bytes
and every way of reading it gives that run or a part of it, in whatever chunks it asks.

* ask_fill tells what repeated reads give;
* ask_transferChunks tells what a transfer hands to its sink and how it ends;
* ask_readRemaining tells what a read of all that is left gives, and when it fails;
* contents_or_unexpectedEnd compares a stream over an extent with a read of the extent.
-/

namespace Optical
namespace Window

section OnImage

variable (image : Image)

/-- The bytes that an image holds from the position of a window to its end. -/
def rest (w : Window) : Bytes :=
  image.part (w.start + w.position) w.available

theorem advance_zero (w : Window) : w.advance 0 = w := rfl

theorem advance_advance
    (w : Window)
    (first second : Nat) :
    (w.advance first).advance second = w.advance (first + second) := by
  simp only [advance, Nat.add_assoc]

theorem available_advance
    (w : Window)
    (count : Nat) :
    (w.advance count).available = w.available - count := by
  simp only [available, advance]
  omega

/-- One read gives what the image holds of the bytes that it asks for. -/
theorem ask_read
    (w : Window)
    (count : Nat) :
    image.ask (w.read count) =
      (.ok (image.part (w.start + w.position) (min count w.available)),
        w.advance (image.part (w.start + w.position) (min count w.available)).length) := by
  simp only [read]
  split
  · next hnone =>
      rw [hnone, Image.part_zero]
      rfl
  · rfl

/-- Reads repeated up to a count give what one read would give. -/
theorem ask_fill
    (w : Window)
    (count : Nat) :
    image.ask (w.fill count) =
      (.ok (image.part (w.start + w.position) (min count w.available)),
        w.advance (image.part (w.start + w.position) (min count w.available)).length) := by
  induction count using Nat.strongRecOn generalizing w with
  | _ count ih =>
      rw [fill]
      split
      · next hzero =>
          simp [hzero, advance_zero, Image.ask]
      · next hpos =>
          rw [Image.ask_bind, ask_read]
          have hrest := image.part_append_after (w.start + w.position)
            (Nat.le_refl (min count w.available))
          generalize hbytes : image.part (w.start + w.position) (min count w.available) = bytes
          rw [hbytes] at hrest
          simp only
          split
          · next hnone =>
              rw [List.length_eq_zero_iff.mp hnone]
              rfl
          · next hsome =>
              -- The second round finds the window or the image at its end.
              have hnothing :
                  image.part (w.start + w.position + bytes.length)
                    (min count w.available - bytes.length) = [] :=
                List.append_right_eq_self.mp hrest
              have hasked :
                  min (count - bytes.length) (w.advance bytes.length).available =
                    min count w.available - bytes.length := by
                rw [available_advance]
                omega
              have hagain := ih (count - bytes.length) (by omega) (w.advance bytes.length)
              simp only [advance, ← Nat.add_assoc] at hagain hasked
              rw [Image.ask_bind]
              simp only [advance]
              rw [hagain, hasked, hnothing]
              simp [Except.map, Image.ask]

/-- A transfer without bound on its sink hands over all bytes that the image holds. -/
theorem ask_transferChunks
    {chunk : Nat}
    (hchunk : 0 < chunk)
    (w : Window)
    (held : Bytes) :
    image.ask (transferChunks chunk w ⟨none, held⟩) =
      (w.advance (rest image w).length).endTransfer ⟨none, held ++ rest image w⟩ := by
  induction hleft : w.available using Nat.strongRecOn generalizing w held with
  | _ left ih =>
      have hlength := image.part_length (w.start + w.position) (min chunk w.available)
      have hrest := image.part_append_after (w.start + w.position)
        (Nat.min_le_right chunk w.available)
      rw [transferChunks]
      split
      · next hdone =>
          have hnone : rest image w = [] := by
            rw [rest, show w.available = 0 by omega, Image.part_zero]
          rw [hnone, List.append_nil]
          rfl
      · next hmore =>
          show image.ask
              (if (image.part (w.start + w.position) (min chunk w.available)).length = 0 then _
              else _) = _
          generalize hbytes : image.part (w.start + w.position) (min chunk w.available) = bytes
          rw [hbytes] at hrest hlength
          split
          · next hend =>
              have hnone : rest image w = [] := by
                rw [rest, ← hrest, List.length_eq_zero_iff.mp hend]
                exact image.part_eq_nil (by omega) _
              rw [hnone, List.append_nil]
              rfl
          · next hsome =>
              have hlater : rest image (w.advance bytes.length) =
                  image.part (w.start + w.position + bytes.length)
                    (w.available - bytes.length) := by
                rw [rest, available_advance]
                simp only [advance, Nat.add_assoc]
              have hall : rest image w = bytes ++ rest image (w.advance bytes.length) := by
                rw [hlater, hrest, rest]
              have hagain := ih (w.advance bytes.length).available
                (by rw [available_advance]; omega) (w.advance bytes.length) (held ++ bytes) rfl
              simp only [Sink.write]
              rw [hagain, advance_advance, hall, List.length_append, List.append_assoc]

/-- A transfer to a sink that takes everything hands over all that the image holds. -/
theorem ask_transfer
    (w : Window) :
    image.ask (w.transfer (.empty none)) =
      (w.advance (rest image w).length).endTransfer ⟨none, rest image w⟩ := by
  have hchunk : 0 < max 1 (min chunkSize w.available) := by omega
  rw [transfer, Sink.empty, ask_transferChunks image hchunk, List.nil_append]

theorem atEnd_advance
    (w : Window)
    (count : Nat) :
    (w.advance count).atEnd = true ↔ w.available ≤ count := by
  rw [atEnd, decide_eq_true_eq]
  simp only [advance, available]
  omega

/-- The rest of a window is read whole if the image holds it, and a stream fails without it. -/
theorem ask_readRemaining
    (w : Window) :
    image.ask w.readRemaining =
      (if (rest image w).length < w.available then
          .error (.medium (.shortWindow (w.available - (rest image w).length)))
        else .ok (rest image w),
        w.advance (rest image w).length) := by
  rw [readRemaining, Image.ask_bind, ask_transfer, endTransfer]
  split
  · next hdone =>
      rw [if_neg (Nat.not_lt.mpr ((atEnd_advance w _).mp hdone))]
      rfl
  · next hmissing =>
      have hshort : (rest image w).length < w.available := by
        rw [atEnd_advance] at hmissing
        omega
      rw [if_pos hshort, ← available_advance]
      rfl

end OnImage

end Window

section Extents

variable (image : Image)

/-- An extent is read whole, at once and as a stream, or the image ends too soon for both. -/
theorem Extent.contents_or_unexpectedEnd
    (extent : Extent) :
    (∃ bytes,
      image.eval extent.contents = .ok bytes ∧
      (image.ask (Window.ofExtent extent).readRemaining).1 = .ok bytes) ∨
    (∃ failure streamFailure,
      image.eval extent.contents = .error failure ∧
      failure.isUnexpectedEnd = true ∧
      (image.ask (Window.ofExtent extent).readRemaining).1 = .error streamFailure ∧
      streamFailure.isUnexpectedEnd = true) := by
  have hrest : Window.rest image (Window.ofExtent extent) =
      image.part extent.byteOffset extent.length := by
    simp [Window.rest, Window.available, Window.ofExtent, Window.ofRange]
  have havailable : (Window.ofExtent extent).available = extent.length := by
    simp [Window.available, Window.ofExtent, Window.ofRange]
  rw [Extent.contents, Image.eval_readExact, Window.ask_readRemaining, hrest, havailable]
  by_cases hshort : (image.part extent.byteOffset extent.length).length < extent.length
  · rw [if_pos hshort, if_pos hshort]
    exact Or.inr ⟨_, _, rfl, rfl, rfl, rfl⟩
  · rw [if_neg hshort, if_neg hshort]
    exact Or.inl ⟨_, rfl, rfl⟩

end Extents

end Optical
