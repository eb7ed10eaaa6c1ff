import Mathlib.Data.List.Forall2
import Optical.Source.Memory

/-!
# Parts of an image

An image is a list of bytes with an end, and a part of it is what a read at an offset gives. The
laws of this module are those by which readers are compared:

* two reads of neighbouring ranges give what one read of both gives;
* a read behind the end gives nothing, and a read that is given all its bytes ends inside the image;
* images that agree on a range of offsets have the same part there.

The outcome of a program that asks for a result and goes on with it is taken apart by
eval_bind_eq_ok_iff.
-/

namespace Optical
namespace Image

section Parts

variable (image : Image)

/-- A part of an image is the part of its list of bytes. -/
theorem part_eq_slice
    (offset count : Nat) :
    image.part offset count = Bytes.slice image.toList offset count := by
  rw [part, Array.toList_extract, List.extract_eq_take_drop, Bytes.slice]
  rw [Nat.add_sub_cancel_left]

@[simp] theorem part_zero
    (offset : Nat) :
    image.part offset 0 = [] := by
  simp [part_eq_slice, Bytes.slice]

/-- A range of offsets is read piece by piece. -/
theorem part_add
    (offset first second : Nat) :
    image.part offset (first + second) =
      image.part offset first ++ image.part (offset + first) second := by
  simp only [part_eq_slice, Bytes.slice]
  rw [List.take_add, List.drop_drop]

/-- Nothing is read behind the end. -/
theorem part_eq_nil
    {offset : Nat}
    (h : image.size ≤ offset)
    (count : Nat) :
    image.part offset count = [] := by
  have hlength : (image.part offset count).length = 0 := by
    rw [part_length]
    omega
  exact List.length_eq_zero_iff.mp hlength

/-- What is asked for beyond the end makes no difference. -/
theorem part_eq_part_of_end
    {offset count : Nat}
    (h : image.size ≤ offset + count)
    (more : Nat) :
    image.part offset (count + more) = image.part offset count := by
  rw [part_add, part_eq_nil image h, List.append_nil]

/-- Only the bytes up to the end are read. -/
theorem part_min
    (offset count : Nat) :
    image.part offset (min count (image.size - offset)) = image.part offset count := by
  by_cases hinside : count ≤ image.size - offset
  · rw [Nat.min_eq_left hinside]
  · have hend : image.size ≤ offset + (image.size - offset) := by omega
    have hmore := image.part_eq_part_of_end hend (count - (image.size - offset))
    rw [Nat.min_eq_right (by omega), ← hmore, Nat.add_sub_cancel' (by omega)]

/-- Where a read of some of the bytes stopped, another read goes on with the others. -/
theorem part_append_after
    (offset : Nat)
    {first count : Nat}
    (h : first ≤ count) :
    image.part offset first ++
        image.part (offset + (image.part offset first).length)
          (count - (image.part offset first).length) =
      image.part offset count := by
  have hlength := image.part_length offset first
  by_cases hinside : offset + first ≤ image.size
  · have hfull : (image.part offset first).length = first := by omega
    rw [hfull, ← part_add, Nat.add_sub_cancel' h]
  · have hend : image.size ≤ offset + (image.part offset first).length := by omega
    rw [part_eq_nil image hend, List.append_nil]
    have hstop : image.size ≤ offset + first := by omega
    have hmore := image.part_eq_part_of_end hstop (count - first)
    rw [← hmore, Nat.add_sub_cancel' h]

theorem part_getElem?
    (offset count index : Nat) :
    (image.part offset count)[index]? =
      if index < count then image[offset + index]? else none := by
  rw [part_eq_slice, Bytes.getElem?_slice, Array.getElem?_toList]

/-- The image behind a front is read at shifted offsets. -/
theorem part_extract
    (front offset count : Nat) :
    Image.part (image.extract front image.size) offset count =
      image.part (front + offset) count := by
  apply List.ext_getElem?
  intro index
  rw [part_getElem?, part_getElem?, Array.getElem?_extract, Nat.add_assoc]
  by_cases hindex : index < count
  · rw [if_pos hindex, if_pos hindex]
    split
    · rfl
    · next hend => exact (Array.getElem?_eq_none (by omega)).symm
  · rw [if_neg hindex, if_neg hindex]

theorem part_one
    (offset : Nat) :
    image.part offset 1 = image[offset]?.toList := by
  apply List.ext_getElem?
  intro index
  rw [part_getElem?]
  cases index with
  | zero => cases image[offset]? <;> rfl
  | succ index => cases image[offset]? <;> rfl

end Parts

/-- Images that agree on a range of offsets have the same part there. -/
theorem part_congr
    {first second : Image}
    {offset count : Nat}
    (h : ∀ index, index < count → first[offset + index]? = second[offset + index]?) :
    first.part offset count = second.part offset count := by
  apply List.ext_getElem?
  intro index
  rw [part_getElem?, part_getElem?]
  by_cases hindex : index < count
  · rw [if_pos hindex, if_pos hindex]
    exact h index hindex
  · rw [if_neg hindex, if_neg hindex]

/-- Two images hold the same bytes, or both none, at all offsets of a range. -/
def AgreeOn (first second : Image) (start stop : Nat) : Prop :=
  ∀ offset, start ≤ offset → offset < stop → first[offset]? = second[offset]?

theorem AgreeOn.mono
    {first second : Image}
    {start stop lower upper : Nat}
    (h : AgreeOn first second start stop)
    (hlower : start ≤ lower)
    (hupper : upper ≤ stop) :
    AgreeOn first second lower upper := fun offset hstart hstop =>
  h offset (Nat.le_trans hlower hstart) (Nat.lt_of_lt_of_le hstop hupper)

/-- A part that lies in the range is the same in both images. -/
theorem AgreeOn.part_eq
    {first second : Image}
    {start stop offset count : Nat}
    (h : AgreeOn first second start stop)
    (hstart : start ≤ offset)
    (hstop : offset + count ≤ stop) :
    first.part offset count = second.part offset count :=
  part_congr fun index hindex => h (offset + index) (by omega) (by omega)

/-- Equal parts of two images are equal byte by byte. -/
theorem getElem?_of_part_eq
    {first second : Image}
    {offset count index : Nat}
    (h : first.part offset count = second.part offset count)
    (hindex : index < count) :
    first[offset + index]? = second[offset + index]? := by
  have hbyte := congrArg (fun bytes : Bytes => bytes[index]?) h
  simpa only [part_getElem?, if_pos hindex] using hbyte

section Outcomes

variable {α β : Type}
variable (image : Image)

/-- A step that succeeds is followed by the next one with its result. -/
theorem eval_bind_of_eq_ok
    {program : ReadM α}
    {value : α}
    (h : image.eval program = .ok value)
    (f : α → ReadM β) :
    image.eval (program >>= f) = image.eval (f value) := by
  rw [eval_bind, h]
  rfl

/-- Two steps succeed if the first does and the second does with its result. -/
theorem eval_bind_eq_ok_iff
    (program : ReadM α)
    (f : α → ReadM β)
    (value : β) :
    image.eval (program >>= f) = .ok value
      ↔
    ∃ first, image.eval program = .ok first ∧ image.eval (f first) = .ok value := by
  rw [eval_bind]
  cases image.eval program with
  | error error =>
      constructor
      · intro h
        cases h
      · rintro ⟨first, hfirst, -⟩
        cases hfirst
  | ok first =>
      constructor
      · intro h
        exact ⟨first, rfl, h⟩
      · rintro ⟨found, hfound, h⟩
        cases hfound
        exact h

/-- Two steps fail if the first does, or the second does with the result of the first. -/
theorem eval_bind_eq_error_iff
    (program : ReadM α)
    (f : α → ReadM β)
    (error : Error) :
    image.eval (program >>= f) = .error error
      ↔
    image.eval program = .error error ∨
      ∃ first, image.eval program = .ok first ∧ image.eval (f first) = .error error := by
  rw [eval_bind]
  cases image.eval program with
  | error found =>
      constructor
      · intro h
        cases h
        exact Or.inl rfl
      · rintro (h | ⟨first, hfirst, -⟩)
        · cases h
          rfl
        · cases hfirst
  | ok first =>
      constructor
      · intro h
        exact Or.inr ⟨first, rfl, h⟩
      · rintro (h | ⟨found, hfound, h⟩)
        · cases h
        · cases hfound
          exact h

/-- What is related to the elements of a list one by one is related to one of them. -/
theorem exists_of_mem_right
    {R : α → β → Prop}
    {elements : List α}
    {values : List β}
    (h : List.Forall₂ R elements values)
    {value : β}
    (hvalue : value ∈ values) :
    ∃ element ∈ elements, R element value := by
  induction h with
  | nil => cases hvalue
  | @cons element first elements values hfirst hrest ih =>
      rcases List.mem_cons.mp hvalue with rfl | hlater
      · exact ⟨element, List.mem_cons_self, hfirst⟩
      · obtain ⟨found, hfound, hrelated⟩ := ih hlater
        exact ⟨found, List.mem_cons_of_mem element hfound, hrelated⟩

/-- A step for each element of a list succeeds if every one of them does. -/
theorem eval_mapM_eq_ok_iff
    (f : α → ReadM β)
    (elements : List α)
    (values : List β) :
    image.eval (elements.mapM f) = .ok values
      ↔
    List.Forall₂ (fun element value => image.eval (f element) = .ok value) elements values := by
  induction elements generalizing values with
  | nil =>
      rw [List.mapM_nil, List.forall₂_nil_left_iff]
      constructor
      · intro h
        cases h
        rfl
      · rintro rfl
        rfl
  | cons element elements ih =>
      rw [List.mapM_cons, eval_bind_eq_ok_iff, List.forall₂_cons_left_iff]
      constructor
      · rintro ⟨value, hvalue, h⟩
        rw [eval_bind_eq_ok_iff] at h
        obtain ⟨later, hlater, h⟩ := h
        cases h
        exact ⟨value, later, hvalue, (ih later).mp hlater, rfl⟩
      · rintro ⟨value, later, hvalue, hlater, rfl⟩
        refine ⟨value, hvalue, ?_⟩
        rw [eval_bind_eq_ok_iff]
        exact ⟨later, (ih later).mpr hlater, rfl⟩

/-- A step for each element of a list fails only where one of them does. -/
theorem exists_of_eval_mapM_eq_error
    {f : α → ReadM β}
    {elements : List α}
    {error : Error}
    (h : image.eval (elements.mapM f) = .error error) :
    ∃ element ∈ elements, image.eval (f element) = .error error := by
  induction elements with
  | nil => cases h
  | cons element elements ih =>
      rw [List.mapM_cons, eval_bind_eq_error_iff] at h
      rcases h with hfirst | ⟨value, -, h⟩
      · exact ⟨element, List.mem_cons_self, hfirst⟩
      · rw [eval_bind_eq_error_iff] at h
        rcases h with hlater | ⟨later, -, h⟩
        · obtain ⟨found, hfound, herror⟩ := ih hlater
          exact ⟨found, List.mem_cons_of_mem element hfound, herror⟩
        · cases h

/-- A read of exactly a count of bytes succeeds if the image has them. -/
theorem eval_readExact_eq_ok_iff
    (offset count : Nat)
    (bytes : Bytes) :
    image.eval (ReadM.readExact offset count) = .ok bytes
      ↔
    (count = 0 ∨ offset + count ≤ image.size) ∧ bytes = image.part offset count := by
  rw [eval_readExact]
  have hlength := image.part_length offset count
  split
  · next hshort =>
      constructor
      · intro h
        cases h
      · rintro ⟨hinside, -⟩
        omega
  · next hfull =>
      constructor
      · intro h
        cases h
        exact ⟨by omega, rfl⟩
      · rintro ⟨-, rfl⟩
        rfl

end Outcomes

end Image
end Optical
