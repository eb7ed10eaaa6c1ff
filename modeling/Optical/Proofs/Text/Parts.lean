import Optical.Proofs.Text.Utf8

/-!
# Texts cut into parts

The bytes of a text may be cut into parts that are read one by one. Every byte that continues no
character makes a mark of its own, and so does a byte at the start of a part: a part that begins
inside a character adds a mark to those of the text. So the parts read as the text exactly if each
of them is a text, which is to say that no character is cut.

The main statement is flatMap_decodeLossy_eq_iff.
-/

namespace Optical
namespace Text
namespace Utf8

section Starts

/-- The bytes begin with one that continues a character. -/
def beginsInside (raw : Bytes) : Bool :=
  raw.head?.any isContinuation

/-- The number of bytes that continue no character. -/
def starts (raw : Bytes) : Nat :=
  raw.countP fun b => !isContinuation b

/-- The first byte of a character continues none, and all others do. -/
theorem Spelled.exists_cons
    {raw : Bytes}
    {n : Nat}
    (h : Spelled raw n) :
    ∃ b tail, raw = b :: tail ∧ isContinuation b = false ∧
      ∀ next ∈ tail, isContinuation next = true := by
  have hfirst : ∀ b : UInt8, (b.toNat < 0x80 ∨ 0xC2 ≤ b.toNat) → isContinuation b = false := by
    intro b hb
    rw [Bool.eq_false_iff, Ne, isContinuation_iff]
    omega
  cases h with
  | one hb => exact ⟨_, _, rfl, hfirst _ (Or.inl hb), by simp⟩
  | two hb _ hx => exact ⟨_, _, rfl, hfirst _ (Or.inr hb), by simp [hx]⟩
  | three hb _ hx hy => exact ⟨_, _, rfl, hfirst _ (Or.inr (by omega)), by simp [hx, hy]⟩
  | four hb _ hx hy hz => exact ⟨_, _, rfl, hfirst _ (Or.inr (by omega)), by simp [hx, hy, hz]⟩

theorem starts_cons
    (b : UInt8)
    (rest : Bytes) :
    starts (b :: rest) = starts rest + if isContinuation b then 0 else 1 := by
  rw [starts, List.countP_cons]
  cases isContinuation b <;> rfl

theorem starts_append
    (front back : Bytes) :
    starts (front ++ back) = starts front + starts back :=
  List.countP_append

/-- A text has as many characters as bytes that continue none. -/
theorem starts_encode (text : List Char) :
    starts (encode text) = text.length := by
  induction text with
  | nil => rfl
  | cons c text ih =>
      obtain ⟨b, tail, hbytes, hb, htail⟩ := (spelled_encodeChar c).exists_cons
      have hnone : starts tail = 0 := by
        rw [starts, List.countP_eq_zero]
        intro next hnext
        simp [htail next hnext]
      rw [encode, List.flatMap_cons, hbytes, ← encode, starts_append, starts_cons, hnone, hb, ih,
        List.length_cons]
      exact Nat.add_comm 1 text.length

/-- Only a byte that continues a character follows in one that has begun. -/
theorem Leads.isContinuation_of_takes
    {b next : UInt8}
    {state : Pending}
    (h : Leads b (.opens state))
    (htakes : state.Takes next) :
    isContinuation next = true := by
  cases h with
  | two _ _ _ _ hrange => exact (hrange next).mp htakes
  | three _ _ _ _ hrange => exact ((hrange next).mp htakes).1
  | four _ _ _ _ hrange => exact ((hrange next).mp htakes).1

/-- Given what the bytes after it make, a byte between two characters makes a mark. -/
theorem starts_lt_length_marks_cons
    {b : UInt8}
    {rest : Bytes}
    (hmarks : starts rest ≤ (marks rest).length)
    (hbegun : ∀ state : Pending, (∀ next, state.Takes next → isContinuation next = true) →
      starts rest < (marksFrom (some state) rest).length) :
    starts rest < (marks (b :: rest)).length := by
  rw [marks_cons]
  have hlead := leads_lead b
  generalize lead b = role at *
  cases role with
  | single | refused => exact Nat.lt_succ_of_le hmarks
  | opens state => exact hbegun state fun next => hlead.isContinuation_of_takes

/-- Every byte that continues no character makes a mark, and so does a character that has begun. -/
theorem starts_le_length_marksFrom (raw : Bytes) :
    starts raw ≤ (marks raw).length ∧
      ∀ state : Pending, (∀ next, state.Takes next → isContinuation next = true) →
        starts raw < (marksFrom (some state) raw).length := by
  induction raw with
  | nil => exact ⟨Nat.zero_le _, fun _ _ => Nat.one_pos⟩
  | cons b rest ih =>
      obtain ⟨hmarks, hbegun⟩ := ih
      have hfirst : starts (b :: rest) ≤ (marks (b :: rest)).length := by
        have hmark := starts_lt_length_marks_cons (b := b) hmarks hbegun
        rw [starts_cons]
        split <;> omega
      refine ⟨hfirst, fun state hstate => ?_⟩
      by_cases htakes : state.Takes b
      · rw [starts_cons, if_pos (hstate b htakes), Nat.add_zero]
        cases hmore : state.more with
        | zero =>
            rw [marksFrom_of_takes_last htakes hmore]
            exact Nat.lt_succ_of_le hmarks
        | succ more =>
            rw [marksFrom_of_takes htakes hmore]
            exact hbegun _ fun next => (takes_tail_iff _ _ next).mp
      · rw [marksFrom_of_not_takes htakes]
        exact Nat.lt_succ_of_le hfirst

/-- Bytes that begin inside a character make one mark more. -/
theorem starts_lt_length_marks
    {raw : Bytes}
    (h : beginsInside raw = true) :
    starts raw < (marks raw).length := by
  cases raw with
  | nil => cases h
  | cons b rest =>
      have hb : isContinuation b = true := h
      obtain ⟨hmarks, hbegun⟩ := starts_le_length_marksFrom rest
      rw [starts_cons, if_pos hb]
      exact starts_lt_length_marks_cons hmarks hbegun

end Starts

section Parts

/-- A text that is cut between two characters is cut into two texts. -/
theorem exists_texts_of_encode_eq_append
    {text : List Char}
    {front back : Bytes}
    (h : encode text = front ++ back)
    (hback : beginsInside back = false) :
    ∃ first second, text = first ++ second ∧ front = encode first ∧ back = encode second := by
  induction text generalizing front with
  | nil =>
      obtain ⟨hfront, hnone⟩ := List.append_eq_nil_iff.mp h.symm
      exact ⟨[], [], rfl, hfront, hnone⟩
  | cons c text ih =>
      obtain ⟨b, tail, hbytes, -, htail⟩ := (spelled_encodeChar c).exists_cons
      cases front with
      | nil => exact ⟨[], c :: text, rfl, rfl, h.symm⟩
      | cons found front =>
          rw [encode, List.flatMap_cons, ← encode] at h
          rcases List.append_eq_append_iff.mp h with ⟨more, hfront, hrest⟩ | ⟨left, hchar, hrest⟩
          · obtain ⟨first, second, rfl, rfl, rfl⟩ := ih hrest
            refine ⟨c :: first, second, rfl, ?_, rfl⟩
            rw [hfront]
            rfl
          · cases left with
            | nil =>
                refine ⟨[c], text, rfl, ?_, hrest⟩
                rw [List.append_nil] at hchar
                rw [← hchar, encode, List.flatMap_singleton]
            | cons next left =>
                -- The cut is inside the character, so the back begins with one of its later bytes.
                rw [hbytes, List.cons_append, List.cons.injEq] at hchar
                have hinside := htail next (by simp [hchar.2])
                rw [hrest, List.cons_append, beginsInside, List.head?_cons, Option.any_some,
                  hinside] at hback
                cases hback

theorem beginsInside_flatten
    {parts : List Bytes}
    (h : ∀ part ∈ parts, beginsInside part = false) :
    beginsInside parts.flatten = false := by
  induction parts with
  | nil => rfl
  | cons part parts ih =>
      rw [List.forall_mem_cons] at h
      cases part with
      | nil => exact ih h.2
      | cons b part => exact h.1

/-- Parts of a text that do not begin inside a character are texts. -/
theorem exists_text_of_not_beginsInside
    {parts : List Bytes}
    {text : List Char}
    (h : parts.flatten = encode text)
    (hparts : ∀ part ∈ parts, beginsInside part = false) :
    ∀ part ∈ parts, ∃ text, part = encode text := by
  induction parts generalizing text with
  | nil => simp
  | cons part parts ih =>
      rw [List.forall_mem_cons] at hparts
      rw [List.flatten_cons] at h
      obtain ⟨first, second, -, hfirst, hsecond⟩ :=
        exists_texts_of_encode_eq_append h.symm (beginsInside_flatten hparts.2)
      exact List.forall_mem_cons.mpr ⟨⟨first, hfirst⟩, ih hsecond hparts.2⟩

theorem length_decodeLossy (raw : Bytes) :
    (decodeLossy raw).length = (marks raw).length :=
  List.length_map _

/-- The parts have at least as many marks as bytes that continue no character. -/
theorem starts_flatten_le
    (parts : List Bytes) :
    starts parts.flatten ≤ (parts.flatMap decodeLossy).length := by
  induction parts with
  | nil => exact Nat.le_refl 0
  | cons part parts ih =>
      have hpart := (starts_le_length_marksFrom part).1
      rw [List.flatten_cons, starts_append, List.flatMap_cons, List.length_append,
        length_decodeLossy]
      omega

/-- They have more if one of them begins inside a character. -/
theorem starts_flatten_lt
    {parts : List Bytes}
    {part : Bytes}
    (hpart : part ∈ parts)
    (hinside : beginsInside part = true) :
    starts parts.flatten < (parts.flatMap decodeLossy).length := by
  obtain ⟨front, back, rfl⟩ := List.append_of_mem hpart
  have hfront := starts_flatten_le front
  have hback := starts_flatten_le back
  have hmore := starts_lt_length_marks hinside
  rw [List.flatten_append, List.flatten_cons, starts_append, starts_append, List.flatMap_append,
    List.flatMap_cons, List.length_append, List.length_append, length_decodeLossy]
  omega

/-- Texts that are read one by one are read as one text. -/
theorem encode_flatMap_decodeLossy
    {parts : List Bytes}
    (h : ∀ part ∈ parts, ∃ text, part = encode text) :
    encode (parts.flatMap decodeLossy) = parts.flatten := by
  induction parts with
  | nil => rfl
  | cons part parts ih =>
      rw [List.forall_mem_cons] at h
      obtain ⟨⟨text, rfl⟩, hparts⟩ := h
      rw [List.flatMap_cons, decodeLossy_encode, encode_append, ih hparts, List.flatten_cons]

theorem encode_injective
    {first second : List Char}
    (h : encode first = encode second) :
    first = second := by
  rw [← decodeLossy_encode first, h, decodeLossy_encode]

/-- **Parts read one by one.** They read as the text that was cut if no character was cut. -/
theorem flatMap_decodeLossy_eq_iff
    {parts : List Bytes}
    {text : List Char}
    (h : parts.flatten = encode text) :
    parts.flatMap decodeLossy = text
      ↔
    ∀ part ∈ parts, ∃ text, part = encode text := by
  constructor
  · intro hread
    apply exists_text_of_not_beginsInside h
    intro part hpart
    rw [Bool.eq_false_iff]
    intro hinside
    have hmore := starts_flatten_lt hpart hinside
    rw [h, starts_encode, hread] at hmore
    exact Nat.lt_irrefl _ hmore
  · intro htexts
    apply encode_injective
    rw [encode_flatMap_decodeLossy htexts, h]

end Parts

end Utf8
end Text
end Optical
