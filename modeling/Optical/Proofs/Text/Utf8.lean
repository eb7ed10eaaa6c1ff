import Mathlib.Data.List.Basic
import Optical.Text.Utf8

/-!
# UTF-8 read back

What the decoder does with a byte depends on the character that has begun before it. Leads says once
what a byte between two characters can do, and every argument about the decoder goes by its cases.

Between the decoder and the encoder stands Spelled, which lists the bytes that are well formed and
the number that they spell. The encoder writes such bytes, and the decoder reads them and no others
as characters. So

* marks_encodeChar says that a character that is written is read, whatever bytes follow, and
  decodeLossy_encode that a text is;
* exists_of_marks_eq_some says that a character that is read was written.
-/

namespace Optical
namespace Text
namespace Utf8

section Leads

/-- The byte continues a character. -/
def isContinuation (b : UInt8) : Bool :=
  0x80 ≤ b.toNat && b.toNat < 0xC0

theorem isContinuation_iff (b : UInt8) :
    isContinuation b = true ↔ 0x80 ≤ b.toNat ∧ b.toNat < 0xC0 := by
  simp [isContinuation]

/-- The byte can follow in a character that has begun. -/
def Pending.Takes (state : Pending) (next : UInt8) : Prop :=
  state.low ≤ next ∧ next ≤ state.high

/--
What a byte between two characters can do. The range of the second byte of a longer character rules
out overlong spellings, surrogates and numbers above U+10FFFF.
-/
inductive Leads (b : UInt8) : Lead → Prop
  | single : b.toNat < 0x80 → Leads b (.single (Char.ofNat b.toNat))
  | two {state : Pending} :
      0xC2 ≤ b.toNat → b.toNat < 0xE0 → state.bits = b.toNat - 0xC0 → state.more = 0 →
      (∀ next, state.Takes next ↔ isContinuation next = true) →
      Leads b (.opens state)
  | three {state : Pending} :
      0xE0 ≤ b.toNat → b.toNat < 0xF0 → state.bits = b.toNat - 0xE0 → state.more = 1 →
      (∀ next, state.Takes next ↔ isContinuation next = true ∧
        0x20 ≤ state.push next ∧ ¬ (0x360 ≤ state.push next ∧ state.push next < 0x380)) →
      Leads b (.opens state)
  | four {state : Pending} :
      0xF0 ≤ b.toNat → b.toNat < 0xF5 → state.bits = b.toNat - 0xF0 → state.more = 2 →
      (∀ next, state.Takes next ↔ isContinuation next = true ∧
        0x10 ≤ state.push next ∧ state.push next < 0x110) →
      Leads b (.opens state)
  | refused : 0x80 ≤ b.toNat → b.toNat < 0xC2 ∨ 0xF5 ≤ b.toNat → Leads b .refused

theorem push_mk
    (bits more : Nat)
    (low high next : UInt8) :
    Pending.push ⟨bits, more, low, high⟩ next = bits * 64 + (next.toNat - 0x80) := rfl

theorem takes_tail_iff
    (bits more : Nat)
    (next : UInt8) :
    Pending.Takes ⟨bits, more, 0x80, 0xBF⟩ next ↔ isContinuation next = true := by
  rw [Pending.Takes, isContinuation_iff, UInt8.le_iff_toNat_le, UInt8.le_iff_toNat_le]
  simp only [UInt8.reduceToNat]
  omega

variable {b : UInt8}
variable {bits : Nat}
variable {low high : UInt8}

theorem Leads.three_of
    (hb : b.toNat = 0xE0 + bits)
    (hbits : bits < 0x10)
    (hlow : low.toNat = if bits = 0 then 0xA0 else 0x80)
    (hhigh : high.toNat = if bits = 0xD then 0x9F else 0xBF) :
    Leads b (.opens ⟨bits, 1, low, high⟩) := by
  refine .three (by omega) (by omega) (Nat.sub_eq_of_eq_add' hb).symm rfl fun next => ?_
  rw [Pending.Takes, isContinuation_iff, UInt8.le_iff_toNat_le, UInt8.le_iff_toNat_le, hlow, hhigh,
    push_mk]
  split <;> split <;> omega

theorem Leads.four_of
    (hb : b.toNat = 0xF0 + bits)
    (hbits : bits < 5)
    (hlow : low.toNat = if bits = 0 then 0x90 else 0x80)
    (hhigh : high.toNat = if bits = 4 then 0x8F else 0xBF) :
    Leads b (.opens ⟨bits, 2, low, high⟩) := by
  refine .four (by omega) (by omega) (Nat.sub_eq_of_eq_add' hb).symm rfl fun next => ?_
  rw [Pending.Takes, isContinuation_iff, UInt8.le_iff_toNat_le, UInt8.le_iff_toNat_le, hlow, hhigh,
    push_mk]
  split <;> split <;> omega

theorem leads_lead (b : UInt8) : Leads b (lead b) := by
  have hbyte := b.toNat_lt
  simp only [lead, UInt8.lt_iff_toNat_lt, ← UInt8.toNat_inj, UInt8.reduceToNat]
  split
  · exact .single (by omega)
  split
  · exact .refused (by omega) (by omega)
  split
  · exact .two (by omega) (by omega) rfl rfl (takes_tail_iff _ _)
  split
  · exact .three_of (by omega) (by omega) rfl rfl
  split
  · exact .three_of (by omega) (by omega) rfl rfl
  split
  · exact .three_of (by omega) (by omega) (if_neg (by omega)).symm (if_neg (by omega)).symm
  split
  · exact .four_of (by omega) (by omega) rfl rfl
  split
  · exact .four_of (by omega) (by omega) (if_neg (by omega)).symm (if_neg (by omega)).symm
  split
  · exact .four_of (by omega) (by omega) rfl rfl
  · exact .refused (by omega) (by omega)

end Leads

section Marks

variable {state : Pending}
variable {next : UInt8}

theorem marks_cons
    (b : UInt8)
    (rest : Bytes) :
    marks (b :: rest) =
      match lead b with
      | .single c => some c :: marks rest
      | .opens state => marksFrom (some state) rest
      | .refused => none :: marks rest := by
  rw [marks, marksFrom, marksAt]
  rfl

/-- The last byte of a character ends it. -/
theorem marksFrom_of_takes_last
    (h : state.Takes next)
    (hmore : state.more = 0)
    (rest : Bytes) :
    marksFrom (some state) (next :: rest) = some (Char.ofNat (state.push next)) :: marks rest := by
  rw [Pending.Takes] at h
  rw [marksFrom, if_pos h, hmore]
  rfl

/-- Any other byte of a character leaves one byte less to come. -/
theorem marksFrom_of_takes
    (h : state.Takes next)
    {more : Nat}
    (hmore : state.more = more + 1)
    (rest : Bytes) :
    marksFrom (some state) (next :: rest) =
      marksFrom (some ⟨state.push next, more, 0x80, 0xBF⟩) rest := by
  rw [Pending.Takes] at h
  rw [marksFrom, if_pos h, hmore]

/-- A byte that cannot follow ends the character before it is whole. -/
theorem marksFrom_of_not_takes
    (h : ¬ state.Takes next)
    (rest : Bytes) :
    marksFrom (some state) (next :: rest) = none :: marks (next :: rest) := by
  rw [Pending.Takes] at h
  rw [marksFrom, if_neg h]
  rfl

end Marks

section Characters

/-- The bytes spell the number of a character. -/
inductive Spelled : Bytes → Nat → Prop
  | one {b : UInt8} : b.toNat < 0x80 → Spelled [b] b.toNat
  | two {b x : UInt8} :
      0xC2 ≤ b.toNat → b.toNat < 0xE0 → isContinuation x = true →
      Spelled [b, x] ((b.toNat - 0xC0) * 64 + (x.toNat - 0x80))
  | three {b x y : UInt8} {bits : Nat} :
      0xE0 ≤ b.toNat → b.toNat < 0xF0 → isContinuation x = true → isContinuation y = true →
      bits = (b.toNat - 0xE0) * 64 + (x.toNat - 0x80) →
      0x20 ≤ bits → ¬ (0x360 ≤ bits ∧ bits < 0x380) →
      Spelled [b, x, y] (bits * 64 + (y.toNat - 0x80))
  | four {b x y z : UInt8} {bits : Nat} :
      0xF0 ≤ b.toNat → b.toNat < 0xF5 → isContinuation x = true → isContinuation y = true →
      isContinuation z = true →
      bits = (b.toNat - 0xF0) * 64 + (x.toNat - 0x80) →
      0x10 ≤ bits → bits < 0x110 →
      Spelled [b, x, y, z] ((bits * 64 + (y.toNat - 0x80)) * 64 + (z.toNat - 0x80))

/-- The bytes of a character spell its number. -/
theorem spelled_encodeChar (c : Char) :
    Spelled (String.utf8EncodeChar c) c.val.toNat := by
  have hvalid : c.val.toNat < 0xD800 ∨ 0xDFFF < c.val.toNat ∧ c.val.toNat < 0x110000 := c.valid
  rw [String.utf8EncodeChar]
  generalize c.val.toNat = n at *
  have htail := fun part : Nat => UInt8.toNat_ofNat_of_lt'
    (n := part % 64 + 128) (show _ < 0x100 by omega)
  have hcontinues : ∀ part : Nat, isContinuation (UInt8.ofNat (part % 64 + 128)) = true := by
    intro part
    rw [isContinuation_iff, htail]
    omega
  split
  · next hone =>
      have hb := UInt8.toNat_ofNat_of_lt' (n := n) (show _ < 0x100 by omega)
      have hnumber := Spelled.one (b := UInt8.ofNat n) (by omega)
      rwa [hb] at hnumber
  split
  · next htwo =>
      have hb := UInt8.toNat_ofNat_of_lt' (n := n / 64 % 32 + 192) (show _ < 0x100 by omega)
      have hnumber := Spelled.two (b := UInt8.ofNat (n / 64 % 32 + 192)) (by omega) (by omega)
        (hcontinues n)
      rw [hb, htail] at hnumber
      have hvalue : (n / 64 % 32 + 192 - 0xC0) * 64 + (n % 64 + 128 - 0x80) = n := by omega
      rwa [hvalue] at hnumber
  split
  · next hthree =>
      have hb := UInt8.toNat_ofNat_of_lt' (n := n / 4096 % 16 + 224) (show _ < 0x100 by omega)
      have hbits : n / 64 = (n / 4096 % 16 + 224 - 0xE0) * 64 + (n / 64 % 64 + 128 - 0x80) := by
        omega
      rw [← hb, ← htail] at hbits
      have hnumber := Spelled.three (by omega) (by omega) (hcontinues (n / 64)) (hcontinues n) hbits
        (by omega) (by omega)
      rw [htail] at hnumber
      have hvalue : n / 64 * 64 + (n % 64 + 128 - 0x80) = n := by omega
      rwa [hvalue] at hnumber
  · next hfour =>
      have hb := UInt8.toNat_ofNat_of_lt' (n := n / 262144 % 8 + 240) (show _ < 0x100 by omega)
      have hbits : n / 4096 = (n / 262144 % 8 + 240 - 0xF0) * 64 + (n / 4096 % 64 + 128 - 0x80) := by
        omega
      rw [← hb, ← htail] at hbits
      have hnumber := Spelled.four (by omega) (by omega) (hcontinues (n / 4096))
        (hcontinues (n / 64)) (hcontinues n) hbits (by omega) (by omega)
      rw [htail, htail] at hnumber
      have hvalue : (n / 4096 * 64 + (n / 64 % 64 + 128 - 0x80)) * 64 + (n % 64 + 128 - 0x80) = n := by
        omega
      rwa [hvalue] at hnumber

/-- Bytes that spell a number are those of its character. -/
theorem Spelled.eq_encodeChar
    {raw : Bytes}
    {n : Nat}
    (h : Spelled raw n) :
    raw = String.utf8EncodeChar (Char.ofNat n) := by
  have hnumber : n.isValidChar → (Char.ofNat n).val.toNat = n := by
    intro hvalid
    rw [Char.ofNat, dif_pos hvalid]
    rfl
  simp only [Nat.isValidChar] at hnumber
  rw [String.utf8EncodeChar]
  cases h with
  | @one b hb =>
      rw [hnumber (by omega), if_pos (by omega), UInt8.ofNat_toNat]
  | @two b x hlow hhigh hx =>
      rw [isContinuation_iff] at hx
      generalize hn : (b.toNat - 0xC0) * 64 + (x.toNat - 0x80) = n at *
      have hfirst : n / 64 % 32 + 192 = b.toNat := by omega
      have hsecond : n % 64 + 128 = x.toNat := by omega
      rw [hnumber (by omega), if_neg (by omega), if_pos (by omega), hfirst, hsecond,
        UInt8.ofNat_toNat, UInt8.ofNat_toNat]
  | @three b x y bits hlow hhigh hx hy hbits hleast hsurrogate =>
      rw [isContinuation_iff] at hx hy
      generalize hn : bits * 64 + (y.toNat - 0x80) = n at *
      have hfirst : n / 4096 % 16 + 224 = b.toNat := by omega
      have hsecond : n / 64 % 64 + 128 = x.toNat := by omega
      have hthird : n % 64 + 128 = y.toNat := by omega
      rw [hnumber (by omega), if_neg (by omega), if_neg (by omega), if_pos (by omega), hfirst,
        hsecond, hthird, UInt8.ofNat_toNat, UInt8.ofNat_toNat, UInt8.ofNat_toNat]
  | @four b x y z bits hlow hhigh hx hy hz hbits hleast hmost =>
      rw [isContinuation_iff] at hx hy hz
      generalize hn : (bits * 64 + (y.toNat - 0x80)) * 64 + (z.toNat - 0x80) = n at *
      have hfirst : n / 262144 % 8 + 240 = b.toNat := by omega
      have hsecond : n / 4096 % 64 + 128 = x.toNat := by omega
      have hthird : n / 64 % 64 + 128 = y.toNat := by omega
      have hfourth : n % 64 + 128 = z.toNat := by omega
      rw [hnumber (by omega), if_neg (by omega), if_neg (by omega), if_neg (by omega), hfirst,
        hsecond, hthird, hfourth, UInt8.ofNat_toNat, UInt8.ofNat_toNat, UInt8.ofNat_toNat,
        UInt8.ofNat_toNat]

/-- What spells a number is read as its character, whatever bytes follow. -/
theorem Spelled.marks_append
    {raw : Bytes}
    {n : Nat}
    (h : Spelled raw n)
    (rest : Bytes) :
    marks (raw ++ rest) = some (Char.ofNat n) :: marks rest := by
  cases h with
  | @one b hb =>
      rw [List.singleton_append, marks_cons]
      have hlead := leads_lead b
      generalize lead b = role at *
      cases hlead with
      | single => rfl
      | two | three | four | refused => omega
  | @two b x hlow hhigh hx =>
      rw [List.cons_append, marks_cons]
      have hlead := leads_lead b
      generalize lead b = role at *
      cases hlead with
      | @two state _ _ hbits hmore htakes =>
          have hpush : state.push x = (b.toNat - 0xC0) * 64 + (x.toNat - 0x80) := by
            rw [← hbits]
            rfl
          rw [← hpush]
          exact marksFrom_of_takes_last ((htakes x).mpr hx) hmore rest
      | single | three | four | refused => omega
  | @three b x y bits hlow hhigh hx hy hbits hleast hsurrogate =>
      rw [List.cons_append, marks_cons]
      have hlead := leads_lead b
      generalize lead b = role at *
      cases hlead with
      | @three state _ _ hfirst hmore htakes =>
          have hpush : state.push x = bits := by
            rw [hbits, ← hfirst]
            rfl
          have hsecond : state.Takes x := by
            rw [htakes, hpush]
            exact ⟨hx, hleast, hsurrogate⟩
          show marksFrom (some state) (x :: y :: rest) = _
          rw [marksFrom_of_takes hsecond hmore, hpush]
          exact marksFrom_of_takes_last ((takes_tail_iff bits 0 y).mpr hy) rfl rest
      | single | two | four | refused => omega
  | @four b x y z bits hlow hhigh hx hy hz hbits hleast hmost =>
      rw [List.cons_append, marks_cons]
      have hlead := leads_lead b
      generalize lead b = role at *
      cases hlead with
      | @four state _ _ hfirst hmore htakes =>
          have hpush : state.push x = bits := by
            rw [hbits, ← hfirst]
            rfl
          have hsecond : state.Takes x := by
            rw [htakes, hpush]
            exact ⟨hx, hleast, hmost⟩
          show marksFrom (some state) (x :: y :: z :: rest) = _
          rw [marksFrom_of_takes hsecond hmore, hpush,
            marksFrom_of_takes ((takes_tail_iff bits 1 y).mpr hy) rfl]
          exact marksFrom_of_takes_last ((takes_tail_iff _ 0 z).mpr hz) rfl rest
      | single | two | three | refused => omega

/-- A character that has begun is read whole only if the next byte can follow in it. -/
theorem exists_of_marksFrom_eq_some
    {state : Pending}
    {raw : Bytes}
    {c : Char}
    {later : List (Option Char)}
    (h : marksFrom (some state) raw = some c :: later) :
    ∃ next rest, raw = next :: rest ∧ state.Takes next ∧
      marksFrom (some state) (next :: rest) = some c :: later := by
  cases raw with
  | nil => simp [marksFrom] at h
  | cons next rest =>
      refine ⟨next, rest, rfl, ?_, h⟩
      by_contra hnot
      rw [marksFrom_of_not_takes hnot] at h
      cases h

/-- What is read as a character spells its number. -/
theorem exists_spelled_of_marks_eq_some
    {raw : Bytes}
    {c : Char}
    {later : List (Option Char)}
    (h : marks raw = some c :: later) :
    ∃ front n rest, raw = front ++ rest ∧ Spelled front n ∧ c = Char.ofNat n ∧
      later = marks rest := by
  cases raw with
  | nil => cases h
  | cons b rest =>
      rw [marks_cons] at h
      have hlead := leads_lead b
      generalize lead b = role at *
      cases hlead with
      | single hb =>
          cases h
          exact ⟨[b], b.toNat, rest, rfl, .one hb, rfl, rfl⟩
      | refused => cases h
      | @two state hlow hhigh hbits hmore htakes =>
          obtain ⟨x, rest, rfl, hx, h⟩ := exists_of_marksFrom_eq_some h
          rw [marksFrom_of_takes_last hx hmore, List.cons.injEq, Option.some.injEq] at h
          refine ⟨[b, x], _, rest, rfl, .two hlow hhigh ((htakes x).mp hx), ?_, h.2.symm⟩
          rw [← h.1, ← hbits]
          rfl
      | @three state hlow hhigh hbits hmore htakes =>
          obtain ⟨x, rest, rfl, hx, h⟩ := exists_of_marksFrom_eq_some h
          rw [marksFrom_of_takes hx hmore] at h
          obtain ⟨y, rest, rfl, hy, h⟩ := exists_of_marksFrom_eq_some h
          rw [marksFrom_of_takes_last hy rfl, List.cons.injEq, Option.some.injEq] at h
          obtain ⟨hcont, hleast, hsurrogate⟩ := (htakes x).mp hx
          rw [takes_tail_iff] at hy
          refine ⟨[b, x, y], _, rest, rfl,
            .three hlow hhigh hcont hy ?_ hleast hsurrogate, h.1.symm, h.2.symm⟩
          rw [← hbits]
          rfl
      | @four state hlow hhigh hbits hmore htakes =>
          obtain ⟨x, rest, rfl, hx, h⟩ := exists_of_marksFrom_eq_some h
          rw [marksFrom_of_takes hx hmore] at h
          obtain ⟨y, rest, rfl, hy, h⟩ := exists_of_marksFrom_eq_some h
          rw [marksFrom_of_takes hy rfl] at h
          obtain ⟨z, rest, rfl, hz, h⟩ := exists_of_marksFrom_eq_some h
          rw [marksFrom_of_takes_last hz rfl, List.cons.injEq, Option.some.injEq] at h
          obtain ⟨hcont, hleast, hmost⟩ := (htakes x).mp hx
          rw [takes_tail_iff] at hy hz
          refine ⟨[b, x, y, z], _, rest, rfl,
            .four hlow hhigh hcont hy hz ?_ hleast hmost, h.1.symm, h.2.symm⟩
          rw [← hbits]
          rfl

/-- Only the number zero is spelled with a zero byte. -/
theorem Spelled.zero_not_mem
    {raw : Bytes}
    {n : Nat}
    (h : Spelled raw n)
    (hn : n ≠ 0) :
    0 ∉ raw := by
  have hfirst : ∀ {b : UInt8}, 0 < b.toNat → 0 ≠ b := by
    rintro b hb rfl
    exact Nat.lt_irrefl 0 hb
  have hlater : ∀ {x : UInt8}, isContinuation x = true → 0 ≠ x := by
    rintro x hx rfl
    cases hx
  cases h with
  | one => simp [hfirst (Nat.pos_of_ne_zero hn)]
  | two hb _ hx => simp [hfirst (Nat.lt_of_lt_of_le (by decide) hb), hlater hx]
  | three hb _ hx hy =>
      simp [hfirst (Nat.lt_of_lt_of_le (by decide) hb), hlater hx, hlater hy]
  | four hb _ hx hy hz =>
      simp [hfirst (Nat.lt_of_lt_of_le (by decide) hb), hlater hx, hlater hy, hlater hz]

end Characters

section Texts

/-- No character but U+0000 has a zero byte. -/
theorem zero_not_mem_encodeChar
    {c : Char}
    (h : c ≠ '\x00') :
    0 ∉ String.utf8EncodeChar c :=
  (spelled_encodeChar c).zero_not_mem fun hzero => h (Char.toNat_inj.mp hzero)

theorem encode_append
    (front back : List Char) :
    encode (front ++ back) = encode front ++ encode back :=
  List.flatMap_append

/-- A character is read back from its bytes, whatever bytes follow. -/
theorem marks_encodeChar
    (c : Char)
    (rest : Bytes) :
    marks (String.utf8EncodeChar c ++ rest) = some c :: marks rest := by
  rw [(spelled_encodeChar c).marks_append rest]
  exact congrArg (some · :: _) (Char.ofNat_toNat c)

/-- A character that is read was written. -/
theorem exists_of_marks_eq_some
    {raw : Bytes}
    {c : Char}
    {later : List (Option Char)}
    (h : marks raw = some c :: later) :
    ∃ rest, raw = String.utf8EncodeChar c ++ rest ∧ later = marks rest := by
  obtain ⟨front, n, rest, rfl, hspelled, rfl, hlater⟩ := exists_spelled_of_marks_eq_some h
  exact ⟨rest, by rw [← hspelled.eq_encodeChar], hlater⟩

/-- A text is read back from its bytes, whatever bytes follow. -/
theorem marks_encode_append
    (text : List Char)
    (rest : Bytes) :
    marks (encode text ++ rest) = text.map some ++ marks rest := by
  induction text with
  | nil => rfl
  | cons c text ih =>
      rw [encode, List.flatMap_cons, List.append_assoc, marks_encodeChar]
      exact congrArg (some c :: ·) ih

theorem marks_encode (text : List Char) :
    marks (encode text) = text.map some := by
  have hmarks := marks_encode_append text []
  rw [List.append_nil] at hmarks
  exact hmarks.trans (List.append_nil _)

@[simp] theorem decodeLossy_encode (text : List Char) :
    decodeLossy (encode text) = text := by
  rw [decodeLossy, marks_encode, List.map_map]
  exact List.map_id text

@[simp] theorem decode?_encode (text : List Char) :
    decode? (encode text) = some text := by
  rw [decode?, marks_encode, List.mapM_map]
  exact (List.mapM_pure (f := id)).trans (congrArg some (List.map_id text))

end Texts

end Utf8
end Text
end Optical
