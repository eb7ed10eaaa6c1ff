import Optical.Proofs.Iso.Entries

/-!
# System use areas from end to end

The entries of an area are a clean prefix of it: they stand one behind the other from its start on,
none of their bytes is passed over or read twice, and what is left behind them is no entry. It is too
short for one, or its length byte is wrong, or it is the entry that ends the list.

A cursor goes along the area entry by entry. It gives the entries of the list and then no more,
however often it is asked.

* ListEnd says which bytes no entry can be read from, and listEnd_or_exists_encode that all others
  begin with the bytes of an entry; area_induction goes along an area in this way;
* answer_eq_getElem? compares each answer of a cursor with the list;
* yields_clean_prefix puts this together.
-/

namespace Optical
namespace Iso

/-- No further entry stands at the start of the bytes. -/
inductive ListEnd : Bytes → Prop where
  /-- Too few bytes are left. -/
  | short {rest : Bytes} (few : rest.length < 4) : ListEnd rest
  /-- The length does not reach behind the header, or it reaches behind the last byte. -/
  | badLength {s0 s1 length version : UInt8} {rest : Bytes}
      (bad : length.toNat < 4 ∨ 4 + rest.length < length.toNat) :
      ListEnd (s0 :: s1 :: length :: version :: rest)
  /-- An entry with the signature ST stands there whole. -/
  | terminator {length version : UInt8} {rest : Bytes}
      (header : 4 ≤ length.toNat)
      (whole : length.toNat ≤ 4 + rest.length) :
      ListEnd (0x53 :: 0x54 :: length :: version :: rest)

section Lists

/-- Where the list ends, no entry is read. -/
theorem systemUseEntries_of_listEnd
    {rest : Bytes}
    (h : ListEnd rest) :
    systemUseEntries rest = [] := by
  cases h with
  | short few =>
      rw [systemUseEntries.eq_def]
      split
      · simp only [List.length_cons] at few
        omega
      · rfl
  | badLength bad => rw [systemUseEntries, entryHeaderLength, if_pos bad]
  | terminator header whole => simp [systemUseEntries, stopSignature]

/-- Bytes end the list or begin with an entry. -/
theorem listEnd_or_exists_encode
    (area : Bytes) :
    ListEnd area
      ∨
    ∃ (entry : SystemUseEntry) (following : Bytes),
      entry.IsWritable ∧ area = entry.encode ++ following := by
  match area with
  | s0 :: s1 :: length :: version :: rest =>
      by_cases hbad : length.toNat < 4 ∨ 4 + rest.length < length.toNat
      · exact Or.inl (.badLength hbad)
      · by_cases hstop : (s0, s1) = stopSignature
        · cases hstop
          exact Or.inl (.terminator (by omega) (by omega))
        · have hbyte := length.toNat_lt
          let entry : SystemUseEntry := ⟨(s0, s1), version, rest.take (length.toNat - 4)⟩
          have hlength : entry.length = length.toNat := by
            simp only [entry, SystemUseEntry.length, entryHeaderLength, List.length_take]
            omega
          refine Or.inr ⟨entry, rest.drop (length.toNat - 4), ⟨hstop, by omega⟩, ?_⟩
          simp [SystemUseEntry.encode, hlength, entry]
  | [] => exact Or.inl (.short (by simp))
  | [_] => exact Or.inl (.short (by simp))
  | [_, _] => exact Or.inl (.short (by simp))
  | [_, _, _] => exact Or.inl (.short (by simp))

/-- What holds where the list ends, and in front of an entry if it holds behind it, holds always. -/
@[elab_as_elim] theorem area_induction
    {motive : Bytes → Prop}
    (area : Bytes)
    (ended : ∀ rest, ListEnd rest → motive rest)
    (entry : ∀ (entry : SystemUseEntry) (following : Bytes), entry.IsWritable →
      motive following → motive (entry.encode ++ following)) :
    motive area := by
  -- The reader recurses behind the header of an entry; here a whole entry is passed, and has bytes.
  induction hlength : area.length using Nat.strongRecOn generalizing area with
  | _ length ih =>
      rcases listEnd_or_exists_encode area with hend | ⟨first, following, hfirst, rfl⟩
      · exact ended area hend
      · refine entry first following hfirst (ih following.length ?_ following rfl)
        simp [SystemUseEntry.encode] at hlength
        omega

/-- The entries of an area are its bytes up to the place where the list ends. -/
theorem exists_listEnd_behind
    (area : Bytes) :
    (∀ entry ∈ systemUseEntries area, entry.IsWritable) ∧
      ∃ rest,
        area = (systemUseEntries area).flatMap SystemUseEntry.encode ++ rest ∧
        ListEnd rest := by
  induction area using area_induction with
  | ended rest hend => exact ⟨by simp [systemUseEntries_of_listEnd hend],
      rest, by simp [systemUseEntries_of_listEnd hend], hend⟩
  | entry first following hfirst ih =>
      obtain ⟨hwritable, rest, hrest, hend⟩ := ih
      rw [systemUseEntries_encode_append hfirst]
      refine ⟨List.forall_mem_cons.mpr ⟨hfirst, hwritable⟩, rest, ?_, hend⟩
      rw [List.flatMap_cons, List.append_assoc, ← hrest]

end Lists

namespace SystemUseCursor

/-- The answer to one of the calls to a cursor; the first call has number zero. -/
def answer : Nat → SystemUseCursor → Option SystemUseEntry
  | 0, cursor => cursor.next?.1
  | call + 1, cursor => answer call cursor.next?.2

/-- The bytes that a cursor has not passed. -/
def rest (cursor : SystemUseCursor) : Bytes :=
  cursor.area.drop cursor.offset

section Steps

variable {cursor : SystemUseCursor}

/-- Where the list ends, a cursor gives nothing and comes to another place where the list ends. -/
theorem next?_of_listEnd
    (h : ListEnd cursor.rest) :
    ∃ last, cursor.next? = (none, last) ∧ ListEnd last.rest := by
  have hatEnd : ListEnd (SystemUseCursor.rest ⟨cursor.area, cursor.area.length⟩) :=
    .short (by simp [rest])
  rw [rest] at h
  generalize hrest : cursor.area.drop cursor.offset = left at h
  cases h with
  | short few =>
      refine ⟨cursor, ?_, by rw [rest, hrest]; exact .short few⟩
      rw [next?, hrest]
      split
      · simp only [List.length_cons] at few
        omega
      · rfl
  | badLength bad =>
      refine ⟨_, ?_, hatEnd⟩
      rw [next?, hrest]
      exact if_pos bad
  | terminator header whole =>
      refine ⟨_, ?_, hatEnd⟩
      simp [next?, hrest, stopSignature]

/-- In front of an entry, a cursor gives the entry and moves behind it. -/
theorem next?_of_encode
    {entry : SystemUseEntry}
    (h : entry.IsWritable)
    {following : Bytes}
    (hrest : cursor.rest = entry.encode ++ following) :
    ∃ next, cursor.next? = (some entry, next) ∧ next.rest = following := by
  rw [rest] at hrest
  have hsignature : ¬ (entry.signature.1, entry.signature.2) = stopSignature := h.signature
  refine ⟨⟨cursor.area, cursor.offset + entry.length⟩, ?_, ?_⟩
  · rw [next?, hrest, SystemUseEntry.encode]
    simp only [List.cons_append]
    rw [if_neg (h.fits following), if_neg hsignature, h.toNat_length_sub, List.take_left,
      h.toNat_length]
  · rw [rest, ← List.drop_drop, hrest, ← entry.encode_length, List.drop_left]

/-- A step gives the first entry in front of a cursor, if there is one, and leaves the others. -/
theorem next?_takes_head
    (cursor : SystemUseCursor) :
    cursor.next?.1 = (systemUseEntries cursor.rest).head?
      ∧
    systemUseEntries cursor.next?.2.rest = (systemUseEntries cursor.rest).tail := by
  rcases listEnd_or_exists_encode cursor.rest with hend | ⟨entry, following, hentry, hrest⟩
  · obtain ⟨last, hnext, hlast⟩ := next?_of_listEnd hend
    rw [hnext, systemUseEntries_of_listEnd hend, systemUseEntries_of_listEnd hlast]
    exact ⟨rfl, rfl⟩
  · obtain ⟨next, hnext, hfollowing⟩ := next?_of_encode hentry hrest
    rw [hnext, hfollowing, hrest, systemUseEntries_encode_append hentry]
    exact ⟨rfl, rfl⟩

/-- The answers of a cursor are the entries in front of it, one by one, and then nothing. -/
theorem answer_eq_getElem?
    (call : Nat)
    (cursor : SystemUseCursor) :
    answer call cursor = (systemUseEntries cursor.rest)[call]? := by
  -- The call that was made first moves the cursor, so the others are told of any cursor.
  induction call generalizing cursor with
  | zero => rw [answer, (next?_takes_head cursor).1, List.head?_eq_getElem?]
  | succ call ih => rw [answer, ih, (next?_takes_head cursor).2, List.getElem?_tail]

end Steps

end SystemUseCursor

/-- A cursor at the start gives the entries of a list, and then nothing however often it is asked. -/
def Yields (area : Bytes) (entries : List SystemUseEntry) : Prop :=
  ∀ call, (SystemUseCursor.ofArea area).answer call = entries[call]?

theorem yields_systemUseEntries
    (area : Bytes) :
    Yields area (systemUseEntries area) :=
  fun call => SystemUseCursor.answer_eq_getElem? call (.ofArea area)

/--
**Entries are a clean prefix.** Whatever bytes an area has, a cursor gives finitely many entries and
then nothing, however often it is asked. The bytes of these entries, one behind the other, are the
start of the area, and what follows them is too short for an entry, or has a length that cannot be
right, or is the entry ST. Entries that are written in front of an area are given first, and then
those of the area.
-/
theorem yields_clean_prefix
    (area : Bytes) :
    Yields area (systemUseEntries area) ∧
      (∀ entry ∈ systemUseEntries area, entry.IsWritable) ∧
      (∃ rest,
        area = (systemUseEntries area).flatMap SystemUseEntry.encode ++ rest ∧
        ListEnd rest) ∧
      ∀ entries : List SystemUseEntry, (∀ entry ∈ entries, entry.IsWritable) →
        Yields (entries.flatMap SystemUseEntry.encode ++ area)
          (entries ++ systemUseEntries area) := by
  obtain ⟨hwritable, hprefix⟩ := exists_listEnd_behind area
  refine ⟨yields_systemUseEntries area, hwritable, hprefix, fun entries hentries => ?_⟩
  rw [← systemUseEntries_flatMap_encode_append hentries]
  exact yields_systemUseEntries _

section Small

/-- Two entries, the first without data and the second with the letters ST as data. -/
def frontEntries : List SystemUseEntry :=
  [⟨(0x43, 0x45), 1, []⟩, ⟨(0x45, 0x52), 2, [0x53, 0x54]⟩]

/-- An area with an entry, the entry ST, and an entry that is never given. -/
def endedArea : Bytes :=
  [0x52, 0x52, 5, 1, 0x89, 0x53, 0x54, 4, 1, 0x50, 0x4E, 4, 1]

/-- Three entries are given, and that there is nothing more is said again and again. -/
theorem yields_clean_prefix_ended :
    (∀ entry ∈ frontEntries, entry.IsWritable) ∧
      Yields (frontEntries.flatMap SystemUseEntry.encode ++ endedArea)
        (frontEntries ++ [⟨(0x52, 0x52), 1, [0x89]⟩]) := by
  have hwritable : ∀ entry ∈ frontEntries, entry.IsWritable := by decide
  have hentries : systemUseEntries endedArea = [⟨(0x52, 0x52), 1, [0x89]⟩] := by
    decide +kernel
  obtain ⟨-, -, -, hfront⟩ := yields_clean_prefix endedArea
  exact ⟨hwritable, hentries ▸ hfront frontEntries hwritable⟩

end Small

end Iso
end Optical
