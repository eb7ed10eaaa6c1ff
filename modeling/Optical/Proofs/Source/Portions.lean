import Mathlib.Algebra.GroupWithZero.Nat
import Optical.Proofs.Image.Parts
import Optical.Source.Paced

/-!
# Reads in small portions

Calls to a medium may be interrupted and may give fewer bytes than they were asked for. A read
repeats them, so it gives what one call would give that is not interrupted and has its full length.
Only a call that fails shows: its error is the outcome of the read.

* Ends says how the turns of a read go by: calm ones, and then the answer or a turn that fails;
* single_split takes a read apart where a call stopped, and fill_ends puts the calls of a read
  together;
* fill_append says that nothing hangs on the turns behind those that let enough calls through;
* evalPaced_of_calm is about every reading program, and evalPaced_reads about a single read.
-/

namespace Optical

namespace Turn

/-- The call does not fail. -/
def Calm : Turn → Prop
  | .interrupted => True
  | .gives _ => True
  | .fails _ => False

/-- The number of bytes that the call gives if so many are asked for and there are so many. -/
def most : Turn → Nat
  | .interrupted => 0
  | .gives most => max 1 most
  | .fails _ => 0

/-- The call gives bytes if there are any. -/
def isGives : Turn → Bool
  | .gives _ => true
  | _ => false

/--
After calm turns there is an answer, or a turn that fails and then its fault. The pair is the
outcome with the turns that are left.
-/
inductive Ends {α : Type} (answer : Except Error α) :
    List Turn → Except Error α × List Turn → Prop where
  | answer (turns : List Turn) : Ends answer turns (answer, turns)
  | fault (fault : MediumFault) (turns : List Turn) :
      Ends answer (.fails fault :: turns) (.error (.medium fault), turns)
  | calm {turn : Turn} {turns : List Turn} {result : Except Error α × List Turn} :
      turn.Calm → Ends answer turns result → Ends answer (turn :: turns) result

namespace Ends

variable {α β : Type} {answer : Except Error α} {turns : List Turn}
variable {result : Except Error α × List Turn}

/-- What is done with the bytes of a read is done with its answer. -/
theorem bind
    (h : Ends answer turns result)
    (f : α → Except Error β) :
    Ends (answer.bind f) turns (result.1.bind f, result.2) := by
  induction h with
  | answer turns => exact .answer turns
  | fault fault turns => exact .fault fault turns
  | calm hcalm _ ih => exact .calm hcalm ih

/-- Where no turn fails there is an answer. -/
theorem of_calm
    (h : Ends answer turns result)
    (hcalm : ∀ turn ∈ turns, turn.Calm) :
    result.1 = answer ∧ result.2 <:+ turns := by
  induction h with
  | answer turns => exact ⟨rfl, List.suffix_rfl⟩
  | fault fault turns => exact (hcalm _ List.mem_cons_self).elim
  | calm _ _ ih =>
      obtain ⟨hanswer, hsuffix⟩ := ih (List.forall_mem_of_forall_mem_cons hcalm)
      exact ⟨hanswer, hsuffix.trans (List.suffix_cons _ _)⟩

end Ends

theorem prepend_eq
    (got : Bytes)
    (result : Except Error Bytes × List Turn) :
    prepend got result = (result.1.bind fun more => .ok (got ++ more), result.2) := by
  obtain ⟨outcome, turns⟩ := result
  cases outcome <;> rfl

end Turn

namespace WornImage

section Calls

variable (worn : WornImage)

/-- What a call gives that is not interrupted and has its full length. -/
def single (offset count : Nat) : Except Error Bytes :=
  worn.source.read offset count

theorem single_eq
    (offset count : Nat) :
    worn.single offset count =
      if worn.touchesBad offset count then .error (.medium fault)
      else .ok (worn.bytes.part offset count) :=
  rfl

/-- The byte at a position cannot be read. -/
def BadAt (position : Nat) : Prop :=
  ∃ first last, worn.bad = some (first, last) ∧ first ≤ position ∧ position < last

/-- A read touches the bad range if one of its bytes is there. -/
theorem touchesBad_iff
    (offset count : Nat) :
    worn.touchesBad offset count ↔
      ∃ position, offset ≤ position ∧ position < offset + count ∧ position < worn.bytes.size ∧
        worn.BadAt position := by
  simp only [touchesBad, BadAt]
  cases worn.bad with
  | none => simp
  | some range =>
      obtain ⟨first, last⟩ := range
      constructor
      · intro h
        have hmeet := of_decide_eq_true h
        exact ⟨max offset first, by omega, by omega, by omega, first, last, rfl, by omega⟩
      · rintro ⟨position, hbegin, hend, hsize, _, _, ⟨⟩, hrange⟩
        apply decide_eq_true
        omega

/-- Where there is nothing to read nothing is bad. -/
theorem single_of_nothing
    {offset count : Nat}
    (h : min count (worn.bytes.size - offset) = 0) :
    worn.single offset count = .ok [] := by
  have hgood : ¬worn.touchesBad offset count := by
    rw [touchesBad_iff]
    rintro ⟨position, hposition⟩
    omega
  have hempty : worn.bytes.part offset count = [] := by
    rw [← List.length_eq_zero_iff, Image.part_length, h]
  rw [single_eq, if_neg hgood, hempty]

/-- A call that does not fail gives what it was asked for, as far as there is any. -/
theorem length_of_single
    {offset count : Nat}
    {got : Bytes}
    (h : worn.single offset count = .ok got) :
    got.length = min count (worn.bytes.size - offset) := by
  rw [single_eq] at h
  split at h
  · cases h
  · rw [← Except.ok.inj h, Image.part_length]

/-- The bytes of two neighbouring reads are bad if those of one of both are. -/
theorem touchesBad_add
    (offset first second : Nat) :
    worn.touchesBad offset (first + second) ↔
      worn.touchesBad offset first ∨ worn.touchesBad (offset + first) second := by
  simp only [touchesBad_iff]
  constructor
  · rintro ⟨position, hbegin, hend, hsize, hbad⟩
    rcases Nat.lt_or_ge position (offset + first) with hbefore | hbehind
    · exact .inl ⟨position, hbegin, hbefore, hsize, hbad⟩
    · exact .inr ⟨position, hbehind, by omega, hsize, hbad⟩
  · rintro (⟨position, hbegin, hend, hsize, hbad⟩ | ⟨position, hbegin, hend, hsize, hbad⟩)
    · exact ⟨position, hbegin, by omega, hsize, hbad⟩
    · exact ⟨position, by omega, by omega, hsize, hbad⟩

/-- Where a call stopped, another one goes on. -/
theorem single_split
    (offset : Nat)
    {first count : Nat}
    (h : first ≤ count) :
    worn.single offset count =
      (worn.single offset first).bind fun got =>
        (worn.single (offset + got.length) (count - got.length)).bind fun more =>
          .ok (got ++ more) := by
  have hadd {part count : Nat} (hpart : part ≤ count) : worn.touchesBad offset count ↔
      worn.touchesBad offset part ∨ worn.touchesBad (offset + part) (count - part) := by
    rw [← worn.touchesBad_add, Nat.add_sub_cancel' hpart]
  by_cases hfirst : worn.touchesBad offset first
  · rw [single_eq, single_eq, if_pos hfirst, if_pos ((hadd h).mpr (.inl hfirst))]
    rfl
  · have hgot : worn.single offset first = .ok (worn.bytes.part offset first) := by
      rw [single_eq, if_neg hfirst]
    have hlength := worn.length_of_single hgot
    have hall := worn.bytes.part_append_after offset h
    rw [hgot]
    simp only [Except.bind]
    generalize worn.bytes.part offset first = got at hlength hall ⊢
    have hgood : ¬worn.touchesBad offset got.length :=
      fun hbad => hfirst ((hadd (by omega)).mpr (.inl hbad))
    have hrest : worn.touchesBad offset count ↔
        worn.touchesBad (offset + got.length) (count - got.length) :=
      (hadd (by omega)).trans (or_iff_right hgood)
    rw [single_eq, single_eq, ← hall]
    by_cases hbad : worn.touchesBad (offset + got.length) (count - got.length)
    · rw [if_pos hbad, if_pos (hrest.mpr hbad)]
    · rw [if_neg hbad, if_neg (mt hrest.mp hbad)]

/-- A read of no bytes takes no turn. -/
theorem fill_zero
    (turns : List Turn)
    (offset : Nat) :
    worn.fill turns offset 0 = (.ok [], turns) := by
  cases turns with
  | nil => exact congrArg (·, []) (worn.single_of_nothing (Nat.zero_min _))
  | cons turn turns => cases turn <;> rfl

theorem fill_interrupted
    (turns : List Turn)
    (offset : Nat)
    {count : Nat}
    (hcount : count ≠ 0) :
    worn.fill (.interrupted :: turns) offset count = worn.fill turns offset count :=
  if_neg hcount

theorem fill_fails
    (fault : MediumFault)
    (turns : List Turn)
    (offset : Nat)
    {count : Nat}
    (hcount : count ≠ 0) :
    worn.fill (.fails fault :: turns) offset count = (.error (.medium fault), turns) :=
  if_neg hcount

theorem fill_gives
    (most : Nat)
    (turns : List Turn)
    (offset : Nat)
    {count : Nat}
    (hcount : count ≠ 0) :
    worn.fill (.gives most :: turns) offset count =
      match worn.single offset (min (max 1 most) count) with
      | .error error => (.error error, turns)
      | .ok [] => (.ok [], turns)
      | .ok got =>
          Turn.prepend got (worn.fill turns (offset + got.length) (count - got.length)) :=
  if_neg hcount

/-- Each turn is calm or ends the read, and what the read has so far goes in front of the rest. -/
theorem fill_ends
    (turns : List Turn)
    (offset count : Nat) :
    Turn.Ends (worn.single offset count) turns (worn.fill turns offset count) := by
  induction turns generalizing offset count with
  | nil => exact .answer []
  | cons turn turns ih =>
      rcases Nat.eq_zero_or_pos count with rfl | hcount
      · rw [fill_zero, worn.single_of_nothing (Nat.zero_min _)]
        exact .answer (turn :: turns)
      · have hsome := Nat.ne_of_gt hcount
        cases turn with
        | interrupted =>
            rw [worn.fill_interrupted turns offset hsome]
            exact .calm trivial (ih offset count)
        | fails fault =>
            rw [worn.fill_fails fault turns offset hsome]
            exact .fault fault turns
        | gives most =>
            refine .calm trivial ?_
            rw [worn.fill_gives most turns offset hsome]
            rw [worn.single_split offset (Nat.min_le_right (max 1 most) count)]
            cases hgot : worn.single offset (min (max 1 most) count) with
            | error error => exact .answer turns
            | ok got =>
                cases got with
                | nil =>
                    have hlength := worn.length_of_single hgot
                    rw [List.length_nil] at hlength
                    simp only [Except.bind]
                    rw [List.length_nil, Nat.add_zero, Nat.sub_zero,
                      worn.single_of_nothing (by omega)]
                    exact .answer turns
                | cons byte rest =>
                    simp only
                    rw [Turn.prepend_eq]
                    exact (ih _ _).bind _

/-- Behind the end one call is enough. -/
theorem fill_append_behind
    (turns more : List Turn)
    {offset : Nat}
    (hend : worn.bytes.size ≤ offset)
    {count : Nat}
    (hcount : count ≠ 0)
    (hgives : ∃ turn ∈ turns, turn.isGives) :
    worn.fill (turns ++ more) offset count =
      ((worn.fill turns offset count).1, (worn.fill turns offset count).2 ++ more) := by
  induction turns with
  | nil =>
      obtain ⟨turn, hturn, -⟩ := hgives
      cases hturn
  | cons turn turns ih =>
      rw [List.cons_append]
      cases turn with
      | interrupted =>
          rw [worn.fill_interrupted _ offset hcount, worn.fill_interrupted _ offset hcount]
          obtain ⟨turn, hturn, hisGives⟩ := hgives
          rcases List.mem_cons.mp hturn with rfl | hturn
          · cases hisGives
          · exact ih ⟨turn, hturn, hisGives⟩
      | fails fault =>
          rw [worn.fill_fails fault _ offset hcount, worn.fill_fails fault _ offset hcount]
      | gives most =>
          rw [worn.fill_gives most _ offset hcount, worn.fill_gives most _ offset hcount]
          rw [worn.single_of_nothing (by omega)]

/--
Once the calls have given all the bytes that there are, and one more call if the read asks for
others, the turns that follow are left for other reads.
-/
theorem fill_append
    (before after more : List Turn)
    {offset count : Nat}
    (hbytes : min count (worn.bytes.size - offset) ≤ (before.map Turn.most).sum)
    (hend : offset + count ≤ worn.bytes.size ∨ ∃ turn ∈ after, turn.isGives) :
    worn.fill (before ++ after ++ more) offset count =
      ((worn.fill (before ++ after) offset count).1,
        (worn.fill (before ++ after) offset count).2 ++ more) := by
  induction before generalizing offset count with
  | nil =>
      rw [List.nil_append]
      rcases Nat.eq_zero_or_pos count with rfl | hcount
      · rw [fill_zero, fill_zero]
      · rw [List.map_nil, List.sum_nil] at hbytes
        have hbehind : worn.bytes.size ≤ offset := by omega
        have hgives := hend.resolve_left (by omega)
        exact worn.fill_append_behind after more hbehind (Nat.ne_of_gt hcount) hgives
  | cons turn before ih =>
      rcases Nat.eq_zero_or_pos count with rfl | hcount
      · rw [fill_zero, fill_zero]
      · have hsome := Nat.ne_of_gt hcount
        rw [List.map_cons, List.sum_cons] at hbytes
        rw [List.cons_append, List.cons_append]
        cases turn with
        | interrupted =>
            rw [worn.fill_interrupted _ offset hsome, worn.fill_interrupted _ offset hsome]
            exact ih (by rwa [Turn.most, Nat.zero_add] at hbytes) hend
        | fails fault =>
            rw [worn.fill_fails fault _ offset hsome, worn.fill_fails fault _ offset hsome]
        | gives most =>
            rw [worn.fill_gives most _ offset hsome, worn.fill_gives most _ offset hsome]
            cases hgot : worn.single offset (min (max 1 most) count) with
            | error error => rfl
            | ok got =>
                have hlength := worn.length_of_single hgot
                rw [Turn.most] at hbytes
                have hrest := @ih (offset + got.length) (count - got.length) (by omega)
                  (hend.imp_left (by omega))
                cases got with
                | nil => rfl
                | cons byte rest =>
                    simp only
                    rw [Turn.prepend_eq, Turn.prepend_eq, hrest]

/-- Where no call fails, every program gives what it gives if each read is a single call. -/
theorem run_pacedSource_of_calm
    {α : Type}
    (program : Query α)
    {turns : List Turn}
    (hcalm : ∀ turn ∈ turns, turn.Calm) :
    ∃ left, left <:+ turns ∧
      (program.run worn.pacedSource).run turns = ((program.run worn.source).run, left) := by
  induction program generalizing turns with
  | done value => exact ⟨turns, List.suffix_rfl, rfl⟩
  | size next ih => exact ih _ hcalm
  | read offset count next ih =>
      obtain ⟨hanswer, hsuffix⟩ := (worn.fill_ends turns offset count).of_calm hcalm
      obtain ⟨left, hleft, hrun⟩ := ih (worn.fill turns offset count).1
        fun turn hturn => hcalm turn (hsuffix.subset hturn)
      refine ⟨left, hleft.trans hsuffix, ?_⟩
      show ((next (worn.fill turns offset count).1).run worn.pacedSource).run
        (worn.fill turns offset count).2 = _
      rw [hrun, hanswer]
      rfl

end Calls

end WornImage

namespace Image

section Reads

variable {α : Type}

/--
The outcome of a program on an image whose calls take their turns, with the turns that are left.
-/
def evalPaced (image : Image) (turns : List Turn) (program : ReadM α) :
    Except Error α × List Turn :=
  (program.run.run (WornImage.mk image none).pacedSource).run turns

/-- Where no call fails, every program has the outcome that it has on the image. -/
theorem evalPaced_of_calm
    (image : Image)
    (program : ReadM α)
    {turns : List Turn}
    (hcalm : ∀ turn ∈ turns, turn.Calm) :
    ∃ left, left <:+ turns ∧ image.evalPaced turns program = (image.eval program, left) :=
  (WornImage.mk image none).run_pacedSource_of_calm program.run hcalm

theorem evalPaced_readExact
    (image : Image)
    (turns : List Turn)
    (offset count : Nat) :
    image.evalPaced turns (ReadM.readExact offset count) =
      ((image.evalPaced turns (ReadM.readAt offset count)).1.bind fun bytes =>
          if bytes.length < count then .error (.medium (.shortRead offset count bytes.length))
          else .ok bytes,
        (image.evalPaced turns (ReadM.readAt offset count)).2) := by
  rw [evalPaced, ReadM.readExact, ExceptT.run_bind, Query.run_bind, StateT.run_bind, ← evalPaced]
  obtain ⟨outcome, left⟩ := image.evalPaced turns (ReadM.readAt offset count)
  cases outcome with
  | error error => rfl
  | ok bytes =>
      simp only [Except.bind]
      show StateT.run (Query.run _ (ExceptT.run (if bytes.length < count then _ else _))) left = _
      split <;> rfl

/-- Two bytes and one byte, then a full call, which gives the last byte as it is at the end. -/
example :
    Image.evalPaced #[1, 2, 3, 4, 5] [.interrupted, .gives 2, .gives 0] (ReadM.readAt 1 9) =
      (.ok [2, 3, 4, 5], []) :=
  rfl

end Reads

end Image

end Optical
