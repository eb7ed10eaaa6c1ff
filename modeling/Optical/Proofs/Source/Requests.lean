import Optical.Proofs.Source.Calls
import Optical.Proofs.Source.Tiling
import Optical.Source.Disk

/-!
# The requests of one read

The bytes that a read gives do not tell what was asked of the device for them. Here the device keeps
a log of the runs of blocks that it was asked for, and of which requests it answered.

What a read asks for is settled by its turns and by the block that is held before it. The answers only
decide how far the read gets: it stops at the first request that is refused.

* logged is a device with a log, and Traffic says what the log of a read must be like;
* Follows says that a log goes along runs of blocks up to a refusal, and Asks which runs a call goes
  along; exists_asks_fill says it of a read, turn by turn;
* lengthAt is the length of the volume that a read goes by, and readAt_traffic says what one read
  asks of a device.
-/

namespace Optical

/-- A device that was asked for a run of blocks, and whether it answered. -/
structure BlockRequest where
  lba : Nat
  count : Nat
  answered : Bool
deriving DecidableEq, Repr

namespace BlockRequest

def toRun (request : BlockRequest) : Nat × Nat := (request.lba, request.count)

/-- How many requests have a block. -/
def times (lba : Nat) (requests : List BlockRequest) : Nat :=
  (requests.map toRun).countP (hasBlock lba)

end BlockRequest

/--
A device that appends each request for blocks to a log. Its blocks are those of the device without
the log, so what a volume remembers is the same on both.
-/
abbrev BlockDevice.logged
    {δ : Type}
    (device : BlockDevice (StateM δ)) :
    BlockDevice (StateM (List BlockRequest × δ)) where
  blockSize := device.blockSize
  blockCount := fun (log, state) =>
    let (answer, next) := device.blockCount.run state
    (answer, log, next)
  readBlocks lba {size} buffer := fun (log, state) =>
    let (answer, next) := (device.readBlocks lba buffer).run state
    (answer, log ++ [⟨lba, size / device.blockSize, answer.1.isOk⟩], next)

/-- What is asked of a device for a range of bytes of a volume. -/
structure Traffic
    (blockSize start : Nat)
    (held : Option Nat)
    (offset wanted : Nat)
    (requests : List BlockRequest) : Prop where
  idle : wanted = 0 → requests = []
  few : requests.length ≤ 3
  ascending : requests.Pairwise fun earlier later => earlier.lba + earlier.count ≤ later.lba
  /-- No request is empty, and no request goes beyond the blocks of the range. -/
  needed : ∀ request ∈ requests, 0 < request.count ∧
    ∀ lba, hasBlock lba request.toRun →
      ∃ block, lba = start + block ∧ Overlaps blockSize offset wanted block
  /-- If every request is answered, each block is read once, or is the one that was held. -/
  once : (∀ request ∈ requests, request.answered) →
    ∀ block, Overlaps blockSize offset wanted block →
      BlockRequest.times (start + block) requests = 1 ∨
        held = some block ∧ BlockRequest.times (start + block) requests = 0
  /-- After a request that is not answered there is no other. -/
  stops : ∀ before request after, requests = before ++ request :: after →
    ¬request.answered → after = []

section Following

/--
What is asked of a device that needs runs of blocks one after another: each run in its turn, up to
the first that is refused. The last index tells whether all were answered.
-/
inductive Follows : List (Nat × Nat) → List BlockRequest → Bool → Prop where
  | done : Follows [] [] true
  | answered {run : Nat × Nat} {runs : List (Nat × Nat)} {requests : List BlockRequest}
      {complete : Bool} :
      Follows runs requests complete →
      Follows (run :: runs) (⟨run.1, run.2, true⟩ :: requests) complete
  | refused {run : Nat × Nat} {runs : List (Nat × Nat)} :
      Follows (run :: runs) [⟨run.1, run.2, false⟩] false

namespace Follows

variable {runs : List (Nat × Nat)} {requests : List BlockRequest} {complete : Bool}

theorem append
    (h : Follows runs requests complete)
    (hcomplete : complete)
    {others : List (Nat × Nat)}
    {more : List BlockRequest}
    {all : Bool}
    (hothers : Follows others more all) :
    Follows (runs ++ others) (requests ++ more) all := by
  induction h with
  | done => exact hothers
  | answered _ ih => exact .answered (ih hcomplete)
  | refused => cases hcomplete

/-- A refusal ends all that was to follow. -/
theorem append_refused
    (h : Follows runs requests complete)
    (hcomplete : ¬complete)
    (others : List (Nat × Nat)) :
    Follows (runs ++ others) requests complete := by
  induction h with
  | done => exact absurd rfl hcomplete
  | answered _ ih => exact .answered (ih hcomplete)
  | refused => exact .refused

theorem map_isPrefix
    (h : Follows runs requests complete) :
    requests.map BlockRequest.toRun <+: runs := by
  induction h with
  | done => exact List.prefix_rfl
  | answered _ ih => exact (List.prefix_cons_inj _).mpr ih
  | refused => exact (List.prefix_cons_inj _).mpr List.nil_prefix

theorem map_eq
    (h : Follows runs requests complete)
    (hcomplete : complete) :
    requests.map BlockRequest.toRun = runs := by
  induction h with
  | done => rfl
  | answered _ ih => exact congrArg (List.cons _) (ih hcomplete)
  | refused => cases hcomplete

theorem complete_iff
    (h : Follows runs requests complete) :
    complete ↔ ∀ request ∈ requests, request.answered := by
  induction h with
  | done => simp
  | answered _ ih => rw [List.forall_mem_cons, ← ih, eq_self, true_and]
  | refused => simp

theorem stops
    (h : Follows runs requests complete)
    (before : List BlockRequest)
    (request : BlockRequest)
    (after : List BlockRequest)
    (hrequests : requests = before ++ request :: after)
    (hrefused : ¬request.answered) :
    after = [] := by
  induction h generalizing before with
  | done => cases before <;> cases hrequests
  | answered _ ih =>
      cases before with
      | nil =>
          cases hrequests
          exact absurd rfl hrefused
      | cons _ before => exact ih before (List.cons.inj hrequests).2
  | refused =>
      cases before with
      | nil => exact (List.cons.inj hrequests).2.symm
      | cons _ before => cases before <;> cases (List.cons.inj hrequests).2

end Follows

/-- Where nothing is wanted nothing may be asked. -/
theorem traffic_nil
    (blockSize start offset : Nat)
    (held : Option Nat) :
    Traffic blockSize start held offset 0 [] where
  idle := fun _ => rfl
  few := Nat.zero_le 3
  ascending := .nil
  needed := fun request hrequest => absurd hrequest List.not_mem_nil
  once := by
    rintro - block ⟨position, hfirst, hlast, -⟩
    omega
  stops := by
    intro before request after hrequests
    cases before <;> cases hrequests

/-- What follows the turns of a read is right for its range. -/
theorem Follows.traffic
    {blockSize start offset count : Nat}
    {held : Option Nat}
    {pieces : List BlockPiece}
    {requests : List BlockRequest}
    {complete : Bool}
    (h : Follows (runsOf start held pieces) requests complete)
    (hturns : Turns blockSize offset count pieces)
    (hblock : 0 < blockSize) :
    Traffic blockSize start held offset count requests := by
  rcases Nat.eq_zero_or_pos count with rfl | hcount
  · cases hturns with
    | done =>
        rw [runsOf] at h
        cases h
        exact traffic_nil _ _ _ _
    | turn none => exact absurd none (Nat.lt_irrefl 0)
  have htiles := hturns.tiles hblock hcount
  have hprefix := h.map_isPrefix
  have hsome := Nat.ne_of_gt hcount
  refine ⟨fun hnone => absurd hnone hsome, ?few, ?ascending, ?needed, ?once, h.stops⟩
  case few =>
    rw [← List.length_map BlockRequest.toRun]
    exact Nat.le_trans hprefix.length_le
      (Nat.le_trans (length_runsOf_le _) (hturns.length_le hblock))
  case ascending =>
    exact List.pairwise_map.mp (htiles.runs_ascending.sublist hprefix.sublist)
  case needed =>
    intro request hrequest
    have hrun := hprefix.subset (List.mem_map_of_mem hrequest)
    obtain ⟨hpos, hbegin, hend⟩ := htiles.runs_inside.2 _ hrun
    refine ⟨hpos, fun lba hcovers => ?_⟩
    obtain ⟨hle, hlt⟩ := Bool.and_eq_true_iff.mp hcovers
    rw [decide_eq_true_iff] at hle hlt
    have hfirst := Nat.le_trans hbegin hle
    have hlast := Nat.lt_of_lt_of_le hlt hend
    have hstart := Nat.le_of_add_right_le hfirst
    refine ⟨lba - start, (Nat.add_sub_of_le hstart).symm, (overlaps_iff hblock hcount _).mpr ?_⟩
    exact ⟨Nat.le_sub_of_add_le' hfirst, Nat.sub_lt_left_of_lt_add hstart hlast⟩
  case once =>
    intro hall block hoverlaps
    obtain ⟨hfirst, hlast⟩ := (overlaps_iff hblock hcount block).mp hoverlaps
    rw [BlockRequest.times, h.map_eq (h.complete_iff.mpr hall)]
    exact htiles.countP_runs hfirst hlast

end Following

namespace BlockVolume

section Asking

variable {δ α β : Type}

/--
A call needs runs of blocks if one block is held before it, and holds another one after it if it
does not fail. What is asked for follows those runs.
-/
def Asks
    {blockSize : Nat}
    (call : Call blockSize (StateM (List BlockRequest × δ)) α)
    (held : Option Nat)
    (runs : List (Nat × Nat))
    (after : Option Nat) : Prop :=
  ∀ memory log state, memory.held = held →
    ∃ outcome nextMemory requests nextState,
      (call.run.run memory).run (log, state) =
        ((outcome, nextMemory), log ++ requests, nextState) ∧
      Follows runs requests outcome.isOk ∧
      (outcome.isOk → nextMemory.held = after)

namespace Asks

variable {blockSize : Nat} {held middle after : Option Nat}

theorem of_pure
    (value : α) :
    Asks (pure value : Call blockSize (StateM (List BlockRequest × δ)) α) held [] held := by
  intro memory log state hheld
  exact ⟨.ok value, memory, [], state, by rw [List.append_nil]; rfl, .done, fun _ => hheld⟩

theorem bind
    {call : Call blockSize (StateM (List BlockRequest × δ)) α}
    {runs others : List (Nat × Nat)}
    {next : α → Call blockSize (StateM (List BlockRequest × δ)) β}
    (h : Asks call held runs middle)
    (hnext : ∀ value, Asks (next value) middle others after) :
    Asks (call >>= next) held (runs ++ others) after := by
  intro memory log state hheld
  obtain ⟨outcome, middleMemory, requests, middleState, hrun, hfollows, hmiddle⟩ :=
    h memory log state hheld
  rw [ExceptT.run_bind, StateT.run_bind, StateT.run_bind, hrun]
  cases outcome with
  | error error =>
      refine ⟨.error error, middleMemory, requests, middleState, rfl, ?_, ?_⟩
      · exact hfollows.append_refused Bool.false_ne_true others
      · rintro ⟨⟩
  | ok value =>
      obtain ⟨outcome, nextMemory, more, nextState, hrest, hmore, hafter⟩ :=
        hnext value middleMemory (log ++ requests) middleState (hmiddle rfl)
      refine ⟨outcome, nextMemory, requests ++ more, nextState, ?_, ?_, hafter⟩
      · rw [← List.append_assoc]
        exact hrest
      · exact hfollows.append rfl hmore

/-- What is made of the value of a call needs no more blocks. -/
theorem map
    {call : Call blockSize (StateM (List BlockRequest × δ)) α}
    {runs : List (Nat × Nat)}
    (h : Asks call held runs after)
    (f : α → β) :
    Asks (do return f (← call)) held runs after := by
  rw [← List.append_nil runs]
  exact h.bind fun value => .of_pure (f value)

end Asks

variable {device : BlockDevice (StateM δ)} {start : Nat} {held : Option Nat}

/-- A read is logged with its outcome. -/
theorem run_logged
    (lba : Nat)
    {size : Nat}
    (buffer : Vector UInt8 size)
    (log : List BlockRequest)
    (state : δ)
    {answer : Except String Unit}
    {filled : Vector UInt8 size}
    {next : δ}
    (hcall : (device.readBlocks lba buffer).run state = ((answer, filled), next)) :
    (device.logged.readBlocks lba buffer).run (log, state) =
      ((answer, filled), log ++ [⟨lba, size / device.blockSize, answer.isOk⟩], next) := by
  have hlogged : (device.logged.readBlocks lba buffer).run (log, state) =
    (((device.readBlocks lba buffer).run state).1,
      log ++ [⟨lba, size / device.blockSize,
        ((device.readBlocks lba buffer).run state).1.1.isOk⟩],
      ((device.readBlocks lba buffer).run state).2) := rfl
  rw [hlogged, hcall]

/-- Whole blocks are asked for at once, and the block that is held stays the same. -/
theorem asks_readWhole
    (hblock : 0 < device.blockSize)
    (block count : Nat)
    {buffer : Bytes}
    (hsize : buffer.length = count * device.blockSize) :
    Asks (readWhole ⟨device.logged, start⟩ block buffer) held [(start + block, count)] held := by
  intro memory log state hheld
  obtain ⟨⟨⟨answer, filled⟩, next⟩, hcall⟩ :
    ∃ result, (device.readBlocks (start + block) buffer.toArray.toVector).run state = result :=
      ⟨_, rfl⟩
  have hcount : buffer.toArray.size / device.blockSize = count := by
    rw [List.size_toArray, hsize, Nat.mul_div_cancel _ hblock]
  rw [run_readWhole, run_logged _ _ log state hcall, hcount]
  cases answer with
  | error reason => exact ⟨_, memory, _, next, rfl, .refused, fun _ => hheld⟩
  | ok => exact ⟨_, memory, _, next, rfl, .answered .done, fun _ => hheld⟩

/-- A block that is held is not asked for; in either case it is held then. -/
theorem asks_load
    (hblock : 0 < device.blockSize)
    (block first length : Nat) :
    Asks (load ⟨device.logged, start⟩ block) held
      ((BlockPiece.part block first length).runs start held) (some block) := by
  intro memory log state hheld
  subst hheld
  rw [run_load, BlockPiece.runs]
  by_cases hheld : memory.held = some block
  · rw [if_pos hheld, if_pos hheld]
    exact ⟨.ok memory.buffer, memory, [], state, by rw [List.append_nil], .done, fun _ => hheld⟩
  · obtain ⟨⟨⟨answer, buffer⟩, next⟩, hcall⟩ :
      ∃ result, (device.readBlocks (start + block) memory.buffer).run state = result := ⟨_, rfl⟩
    have hcount : device.logged.blockSize / device.blockSize = 1 := Nat.div_self hblock
    rw [if_neg hheld, if_neg hheld, run_logged _ _ log state hcall, hcount]
    cases answer with
    | error reason =>
        refine ⟨_, _, _, next, rfl, .refused, ?_⟩
        rintro ⟨⟩
    | ok => exact ⟨_, _, _, next, rfl, .answered .done, fun _ => rfl⟩

/-- A turn asks for the run of blocks that its piece needs. -/
theorem asks_readTurn
    (hblock : 0 < device.blockSize)
    {piece : BlockPiece}
    {buffer : Bytes}
    (hbuffer : buffer.length = piece.length device.blockSize) :
    Asks (readTurn ⟨device.logged, start⟩ piece buffer) held (piece.runs start held)
      (piece.holds held) := by
  cases piece with
  | whole block count => exact asks_readWhole hblock block count hbuffer
  | part block first length => exact (asks_load hblock block first length).map _

/-- A read asks for the runs of blocks that its turns need, one turn after another. -/
theorem exists_asks_fill
    (hblock : 0 < device.blockSize)
    (offset : Nat)
    (buffer : Bytes) :
    ∃ pieces, Turns device.blockSize offset buffer.length pieces ∧
      ∀ held, Asks (fill ⟨device.logged, start⟩ offset buffer) held (runsOf start held pieces)
        (pieces.foldl BlockPiece.holds held) := by
  induction offset, buffer using turn_induction hblock with
  | nil offset =>
      refine ⟨[], .done, fun held => ?_⟩
      rw [fill_nil]
      exact .of_pure []
  | turn offset buffer hsome ih =>
      obtain ⟨later, hturns, hlater⟩ := ih
      have hleft := List.length_pos_iff.mpr hsome
      rw [List.length_drop] at hturns
      refine ⟨_, .turn hleft hturns, fun held => ?_⟩
      rw [fill_turn ⟨device.logged, start⟩ hblock offset hsome]
      have hturn : Asks (readTurn ⟨device.logged, start⟩ _ _) held _ _ :=
        asks_readTurn hblock (length_take_turn hblock offset hsome)
      exact hturn.bind fun bytes => (hlater _).map _

/--
The length of the volume that a read goes by: by the number of blocks that is remembered, or else by
the number that the device tells.
-/
def lengthAt
    (device : BlockDevice (StateM δ))
    (start : Nat)
    (memory : BlockMemory device.blockSize)
    (state : δ) : Except Error Nat :=
  match memory.blocks with
  | some count => .ok (count * device.blockSize)
  | none =>
      match (device.blockCount.run state).1 with
      | .ok total => .ok ((total - start) * device.blockSize)
      | .error reason => .error (.blockDevice 0 reason)

/-- The number of bytes that a read goes after: none if the length cannot be told. -/
def wantedAt
    (device : BlockDevice (StateM δ))
    (start : Nat)
    (memory : BlockMemory device.blockSize)
    (state : δ)
    (offset count : Nat) : Nat :=
  match lengthAt device start memory state with
  | .ok length => min count (length - offset)
  | .error _ => 0

/-- To learn the length of the volume no blocks are asked for, and the held block stays the same. -/
theorem exists_run_length
    (device : BlockDevice (StateM δ))
    (start : Nat)
    (memory : BlockMemory device.blockSize)
    (log : List BlockRequest)
    (state : δ) :
    ∃ (nextMemory : BlockMemory device.blockSize) (nextState : δ),
      ((length ⟨device.logged, start⟩).run.run memory).run (log, state) =
        ((lengthAt device start memory state, nextMemory), log, nextState) ∧
      nextMemory.held = memory.held := by
  rw [run_length, run_blocks, lengthAt]
  cases memory.blocks with
  | some count => exact ⟨memory, state, rfl, rfl⟩
  | none =>
      have hlogged : device.logged.blockCount.run (log, state) =
        ((device.blockCount.run state).1, log, (device.blockCount.run state).2) := rfl
      simp only
      rw [hlogged]
      obtain ⟨answer, next⟩ := device.blockCount.run state
      cases answer with
      | ok total => exact ⟨_, next, rfl, rfl⟩
      | error reason => exact ⟨memory, next, rfl, rfl⟩

/-- A volume that has bytes has blocks that have bytes. -/
theorem blockSize_pos
    {memory : BlockMemory device.blockSize}
    {state : δ}
    {length : Nat}
    (htold : lengthAt device start memory state = .ok length)
    (hlength : length ≠ 0) :
    0 < device.blockSize := by
  refine Nat.pos_of_ne_zero fun hzero => hlength ?_
  rw [lengthAt] at htold
  split at htold
  · rw [← Except.ok.inj htold, hzero, Nat.mul_zero]
  · split at htold
    · rw [← Except.ok.inj htold, hzero, Nat.mul_zero]
    · cases htold

/-- A read that begins and ends inside blocks, with bytes of three whole blocks between. -/
example :
    let disk : Disk := ⟨Array.replicate 32 0, 4, none, [], false, []⟩
    (((readAt ⟨(Disk.device 4).logged, 2⟩ 3 (.replicate 14 0)).run.run .empty).run
      ([], disk)).2.1 = [⟨2, 1, true⟩, ⟨3, 3, true⟩, ⟨6, 1, true⟩] := by
  decide +kernel

end Asking

end BlockVolume

end Optical
