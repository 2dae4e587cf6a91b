import Mathlib.Data.List.Find
import Mathlib.Data.List.Nodup
import Mathlib.Data.List.Perm.Basic
import Waveform.Storage.Pool

/-!
# What a pool owes to its history

A pool is asked to check out, release, write and read blocks, in any order and with any numbers.
What it replies is told by what has happened so far, without the pool: which blocks are out, which
was released last, and what was last written at each place of each block. Requests that are refused
leave no trace.
-/

namespace Waveform

/-- What a pool can be asked for. -/
inductive PoolRequest where
  | checkout
  | release (block : Nat)
  | write (block offset : Nat) (samples : List Int32)
  | read (block offset length : Nat)
deriving DecidableEq

/-- What a pool replies. -/
inductive PoolReply where
  /-- A block is checked out. -/
  | lent (block : Nat)
  | done
  | samples (samples : List Int32)
  | refused (error : PoolError)
deriving DecidableEq

/-- What has happened to a pool. -/
inductive PoolEvent where
  | lent (block : Nat)
  | returned (block : Nat)
  | written (block offset : Nat) (samples : List Int32)
deriving DecidableEq

/-- What happens when a request gets a reply. Reading and refusing leave nothing behind. -/
def PoolRequest.event? : PoolRequest → PoolReply → Option PoolEvent
  | .checkout, .lent block => some (.lent block)
  | .release block, .done => some (.returned block)
  | .write block offset samples, .done => some (.written block offset samples)
  | _, _ => none

namespace Pool

/-- Reply to a request by what a use of the pool has come to. -/
def reply {α : Type} (told : α → PoolReply) : Except PoolError α × Pool → PoolReply × Pool
  | (.ok result, changed) => (told result, changed)
  | (.error error, changed) => (.refused error, changed)

/-- Reply to a request. -/
def serve (pool : Pool) : PoolRequest → PoolReply × Pool
  | .checkout => reply .lent (checkout pool)
  | .release block => reply (fun _ => .done) (release block pool)
  | .write block offset samples => reply (fun _ => .done) (write block offset samples pool)
  | .read block offset length => reply .samples (read block offset length pool)

/-- Reply to requests in turn. -/
def serveAll (pool : Pool) : List PoolRequest → List PoolReply × Pool
  | [] => ([], pool)
  | request :: later =>
      let (reply, next) := pool.serve request
      let (replies, final) := next.serveAll later
      (reply :: replies, final)

end Pool

/-! ## Histories -/

/-- What has happened to a pool since it was new, the latest event first. -/
abbrev PoolHistory := List PoolEvent

namespace PoolHistory

/-- Whether a block is out. -/
def isOut (block : Nat) : PoolHistory → Bool
  | [] => false
  | .lent other :: earlier => block = other || isOut block earlier
  | .returned other :: earlier => block ≠ other && isOut block earlier
  | .written _ _ _ :: earlier => isOut block earlier

/-- The number behind those of all blocks that have ever been lent. -/
def nextNew : PoolHistory → Nat
  | [] => 0
  | .lent block :: earlier => max (block + 1) (nextNew earlier)
  | .returned _ :: earlier => nextNew earlier
  | .written _ _ _ :: earlier => nextNew earlier

/-- The blocks that were returned, the latest first. -/
def returns : PoolHistory → List Nat
  | [] => []
  | .lent _ :: earlier => returns earlier
  | .returned block :: earlier => block :: returns earlier
  | .written _ _ _ :: earlier => returns earlier

/-- The block returned last of those that have not been lent again. -/
def lastFree? (history : PoolHistory) : Option Nat :=
  history.returns.find? fun block => !history.isOut block

/-- What was last written at a place of a block, or zero. -/
def valueAt (block place : Nat) : PoolHistory → Int32
  | [] => 0
  | .lent _ :: earlier => valueAt block place earlier
  | .returned _ :: earlier => valueAt block place earlier
  | .written other offset samples :: earlier =>
      if other = block ∧ offset ≤ place then
        samples[place - offset]?.getD (valueAt block place earlier)
      else valueAt block place earlier

/-- What was last written to a block of some size. -/
def contents (blockSize : Nat) (history : PoolHistory) (block : Nat) : List Int32 :=
  (List.range blockSize).map fun place => history.valueAt block place

/-- Why a block cannot be accessed: it was never lent, or it is not out. -/
def blockFault? (history : PoolHistory) (block : Nat) : Option PoolError :=
  if .lent block ∉ history then some (.unknownBlock block)
  else if history.isOut block then none
  else some (.notCheckedOut block)

/-- Why places of a block cannot be accessed. -/
def accessFault? (blockSize : Nat) (history : PoolHistory) (block offset length : Nat) :
    Option PoolError :=
  if blockSize < offset + length then some (.outOfBounds offset length blockSize)
  else history.blockFault? block

/-- The reply that a history demands. -/
def replyTo (blockSize : Nat) (history : PoolHistory) : PoolRequest → PoolReply
  | .checkout => .lent (history.lastFree?.getD history.nextNew)
  | .release block => (history.blockFault? block).elim .done .refused
  | .write block offset samples =>
      (history.accessFault? blockSize block offset samples.length).elim .done .refused
  | .read block offset length =>
      (history.accessFault? blockSize block offset length).elim
        (.samples ((List.range length).map fun place => history.valueAt block (offset + place)))
        .refused

/-- What has happened after one more request. -/
def after (blockSize : Nat) (history : PoolHistory) (request : PoolRequest) : PoolHistory :=
  (request.event? (history.replyTo blockSize request)).toList ++ history

/-- The replies that a history demands to requests in turn. -/
def repliesTo (blockSize : Nat) (history : PoolHistory) : List PoolRequest → List PoolReply
  | [] => []
  | request :: later =>
      history.replyTo blockSize request ::
        repliesTo blockSize (history.after blockSize request) later

/-- What has happened after requests in turn. -/
def afterAll (blockSize : Nat) (history : PoolHistory) (requests : List PoolRequest) :
    PoolHistory :=
  requests.foldl (after blockSize) history

variable {history : PoolHistory} {block : Nat}

/-- Only blocks that are out can be accessed. -/
theorem isOut_of_blockFault? (noFault : history.blockFault? block = none) :
    .lent block ∈ history ∧ history.isOut block = true := by
  rw [blockFault?] at noFault
  split at noFault
  next => cases noFault
  next isLent =>
    split at noFault
    next isOut => exact ⟨not_not.mp isLent, isOut⟩
    next => cases noFault

theorem lent_mem_of_isOut (wasOut : history.isOut block = true) : .lent block ∈ history := by
  induction history with
  | nil => cases wasOut
  | cons event earlier ih =>
      apply List.mem_cons.mpr
      cases event with
      | lent other =>
          rw [isOut, Bool.or_eq_true, decide_eq_true_iff] at wasOut
          exact wasOut.imp (congrArg PoolEvent.lent) ih
      | returned other =>
          rw [isOut, Bool.and_eq_true] at wasOut
          exact .inr (ih wasOut.2)
      | written other offset samples => exact .inr (ih wasOut)

theorem getElem?_contents {blockSize place : Nat} (inside : place < blockSize) :
    (history.contents blockSize block)[place]? = some (history.valueAt block place) := by
  simp [PoolHistory.contents, inside]

@[simp] theorem length_contents {blockSize : Nat} :
    (history.contents blockSize block).length = blockSize := by
  simp [PoolHistory.contents]

/-- Reading gives the values at the places read from. -/
theorem take_drop_contents {blockSize offset length : Nat} (fits : offset + length ≤ blockSize) :
    ((history.contents blockSize block).drop offset).take length =
      (List.range length).map fun place => history.valueAt block (offset + place) := by
  apply List.ext_getElem
  · simp only [List.length_take, List.length_drop, length_contents, List.length_map,
      List.length_range]
    omega
  intro place inside _
  rw [List.length_take] at inside
  apply Option.some.inj
  rw [← List.getElem?_eq_getElem, List.getElem?_take_of_lt (by omega), List.getElem?_drop,
    getElem?_contents (by omega), List.getElem_map, List.getElem_range]

/-- Writing gives new values to the places written to, and to no others. -/
theorem contents_written {blockSize offset : Nat} {samples : List Int32}
    (fits : offset + samples.length ≤ blockSize) :
    contents blockSize (.written block offset samples :: history) block =
      (history.contents blockSize block).take offset ++ samples ++
        (history.contents blockSize block).drop (offset + samples.length) := by
  have frontLength : ((history.contents blockSize block).take offset).length = offset := by
    rw [List.length_take, length_contents]
    omega
  have middleLength : ((history.contents blockSize block).take offset ++ samples).length =
      offset + samples.length := by
    rw [List.length_append, frontLength]
  apply List.ext_getElem
  · simp only [length_contents, List.length_append, List.length_take, List.length_drop]
    omega
  intro place inside _
  rw [length_contents] at inside
  apply Option.some.inj
  rw [← List.getElem?_eq_getElem, ← List.getElem?_eq_getElem, getElem?_contents inside, valueAt]
  rcases Nat.lt_or_ge place offset with isFront | notFront
  · rw [if_neg fun written => Nat.not_le.mpr isFront written.2, List.append_assoc,
      List.getElem?_append_left (by omega), List.getElem?_take_of_lt isFront,
      getElem?_contents inside]
  · rw [if_pos ⟨rfl, notFront⟩]
    rcases Nat.lt_or_ge place (offset + samples.length) with isMiddle | isBack
    · rw [List.getElem?_append_left (by omega), List.getElem?_append_right (by omega), frontLength,
        List.getElem?_eq_getElem (by omega), Option.getD_some]
    · rw [List.getElem?_append_right (by omega), middleLength, List.getElem?_drop,
        Nat.add_sub_cancel' isBack, getElem?_contents inside,
        List.getElem?_eq_none (by omega), Option.getD_none]

theorem contents_written_other {blockSize offset other : Nat} {samples : List Int32}
    (different : other ≠ block) :
    contents blockSize (.written block offset samples :: history) other =
      history.contents blockSize other := by
  simp [contents, valueAt, different.symm]

end PoolHistory

/-! ## One request -/

namespace Pool

/-- Whether a pool is as its history has left it. -/
structure Follows (pool : Pool) (history : PoolHistory) : Prop where
  allocated : pool.allocated = history.nextNew
  /-- All blocks that were ever lent are there, with what was last written to them. -/
  blocks : ∀ block < history.nextNew,
    pool.blocks[block]? = some (history.contents pool.blockSize block)
  lent : ∀ block, .lent block ∈ history ↔ block < history.nextNew
  unwritten : ∀ block place, history.nextNew ≤ block → history.valueAt block place = 0
  flags : ∀ block < history.nextNew, pool.checkedOut[block]? = some (history.isOut block)
  free : ∀ block, block ∈ pool.free ↔ block < history.nextNew ∧ history.isOut block = false
  nodup : pool.free.Nodup
  /-- The free blocks are in the order in which they were returned: the first one of any kind is
  the one of this kind that was returned last. -/
  recent : ∀ keeps : Nat → Bool,
    history.returns.find? (fun block => !history.isOut block && keeps block) =
      pool.free.find? keeps

variable {pool : Pool} {history : PoolHistory} {block : Nat}

open PoolHistory

theorem follows_new {blockSize : Nat} (isNew : ofBlockSize? blockSize = some pool) :
    pool.blockSize = blockSize ∧ pool.Follows [] := by
  rw [ofBlockSize?] at isNew
  split at isNew
  next =>
    cases isNew
    refine ⟨rfl, ?_⟩
    constructor <;> simp [nextNew, valueAt, returns, Pool.allocated]
  next => cases isNew

theorem Follows.getElem?_eq (follows : pool.Follows history) (block : Nat) :
    pool.blocks[block]? =
      if .lent block ∈ history then some (history.contents pool.blockSize block) else none := by
  split
  next isLent => exact follows.blocks block ((follows.lent block).mp isLent)
  next notLent =>
    apply Array.getElem?_eq_none
    have outside := mt (follows.lent block).mpr notLent
    rw [← follows.allocated] at outside
    exact Nat.not_lt.mp outside

theorem Follows.flag_eq (follows : pool.Follows history) (block : Nat) :
    pool.checkedOut[block]? =
      if .lent block ∈ history then some (history.isOut block) else none := by
  split
  next isLent => exact follows.flags block ((follows.lent block).mp isLent)
  next notLent =>
    apply Array.getElem?_eq_none
    have outside := mt (follows.lent block).mpr notLent
    rw [← follows.allocated] at outside
    rw [pool.size_checkedOut]
    exact Nat.not_lt.mp outside

/-- The contents of a block are reached unless its history forbids it. -/
theorem Follows.contents_eq (follows : pool.Follows history) (block : Nat) :
    pool.contents block =
      (history.blockFault? block).elim (.ok (history.contents pool.blockSize block)) .error := by
  have isFlag := follows.flag_eq block
  rw [blockFault?]
  by_cases isLent : .lent block ∈ history
  · rw [if_pos isLent] at isFlag
    rw [if_neg (not_not.mpr isLent)]
    cases isOut : history.isOut block with
    | true =>
        obtain ⟨samples, found, isContents⟩ := contents_of_out (isFlag.trans (congrArg some isOut))
        rw [follows.getElem?_eq, if_pos isLent] at found
        cases found
        rw [isContents, if_pos rfl]
        rfl
    | false =>
        rw [contents_of_in (isFlag.trans (congrArg some isOut)), if_neg (by decide)]
        rfl
  · rw [if_neg isLent] at isFlag
    rw [contents_of_unknown isFlag, if_pos isLent]
    rfl

theorem Follows.lastFree?_eq (follows : pool.Follows history) :
    history.lastFree? = pool.free.head? := by
  have first := follows.recent fun _ => true
  simp only [Bool.and_true] at first
  rw [lastFree?, first]
  cases pool.free <;> rfl

/-- The block that was released last is checked out again. -/
theorem Follows.lend_again (follows : pool.Follows history) {rest : List Nat}
    (isFree : pool.free = block :: rest) :
    (({ pool with free := rest } : Pool).flag block true).Follows (.lent block :: history) := by
  have member : block ∈ pool.free := isFree ▸ List.mem_cons_self
  have inside := ((follows.free block).mp member).1
  have nodup := follows.nodup
  rw [isFree, List.nodup_cons] at nodup
  have sameNext : nextNew (.lent block :: history) = history.nextNew := Nat.max_eq_right inside
  constructor
  case allocated => exact follows.allocated.trans sameNext.symm
  case blocks =>
    rw [sameNext]
    exact follows.blocks
  case lent =>
    intro other
    rw [sameNext, List.mem_cons, follows.lent, PoolEvent.lent.injEq]
    constructor
    · rintro (rfl | isInside)
      · exact inside
      · exact isInside
    · exact .inr
  case unwritten =>
    rw [sameNext]
    exact follows.unwritten
  case flags =>
    intro other isInside
    rw [sameNext] at isInside
    rw [isOut]
    by_cases same : other = block
    · subst same
      have isFlag : other < pool.checkedOut.size := by
        rw [pool.size_checkedOut]
        exact Nat.lt_of_lt_of_eq inside follows.allocated.symm
      simp [flag, Array.getElem?_setIfInBounds_self_of_lt isFlag]
    · rw [flag, Array.getElem?_setIfInBounds_ne (Ne.symm same), follows.flags other isInside]
      simp [same]
  case free =>
    intro other
    have isFreeIff := follows.free other
    rw [isFree, List.mem_cons] at isFreeIff
    rw [sameNext, isOut, Bool.or_eq_false_iff, decide_eq_false_iff_not]
    constructor
    · intro isRest
      obtain ⟨isInside, notOut⟩ := isFreeIff.mp (.inr isRest)
      refine ⟨isInside, ?_, notOut⟩
      rintro rfl
      exact nodup.1 isRest
    · rintro ⟨isInside, different, notOut⟩
      exact (isFreeIff.mpr ⟨isInside, notOut⟩).resolve_left different
  case nodup => exact nodup.2
  case recent =>
    intro keeps
    have others := follows.recent fun other => other ≠ block && keeps other
    calc
      _ = history.returns.find? fun other =>
          !history.isOut other && (other ≠ block && keeps other) := by
        apply List.find?_congr
        intro other _
        simp only [isOut, Bool.not_or, decide_not]
        rw [Bool.and_left_comm, Bool.and_assoc]
      _ = (block :: rest).find? fun other => other ≠ block && keeps other := by
        rw [others, isFree]
      _ = rest.find? fun other => other ≠ block && keeps other :=
        List.find?_cons_of_neg (by simp)
      _ = rest.find? keeps := by
        apply List.find?_congr
        rintro other isRest
        have different : other ≠ block := fun same => nodup.1 (same ▸ isRest)
        simp [different]

/-- A new block is checked out if none is free. -/
theorem Follows.lend_new (follows : pool.Follows history) (noneFree : pool.free = []) :
    pool.allocate.Follows (.lent pool.allocated :: history) := by
  have sameNext : nextNew (.lent pool.allocated :: history) = history.nextNew + 1 := by
    rw [nextNew, follows.allocated]
    exact Nat.max_eq_left (Nat.le_succ _)
  have allOut (other : Nat) : other < history.nextNew → history.isOut other = true := by
    intro inside
    have isFreeIff := follows.free other
    rw [noneFree] at isFreeIff
    simpa [inside] using isFreeIff
  constructor
  case allocated =>
    rw [sameNext, ← follows.allocated, Pool.allocated, allocate, Array.size_push]
    rfl
  case blocks =>
    intro other inside
    rw [sameNext] at inside
    rw [allocate, Array.getElem?_push]
    split
    next isNew =>
      have isNew : other = history.nextNew := isNew.trans follows.allocated
      rw [Option.some.injEq]
      symm
      apply List.eq_replicate_iff.mpr
      refine ⟨by simp [PoolHistory.contents], ?_⟩
      intro value member
      obtain ⟨place, _, rfl⟩ := List.mem_map.mp member
      exact follows.unwritten other place (le_of_eq isNew.symm)
    next isOld =>
      have isOld : other ≠ history.nextNew := fun same => isOld (same.trans follows.allocated.symm)
      exact follows.blocks other (by omega)
  case lent =>
    intro other
    rw [sameNext, List.mem_cons, follows.lent, PoolEvent.lent.injEq, follows.allocated]
    omega
  case unwritten =>
    intro other place outside
    rw [sameNext] at outside
    exact follows.unwritten other place (Nat.le_of_succ_le outside)
  case flags =>
    intro other inside
    rw [sameNext] at inside
    rw [isOut, allocate, Array.getElem?_push, pool.size_checkedOut]
    split
    next isNew => simp [isNew, Pool.allocated]
    next isOld =>
      have different : other ≠ pool.allocated := isOld
      have isInside : other < history.nextNew := by
        rw [follows.allocated] at different
        omega
      rw [follows.flags other isInside]
      simp [different]
  case free =>
    intro other
    have sameFree : pool.allocate.free = [] := noneFree
    rw [sameNext, isOut, Bool.or_eq_false_iff, decide_eq_false_iff_not, sameFree,
      follows.allocated]
    constructor
    · intro member
      cases member
    · rintro ⟨inside, different, notOut⟩
      rw [allOut other (by omega)] at notOut
      cases notOut
  case nodup => exact follows.nodup
  case recent =>
    intro keeps
    have areOut := follows.recent fun _ => true
    have sameFree : pool.allocate.free = [] := noneFree
    simp only [noneFree, Bool.and_true, List.find?_nil, List.find?_eq_none] at areOut
    rw [sameFree, List.find?_nil, List.find?_eq_none]
    intro other isReturned
    have wasOut : history.isOut other = true := by simpa using areOut other isReturned
    simp [isOut, wasOut]

/-- A block that is out is released. -/
theorem Follows.take_back (follows : pool.Follows history) (isLent : .lent block ∈ history)
    (wasOut : history.isOut block = true) :
    ({ pool.flag block false with free := block :: pool.free } : Pool).Follows
      (.returned block :: history) := by
  constructor
  case allocated => exact follows.allocated
  case blocks => exact follows.blocks
  case lent =>
    intro other
    rw [List.mem_cons, or_iff_right PoolEvent.noConfusion]
    exact follows.lent other
  case unwritten => exact follows.unwritten
  case flags =>
    intro other isInside
    have isInside : other < history.nextNew := isInside
    rw [isOut]
    by_cases same : other = block
    · subst same
      have isFlag : other < pool.checkedOut.size := by
        rw [pool.size_checkedOut]
        exact Nat.lt_of_lt_of_eq isInside follows.allocated.symm
      simp [flag, Array.getElem?_setIfInBounds_self_of_lt isFlag]
    · dsimp only [flag]
      rw [Array.getElem?_setIfInBounds_ne (Ne.symm same), follows.flags other isInside]
      simp [same]
  case free =>
    intro other
    simp only [List.mem_cons, follows.free, isOut, nextNew, Bool.and_eq_false_iff,
      decide_eq_false_iff_not, not_not]
    constructor
    · rintro (rfl | ⟨isInside, notOut⟩)
      · exact ⟨(follows.lent other).mp isLent, .inl rfl⟩
      · exact ⟨isInside, .inr notOut⟩
    · rintro ⟨isInside, same | notOut⟩
      · exact .inl same
      · exact .inr ⟨isInside, notOut⟩
  case nodup =>
    apply List.nodup_cons.mpr
    refine ⟨?_, follows.nodup⟩
    rw [follows.free, wasOut]
    simp
  case recent =>
    intro keeps
    rw [returns]
    by_cases kept : keeps block = true
    · rw [List.find?_cons_of_pos kept, List.find?_cons_of_pos (by simp [isOut, kept])]
    · rw [List.find?_cons_of_neg kept, List.find?_cons_of_neg (by simp [kept]), ← follows.recent]
      apply List.find?_congr
      intro other _
      by_cases same : other = block
      · simp [same, kept]
      · simp [isOut, same]

/-- Samples are written to a block that is out. -/
theorem Follows.store (follows : pool.Follows history) (isLent : .lent block ∈ history)
    {offset : Nat} {samples : List Int32} (fits : offset + samples.length ≤ pool.blockSize) :
    (pool.overwrite block ((history.contents pool.blockSize block).take offset ++ samples ++
      (history.contents pool.blockSize block).drop (offset + samples.length))).Follows
        (.written block offset samples :: history) := by
  have inside := (follows.lent block).mp isLent
  constructor
  case allocated =>
    rw [Pool.allocated, overwrite, Array.size_setIfInBounds]
    exact follows.allocated
  case blocks =>
    intro other otherInside
    dsimp only [overwrite]
    by_cases same : other = block
    · rw [same, contents_written fits]
      apply Array.getElem?_setIfInBounds_self_of_lt
      exact Nat.lt_of_lt_of_eq inside follows.allocated.symm
    · rw [contents_written_other same, Array.getElem?_setIfInBounds_ne (Ne.symm same)]
      exact follows.blocks other otherInside
  case lent =>
    intro other
    rw [List.mem_cons, or_iff_right PoolEvent.noConfusion]
    exact follows.lent other
  case unwritten =>
    intro other place outside
    have different : block ≠ other := by
      rintro rfl
      exact absurd inside (Nat.not_lt.mpr outside)
    rw [valueAt, if_neg fun written => different written.1]
    exact follows.unwritten other place outside
  case flags => exact follows.flags
  case free => exact follows.free
  case nodup => exact follows.nodup
  case recent => exact follows.recent

/-- A request gets the reply that the history demands, and the pool follows its history. -/
theorem Follows.serve (follows : pool.Follows history) (request : PoolRequest) :
    (pool.serve request).1 = history.replyTo pool.blockSize request ∧
      (pool.serve request).2.blockSize = pool.blockSize ∧
      (pool.serve request).2.Follows (history.after pool.blockSize request) := by
  cases request with
  | checkout =>
      rw [after, replyTo, follows.lastFree?_eq, Pool.serve]
      cases isFree : pool.free with
      | cons block rest =>
          rw [checkout_of_free isFree]
          exact ⟨rfl, rfl, follows.lend_again isFree⟩
      | nil =>
          have lent := follows.lend_new isFree
          rw [checkout_of_full isFree]
          rw [follows.allocated] at lent ⊢
          exact ⟨rfl, rfl, lent⟩
  | release block =>
      have isContents := follows.contents_eq block
      rw [after, replyTo, Pool.serve]
      cases fault : history.blockFault? block with
      | some error =>
          rw [fault] at isContents
          rw [release_of_error isContents]
          exact ⟨rfl, rfl, follows⟩
      | none =>
          obtain ⟨isLent, wasOut⟩ := isOut_of_blockFault? fault
          rw [fault] at isContents
          rw [release_of_ok isContents]
          exact ⟨rfl, rfl, follows.take_back isLent wasOut⟩
  | write block offset samples =>
      have isContents := follows.contents_eq block
      rw [after, replyTo, accessFault?, Pool.serve]
      by_cases fits : offset + samples.length ≤ pool.blockSize
      · rw [if_neg (Nat.not_lt.mpr fits)]
        cases fault : history.blockFault? block with
        | some error =>
            rw [fault] at isContents
            rw [write_of_error fits isContents]
            exact ⟨rfl, rfl, follows⟩
        | none =>
            obtain ⟨isLent, _⟩ := isOut_of_blockFault? fault
            rw [fault] at isContents
            rw [write_of_ok fits isContents]
            exact ⟨rfl, rfl, follows.store isLent fits⟩
      · rw [if_pos (Nat.lt_of_not_le fits), write_of_outside fits]
        exact ⟨rfl, rfl, follows⟩
  | read block offset length =>
      have isContents := follows.contents_eq block
      rw [after, replyTo, accessFault?, Pool.serve]
      by_cases fits : offset + length ≤ pool.blockSize
      · rw [if_neg (Nat.not_lt.mpr fits)]
        cases fault : history.blockFault? block with
        | some error =>
            rw [fault] at isContents
            rw [read_of_error fits isContents]
            exact ⟨rfl, rfl, follows⟩
        | none =>
            rw [fault] at isContents
            rw [read_of_ok fits isContents]
            refine ⟨?_, rfl, follows⟩
            exact congrArg PoolReply.samples (take_drop_contents fits)
      · rw [if_pos (Nat.lt_of_not_le fits), read_of_outside fits]
        exact ⟨rfl, rfl, follows⟩

/-- A refused request changes nothing: everything is checked before the pool is changed. -/
theorem serve_of_refused {request : PoolRequest} {error : PoolError}
    (isRefused : (pool.serve request).1 = .refused error) : (pool.serve request).2 = pool := by
  cases request with
  | checkout =>
      rw [Pool.serve] at isRefused
      cases isFree : pool.free with
      | cons block rest =>
          rw [checkout_of_free isFree] at isRefused
          cases isRefused
      | nil =>
          rw [checkout_of_full isFree] at isRefused
          cases isRefused
  | release block =>
      rw [Pool.serve] at isRefused ⊢
      cases isContents : pool.contents block with
      | error _ =>
          rw [release_of_error isContents]
          rfl
      | ok samples =>
          rw [release_of_ok isContents] at isRefused
          cases isRefused
  | write block offset samples =>
      rw [Pool.serve] at isRefused ⊢
      by_cases fits : offset + samples.length ≤ pool.blockSize
      · cases isContents : pool.contents block with
        | error _ =>
            rw [write_of_error fits isContents]
            rfl
        | ok old =>
            rw [write_of_ok fits isContents] at isRefused
            cases isRefused
      · rw [write_of_outside fits]
        rfl
  | read block offset length =>
      rw [Pool.serve]
      by_cases fits : offset + length ≤ pool.blockSize
      · cases isContents : pool.contents block with
        | error _ =>
            rw [read_of_error fits isContents]
            rfl
        | ok samples =>
            rw [read_of_ok fits isContents]
            rfl
      · rw [read_of_outside fits]
        rfl

/-- Writing to a block keeps all others. -/
theorem getElem?_serve_write {other : Nat} (different : other ≠ block) (offset : Nat)
    (samples : List Int32) :
    (pool.serve (.write block offset samples)).2.blocks[other]? = pool.blocks[other]? := by
  rw [Pool.serve]
  by_cases fits : offset + samples.length ≤ pool.blockSize
  · cases isContents : pool.contents block with
    | error _ =>
        rw [write_of_error fits isContents]
        rfl
    | ok old =>
        rw [write_of_ok fits isContents]
        exact Array.getElem?_setIfInBounds_ne (Ne.symm different)
  · rw [write_of_outside fits]
    rfl

/-- A block that is out is not checked out again. -/
theorem Follows.checkout_notOut (follows : pool.Follows history)
    (isLent : (pool.serve .checkout).1 = .lent block) : history.isOut block = false := by
  rw [Pool.serve] at isLent
  cases isFree : pool.free with
  | cons first rest =>
      rw [checkout_of_free isFree] at isLent
      cases isLent
      exact ((follows.free block).mp (isFree ▸ List.mem_cons_self)).2
  | nil =>
      rw [checkout_of_full isFree] at isLent
      cases isLent
      apply Bool.eq_false_iff.mpr
      intro wasOut
      have inside := (follows.lent _).mp (lent_mem_of_isOut wasOut)
      exact absurd inside (Nat.not_lt.mpr (le_of_eq follows.allocated.symm))

/-- The flags tell of all blocks, and of no others, whether they are free. -/
theorem Follows.mem_free_iff (follows : pool.Follows history) :
    block ∈ pool.free ↔ pool.checkedOut[block]? = some false := by
  rw [follows.free, follows.flag_eq, ← follows.lent]
  constructor
  · rintro ⟨isLent, notOut⟩
    rw [if_pos isLent, notOut]
  · intro isFlag
    split at isFlag
    next isLent => exact ⟨isLent, Option.some.inj isFlag⟩
    next => cases isFlag

/-- The blocks that are not free are those that are out. -/
theorem Follows.exists_out (follows : pool.Follows history) :
    ∃ out : List Nat, out.Nodup ∧ (∀ block, block ∈ out ↔ history.isOut block = true) ∧
      pool.allocated = pool.free.length + out.length := by
  refine ⟨(List.range history.nextNew).filter fun block => history.isOut block,
    List.nodup_range.filter _, ?_, ?_⟩
  · intro block
    rw [List.mem_filter, List.mem_range]
    exact and_iff_right_of_imp fun wasOut => (follows.lent block).mp (lent_mem_of_isOut wasOut)
  · have areFree : pool.free.Perm
        ((List.range history.nextNew).filter fun block => !history.isOut block) := by
      apply (List.perm_ext_iff_of_nodup follows.nodup (List.nodup_range.filter _)).mpr
      intro block
      rw [follows.free, List.mem_filter, List.mem_range, Bool.not_eq_true']
    have parts := (List.filter_append_perm (fun block => history.isOut block)
      (List.range history.nextNew)).length_eq
    rw [List.length_append, List.length_range] at parts
    rw [follows.allocated, areFree.length_eq, Nat.add_comm]
    exact parts.symm

/-! ## Requests in turn -/

theorem Follows.serveAll (follows : pool.Follows history) (requests : List PoolRequest) :
    (pool.serveAll requests).1 = history.repliesTo pool.blockSize requests ∧
      (pool.serveAll requests).2.blockSize = pool.blockSize ∧
      (pool.serveAll requests).2.Follows (history.afterAll pool.blockSize requests) := by
  induction requests generalizing pool history with
  | nil => exact ⟨rfl, rfl, follows⟩
  | cons request later ih =>
      obtain ⟨isReply, sameSize, follow⟩ := follows.serve request
      obtain ⟨areReplies, stillSameSize, finallyFollow⟩ := ih follow
      rw [sameSize] at areReplies stillSameSize finallyFollow
      refine ⟨?_, stillSameSize, finallyFollow⟩
      rw [repliesTo, ← isReply, ← areReplies]
      rfl

/-- Whether a pool is a map from the numbers of blocks to what was last written to them. -/
structure IsMapOf (pool : Pool) (blockSize : Nat) (history : PoolHistory) : Prop where
  /-- Exactly the blocks that were ever lent are there, all of one size. -/
  contents : ∀ block : Nat, pool.blocks[block]? =
    if .lent block ∈ history then some (history.contents blockSize block) else none
  /-- Their flags tell which of them are out, and the free list holds the other ones, each once. -/
  flags : ∀ block : Nat, pool.checkedOut[block]? =
    if .lent block ∈ history then some (history.isOut block) else none
  free : ∀ block : Nat, block ∈ pool.free ↔ pool.checkedOut[block]? = some false
  nodup : pool.free.Nodup
  /-- Those that are not free are out. -/
  books : ∃ out : List Nat, out.Nodup ∧ (∀ block, block ∈ out ↔ history.isOut block = true) ∧
    pool.allocated = pool.free.length + out.length
  lendsOnce : ∀ block, (pool.serve .checkout).1 = .lent block → history.isOut block = false
  keepsOthers : ∀ (block offset : Nat) samples other, other ≠ block →
    (pool.serve (.write block offset samples)).2.blocks[other]? = pool.blocks[other]?
  keepsAll : ∀ request error, (pool.serve request).1 = .refused error →
    (pool.serve request).2 = pool

/-- To whatever requests, a new pool gives the replies that their history demands, and after them it
is a map from the numbers of blocks to what was last written to them. -/
theorem serveAll_remembers {blockSize : Nat} (isNew : ofBlockSize? blockSize = some pool)
    (requests : List PoolRequest) :
    (pool.serveAll requests).1 = repliesTo blockSize [] requests ∧
      (pool.serveAll requests).2.IsMapOf blockSize (afterAll blockSize [] requests) := by
  obtain ⟨isSize, followsNothing⟩ := follows_new isNew
  obtain ⟨areReplies, sameSize, follows⟩ := followsNothing.serveAll requests
  rw [isSize] at areReplies sameSize follows
  refine ⟨areReplies, ?_⟩
  constructor
  case contents =>
    intro block
    rw [follows.getElem?_eq, sameSize]
  case flags => exact follows.flag_eq
  case free => exact fun block => follows.mem_free_iff
  case nodup => exact follows.nodup
  case books => exact follows.exists_out
  case lendsOnce => exact fun block => follows.checkout_notOut
  case keepsOthers => exact fun block offset samples other different =>
    getElem?_serve_write different offset samples
  case keepsAll => exact fun request error => serve_of_refused

/-- Blocks that are released and checked out again, and requests that cannot be met. -/
def recyclingRequests : List PoolRequest :=
  [.checkout, .checkout, .write 0 1 [7, 8], .release 0, .read 0 0 4, .release 0, .release 5,
    .write 1 3 [1, 2], .release 1, .checkout, .checkout, .write 0 2 [9], .read 0 0 4, .checkout]

theorem serveAll_remembers_recycled :
    ofBlockSize? 4 = some ⟨4, by decide, #[], #[], rfl, []⟩ ∧
      (serveAll ⟨4, by decide, #[], #[], rfl, []⟩ recyclingRequests).1 =
        [.lent 0, .lent 1, .done, .done, .refused (.notCheckedOut 0), .refused (.notCheckedOut 0),
          .refused (.unknownBlock 5), .refused (.outOfBounds 3 2 4), .done, .lent 1, .lent 0,
          .done, .samples [0, 7, 9, 0], .lent 2] := by
  have isNew : ofBlockSize? 4 = some ⟨4, by decide, #[], #[], rfl, []⟩ := rfl
  refine ⟨isNew, ?_⟩
  rw [(serveAll_remembers isNew recyclingRequests).1]
  decide

end Pool

end Waveform
