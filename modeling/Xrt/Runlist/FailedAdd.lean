import Mathlib.Tactic
import Xrt.Lib.Run

/-!
# Additions to a runlist that fail

`runlist_impl`: the runs of a list are chained in commands of `submit_size` runs each, which are
built while runs are added and submitted together. `add` gets the chain for the next run, and makes
it if there is none, in front of the steps that may throw. A call that fails when the last chain is
full leaves a chain without runs behind, which the next `execute` submits.

Runs are objects outside of the list; a run knows whether it is in a list.
-/
namespace Xrt.Runlist

open Lib

def submitSize : Nat := 24

/-- `sizeof(ert_cmd_chain_data) / word_size`. -/
def chainDataWords : Nat := 6

abbrev Run := Nat

/-- An `ert_packet` with `ert_cmd_chain_data`. -/
structure Chain where
  /-- of the payload, in words -/
  count : Nat
  commandCount : Nat
  data : Nat → BitVec 64

/-- A chain as the queue gets it. -/
structure Submission where
  count : Nat
  commandCount : Nat
  commands : List (BitVec 64)
deriving DecidableEq, Repr

namespace Chain

variable (chain : Chain)

def submission : Submission :=
  ⟨chain.count, chain.commandCount, (List.range chain.commandCount).map chain.data⟩

/-- The handle of the run is written behind the entries of the chain. -/
def write (kmhdl : BitVec 64) : Chain :=
  { chain with data := Function.update chain.data chain.commandCount kmhdl }

/-- The chain has one command more, of 2 words. -/
def grow : Chain :=
  { chain with commandCount := chain.commandCount + 1, count := chain.count + 2 }

end Chain

inductive State
  | idle
  | closed
  | running
  | error
deriving DecidableEq, Repr

/-- The list that a run is associated with. -/
inductive Owner
  | this
  | other
deriving DecidableEq, Repr

inductive Error
  | addNotIdle (state : State)
  | bindAt
  | alreadyAssociated
  | outOfRange
  | executeNotIdle (state : State)
  | submit
  | resetRunning
deriving DecidableEq, Repr

structure RunlistImpl where
  state : State
  runlist : List Run
  cmds : List Chain
  owner : Run → Option Owner

namespace RunlistImpl

def init : RunlistImpl where
  state := .idle
  runlist := []
  cmds := []
  owner := fun _ => none

def createExecBuf : Chain where
  count := chainDataWords
  commandCount := 0
  data := fun _ => 0

def getCmdChainForRunAtIndex (cmds : List Chain) (runidx : Nat) : List Chain × Nat :=
  let idx := runidx / submitSize
  if idx < cmds.length then (cmds, idx) else (cmds ++ [createExecBuf], idx)

def add (kmhdl : Run → BitVec 64) (rl : RunlistImpl) (run : Run) (bindThrows : Bool) :
    Except Error Unit × RunlistImpl :=
  if rl.state ≠ .idle then (.error (.addNotIdle rl.state), rl)
  else
    let place := getCmdChainForRunAtIndex rl.cmds rl.runlist.length
    match place.1[place.2]? with
    | none => (.error .outOfRange, { rl with cmds := place.1 })
    | some chain =>
      let written := chain.write (kmhdl run)
      -- an exception leaves the entry behind, and the chain if it is new
      if bindThrows then (.error .bindAt, { rl with cmds := place.1.set place.2 written })
      else if (rl.owner run).isSome then
        (.error .alreadyAssociated, { rl with cmds := place.1.set place.2 written })
      else
        (.ok (),
          { rl with
            cmds := place.1.set place.2 written.grow
            runlist := rl.runlist ++ [run]
            owner := Function.update rl.owner run (some .this) })

/-- What the queue has got, if it takes the first `submits` commands and throws for the next one. -/
def execute (rl : RunlistImpl) (submits : Nat) :
    Except Error Unit × List Submission × RunlistImpl :=
  if rl.state ≠ .idle then (.error (.executeNotIdle rl.state), [], rl)
  else if rl.runlist = [] then (.ok (), [], rl)
  else
    (if submits < rl.cmds.length then .error .submit else .ok (),
      (rl.cmds.take submits).map Chain.submission, { rl with state := .running })

/-- `wait` with its outcome: the list is idle again when its commands have completed, or one of
them has failed, and otherwise stays as it is. -/
def wait (rl : RunlistImpl) (ended : Bool) : RunlistImpl :=
  if rl.state = .running ∧ ended then { rl with state := .idle } else rl

def reset (rl : RunlistImpl) : Except Error Unit × RunlistImpl :=
  if rl.state = .running then (.error .resetRunning, rl)
  else
    (.ok (),
      { state := .idle
        runlist := []
        cmds := []
        owner := fun run => if run ∈ rl.runlist then none else rl.owner run })

inductive Event
  | add (run : Run) (bindThrows : Bool)
  | execute (submits : Nat)
  | wait (ended : Bool)
  | reset
  /-- A run is added to another list, or that list is reset. -/
  | elsewhere (run : Run) (added : Bool)

def step (kmhdl : Run → BitVec 64) (rl : RunlistImpl) : Event → Option RunlistImpl
  | .add run bindThrows => some (rl.add kmhdl run bindThrows).2
  | .execute submits => some (rl.execute submits).2.2
  | .wait ended => some (rl.wait ended)
  | .reset => some rl.reset.2
  | .elsewhere run added =>
    if rl.owner run = some .this then none
    else
      some { rl with owner := Function.update rl.owner run (if added then some .other else none) }

/-- A call of `add` that throws leaves what the next `execute` submits as it is, and no chain that
is submitted is without commands. -/
def Right (kmhdl : Run → BitVec 64) (rl : RunlistImpl) : Event → Prop
  | .add run bindThrows => (rl.add kmhdl run bindThrows).1 ≠ .ok () → ∀ submits,
      ((rl.add kmhdl run bindThrows).2.execute submits).2.1 = (rl.execute submits).2.1
  | .execute submits => ∀ chain ∈ (rl.execute submits).2.1, chain.commandCount ≠ 0
  | _ => True

/-- A call of `add` that throws does so while the list takes no runs, or has none, or its last chain
is not full. -/
def Unfilled (kmhdl : Run → BitVec 64) (rl : RunlistImpl) : Event → Prop
  | .add run bindThrows => (rl.add kmhdl run bindThrows).1 ≠ .ok () →
      rl.state ≠ .idle ∨ rl.runlist = [] ∨ rl.runlist.length % submitSize ≠ 0
  | _ => True

/-! ### The chain for the next run -/

variable {kmhdl : Run → BitVec 64} {rl rl' : RunlistImpl} {run : Run} {bindThrows : Bool}

/-- Every chain is full up to the last one, and there is no chain without runs but the first. -/
structure Tidy (rl : RunlistImpl) : Prop where
  counts : ∀ i chain, rl.cmds[i]? = some chain →
    chain.commandCount = min submitSize (rl.runlist.length - submitSize * i)
  length : rl.cmds.length = (rl.runlist.length + 23) / submitSize
    ∨ rl.runlist = [] ∧ rl.cmds.length = 1

/-- The chains among which `add` has found or made that of the next run. -/
def placed (rl : RunlistImpl) : List Chain :=
  (getCmdChainForRunAtIndex rl.cmds rl.runlist.length).1

theorem placed_eq (rl : RunlistImpl) :
    rl.placed = if rl.runlist.length / submitSize < rl.cmds.length then rl.cmds
      else rl.cmds ++ [createExecBuf] := by
  unfold placed getCmdChainForRunAtIndex
  simp only
  split <;> rfl

theorem place_snd (cmds : List Chain) (runidx : Nat) :
    (getCmdChainForRunAtIndex cmds runidx).2 = runidx / submitSize := by
  unfold getCmdChainForRunAtIndex
  simp only
  split <;> rfl

theorem Tidy.placed_length (tidy : rl.Tidy) :
    rl.placed.length = rl.runlist.length / submitSize + 1 := by
  have length := tidy.length
  rw [placed_eq]
  split
  · rcases length with length | ⟨none, length⟩
    · simp only [submitSize] at *
      omega
    · simp [none, length]
  · rw [List.length_append, List.length_singleton]
    rcases length with length | ⟨none, length⟩
    · simp only [submitSize] at *
      omega
    · simp_all

theorem Tidy.placed_counts (tidy : rl.Tidy) {i : Nat} {chain : Chain}
    (at_i : rl.placed[i]? = some chain) :
    chain.commandCount = min submitSize (rl.runlist.length - submitSize * i) := by
  have length := tidy.placed_length
  rw [placed_eq] at at_i length
  split at at_i
  · exact tidy.counts i chain at_i
  · rename_i missing
    rw [if_neg missing, List.length_append, List.length_singleton] at length
    rcases Nat.lt_or_ge i rl.cmds.length with old | new
    · exact tidy.counts i chain (by rwa [List.getElem?_append_left old] at at_i)
    -- a new chain stands behind as many full ones as the runs fill
    · have last := (List.getElem?_eq_some_iff.mp at_i).1
      rw [List.length_append, List.length_singleton] at last
      have same : i = rl.cmds.length := by omega
      rw [same, List.getElem?_concat_length] at at_i
      cases at_i
      have full := tidy.length
      rw [← List.length_eq_zero_iff] at full
      simp only [createExecBuf, submitSize] at *
      omega

/-! ### Calls of `add` -/

theorem add_not_idle (busy : rl.state ≠ .idle) :
    rl.add kmhdl run bindThrows = (.error (.addNotIdle rl.state), rl) := by
  simp [add, busy]

/-- In an idle list: the chain of the next run, and what becomes of it. -/
theorem Tidy.add_idle (tidy : rl.Tidy) (idle : rl.state = .idle) (kmhdl : Run → BitVec 64)
    (run : Run) (bindThrows : Bool) :
    ∃ chain, rl.placed[rl.runlist.length / submitSize]? = some chain ∧
      ((rl.add kmhdl run bindThrows).1 ≠ .ok () ∧ (rl.add kmhdl run bindThrows).2 = { rl with
          cmds := rl.placed.set (rl.runlist.length / submitSize) (chain.write (kmhdl run)) }
        ∨ rl.add kmhdl run bindThrows = (.ok (), { rl with
          cmds := rl.placed.set (rl.runlist.length / submitSize) (chain.write (kmhdl run)).grow
          runlist := rl.runlist ++ [run]
          owner := Function.update rl.owner run (some .this) })) := by
  have inside : rl.runlist.length / submitSize < rl.placed.length := by
    rw [tidy.placed_length]
    exact Nat.lt_succ_self _
  have found := List.getElem?_eq_getElem inside
  refine ⟨_, found, ?_⟩
  unfold add
  rw [if_neg (not_not.mpr idle)]
  simp only [place_snd]
  unfold placed at found ⊢
  rw [found]
  dsimp only
  split_ifs
  · exact .inl ⟨by simp, rfl⟩
  · exact .inl ⟨by simp, rfl⟩
  · exact .inr rfl

theorem write_submission (chain : Chain) (kmhdl : BitVec 64) :
    (chain.write kmhdl).submission = chain.submission := by
  unfold Chain.submission Chain.write
  simp only [Submission.mk.injEq, true_and]
  -- the handle is written behind the commands of the chain
  apply List.map_congr_left
  intro i member
  exact Function.update_of_ne (List.mem_range.mp member).ne _ _

theorem map_set_submission {cmds : List Chain} {i : Nat} {chain : Chain}
    (found : cmds[i]? = some chain) (kmhdl : BitVec 64) :
    (cmds.set i (chain.write kmhdl)).map Chain.submission = cmds.map Chain.submission := by
  obtain ⟨inside, rfl⟩ := List.getElem?_eq_some_iff.mp found
  rw [List.map_set, write_submission, ← List.map_set, List.set_getElem_self]

/-- A call that throws leaves the chains of `placed` behind, as far as they are submitted. -/
theorem Tidy.add_throws (tidy : rl.Tidy) (idle : rl.state = .idle)
    (throws : (rl.add kmhdl run bindThrows).1 ≠ .ok ()) :
    ∃ cmds, (rl.add kmhdl run bindThrows).2 = { rl with cmds := cmds }
      ∧ cmds.map Chain.submission = rl.placed.map Chain.submission := by
  obtain ⟨chain, found, ⟨-, left⟩ | added⟩ := tidy.add_idle idle kmhdl run bindThrows
  · exact ⟨_, left, map_set_submission found _⟩
  · rw [added] at throws
    exact absurd rfl throws

theorem execute_submissions (rl : RunlistImpl) (submits : Nat) :
    (rl.execute submits).2.1 = if rl.state = .idle ∧ rl.runlist ≠ [] then
      (rl.cmds.map Chain.submission).take submits else [] := by
  unfold execute
  by_cases idle : rl.state = .idle
  · by_cases none : rl.runlist = []
    · simp [idle, none]
    · simp [idle, none, List.map_take]
  · simp [idle]

section

variable (tidy : rl.Tidy)
include tidy

/-- A new chain is made exactly if the runs fill all the chains. -/
theorem Tidy.placed_eq_iff (some : rl.runlist ≠ []) :
    rl.placed.map Chain.submission = rl.cmds.map Chain.submission
      ↔ rl.runlist.length % submitSize ≠ 0 := by
  have length : rl.cmds.length = (rl.runlist.length + 23) / submitSize :=
    tidy.length.resolve_right fun none => some none.1
  rw [placed_eq]
  split
  · refine iff_of_true rfl ?_
    simp only [submitSize] at *
    omega
  · refine iff_of_false (fun same => ?_) ?_
    · have longer := congrArg List.length same
      simp at longer
    · simp only [submitSize] at *
      omega

theorem Tidy.right_add_iff :
    rl.Right kmhdl (.add run bindThrows) ↔ rl.Unfilled kmhdl (.add run bindThrows) := by
  refine forall_congr' fun throws => ?_
  by_cases idle : rl.state = .idle
  · by_cases none : rl.runlist = []
    · refine iff_of_true (fun submits => ?_) (.inr (.inl none))
      obtain ⟨cmds, left, -⟩ := tidy.add_throws idle throws
      simp [left, execute_submissions, none]
    · obtain ⟨cmds, left, same⟩ := tidy.add_throws idle throws
      simp only [left, execute_submissions, idle, none, ne_eq, not_false_eq_true, and_self, if_true,
        not_true_eq_false, false_or]
      rw [← ne_eq, ← tidy.placed_eq_iff none, ← same]
      constructor
      · intro all
        -- a submission that takes every chain shows all of them
        have whole := all (cmds.length + rl.cmds.length)
        rwa [List.take_of_length_le (by simp), List.take_of_length_le (by simp)] at whole
      · intro equal submits
        rw [equal]
  · refine iff_of_true (fun submits => ?_) (.inl idle)
    rw [add_not_idle idle]

theorem Tidy.right_execute (submits : Nat) : rl.Right kmhdl (.execute submits) := by
  intro chain member
  rw [execute_submissions] at member
  split at member
  next both =>
    obtain ⟨old, inside, rfl⟩ := List.mem_map.mp (List.mem_of_mem_take member)
    obtain ⟨i, at_i⟩ := List.mem_iff_getElem?.mp inside
    have bound := (List.getElem?_eq_some_iff.mp at_i).1
    have count := tidy.counts i old at_i
    have length : rl.cmds.length = (rl.runlist.length + 23) / submitSize :=
      tidy.length.resolve_right fun none => both.2 none.1
    simp only [Chain.submission, submitSize] at *
    omega
  next => cases member

end

/-! ### Runs -/

theorem tidy_nil (owner : Run → Option Owner) : Tidy ⟨.idle, [], [], owner⟩ := by
  constructor
  · intro i chain at_i
    simp at at_i
  · exact Or.inl (by simp [submitSize])

section

variable (tidy : rl.Tidy)
include tidy

theorem Tidy.of_same (cmds : rl'.cmds = rl.cmds)
    (runlist : rl'.runlist = rl.runlist) : rl'.Tidy := by
  constructor
  · rw [cmds, runlist]
    exact tidy.counts
  · rw [cmds, runlist]
    exact tidy.length

theorem Tidy.throws (idle : rl.state = .idle) (throws : (rl.add kmhdl run bindThrows).1 ≠ .ok ())
    (unfilled : rl.Unfilled kmhdl (.add run bindThrows)) :
    (rl.add kmhdl run bindThrows).2.Tidy := by
  obtain ⟨cmds, left, same⟩ := tidy.add_throws idle throws
  rw [left]
  constructor
  · intro i chain at_i
    -- the same place among the chains of `placed` has as many commands
    have images : (rl.placed.map Chain.submission)[i]? = some chain.submission := by
      rw [← same, List.getElem?_map, at_i]
      rfl
    rw [List.getElem?_map, Option.map_eq_some_iff] at images
    obtain ⟨old, found, equal⟩ := images
    have count := tidy.placed_counts found
    rwa [show old.commandCount = chain.commandCount from congrArg Submission.commandCount equal]
      at count
  · have length := congrArg List.length same
    rw [List.length_map, List.length_map, tidy.placed_length] at length
    rcases unfilled throws with busy | none | rest
    · exact absurd idle busy
    · exact Or.inr ⟨none, by simpa [none] using length⟩
    · left
      simp only [submitSize] at *
      omega

theorem Tidy.accepts {chain : Chain}
    (found : rl.placed[rl.runlist.length / submitSize]? = some chain) (owner : Run → Option Owner)
    (run : Run) (kmhdl : BitVec 64) :
    Tidy ⟨rl.state, rl.runlist ++ [run],
      rl.placed.set (rl.runlist.length / submitSize) (chain.write kmhdl).grow, owner⟩ := by
  have length := tidy.placed_length
  have count := tidy.placed_counts found
  constructor
  · intro i other at_i
    simp only [List.length_append, List.length_singleton]
    rw [List.getElem?_set] at at_i
    split at at_i
    next here =>
      simp only [Option.ite_none_right_eq_some, Option.some.injEq] at at_i
      obtain ⟨-, rfl⟩ := at_i
      simp only [Chain.grow, Chain.write, submitSize] at *
      omega
    next elsewhere =>
      have bound := (List.getElem?_eq_some_iff.mp at_i).1
      have same := tidy.placed_counts at_i
      simp only [submitSize] at *
      omega
  · left
    simp only [List.length_set, List.length_append, List.length_singleton, length, submitSize]
    omega

theorem Tidy.add (unfilled : rl.Unfilled kmhdl (.add run bindThrows)) :
    (rl.add kmhdl run bindThrows).2.Tidy := by
  by_cases idle : rl.state = .idle
  · obtain ⟨chain, found, ⟨throws, -⟩ | added⟩ := tidy.add_idle idle kmhdl run bindThrows
    · exact tidy.throws idle throws unfilled
    · rw [added]
      exact tidy.accepts found _ run _
  · rw [add_not_idle idle]
    exact tidy

end

theorem Tidy.step {e : Event} (tidy : rl.Tidy) (unfilled : rl.Unfilled kmhdl e)
    (stepped : rl.step kmhdl e = some rl') : rl'.Tidy := by
  cases e with
  | add run bindThrows =>
    cases stepped
    exact tidy.add unfilled
  | execute submits =>
    cases stepped
    unfold execute
    split
    · exact tidy
    · split
      · exact tidy
      · exact tidy.of_same rfl rfl
  | wait ended =>
    cases stepped
    unfold wait
    split
    · exact tidy.of_same rfl rfl
    · exact tidy
  | reset =>
    cases stepped
    unfold reset
    split
    · exact tidy
    · exact tidy_nil _
  | elsewhere run added =>
    simp only [RunlistImpl.step, Option.ite_none_left_eq_some, Option.some.injEq] at stepped
    obtain ⟨-, rfl⟩ := stepped
    exact tidy.of_same rfl rfl

/-- In every run, the calls of `add` that throw leave what is submitted unchanged and no chain
without commands is submitted, exactly if no such call finds all the chains of an idle list with
runs full. -/
theorem right_iff_unfilled (kmhdl : Run → BitVec 64) (es : List Event) :
    Along (step kmhdl) (Right kmhdl) init es ↔ Along (step kmhdl) (Unfilled kmhdl) init es := by
  refine along_iff_along (P := Tidy) (fun rl e rl' tidy met => tidy.step met) (fun rl e tidy => ?_)
    (tidy_nil _) es
  cases e with
  | add run bindThrows => exact tidy.right_add_iff
  | execute submits => exact iff_of_true (tidy.right_execute submits) trivial
  | wait ended => exact Iff.rfl
  | reset => exact Iff.rfl
  | elsewhere run added => exact Iff.rfl

/-- Runs are added until the first chain is full. -/
def firstChain : List Event := (List.range submitSize).map fun run => .add run false

def handles (run : Run) : BitVec 64 := BitVec.ofNat 64 run

set_option maxRecDepth 4000 in
/-- A run that is in the list is added again: `execute` then submits a second chain, without
commands. -/
theorem failed_add_adds_chain : ∃ rl, Lib.run (step handles) init firstChain = some rl
    ∧ (rl.add handles 0 false).1 = .error .alreadyAssociated
    ∧ (rl.execute 2).2.1.map Submission.commandCount = [24]
    ∧ ((rl.add handles 0 false).2.execute 2).2.1.map Submission.commandCount = [24, 0] :=
  ⟨_, rfl, rfl, rfl, rfl⟩

end RunlistImpl

end Xrt.Runlist
