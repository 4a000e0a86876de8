import Mathlib.Data.List.Nodup
import Mathlib.Tactic
import Xrt.HwQueue.Manager

/-!
# Completion of managed commands

A launch that throws takes the last command back, whichever it is. While that is always its own one,
every launched command is known to the manager exactly once until it is notified.
-/
namespace Xrt.HwQueue

open Lib

/-- What is promised about the commands in a state. -/
structure Good (s : Manager) : Prop where
  kept : ∀ c, s.launch c = .returned → c ∉ s.notified → s.held.count c = 1
  gone : ∀ c, s.launch c = .threw → c ∉ s.held
  once : s.notified.Nodup
  after : ∀ c ∈ s.notified, s.completed c = true
  /-- the monitor on its own comes to notify a completed command -/
  delivered : ∀ c, s.launch c = .returned → s.completed c = true → c ∉ s.notified →
    ∃ es : List Event, (∀ e ∈ es, e.ofMonitor = true) ∧
      ∃ t, run step s es = some t ∧ c ∈ t.notified

/-- A launch that throws is the last one in `submitted_cmds`. -/
def OwnLast (s : Manager) : Event → Prop
  | .submitThrows cmd => s.submittedCmds.getLast? = some cmd
  | _ => True

/-- The executor has the command, or has had it. -/
def Launch.accepted (l : Launch) : Prop := l = .submitted ∨ l = .returned

/-- The command is not, or not any more, with the manager. -/
def Launch.out (l : Launch) : Prop := l = .new ∨ l = .threw

structure Inv (s : Manager) : Prop where
  nodup : s.held.Nodup
  once : s.notified.Nodup
  absent : ∀ c, (s.launch c).out → c ∉ s.held
  kept : ∀ c, s.launch c = .pushed ∨ (s.launch c).accepted → c ∉ s.notified → c ∈ s.held
  ran : ∀ c, s.completed c = true → (s.launch c).accepted
  after : ∀ c ∈ s.notified, s.completed c = true
  waiting : ∀ c ∈ s.submittedCmds, c ∉ s.notified
  /-- the commands behind the loop are notified or busy -/
  checking : ∀ busy todo, s.monitor = .check busy todo →
    ∃ seen, s.runningCmds = seen ++ todo ∧ busy = seen.filter (· ∉ s.notified)
      ∧ ∀ c ∈ todo, c ∉ s.notified
  quiet : (∀ busy todo, s.monitor ≠ .check busy todo) → ∀ c ∈ s.runningCmds, c ∉ s.notified

theorem initial_inv : Inv .initial := by
  constructor <;> simp [Manager.initial, Manager.held, Launch.accepted, Launch.out]

/-! ### One step -/

section Step

variable {s : Manager} {c : Cmd}

theorem setLaunch_self (s : Manager) (c : Cmd) (l : Launch) : (s.setLaunch c l).launch c = l :=
  Function.update_self ..

theorem setLaunch_other (s : Manager) {c d : Cmd} (l : Launch) (other : d ≠ c) :
    (s.setLaunch c l).launch d = s.launch d :=
  Function.update_of_ne other ..

section

variable (inv : Inv s)
include inv

theorem Inv.not_notified (l : ¬ (s.launch c).accepted) : c ∉ s.notified :=
  fun member => l (inv.ran c (inv.after c member))

theorem Inv.setLaunch (l : Launch) (active : s.launch c = .pushed ∨ (s.launch c).accepted)
    (goesOn : l.accepted) : Inv (s.setLaunch c l) := by
  refine ⟨inv.nodup, inv.once, ?_, ?_, ?_, inv.after, inv.waiting, inv.checking, inv.quiet⟩
  · intro d out
    have other : d ≠ c := by
      rintro rfl
      rw [setLaunch_self] at out
      rcases goesOn with rfl | rfl <;> simp [Launch.out] at out
    rw [setLaunch_other s l other] at out
    exact inv.absent d out
  · intro d now
    by_cases same : d = c
    · subst same
      exact inv.kept d active
    · rw [setLaunch_other s l same] at now
      exact inv.kept d now
  · intro d done
    by_cases same : d = c
    · subst same
      rw [setLaunch_self]
      exact goesOn
    · rw [setLaunch_other s l same]
      exact inv.ran d done

theorem Inv.push (new : s.launch c = .new) :
    Inv { s.setLaunch c .pushed with submittedCmds := s.submittedCmds ++ [c] } := by
  have absent := inv.absent c (Or.inl new)
  have unnotified : c ∉ s.notified := inv.not_notified (by simp [new, Launch.accepted])
  have known : ∀ d, d ∈ s.submittedCmds ++ [c] ++ s.runningCmds ↔ d = c ∨ d ∈ s.held := by
    simp only [Manager.held, List.mem_append, List.mem_singleton]
    tauto
  -- only the launch of this command and the list of submitted ones change
  refine ⟨?_, inv.once, ?_, ?_, ?_, inv.after, ?_, inv.checking, inv.quiet⟩
  · have perm : (s.submittedCmds ++ [c] ++ s.runningCmds).Perm (c :: s.held) := by
      rw [List.append_assoc]
      exact List.perm_middle
    exact perm.nodup_iff.mpr (List.nodup_cons.mpr ⟨absent, inv.nodup⟩)
  · intro d out
    have other : d ≠ c := by
      rintro rfl
      rw [show _ = Launch.pushed from setLaunch_self s d .pushed] at out
      simp [Launch.out] at out
    have old : (s.launch d).out := (setLaunch_other s .pushed other) ▸ out
    exact fun member => inv.absent d old (((known d).mp member).resolve_left other)
  · intro d now
    by_cases same : d = c
    · exact fun _ => (known d).mpr (Or.inl same)
    · have old : s.launch d = .pushed ∨ (s.launch d).accepted := by
        rwa [← setLaunch_other s .pushed same]
      exact fun out => (known d).mpr (Or.inr (inv.kept d old out))
  · intro d done
    have before := inv.ran d done
    have other : d ≠ c := by
      rintro rfl
      rw [new] at before
      simp [Launch.accepted] at before
    exact (setLaunch_other s .pushed other).symm ▸ before
  · intro d member
    rcases List.mem_append.mp member with old | last
    · exact inv.waiting d old
    · rw [List.mem_singleton.mp last]
      exact unnotified

theorem Inv.throws (pushed : s.launch c = .pushed) (last : s.submittedCmds.getLast? = some c) :
    Inv { s.setLaunch c .threw with submittedCmds := s.submittedCmds.dropLast } := by
  -- the last command of the list is the own one, so that no other command is lost
  obtain ⟨front, split⟩ := List.getLast?_eq_some_iff.mp last
  have popped : s.submittedCmds.dropLast = front := by rw [split, List.dropLast_concat]
  have perm : s.held.Perm (c :: (front ++ s.runningCmds)) := by
    rw [Manager.held, split, List.append_assoc]
    exact List.perm_middle
  obtain ⟨absent, nodup⟩ := List.nodup_cons.mp (perm.nodup_iff.mp inv.nodup)
  have known : ∀ d, d ∈ s.held ↔ d = c ∨ d ∈ front ++ s.runningCmds := fun d =>
    perm.mem_iff.trans List.mem_cons
  rw [popped]
  refine ⟨nodup, inv.once, ?_, ?_, ?_, inv.after, ?_, inv.checking, inv.quiet⟩
  · intro d out
    by_cases same : d = c
    · rw [same]
      exact absent
    · have old : (s.launch d).out := (setLaunch_other s .threw same) ▸ out
      exact fun member => inv.absent d old ((known d).mpr (Or.inr member))
  · intro d now unnotified
    have other : d ≠ c := by
      rintro rfl
      rw [show _ = Launch.threw from setLaunch_self s d .threw] at now
      simp [Launch.accepted] at now
    have old : s.launch d = .pushed ∨ (s.launch d).accepted := (setLaunch_other s .threw other) ▸ now
    exact ((known d).mp (inv.kept d old unnotified)).resolve_left other
  · intro d done
    have before := inv.ran d done
    have other : d ≠ c := by
      rintro rfl
      rw [pushed] at before
      simp [Launch.accepted] at before
    exact (setLaunch_other s .threw other).symm ▸ before
  · intro d member
    apply inv.waiting d
    rw [split]
    exact List.mem_append_left [c] member

theorem Inv.complete (accepted : (s.launch c).accepted) :
    Inv { s with completed := Function.update s.completed c true } := by
  refine ⟨inv.nodup, inv.once, inv.absent, inv.kept, ?_, ?_, inv.waiting, inv.checking, inv.quiet⟩
  · intro d done
    by_cases same : d = c
    · exact same ▸ accepted
    · exact inv.ran d ((Function.update_of_ne same ..).symm.trans done)
  · intro d member
    by_cases same : d = c
    · rw [same]
      exact Function.update_self ..
    · exact (Function.update_of_ne same ..).trans (inv.after d member)

theorem Inv.setMonitor (now : ∀ busy todo, s.monitor ≠ .check busy todo)
    {m : Monitor} (next : ∀ busy todo, m ≠ .check busy todo) : Inv { s with monitor := m } :=
  ⟨inv.nodup, inv.once, inv.absent, inv.kept, inv.ran, inv.after, inv.waiting,
    fun busy todo checking => absurd checking (next busy todo), fun _ => inv.quiet now⟩

theorem Inv.drain (now : s.monitor = .drain) : Inv { s with
      submittedCmds := []
      runningCmds := s.runningCmds ++ s.submittedCmds
      monitor := .check [] (s.runningCmds ++ s.submittedCmds) } := by
  -- the submitted commands change lists; what is held is the same
  have perm : s.held.Perm (s.runningCmds ++ s.submittedCmds) := List.perm_append_comm
  have unnotified : ∀ c ∈ s.runningCmds ++ s.submittedCmds, c ∉ s.notified := by
    intro c member
    rcases List.mem_append.mp member with old | new
    · exact inv.quiet (by simp [now]) c old
    · exact inv.waiting c new
  refine ⟨perm.nodup_iff.mp inv.nodup, inv.once, ?_, ?_, inv.ran, inv.after, by simp, ?_, ?_⟩
  · exact fun c out member => inv.absent c out (perm.mem_iff.mpr member)
  · exact fun c active out => perm.mem_iff.mp (inv.kept c active out)
  · rintro busy todo ⟨⟩
    exact ⟨[], rfl, rfl, unnotified⟩
  · intro never
    exact absurd rfl (never _ _)

theorem Inv.checkNext {busy todo : List Cmd} (now : s.monitor = .check busy (c :: todo)) :
    Inv (if s.completed c then
      { s with monitor := .check busy todo, notified := s.notified ++ [c] }
    else { s with monitor := .check (busy ++ [c]) todo }) := by
  obtain ⟨seen, running, busyEq, later⟩ := inv.checking busy (c :: todo) now
  have running' : s.runningCmds = (seen ++ [c]) ++ todo := by simp [running]
  have unnotified := later c List.mem_cons_self
  -- `busy` collects the commands of this round that have not completed
  split
  next done =>
    have nodup : (seen ++ c :: todo).Nodup := running ▸ (List.nodup_append.mp inv.nodup).2.1
    have apart : ∀ d ∈ s.submittedCmds, d ≠ c := by
      rintro d member rfl
      have inRunning : d ∈ s.runningCmds := by simp [running]
      exact (List.nodup_append.mp inv.nodup).2.2 d member d inRunning rfl
    have notYet : ∀ d, d ∉ s.notified → d ≠ c → d ∉ s.notified ++ [c] := by
      intro d old other
      simp [old, other]
    refine ⟨inv.nodup, ?_, inv.absent, ?_, inv.ran, ?_, ?_, ?_, ?_⟩
    · have longer := inv.once.concat unnotified
      rwa [List.concat_eq_append] at longer
    · intro d active out
      exact inv.kept d active fun member => out (List.mem_append_left _ member)
    · intro d member
      rcases List.mem_append.mp member with old | last
      · exact inv.after d old
      · rw [List.mem_singleton.mp last]
        exact done
    · exact fun d member => notYet d (inv.waiting d member) (apart d member)
    · rintro busy' todo' ⟨⟩
      obtain ⟨inSeen, inTodo, split⟩ := List.nodup_append.mp nodup
      obtain ⟨absent, -⟩ := List.nodup_cons.mp inTodo
      refine ⟨seen ++ [c], running', ?_, ?_⟩
      · have others : ∀ d ∈ seen, d ≠ c := fun d member => split d member c List.mem_cons_self
        have last : [c].filter (· ∉ s.notified ++ [c]) = [] := by simp
        rw [List.filter_append, last, List.append_nil, busyEq]
        apply List.filter_congr
        intro d member
        simp [others d member]
      · intro d member
        apply notYet d (later d (List.mem_cons_of_mem c member))
        rintro rfl
        exact absent member
    · intro never
      exact absurd rfl (never _ _)
  next running =>
    refine ⟨inv.nodup, inv.once, inv.absent, inv.kept, inv.ran, inv.after, inv.waiting, ?_, ?_⟩
    · rintro busy' todo' ⟨⟩
      refine ⟨seen ++ [c], running', ?_, fun d member => later d (List.mem_cons_of_mem c member)⟩
      rw [List.filter_append, ← busyEq]
      simp [unnotified]
    · intro never
      exact absurd rfl (never _ _)

theorem Inv.swap {busy : List Cmd} (now : s.monitor = .check busy []) :
    Inv { s with runningCmds := busy, monitor := .top } := by
  obtain ⟨seen, running, busyEq, -⟩ := inv.checking busy [] now
  rw [List.append_nil] at running
  -- what the swap takes out of the list has been notified
  have kept : ∀ c, c ∈ busy ↔ c ∈ s.runningCmds ∧ c ∉ s.notified := by
    intro c
    rw [busyEq, running, List.mem_filter, decide_eq_true_iff]
  have sub : (s.submittedCmds ++ busy).Sublist s.held := by
    rw [Manager.held, running, busyEq]
    exact (List.Sublist.refl _).append List.filter_sublist
  refine ⟨sub.nodup inv.nodup, inv.once, ?_, ?_, inv.ran, inv.after, inv.waiting, ?_, ?_⟩
  · exact fun c out member => inv.absent c out (sub.subset member)
  · intro c active unnotified
    rcases List.mem_append.mp (inv.kept c active unnotified) with new | old
    · exact List.mem_append_left _ new
    · exact List.mem_append_right _ ((kept c).mpr ⟨old, unnotified⟩)
  · rintro busy' todo' ⟨⟩
  · exact fun _ c member => ((kept c).mp member).2

end

end Step

theorem step_inv {s t : Manager} {e : Event} (inv : Inv s) (own : OwnLast s e)
    (stepped : step s e = some t) : Inv t := by
  cases e with
  | push c =>
    simp only [step, Option.ite_none_right_eq_some, Option.some.injEq] at stepped
    obtain ⟨new, rfl⟩ := stepped
    exact inv.push new
  | submitTakes c =>
    simp only [step, Option.ite_none_right_eq_some, Option.some.injEq] at stepped
    obtain ⟨pushed, rfl⟩ := stepped
    exact inv.setLaunch .submitted (Or.inl pushed) (Or.inl rfl)
  | submitThrows c =>
    simp only [step, Option.ite_none_right_eq_some, Option.some.injEq] at stepped
    obtain ⟨pushed, rfl⟩ := stepped
    exact inv.throws pushed own
  | launchReturns c =>
    simp only [step, Option.ite_none_right_eq_some, Option.some.injEq] at stepped
    obtain ⟨submitted, rfl⟩ := stepped
    exact inv.setLaunch .returned (Or.inr (Or.inl submitted)) (Or.inr rfl)
  | complete c =>
    simp only [step, Option.ite_none_right_eq_some, Option.some.injEq] at stepped
    obtain ⟨accepted, rfl⟩ := stepped
    exact inv.complete accepted
  | wake =>
    simp only [step, Option.ite_none_right_eq_some, Option.some.injEq] at stepped
    obtain ⟨⟨top, -⟩, rfl⟩ := stepped
    exact inv.setMonitor (by simp [top]) (by simp)
  | execWaitReturns =>
    simp only [step, Option.ite_none_right_eq_some, Option.some.injEq] at stepped
    obtain ⟨waiting, rfl⟩ := stepped
    exact inv.setMonitor (by simp [waiting]) (by simp)
  | drain =>
    simp only [step, Option.ite_none_right_eq_some, Option.some.injEq] at stepped
    obtain ⟨now, rfl⟩ := stepped
    exact inv.drain now
  | checkNext =>
    simp only [step] at stepped
    split at stepped
    next busy c todo now =>
      have next := inv.checkNext now
      split at stepped
      next done =>
        cases stepped
        rwa [if_pos done] at next
      next running =>
        cases stepped
        rwa [if_neg running] at next
    · cases stepped
  | swap =>
    simp only [step] at stepped
    split at stepped
    next busy now =>
      cases stepped
      exact inv.swap now
    · cases stepped

/-- A launch that takes another command back leaves its own one behind. -/
theorem throws_breaks {s t : Manager} {e : Event} (inv : Inv s) (other : ¬ OwnLast s e)
    (stepped : step s e = some t) : ¬ Good t := by
  cases e with
  | submitThrows c =>
    simp only [step, Option.ite_none_right_eq_some, Option.some.injEq] at stepped
    obtain ⟨pushed, rfl⟩ := stepped
    intro good
    have unnotified : c ∉ s.notified := inv.not_notified (by simp [pushed, Launch.accepted])
    apply good.gone c (setLaunch_self s c .threw)
    rcases List.mem_append.mp (inv.kept c (Or.inl pushed) unnotified) with inSubmitted | inRunning
    · apply List.mem_append_left
      rcases List.eq_nil_or_concat s.submittedCmds with empty | ⟨front, last, split⟩
      · rw [empty] at inSubmitted
        cases inSubmitted
      · have differs : last ≠ c := by
          rintro rfl
          exact other (by simp [OwnLast, split])
        rw [List.concat_eq_append] at split
        rw [split] at inSubmitted ⊢
        rw [List.dropLast_concat]
        rcases List.mem_append.mp inSubmitted with before | here
        · exact before
        · exact absurd (List.mem_singleton.mp here).symm differs
    · exact List.mem_append_right _ inRunning
  | _ => exact absurd trivial other

/-! ### The monitor on its own -/

section Delivery

variable {s : Manager} {c : Cmd}

/-- The monitor alone can come to notify the command. -/
def CanNotify (s : Manager) (c : Cmd) : Prop :=
  ∃ es : List Event, (∀ e ∈ es, e.ofMonitor = true) ∧ ∃ t, run step s es = some t ∧ c ∈ t.notified

theorem CanNotify.step {t : Manager} {e : Event} (monitor : e.ofMonitor = true)
    (stepped : step s e = some t) (later : CanNotify t c) : CanNotify s c := by
  obtain ⟨es, all, u, ran, member⟩ := later
  refine ⟨e :: es, ?_, u, (run_cons_iff s u e es).mpr ⟨t, stepped, ran⟩, member⟩
  exact List.forall_mem_cons.mpr ⟨monitor, all⟩

/-- The loop notifies a completed command that it has still to look at. -/
theorem canNotify_of_todo {busy todo : List Cmd} (now : s.monitor = .check busy todo)
    (done : s.completed c = true) (member : c ∈ todo) : CanNotify s c := by
  induction todo generalizing s busy with
  | nil => cases member
  | cons d todo ih =>
    by_cases ready : s.completed d = true
    · have stepped : HwQueue.step s .checkNext
          = some { s with monitor := .check busy todo, notified := s.notified ++ [d] } := by
        simp [HwQueue.step, now, ready]
      apply CanNotify.step rfl stepped
      rcases List.mem_cons.mp member with rfl | later
      · exact ⟨[], by simp, _, rfl, by simp⟩
      · exact ih rfl done later
    · have stepped : HwQueue.step s .checkNext
          = some { s with monitor := .check (busy ++ [d]) todo } := by
        simp [HwQueue.step, now, ready]
      have later : c ∈ todo := by
        rcases List.mem_cons.mp member with rfl | later
        · exact absurd done ready
        · exact later
      exact CanNotify.step rfl stepped (ih rfl done later)

theorem canNotify_of_drain (now : s.monitor = .drain) (done : s.completed c = true)
    (held : c ∈ s.held) : CanNotify s c := by
  have stepped : HwQueue.step s .drain = some { s with
      submittedCmds := []
      runningCmds := s.runningCmds ++ s.submittedCmds
      monitor := .check [] (s.runningCmds ++ s.submittedCmds) } := by
    simp [HwQueue.step, now]
  refine CanNotify.step rfl stepped (canNotify_of_todo rfl done ?_)
  exact List.perm_append_comm.mem_iff.mp held

theorem canNotify_of_execWait (now : s.monitor = .execWait) (done : s.completed c = true)
    (held : c ∈ s.held) : CanNotify s c := by
  have stepped : HwQueue.step s .execWaitReturns = some { s with monitor := .drain } := by
    simp [HwQueue.step, now]
  exact CanNotify.step rfl stepped (canNotify_of_drain rfl done held)

theorem canNotify_of_top (now : s.monitor = .top) (done : s.completed c = true)
    (held : c ∈ s.held) : CanNotify s c := by
  have work : s.idle = false := by
    rw [Bool.eq_false_iff]
    intro idle
    simp only [Manager.idle, Bool.and_eq_true, List.isEmpty_iff] at idle
    simp [Manager.held, idle] at held
  have stepped : HwQueue.step s .wake = some { s with monitor := .execWait } := by
    simp [HwQueue.step, now, work]
  exact CanNotify.step rfl stepped (canNotify_of_execWait rfl done held)

theorem Inv.canNotify (inv : Inv s) (done : s.completed c = true) (out : c ∉ s.notified) :
    CanNotify s c := by
  have held := inv.kept c (Or.inr (inv.ran c done)) out
  cases now : s.monitor with
  | top => exact canNotify_of_top now done held
  | execWait => exact canNotify_of_execWait now done held
  | drain => exact canNotify_of_drain now done held
  | check busy todo =>
    -- the rest of this round, and then the next one if the command is not in the rest
    induction todo generalizing s busy with
    | nil =>
      have stepped : HwQueue.step s .swap = some { s with runningCmds := busy, monitor := .top } := by
        simp [HwQueue.step, now]
      have next := inv.swap now
      exact CanNotify.step rfl stepped (canNotify_of_top rfl done
        (next.kept c (Or.inr (inv.ran c done)) out))
    | cons d todo ih =>
      have next := inv.checkNext now
      have stepped : HwQueue.step s .checkNext = some (if s.completed d then
          { s with monitor := .check busy todo, notified := s.notified ++ [d] }
        else { s with monitor := .check (busy ++ [d]) todo }) := by
        simp only [HwQueue.step, now]
        split <;> rfl
      apply CanNotify.step rfl stepped
      split at next
      next ready =>
        rw [if_pos ready]
        by_cases here : c ∈ s.notified ++ [d]
        · exact ⟨[], by simp, _, rfl, here⟩
        · exact ih next done here (next.kept c (Or.inr (next.ran c done)) here) busy rfl
      next running =>
        rw [if_neg running]
        exact ih next done out (next.kept c (Or.inr (next.ran c done)) out) _ rfl

end Delivery

theorem Inv.good {s : Manager} (inv : Inv s) : Good s := by
  refine ⟨?_, ?_, inv.once, inv.after, ?_⟩
  · intro c returned out
    exact List.count_eq_one_of_mem inv.nodup (inv.kept c (Or.inr (Or.inr returned)) out)
  · exact fun c threw => inv.absent c (Or.inr threw)
  · exact fun c _ done out => inv.canNotify done out

/-- The promise holds in every state of a run exactly if every launch that throws takes its own
command back. -/
theorem managed_completion_iff (es : List Event) {t : Manager}
    (ran : run step .initial es = some t) :
    Always step Good .initial es ↔ Along step OwnLast .initial es :=
  always_iff_along (fun _ _ _ inv own stepped => step_inv inv own stepped) (fun _ inv => inv.good)
    (fun _ _ _ inv other stepped => throws_breaks inv other stepped) initial_inv ran

section Samples

/-- Two launches, the second of which throws. -/
def tidyRun : List Event :=
  [.push 0, .submitTakes 0, .push 1, .submitThrows 1, .launchReturns 0, .complete 0, .wake,
    .execWaitReturns, .drain, .checkNext, .swap]

/-- Two launches, the first of which throws after the second one has been stored. -/
def mixedRun : List Event := [.push 0, .push 1, .submitTakes 1, .launchReturns 1, .submitThrows 0]

theorem managed_completion_iff_tidyRun :
    ∃ t, run step .initial tidyRun = some t ∧ Always step Good .initial tidyRun := by
  refine ⟨_, rfl, (managed_completion_iff tidyRun rfl).mpr ?_⟩
  refine along_cons rfl trivial (along_cons rfl trivial (along_cons rfl trivial
    (along_cons rfl rfl ?_)))
  exact along_cons rfl trivial (along_cons rfl trivial (along_cons rfl trivial
    (along_cons rfl trivial (along_cons rfl trivial (along_cons rfl trivial
      (along_cons rfl trivial trivial))))))

/-- A command whose launch returned is lost, and one whose launch threw is still there. -/
theorem managed_command_lost :
    ∃ t, run step .initial mixedRun = some t ∧ t.launch 1 = .returned ∧ 1 ∉ t.notified
      ∧ t.held.count 1 = 0 ∧ t.launch 0 = .threw ∧ 0 ∈ t.held := by
  decide

end Samples

end Xrt.HwQueue
