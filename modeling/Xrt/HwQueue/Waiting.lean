import Mathlib.Tactic
import Xrt.HwQueue.KdsDevice

/-!
# No waiter is stranded

While a thread that waits is up to date with the device it waits for, a completed command leaves a
trace that ends its wait: an event for the caller of the device, a caller that has consumed one and
will still count its call, or a count that the thread has not seen.
-/
namespace Xrt.KdsDevice

open Lib

section Places

variable (dev : Cmd → Dev) (d : Dev)

@[simp]
def Pc.polls : Pc → Prop
  | .polling cmd => dev cmd = d
  | _ => False

@[simp]
def Pc.leaves : Pc → Prop
  | .leaving cmd => dev cmd = d
  | _ => False

@[simp]
def Pc.notifies : Pc → Prop
  | .notify cmd => dev cmd = d
  | _ => False

/-- The thread is the one that `m_exec_wait_active` counts. -/
def Pc.inside (pc : Pc) : Prop := pc.polls dev d ∨ pc.leaves dev d

end Places

variable {dev : Cmd → Dev} {s s' : System} {t u : Thread} {d : Dev} {c : Cmd}

/-- Something ends the wait of a thread that has the count `n`. -/
def Ending (dev : Cmd → Dev) (s : System) (d : Dev) (n : Nat) : Prop :=
  0 < s.events d ∨ (∃ v, (s.pc v).leaves dev d) ∨ n ≠ s.callCount d

/-- What holds for a thread that has read the packet state of an uncompleted command. -/
def Obliged (dev : Cmd → Dev) (s : System) (t : Thread) : Prop :=
  match s.pc t with
  | .enter c => s.status c = .signalled → Ending dev s (dev c) (s.synced t (dev c))
  | .blocked c woken =>
    s.threadCount t ≤ s.callCount (dev c)
      ∧ (s.status c = .signalled → Ending dev s (dev c) (s.threadCount t))
      ∧ (s.threadCount t = s.callCount (dev c) → ∃ v, (s.pc v).inside dev (dev c))
      ∧ (s.threadCount t ≠ s.callCount (dev c) →
        woken = true ∨ ∃ v, (s.pc v).notifies dev (dev c))
  | .polling c => s.status c = .signalled → 0 < s.events (dev c)
  | _ => True

structure Inv (dev : Cmd → Dev) (s : System) : Prop where
  one : ∀ d t u, (s.pc t).inside dev d → (s.pc u).inside dev d → t = u
  free : ∀ d, s.active d = 0 ↔ ∀ t, ¬ (s.pc t).inside dev d
  le : ∀ d, s.active d ≤ 1
  seen : ∀ t d, s.synced t d ≤ s.callCount d
  obliged : ∀ t, Obliged dev s t

/-- A thread whose command has completed and that finds its count equal to the one of the device has
seen all calls on this device, or not all of them have been counted. -/
def UpToDate (dev : Cmd → Dev) (s : System) : Event → Prop
  | .enter t => ∀ c, s.pc t = .enter c → s.threadCount t = s.callCount (dev c) →
    s.status c = .signalled →
    s.synced t (dev c) = s.callCount (dev c)
      ∨ 0 < s.events (dev c) ∨ ∃ v, (s.pc v).leaves dev (dev c)
  | _ => True

theorem initial_inv (dev : Cmd → Dev) : Inv dev .initial := by
  constructor <;> simp [System.initial, Pc.inside, Pc.polls, Pc.leaves, Obliged]

/-! ### Frames -/

@[simp]
theorem goto_self (s : System) (t : Thread) (pc : Pc) : (s.goto t pc).pc t = pc :=
  Function.update_self ..

theorem goto_other (s : System) (pc : Pc) (other : u ≠ t) : (s.goto t pc).pc u = s.pc u :=
  Function.update_of_ne other ..

theorem sync_synced_other (s : System) (d : Dev) (other : u ≠ t) :
    (s.sync t d).synced u = s.synced u :=
  Function.update_of_ne other ..

theorem sync_threadCount_other (s : System) (d : Dev) (other : u ≠ t) :
    (s.sync t d).threadCount u = s.threadCount u :=
  Function.update_of_ne other ..

theorem sync_synced_self (s : System) (t : Thread) (d : Dev) :
    (s.sync t d).synced t = Function.update (s.synced t) d (s.callCount d) :=
  Function.update_self ..

theorem sync_le {s : System} (seen : ∀ t d, s.synced t d ≤ s.callCount d) (t : Thread) (d : Dev) :
    ∀ u e, (s.sync t d).synced u e ≤ s.callCount e := by
  intro u e
  by_cases thread : u = t
  · subst thread
    rw [sync_synced_self]
    by_cases device : e = d
    · subst device
      rw [Function.update_self]
    · rw [Function.update_of_ne device]
      exact seen u e
  · rw [sync_synced_other s d thread]
    exact seen u e

/-- The signs that a waiting thread relies on stay. -/
structure Keeps (dev : Cmd → Dev) (s s' : System) : Prop where
  count : ∀ d, s.callCount d ≤ s'.callCount d
  ending : ∀ c n, n ≤ s.callCount (dev c) → s'.status c = .signalled →
    (s.status c = .signalled → Ending dev s (dev c) n) → Ending dev s' (dev c) n
  active : ∀ d n, n ≤ s.callCount d → n = s'.callCount d →
    (n = s.callCount d → ∃ v, (s.pc v).inside dev d) → ∃ v, (s'.pc v).inside dev d
  notified : ∀ d n, n ≤ s.callCount d → n ≠ s'.callCount d → ∀ woken,
    (n ≠ s.callCount d → woken = true ∨ ∃ v, (s.pc v).notifies dev d) →
    woken = true ∨ ∃ v, (s'.pc v).notifies dev d

theorem Obliged.frame (obliged : Obliged dev s u) (keeps : Keeps dev s s')
    (seen : ∀ d, s.synced u d ≤ s.callCount d) (pc : s'.pc u = s.pc u)
    (count : s'.threadCount u = s.threadCount u) (synced : s'.synced u = s.synced u)
    (polled : ∀ c, s.pc u = .polling c → s'.status c = .signalled →
      (s.status c = .signalled → 0 < s.events (dev c)) → 0 < s'.events (dev c)) :
    Obliged dev s' u := by
  unfold Obliged at obliged ⊢
  rw [pc]
  cases place : s.pc u with
  | enter c =>
    rw [place] at obliged
    rw [synced]
    exact fun done => keeps.ending c _ (seen _) done obliged
  | blocked c woken =>
    rw [place] at obliged
    obtain ⟨below, done, busy, woke⟩ := obliged
    rw [count]
    exact ⟨below.trans (keeps.count _), fun now => keeps.ending c _ below now done,
      fun equal => keeps.active _ _ below equal busy,
      fun differs => keeps.notified _ _ below differs woken woke⟩
  | polling c =>
    rw [place] at obliged
    exact fun done => polled c place done obliged
  | _ => trivial

/-- Where one thread has moved from no place of a kind to no such place, the threads in such places
are the same ones. -/
theorem exists_iff_of_other {P : Pc → Prop} (others : ∀ u, u ≠ t → s'.pc u = s.pc u)
    (before : ¬ P (s.pc t)) (after : ¬ P (s'.pc t)) : (∃ v, P (s'.pc v)) ↔ ∃ v, P (s.pc v) := by
  constructor
  · rintro ⟨v, holds⟩
    have other : v ≠ t := by
      rintro rfl
      exact after holds
    exact ⟨v, others v other ▸ holds⟩
  · rintro ⟨v, holds⟩
    have other : v ≠ t := by
      rintro rfl
      exact before holds
    exact ⟨v, (others v other).symm ▸ holds⟩

/-- The thread is in none of the places that other threads rely on. -/
def Pc.apart (pc : Pc) : Prop :=
  (∀ cmd, pc ≠ .polling cmd) ∧ (∀ cmd, pc ≠ .leaving cmd) ∧ ∀ cmd, pc ≠ .notify cmd

theorem Pc.apart.not_inside {pc : Pc} (apart : pc.apart) (dev : Cmd → Dev) (d : Dev) :
    ¬ pc.inside dev d := by
  obtain ⟨polling, leaving, -⟩ := apart
  cases pc <;> simp_all [Pc.inside, Pc.polls, Pc.leaves]

theorem Pc.apart.not_leaves {pc : Pc} (apart : pc.apart) (dev : Cmd → Dev) (d : Dev) :
    ¬ pc.leaves dev d := fun leaves => apart.not_inside dev d (Or.inr leaves)

theorem Pc.apart.not_notifies {pc : Pc} (apart : pc.apart) (dev : Cmd → Dev) (d : Dev) :
    ¬ pc.notifies dev d := by
  obtain ⟨-, -, notify⟩ := apart
  cases pc <;> simp_all [Pc.notifies]

structure Moves (s s' : System) (t : Thread) : Prop where
  pc : ∀ u, u ≠ t → s'.pc u = s.pc u
  threadCount : ∀ u, u ≠ t → s'.threadCount u = s.threadCount u
  synced : ∀ u, u ≠ t → s'.synced u = s.synced u
  callCount : s'.callCount = s.callCount
  active : s'.active = s.active
  events : s'.events = s.events
  status : s'.status = s.status
  before : (s.pc t).apart
  after : (s'.pc t).apart

theorem Moves.inside_iff (moves : Moves s s' t) (dev : Cmd → Dev) (d : Dev) (v : Thread) :
    (s'.pc v).inside dev d ↔ (s.pc v).inside dev d := by
  by_cases same : v = t
  · subst same
    exact iff_of_false (moves.after.not_inside dev d) (moves.before.not_inside dev d)
  · rw [moves.pc v same]

theorem Moves.keeps (moves : Moves s s' t) (dev : Cmd → Dev) : Keeps dev s s' where
  count d := by rw [moves.callCount]
  ending c n _ done old := by
    unfold Ending at old ⊢
    rw [moves.events, moves.callCount,
      exists_iff_of_other moves.pc (moves.before.not_leaves dev _) (moves.after.not_leaves dev _)]
    exact old (moves.status ▸ done)
  active d n _ equal old := by
    rw [moves.callCount] at equal
    rw [exists_iff_of_other moves.pc (moves.before.not_inside dev d) (moves.after.not_inside dev d)]
    exact old equal
  notified d n _ differs woken old := by
    rw [moves.callCount] at differs
    rw [exists_iff_of_other moves.pc (moves.before.not_notifies dev d)
      (moves.after.not_notifies dev d)]
    exact old differs

theorem Inv.callers (inv : Inv dev s)
    (inside : ∀ d v, (s'.pc v).inside dev d ↔ (s.pc v).inside dev d) (active : s'.active = s.active) :
    (∀ d v w, (s'.pc v).inside dev d → (s'.pc w).inside dev d → v = w)
      ∧ (∀ d, s'.active d = 0 ↔ ∀ v, ¬ (s'.pc v).inside dev d) ∧ ∀ d, s'.active d ≤ 1 := by
  simp only [inside, active]
  exact ⟨inv.one, inv.free, inv.le⟩

theorem Inv.moves (inv : Inv dev s) (moves : Moves s s' t)
    (seen : ∀ u d, s'.synced u d ≤ s'.callCount d) (obliged : Obliged dev s' t) : Inv dev s' := by
  obtain ⟨one, free, le⟩ := inv.callers (moves.inside_iff dev) moves.active
  refine ⟨one, free, le, seen, fun v => ?_⟩
  by_cases same : v = t
  · rw [same]
    exact obliged
  · apply (inv.obliged v).frame (moves.keeps dev) (inv.seen v) (moves.pc v same)
      (moves.threadCount v same) (moves.synced v same)
    intro c _ done old
    rw [moves.events]
    exact old (moves.status ▸ done)

theorem moves_goto {pc : Pc} (before : (s.pc t).apart) (after : pc.apart) :
    Moves s (s.goto t pc) t :=
  ⟨fun _ other => goto_other s pc other, fun _ _ => rfl, fun _ _ => rfl, rfl, rfl, rfl, rfl, before,
    (goto_self s t pc).symm ▸ after⟩

theorem moves_sync {pc : Pc} (d : Dev) (before : (s.pc t).apart) (after : pc.apart) :
    Moves s ((s.sync t d).goto t pc) t :=
  ⟨fun _ other => goto_other (s.sync t d) pc other,
    fun _ other => sync_threadCount_other s d other,
    fun _ other => sync_synced_other s d other, rfl, rfl, rfl, rfl, before,
    (goto_self (s.sync t d) t pc).symm ▸ after⟩

/-! ### One step -/

section

variable (inv : Inv dev s)
include inv

theorem wait_inv (idle : s.pc t = .idle) : Inv dev (s.goto t (.check c)) := by
  apply inv.moves (moves_goto _ _) inv.seen
  · simp [Obliged]
  · simp [idle, Pc.apart]
  · simp [Pc.apart]

theorem check_inv (place : s.pc t = .check c) {pc : Pc}
    (reads : pc = .idle ∨ s.status c = .running ∧ pc = .enter c) : Inv dev (s.goto t pc) := by
  have before : (s.pc t).apart := by simp [place, Pc.apart]
  rcases reads with rfl | ⟨running, rfl⟩
  · apply inv.moves (moves_goto before (by simp [Pc.apart])) inv.seen
    simp [Obliged]
  · apply inv.moves (moves_goto before (by simp [Pc.apart])) inv.seen
    have unfinished : s.status c ≠ .signalled := by simp [running]
    simp [Obliged, System.goto, unfinished]

theorem sync_inv (before : (s.pc t).apart) (d : Dev) :
    Inv dev ((s.sync t d).goto t (.check c)) := by
  apply inv.moves (moves_sync d before (by simp [Pc.apart])) (sync_le inv.seen t d)
  simp [Obliged]

theorem blocked_inv {woken : Bool} (before : (s.pc t).apart)
    (below : s.threadCount t ≤ s.callCount (dev c))
    (done : s.status c = .signalled → Ending dev s (dev c) (s.threadCount t))
    (busy : s.threadCount t = s.callCount (dev c) → ∃ v, (s.pc v).inside dev (dev c))
    (woke : s.threadCount t ≠ s.callCount (dev c) →
      woken = true ∨ ∃ v, (s.pc v).notifies dev (dev c)) :
    Inv dev (s.goto t (.blocked c woken)) := by
  have moves : Moves s (s.goto t (.blocked c woken)) t := moves_goto before (by simp [Pc.apart])
  have keeps := moves.keeps dev
  apply inv.moves moves inv.seen
  unfold Obliged
  rw [goto_self]
  exact ⟨below, fun now => keeps.ending c _ below now done,
    fun equal => keeps.active _ _ below equal busy,
    fun differs => keeps.notified _ _ below differs woken woke⟩

end

def System.calls (s : System) (t : Thread) (d : Dev) (c : Cmd) : System :=
  { s.goto t (.polling c) with active := Function.update s.active d (s.active d + 1) }

theorem calls_inside (place : s.pc t = .enter c) (d : Dev) (v : Thread) :
    ((s.calls t (dev c) c).pc v).inside dev d ↔ v = t ∧ d = dev c ∨ (s.pc v).inside dev d := by
  by_cases same : v = t
  · subst same
    simp [System.calls, place, Pc.inside, eq_comm]
  · simp [System.calls, goto_other s _ same, same]

theorem calls_keeps (place : s.pc t = .enter c) : Keeps dev s (s.calls t (dev c) c) := by
  have others : ∀ u, u ≠ t → (s.calls t (dev c) c).pc u = s.pc u := fun u other => goto_other s _ other
  have now : (s.calls t (dev c) c).pc t = .polling c := goto_self s t _
  refine ⟨fun d => le_rfl, ?_, ?_, ?_⟩
  · intro a n _ done old
    have leaves := exists_iff_of_other (P := fun pc => pc.leaves dev (dev a)) others
      (by simp [place]) (by simp [now])
    exact (old done).imp_right (Or.imp_left leaves.mpr)
  · -- who was inside still is
    intro d n _ equal old
    obtain ⟨v, within⟩ := old equal
    exact ⟨v, (calls_inside place d v).mpr (Or.inr within)⟩
  · intro d n _ differs woken old
    have notifies := exists_iff_of_other (P := fun pc => pc.notifies dev d) others
      (by simp [place]) (by simp [now])
    exact (old differs).imp_right notifies.mpr

theorem polling_inv (inv : Inv dev s) (place : s.pc t = .enter c) (free : s.active (dev c) = 0)
    (done : s.status c = .signalled → 0 < s.events (dev c)) : Inv dev (s.calls t (dev c) c) := by
  have nobody := (inv.free (dev c)).mp free
  -- the new caller is the only thread that comes to the threads inside
  have inside : ∀ d v, ((s.calls t (dev c) c).pc v).inside dev d ↔
      v = t ∧ d = dev c ∨ (s.pc v).inside dev d := calls_inside place
  refine ⟨?_, ?_, ?_, inv.seen, ?_⟩
  · intro d v w first second
    rcases (inside d v).mp first with ⟨rfl, rfl⟩ | within
    · rcases (inside _ w).mp second with ⟨rfl, -⟩ | within
      · rfl
      · exact absurd within (nobody w)
    · rcases (inside d w).mp second with ⟨rfl, rfl⟩ | within'
      · exact absurd within (nobody v)
      · exact inv.one d v w within within'
  · intro d
    by_cases same : d = dev c
    · subst same
      simp only [System.calls, Function.update_self, Nat.add_one_ne_zero, false_iff]
      exact fun none => none t ((inside _ t).mpr (Or.inl ⟨rfl, rfl⟩))
    · simp only [inside, same, and_false, false_or, ← inv.free d]
      exact iff_of_eq (congrArg (· = 0) (Function.update_of_ne same ..))
  · intro d
    by_cases same : d = dev c
    · subst same
      simp [System.calls, free]
    · simpa [System.calls, Function.update_of_ne same] using inv.le d
  · intro v
    by_cases same : v = t
    · subst same
      simpa [Obliged, System.calls, System.goto] using done
    · exact (inv.obliged v).frame (calls_keeps place) (inv.seen v) (goto_other s _ same) rfl rfl
        fun a _ done old => old done

/-- The state in which the caller of a device has consumed an event. -/
def System.consumed (s : System) (t : Thread) (d : Dev) (c : Cmd) : System :=
  { s.goto t (.leaving c) with events := Function.update s.events d (s.events d - 1) }

theorem consumed_inside (place : s.pc t = .polling c) (d : Dev) (v : Thread) :
    ((s.consumed t (dev c) c).pc v).inside dev d ↔ (s.pc v).inside dev d := by
  by_cases same : v = t
  · subst same
    simp [System.consumed, place, Pc.inside]
  · simp [System.consumed, goto_other s _ same]

theorem consumed_keeps (place : s.pc t = .polling c) : Keeps dev s (s.consumed t (dev c) c) := by
  have others : ∀ u, u ≠ t → (s.consumed t (dev c) c).pc u = s.pc u :=
    fun u other => goto_other s _ other
  have now : (s.consumed t (dev c) c).pc t = .leaving c := goto_self s t _
  refine ⟨fun d => le_rfl, ?_, ?_, ?_⟩
  · intro a n _ done old
    by_cases same : dev a = dev c
    · -- the event may have been the one of this command, but its call is still to be counted
      exact Or.inr (Or.inl ⟨t, by simp [now, same]⟩)
    · have leaves := exists_iff_of_other (P := fun pc => pc.leaves dev (dev a)) others
        (by simp [place]) (by simpa [now] using Ne.symm same)
      have event : (s.consumed t (dev c) c).events (dev a) = s.events (dev a) :=
        Function.update_of_ne same ..
      unfold Ending at old ⊢
      rw [event]
      exact (old done).imp_right (Or.imp_left leaves.mpr)
  · intro d n _ equal old
    obtain ⟨v, within⟩ := old equal
    exact ⟨v, (consumed_inside place d v).mpr within⟩
  · intro d n _ differs woken old
    have notifies := exists_iff_of_other (P := fun pc => pc.notifies dev d) others
      (by simp [place]) (by simp [now])
    exact (old differs).imp_right notifies.mpr

theorem poll_inv (inv : Inv dev s) (place : s.pc t = .polling c) :
    Inv dev (s.consumed t (dev c) c) := by
  obtain ⟨one, free, le⟩ := inv.callers (consumed_inside place) rfl
  refine ⟨one, free, le, inv.seen, fun v => ?_⟩
  by_cases same : v = t
  · subst same
    simp [Obliged, System.consumed]
  · apply (inv.obliged v).frame (consumed_keeps place) (inv.seen v) (goto_other s _ same) rfl rfl
    intro a polling done old
    -- no other thread polls the device
    have device : dev a ≠ dev c := by
      intro equal
      have within : (s.pc v).inside dev (dev c) := by simp [polling, Pc.inside, equal]
      exact same (inv.one (dev c) v t within (by simp [place, Pc.inside]))
    simpa [System.consumed, Function.update_of_ne device] using old done

/-- The state in which the caller of a device has counted its call. -/
def System.counted (s : System) (d : Dev) : System :=
  { s with
    callCount := Function.update s.callCount d (s.callCount d + 1)
    active := Function.update s.active d (s.active d - 1) }

theorem counted_callCount_le (s : System) (d e : Dev) : s.callCount e ≤ (s.counted d).callCount e := by
  by_cases same : e = d
  · subst same
    simp [System.counted]
  · simp [System.counted, Function.update_of_ne same]

theorem leave_keeps (place : s.pc t = .leaving c) :
    Keeps dev s (((s.counted (dev c)).sync t (dev c)).goto t (.notify c)) := by
  have others : ∀ u, u ≠ t → (((s.counted (dev c)).sync t (dev c)).goto t (.notify c)).pc u = s.pc u :=
    fun u other => goto_other ((s.counted (dev c)).sync t (dev c)) _ other
  have unseen : ∀ n, n ≤ s.callCount (dev c) → n ≠ (s.counted (dev c)).callCount (dev c) := by
    simp only [System.counted, Function.update_self]
    omega
  have elsewhere : ∀ d, d ≠ dev c → (s.counted (dev c)).callCount d = s.callCount d :=
    fun d other => Function.update_of_ne other ..
  refine ⟨counted_callCount_le s (dev c), ?_, ?_, ?_⟩
  · intro a n below done old
    by_cases same : dev a = dev c
    · -- a waiting thread now finds the counts different
      exact Or.inr (Or.inr (same ▸ unseen n (same ▸ below)))
    · have leaves := exists_iff_of_other (P := fun pc => pc.leaves dev (dev a)) others
        (by simpa [place] using Ne.symm same) (by simp)
      rcases old done with event | leaving | differs
      · exact Or.inl event
      · exact Or.inr (Or.inl (leaves.mpr leaving))
      · exact Or.inr (Or.inr ((elsewhere _ same).symm ▸ differs))
  · intro d n below equal old
    have other : d ≠ dev c := by
      rintro rfl
      exact unseen n below equal
    have inside := exists_iff_of_other (P := fun pc => pc.inside dev d) others
      (by simp [place, Pc.inside, Ne.symm other]) (by simp [Pc.inside])
    exact inside.mpr (old (equal.trans (elsewhere d other)))
  · intro d n below differs woken old
    by_cases same : d = dev c
    · -- this thread is the one that will notify
      exact Or.inr ⟨t, by simp [same]⟩
    · have notifies := exists_iff_of_other (P := fun pc => pc.notifies dev d) others
        (by simp [place]) (by simpa using Ne.symm same)
      exact (old ((elsewhere d same) ▸ differs)).imp_right notifies.mpr

theorem leave_inv (inv : Inv dev s) (place : s.pc t = .leaving c) :
    Inv dev (((s.counted (dev c)).sync t (dev c)).goto t (.notify c)) := by
  have others : ∀ u, u ≠ t → (((s.counted (dev c)).sync t (dev c)).goto t (.notify c)).pc u = s.pc u :=
    fun u other => goto_other ((s.counted (dev c)).sync t (dev c)) _ other
  have within : (s.pc t).inside dev (dev c) := by simp [place, Pc.inside]
  have inside : ∀ d v, ((((s.counted (dev c)).sync t (dev c)).goto t (.notify c)).pc v).inside dev d ↔
      v ≠ t ∧ (s.pc v).inside dev d := by
    intro d v
    by_cases same : v = t
    · subst same
      simp [Pc.inside]
    · simp [others v same, same]
  refine ⟨?_, ?_, ?_, ?_, ?_⟩
  · intro d v w first second
    exact inv.one d v w ((inside d v).mp first).2 ((inside d w).mp second).2
  · intro d
    by_cases same : d = dev c
    · subst same
      -- at most one thread was inside, and it leaves
      have free : (s.counted (dev c)).active (dev c) = 0 := by
        have := inv.le (dev c)
        simp only [System.counted, Function.update_self]
        omega
      refine iff_of_true free fun v still => ?_
      obtain ⟨other, still⟩ := (inside _ v).mp still
      exact other (inv.one _ v t still within)
    · have unchanged : (s.counted (dev c)).active d = s.active d := Function.update_of_ne same ..
      have caller : ¬ (s.pc t).inside dev d := by simp [place, Pc.inside, Ne.symm same]
      refine (unchanged ▸ inv.free d).trans (forall_congr' fun v => not_congr ?_)
      rw [inside d v, iff_and_self]
      rintro still rfl
      exact caller still
  · intro d
    by_cases same : d = dev c
    · subst same
      have := inv.le (dev c)
      simp only [System.goto, System.sync, System.counted, Function.update_self]
      omega
    · simpa [System.goto, System.sync, System.counted, Function.update_of_ne same] using inv.le d
  · apply sync_le
    exact fun u d => (inv.seen u d).trans (counted_callCount_le s (dev c) d)
  · intro v
    by_cases same : v = t
    · subst same
      simp [Obliged]
    · exact (inv.obliged v).frame (leave_keeps place) (inv.seen v) (others v same)
        (sync_threadCount_other _ _ same) (sync_synced_other _ _ same) fun a _ done old => old done

theorem wakeUp_leaves (pc : Pc) (d e : Dev) : (wakeUp dev d pc).leaves dev e ↔ pc.leaves dev e := by
  cases pc <;> simp [wakeUp]

theorem wakeUp_inside (pc : Pc) (d e : Dev) : (wakeUp dev d pc).inside dev e ↔ pc.inside dev e := by
  cases pc <;> simp [wakeUp, Pc.inside]

theorem wakeUp_notifies (pc : Pc) (d e : Dev) :
    (wakeUp dev d pc).notifies dev e ↔ pc.notifies dev e := by
  cases pc <;> simp [wakeUp]

/-- Every sleeping thread is notified. -/
def System.woken (s : System) (dev : Cmd → Dev) (d : Dev) : System :=
  { s with pc := fun u => wakeUp dev d (s.pc u) }

section

variable (inv : Inv dev s)
include inv

theorem notifyAll_inv (place : s.pc t = .notify c) :
    Inv dev ((s.woken dev (dev c)).goto t (.check c)) := by
  have others : ∀ u, u ≠ t →
      ((s.woken dev (dev c)).goto t (.check c)).pc u = (s.woken dev (dev c)).pc u :=
    fun u other => goto_other (s.woken dev (dev c)) _ other
  have before : (s.woken dev (dev c)).pc t = .notify c := by simp [System.woken, place, wakeUp]
  have inside : ∀ d v, (((s.woken dev (dev c)).goto t (.check c)).pc v).inside dev d ↔
      (s.pc v).inside dev d := by
    intro d v
    by_cases same : v = t
    · subst same
      simp [place, Pc.inside]
    · rw [others v same]
      exact wakeUp_inside ..
  have ending : ∀ d n, Ending dev s d n → Ending dev ((s.woken dev (dev c)).goto t (.check c)) d n := by
    intro d n
    have leaves := exists_iff_of_other (P := fun pc => pc.leaves dev d) others
      (by simp [before]) (by simp)
    have same : (∃ v, ((s.woken dev (dev c)).pc v).leaves dev d) ↔ ∃ v, (s.pc v).leaves dev d :=
      exists_congr fun v => wakeUp_leaves ..
    exact Or.imp_right (Or.imp_left (leaves.trans same).mpr)
  obtain ⟨one, free, le⟩ := inv.callers inside rfl
  refine ⟨one, free, le, inv.seen, ?_⟩
  intro v
  by_cases same : v = t
  · subst same
    simp [Obliged]
  have obliged := inv.obliged v
  unfold Obliged at obliged ⊢
  rw [others v same]
  cases there : s.pc v with
  | enter a =>
    rw [there] at obliged
    simp only [System.woken, there, wakeUp]
    exact fun done => ending _ _ (obliged done)
  | polling a =>
    rw [there] at obliged
    simp only [System.woken, there, wakeUp]
    exact obliged
  | blocked a woken =>
    rw [there] at obliged
    simp only [System.woken, there, wakeUp]
    obtain ⟨below, done, busy, woke⟩ := obliged
    refine ⟨below, fun now => ending _ _ (done now), fun equal => ?_, fun differs => ?_⟩
    · obtain ⟨w, within⟩ := busy equal
      exact ⟨w, (inside _ w).mpr within⟩
    · -- only the sleepers of this device are woken, and only this notifier is gone
      by_cases device : dev a = dev c
      · simp [device]
      · have notifies := exists_iff_of_other (P := fun pc => pc.notifies dev (dev a)) others
          (by simpa [before] using Ne.symm device) (by simp)
        have unmoved : (∃ w, ((s.woken dev (dev c)).pc w).notifies dev (dev a)) ↔
            ∃ w, (s.pc w).notifies dev (dev a) :=
          exists_congr fun w => wakeUp_notifies ..
        refine (woke differs).imp ?_ (notifies.trans unmoved).mpr
        rintro rfl
        simp
  | _ => simp [System.woken, there, wakeUp]

theorem driver_inv {status : Cmd → Status} {events : Dev → Nat} (more : ∀ d, s.events d ≤ events d)
    (done : ∀ a, status a = .signalled → s.status a = .signalled ∨ 0 < events (dev a)) :
    Inv dev { s with status := status, events := events } := by
  have keeps : Keeps dev s { s with status := status, events := events } := by
    refine ⟨fun d => le_rfl, ?_, fun d n _ equal old => old equal,
      fun d n _ differs woken old => old differs⟩
    intro a n _ now old
    rcases done a now with before | event
    · exact (old before).imp_left fun event => event.trans_le (more _)
    · exact Or.inl event
  refine ⟨inv.one, inv.free, inv.le, inv.seen, fun v => ?_⟩
  apply (inv.obliged v).frame keeps (inv.seen v) rfl rfl rfl
  intro a _ now old
  rcases done a now with before | event
  · exact (old before).trans_le (more _)
  · exact event

theorem mark_inv : Inv dev { s with status := Function.update s.status c .marked } := by
  apply driver_inv inv (fun d => le_rfl)
  intro a now
  by_cases same : a = c
  · subst same
    simp at now
  · exact Or.inl (by rwa [Function.update_of_ne same] at now)

theorem signal_inv : Inv dev { s with
      status := Function.update s.status c .signalled
      events := Function.update s.events (dev c) (s.events (dev c) + 1) } := by
  apply driver_inv inv
  · intro d
    by_cases same : d = dev c
    · subst same
      simp
    · simp [Function.update_of_ne same]
  · intro a now
    by_cases same : a = c
    · subst same
      simp
    · exact Or.inl (by rwa [Function.update_of_ne same] at now)

theorem enter_inv (met : UpToDate dev s (.enter t))
    (stepped : step dev s (.enter t) = some s') : Inv dev s' := by
  simp only [step] at stepped
  split at stepped
  · rename_i c place
    have before : (s.pc t).apart := by simp [place, Pc.apart]
    split at stepped
    · cases stepped
      exact sync_inv inv before (dev c)
    · -- the counts are equal: the thread waits for another one, or polls itself
      rename_i equal
      rw [not_not] at equal
      have obliged := inv.obliged t
      unfold Obliged at obliged
      rw [place] at obliged
      -- if it has seen all calls, an event or a call that is not counted is what is left
      have done : s.status c = .signalled →
          0 < s.events (dev c) ∨ ∃ v, (s.pc v).leaves dev (dev c) := by
        intro now
        rcases met c place equal now with current | left
        · rcases obliged now with event | leaving | differs
          · exact Or.inl event
          · exact Or.inr leaving
          · exact absurd current differs
        · exact left
      split at stepped
      · rename_i busy
        cases stepped
        have caller : ∃ v, (s.pc v).inside dev (dev c) := by
          by_contra none
          exact busy ((inv.free (dev c)).mpr (not_exists.mp none))
        exact blocked_inv inv before equal.le (fun now => (done now).imp_right Or.inl)
          (fun _ => caller) (fun differs => absurd equal differs)
      · rename_i free
        cases stepped
        rw [not_not] at free
        refine polling_inv inv place free fun now => (done now).resolve_right ?_
        rintro ⟨v, leaving⟩
        exact (inv.free (dev c)).mp free v (Or.inr leaving)
  · cases stepped

theorem blocked_obliged {woken : Bool} (place : s.pc t = .blocked c woken) :
    s.threadCount t ≤ s.callCount (dev c)
      ∧ (s.status c = .signalled → Ending dev s (dev c) (s.threadCount t))
      ∧ (s.threadCount t = s.callCount (dev c) → ∃ v, (s.pc v).inside dev (dev c))
      ∧ (s.threadCount t ≠ s.callCount (dev c) →
        woken = true ∨ ∃ v, (s.pc v).notifies dev (dev c)) := by
  have obliged := inv.obliged t
  unfold Obliged at obliged
  rwa [place] at obliged

end

theorem step_inv {e : Event} (inv : Inv dev s) (met : UpToDate dev s e)
    (stepped : step dev s e = some s') : Inv dev s' := by
  cases e with
  | enter t => exact enter_inv inv met stepped
  | wait t c =>
    simp only [step] at stepped
    split at stepped
    · rename_i idle
      cases stepped
      exact wait_inv inv idle
    · cases stepped
  | check t =>
    simp only [step] at stepped
    split at stepped
    · rename_i c place
      split at stepped
      · rename_i running
        cases stepped
        exact check_inv inv place (Or.inr ⟨running, rfl⟩)
      · cases stepped
        exact check_inv inv place (Or.inl rfl)
    · cases stepped
  | spurious t =>
    simp only [step] at stepped
    split at stepped
    · rename_i c woken place
      cases stepped
      obtain ⟨below, done, busy, -⟩ := blocked_obliged inv place
      exact blocked_inv inv (by simp [place, Pc.apart]) below done busy fun _ => Or.inl rfl
    · cases stepped
  | resume t =>
    simp only [step] at stepped
    split at stepped
    · rename_i c place
      have before : (s.pc t).apart := by simp [place, Pc.apart]
      obtain ⟨below, done, busy, -⟩ := blocked_obliged inv place
      split at stepped
      · cases stepped
        exact sync_inv inv before (dev c)
      · -- a spurious wakeup: back to sleep
        rename_i equal
        cases stepped
        exact blocked_inv inv before below done busy fun differs => absurd differs equal
    · cases stepped
  | poll t =>
    simp only [step] at stepped
    split at stepped
    · rename_i c place
      split at stepped
      · cases stepped
        exact poll_inv inv place
      · cases stepped
    · cases stepped
  | leave t =>
    simp only [step] at stepped
    split at stepped
    · rename_i c place
      cases stepped
      exact leave_inv inv place
    · cases stepped
  | notifyAll t =>
    simp only [step] at stepped
    split at stepped
    · rename_i c place
      cases stepped
      exact notifyAll_inv inv place
    · cases stepped
  | mark c =>
    simp only [step] at stepped
    split at stepped
    · cases stepped
      exact mark_inv inv
    · cases stepped
  | signal c =>
    simp only [step] at stepped
    split at stepped
    · cases stepped
      exact signal_inv inv
    · cases stepped

end Xrt.KdsDevice
