import Xrt.HwQueue.Waiting

/-!
# Who is stranded in `exec_wait`

Threads that use one device are never stranded. With several devices a thread is, exactly when the
count that it brought from another device happens to be the one of the device it waits for.
-/
namespace Xrt.KdsDevice

open Lib

variable {dev : Cmd → Dev} {s s' t : System} {es : List Event}

/-- A thread that waits for a completed command will return: the caller of the device still has an
event, the caller has still to count its call, or the counts differ and the thread is told so. -/
def Served (dev : Cmd → Dev) (s : System) (t : Thread) : Prop :=
  match s.pc t with
  | .blocked c woken => s.status c = .signalled →
    (0 < s.events (dev c) ∧ ∃ v, (s.pc v).polls dev (dev c))
      ∨ (∃ v, (s.pc v).leaves dev (dev c))
      ∨ s.threadCount t ≠ s.callCount (dev c)
        ∧ (woken = true ∨ ∃ v, (s.pc v).notifies dev (dev c))
  | .polling c => s.status c = .signalled → 0 < s.events (dev c)
  | _ => True

theorem Inv.served (inv : Inv dev s) (t : Thread) : Served dev s t := by
  unfold Served
  cases place : s.pc t with
  | polling c =>
    have obliged := inv.obliged t
    unfold Obliged at obliged
    rwa [place] at obliged
  | blocked c woken =>
    intro now
    obtain ⟨-, done, busy, woke⟩ := blocked_obliged inv place
    by_cases equal : s.threadCount t = s.callCount (dev c)
    · obtain ⟨v, polls | leaves⟩ := busy equal
      · rcases done now with event | leaving | differs
        · exact Or.inl ⟨event, v, polls⟩
        · exact Or.inr (Or.inl leaving)
        · exact absurd equal differs
      · exact Or.inr (Or.inl ⟨v, leaves⟩)
    · exact Or.inr (Or.inr ⟨equal, woke equal⟩)
  | _ => trivial

/-! ### One device -/

theorem step_own {d : Dev} {e : Event} (own : ∀ t, s.threadCount t = s.synced t d)
    (stepped : step (fun _ => d) s e = some s') : ∀ t, s'.threadCount t = s'.synced t d := by
  have synced : ∀ (s : System) (t : Thread), (∀ u, s.threadCount u = s.synced u d) →
      ∀ u, (s.sync t d).threadCount u = (s.sync t d).synced u d := by
    intro s t own u
    by_cases same : u = t
    · subst same
      simp [System.sync]
    · simpa [System.sync, Function.update_of_ne same] using own u
  cases e <;> simp only [step] at stepped <;> repeat' split at stepped
  all_goals first
    | cases stepped; exact own
    | cases stepped; exact synced _ _ own
    | cases stepped

theorem upToDate_of_own {d : Dev} (own : ∀ t, s.threadCount t = s.synced t d) (e : Event) :
    UpToDate (fun _ => d) s e := by
  cases e with
  | enter t => exact fun c _ equal _ => Or.inl ((own t).symm.trans equal)
  | _ => trivial

theorem one_device_inv {d : Dev} (ran : run (step fun _ => d) .initial es = some s) :
    Inv (fun _ => d) s ∧ ∀ t, s.threadCount t = s.synced t d := by
  refine run_invariant (P := fun s => Inv (fun _ => d) s ∧ ∀ t, s.threadCount t = s.synced t d)
    ?_ ⟨initial_inv _, fun _ => rfl⟩ ran
  rintro s e s' ⟨inv, own⟩ stepped
  exact ⟨step_inv inv (upToDate_of_own own e) stepped, step_own own stepped⟩

/-- Among threads that use one device there is one caller at a time, and no thread with a completed
command goes to sleep, or sleeps, or calls the device, without something that ends its wait. -/
theorem shared_exec_wait_serves (d : Dev) (es : List Event)
    (ran : run (step fun _ => d) .initial es = some s) :
    (∀ t u, (s.pc t).inside (fun _ => d) d → (s.pc u).inside (fun _ => d) d → t = u)
      ∧ (∀ t c, s.pc t = .enter c → s.status c = .signalled →
        Ending (fun _ => d) s d (s.threadCount t))
      ∧ ∀ t, Served (fun _ => d) s t := by
  obtain ⟨inv, own⟩ := one_device_inv ran
  refine ⟨inv.one d, ?_, inv.served⟩
  intro t c place done
  have obliged := inv.obliged t
  unfold Obliged at obliged
  rw [place] at obliged
  rw [own t]
  exact obliged done

/-- The event of command 0 is consumed by the thread that waits for command 1, while thread 0 is
about to enter `exec_wait`. -/
def sharedRun : List Event :=
  [.wait 0 0, .wait 1 1, .check 0, .check 1, .enter 1, .mark 0, .signal 0, .poll 1, .enter 0,
    .leave 1, .notifyAll 1]

theorem shared_exec_wait_serves_sharedRun :
    ∃ s, run (step fun _ => 0) .initial sharedRun = some s ∧ s.pc 0 = .blocked 0 true
      ∧ s.status 0 = .signalled ∧ s.events 0 = 0 ∧ Served (fun _ => 0) s 0 :=
  ⟨_, rfl, rfl, rfl, rfl, (shared_exec_wait_serves 0 sharedRun rfl).2.2 0⟩

/-! ### Several devices -/

/-- A thread that takes the count of another device for the one of this device, with its command
completed and nothing left of the completion, is stranded. -/
theorem stale_stranded {e : Event} (stale : ¬ UpToDate dev s e)
    (stepped : step dev s e = some s') : ¬ ∀ t, Served dev s' t := by
  cases e with
  | enter t =>
    simp only [UpToDate, not_forall, not_or] at stale
    obtain ⟨c, place, equal, done, -, gone, left⟩ := stale
    simp only [step, place, ne_eq, equal, not_true_eq_false, if_false] at stepped
    intro all
    have served := all t
    unfold Served at served
    split at stepped
    · cases stepped
      have others : ∀ u, u ≠ t → (s.goto t (.blocked c false)).pc u = s.pc u :=
        fun u other => goto_other s _ other
      have leaves := exists_iff_of_other (P := fun pc => pc.leaves dev (dev c)) others
        (by simp [place]) (by simp)
      rw [goto_self] at served
      rcases served done with ⟨event, -⟩ | leaving | ⟨differs, -⟩
      · exact gone event
      · exact left (leaves.mp leaving)
      · exact differs equal
    · cases stepped
      simp only [goto_self] at served
      exact gone (served done)
  | _ => exact absurd trivial stale

/-- In a run of threads that wait for commands of several devices no thread is ever stranded if and
only if every thread that enters `exec_wait` is up to date with the device. -/
theorem several_devices_serve_iff (dev : Cmd → Dev) (es : List Event)
    (ran : run (step dev) .initial es = some t) :
    Always (step dev) (fun s => ∀ t, Served dev s t) .initial es
      ↔ Along (step dev) (UpToDate dev) .initial es := by
  apply always_iff_along (P := Inv dev) _ _ _ (initial_inv dev) ran
  · exact fun s e s' inv met stepped => step_inv inv met stepped
  · exact fun s inv => inv.served
  · exact fun s e s' _ stale stepped => stale_stranded stale stepped

def twoDevices : Cmd → Dev
  | 0 => 0
  | _ => 1

/-- Thread 1 waits for a command of each device, one after the other. -/
def alternatingRun : List Event :=
  [.wait 1 0, .check 1, .enter 1, .mark 0, .signal 0, .poll 1, .leave 1, .notifyAll 1, .check 1,
    .wait 1 1, .check 1, .enter 1, .check 1]

theorem several_devices_serve_iff_alternatingRun :
    ∃ s, run (step twoDevices) .initial alternatingRun = some s
      ∧ Always (step twoDevices) (fun s => ∀ t, Served twoDevices s t) .initial alternatingRun := by
  refine ⟨_, rfl, (several_devices_serve_iff twoDevices alternatingRun rfl).mpr ?_⟩
  refine along_cons rfl trivial (along_cons rfl trivial (along_cons rfl ?_
    (along_cons rfl trivial (along_cons rfl trivial (along_cons rfl trivial
      (along_cons rfl trivial (along_cons rfl trivial (along_cons rfl trivial
        (along_cons rfl trivial (along_cons rfl trivial (along_cons rfl ?_
          (along_cons rfl trivial trivial))))))))))))
  -- both times the command has not completed when its thread enters
  · rintro c place - done
    cases done
  · rintro c place - done
    cases place
    cases done

/-- Thread 1 brings the count 1 from device 0. The call of thread 2 on device 1 consumes the event of
command 1 and makes the count there 1 as well. -/
def coincidentRun : List Event :=
  [.wait 1 0, .check 1, .enter 1, .mark 0, .signal 0, .poll 1, .leave 1, .notifyAll 1, .check 1,
    .wait 1 1, .check 1, .wait 2 2, .check 2, .enter 2, .mark 1, .signal 1, .poll 2, .leave 2,
    .notifyAll 2, .enter 1]

/-- Thread 1 calls the device for its completed command, and no event is left. -/
theorem alternating_thread_stranded :
    ∃ s, run (step twoDevices) .initial coincidentRun = some s ∧ s.pc 1 = .polling 1
      ∧ s.status 1 = .signalled ∧ s.events 1 = 0 ∧ ¬ Served twoDevices s 1 :=
  ⟨_, rfl, rfl, rfl, rfl, fun served => absurd (served rfl) (by decide)⟩

end Xrt.KdsDevice
