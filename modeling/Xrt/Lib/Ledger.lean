import Mathlib.Data.List.Basic

/-!
# Ledgers of acquired and released resources

A program that takes and gives back resources leaves a ledger. Replaying it tells which
resources are still held, and fails at the first release of something that is not held:
a second release, or one without an acquisition.
-/
namespace Xrt.Lib

inductive Entry (ρ : Type*) where
  | acquire (r : ρ)
  | release (r : ρ)
  deriving DecidableEq, Repr

variable {ρ : Type*} [DecidableEq ρ]

/-- The resources held after a ledger, when `held` are held before it. -/
def replay (held : List ρ) : List (Entry ρ) → Option (List ρ)
  | [] => some held
  | .acquire r :: log => replay (r :: held) log
  | .release r :: log => if r ∈ held then replay (held.erase r) log else none

theorem replay_append (held : List ρ) (log log' : List (Entry ρ)) :
    replay held (log ++ log') = (replay held log).bind (replay · log') := by
  induction log generalizing held with
  | nil => rfl
  | cons entry log ih =>
    cases entry with
    | acquire r => exact ih (r :: held)
    | release r =>
      by_cases member : r ∈ held
      · simp only [List.cons_append, replay, if_pos member]
        exact ih (held.erase r)
      · simp [replay, member]

/-- The same for mutexes: one that is held cannot be acquired again. -/
def replayLocks (held : List ρ) : List (Entry ρ) → Option (List ρ)
  | [] => some held
  | .acquire r :: log => if r ∈ held then none else replayLocks (r :: held) log
  | .release r :: log => if r ∈ held then replayLocks (held.erase r) log else none

theorem replayLocks_append (held : List ρ) (log log' : List (Entry ρ)) :
    replayLocks held (log ++ log') = (replayLocks held log).bind (replayLocks · log') := by
  induction log generalizing held with
  | nil => rfl
  | cons entry log ih =>
    cases entry with
    | acquire r =>
      by_cases member : r ∈ held
      · simp [replayLocks, member]
      · simp only [List.cons_append, replayLocks, if_neg member]
        exact ih (r :: held)
    | release r =>
      by_cases member : r ∈ held
      · simp only [List.cons_append, replayLocks, if_pos member]
        exact ih (held.erase r)
      · simp [replayLocks, member]

/-- Everything acquired has been released, nothing twice. -/
def Settled (log : List (Entry ρ)) : Prop := replay [] log = some []

theorem replay_acquires (held rs : List ρ) :
    replay held (rs.map .acquire) = some (rs.reverse ++ held) := by
  induction rs generalizing held with
  | nil => rfl
  | cons r rs ih => simpa [replay] using ih (r :: held)

theorem replay_releases_iff {held rs : List ρ} :
    replay held (rs.map .release) = some [] ↔ rs.Perm held := by
  induction rs generalizing held with
  | nil => simp [replay, List.nil_perm]
  | cons r rs ih =>
    rw [List.map_cons, replay, List.cons_perm_iff_perm_erase, ← ih]
    split_ifs with member <;> simp [member]

/-- A program that releases only at its end has to release what it acquired, in any order. -/
theorem settled_acquires_releases_iff {as rs : List ρ} :
    Settled (as.map .acquire ++ rs.map .release) ↔ rs.Perm as := by
  rw [Settled, replay_append, replay_acquires, Option.bind_some, replay_releases_iff, List.append_nil]
  exact ⟨fun perm => perm.trans as.reverse_perm, fun perm => perm.trans as.reverse_perm.symm⟩

theorem replay_count {held rest : List ρ} {log : List (Entry ρ)}
    (replayed : replay held log = some rest) (r : ρ) :
    rest.count r + log.count (.release r) = held.count r + log.count (.acquire r) := by
  induction log generalizing held with
  | nil =>
    cases replayed
    simp
  | cons entry log ih =>
    cases entry with
    | acquire s =>
      have later := ih replayed
      by_cases same : s = r
      · subst same
        simp at later ⊢
        omega
      · simp [same] at later ⊢
        omega
    | release s =>
      rw [replay] at replayed
      split at replayed
      next member =>
        have later := ih replayed
        by_cases same : s = r
        · subst same
          have positive := List.count_pos_iff.mpr member
          simp at later ⊢
          omega
        · simp [same] at later ⊢
          rw [List.count_erase_of_ne (Ne.symm same)] at later
          exact later
      · cases replayed

theorem Settled.count_eq {log : List (Entry ρ)} (settled : Settled log) (r : ρ) :
    log.count (.release r) = log.count (.acquire r) := by
  simpa using replay_count settled r

end Xrt.Lib
