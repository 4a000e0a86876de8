import Mathlib.Data.List.Forall2

/-!
# Runs of a step function

A component is given by a partial step function `step : σ → ε → Option σ`. The events
of a run resolve every choice that the component does not make itself: which thread
moves, what the hardware answers, which allocation fails. `none` means that the event
is not possible in that state.
-/
namespace Xrt.Lib

variable {σ ε : Type*} {step : σ → ε → Option σ}

/-- The state after the events of a run, in order. -/
def run (step : σ → ε → Option σ) (s : σ) (events : List ε) : Option σ :=
  events.foldlM step s

@[simp] theorem run_nil (s : σ) : run step s [] = some s := rfl

theorem run_cons (s : σ) (e : ε) (es : List ε) :
    run step s (e :: es) = (step s e).bind fun t => run step t es := rfl

theorem run_append (s : σ) (es more : List ε) :
    run step s (es ++ more) = (run step s es).bind fun t => run step t more :=
  List.foldlM_append ..

theorem run_cons_iff (s t : σ) (e : ε) (es : List ε) :
    run step s (e :: es) = some t ↔ ∃ mid, step s e = some mid ∧ run step mid es = some t := by
  rw [run_cons, Option.bind_eq_some_iff]

/-- The step function of a component that says apart when an event is possible and what it does. -/
def guarded (Enabled : σ → ε → Prop) [∀ s e, Decidable (Enabled s e)] (next : σ → ε → σ) (s : σ)
    (e : ε) : Option σ :=
  if Enabled s e then some (next s e) else none

variable {s t : σ} {P Good : σ → Prop} {es : List ε} {C : σ → ε → Prop}

theorem guarded_eq_some_iff {Enabled : σ → ε → Prop} [∀ s e, Decidable (Enabled s e)]
    {next : σ → ε → σ} {e : ε} :
    guarded Enabled next s e = some t ↔ Enabled s e ∧ next s e = t := by
  unfold guarded
  split_ifs with enabled <;> simp [enabled]

/-- What one step preserves, a whole run preserves. -/
theorem run_invariant (preserved : ∀ s e t, P s → step s e = some t → P t)
    (initial : P s) (ran : run step s es = some t) : P t := by
  induction es generalizing s with
  | nil =>
    cases ran
    exact initial
  | cons e es ih =>
    obtain ⟨mid, first, rest⟩ := (run_cons_iff s t e es).mp ran
    exact ih (preserved s e mid initial first) rest

/-- Every step of the run meets `C`, a condition on the event and the state before it. -/
def Along (step : σ → ε → Option σ) (C : σ → ε → Prop) : σ → List ε → Prop
  | _, [] => True
  | s, e :: es => C s e ∧ ∀ t, step s e = some t → Along step C t es

theorem along_cons {e : ε} (first : step s e = some t) (met : C s e) (rest : Along step C t es) :
    Along step C s (e :: es) := by
  refine ⟨met, fun t' first' => ?_⟩
  cases first.symm.trans first'
  exact rest

theorem run_invariant_along (preserved : ∀ s e t, P s → C s e → step s e = some t → P t)
    (initial : P s) (along : Along step C s es)
    (ran : run step s es = some t) : P t := by
  induction es generalizing s with
  | nil =>
    cases ran
    exact initial
  | cons e es ih =>
    obtain ⟨mid, first, rest⟩ := (run_cons_iff s t e es).mp ran
    exact ih (preserved s e mid initial along.1 first) (along.2 mid first) rest

theorem run_isSome_iff_along (preserved : ∀ s e t, P s → step s e = some t → P t)
    (possible : ∀ s e, P s → ((step s e).isSome ↔ C s e)) (initial : P s)
    (es : List ε) : (run step s es).isSome ↔ Along step C s es := by
  induction es generalizing s with
  | nil => exact iff_of_true rfl trivial
  | cons e es ih =>
    rw [run_cons]
    cases first : step s e with
    | none =>
      have unmet : ¬ C s e := fun met => by
        have isSome := (possible s e initial).mpr met
        simp [first] at isSome
      exact iff_of_false Bool.false_ne_true fun along => unmet along.1
    | some mid =>
      have met : C s e := (possible s e initial).mp (by rw [first]; rfl)
      refine (ih (preserved s e mid initial first)).trans ⟨?_, ?_⟩
      · exact along_cons first met
      · exact fun along => along.2 mid first

/-- A condition that decides a property exactly. While all steps meet `C` the invariant
holds, and with it `Good`; the first step that fails `C` destroys `Good` for ever. -/
theorem run_good_iff_along (preserved : ∀ s e t, P s → C s e → step s e = some t → P t)
    (good : ∀ s, P s → Good s)
    (breaks : ∀ s e t, P s → ¬ C s e → step s e = some t → ¬ Good t)
    (persists : ∀ s e t, ¬ Good s → step s e = some t → ¬ Good t)
    (initial : P s) (ran : run step s es = some t) :
    Good t ↔ Along step C s es := by
  induction es generalizing s with
  | nil =>
    cases ran
    exact iff_of_true (good _ initial) trivial
  | cons e es ih =>
    obtain ⟨mid, first, rest⟩ := (run_cons_iff s t e es).mp ran
    by_cases met : C s e
    · refine (ih (preserved s e mid initial met first) rest).trans ⟨?_, ?_⟩
      · exact along_cons first met
      · exact fun along => along.2 mid first
    · refine iff_of_false ?_ (fun along => met along.1)
      exact run_invariant (P := fun s => ¬ Good s) persists (breaks s e mid initial met first) rest

/-- A property that a step keeps exactly if it meets `C`, and that no step restores, holds in the end
exactly if all steps meet `C`. -/
theorem run_good_iff_of_exact (preserved : ∀ s e t, P s → step s e = some t → P t)
    (exact : ∀ s e t, P s → step s e = some t → (Good t ↔ Good s ∧ C s e))
    (initial : P s) (ran : run step s es = some t) :
    Good t ↔ Good s ∧ Along step C s es := by
  induction es generalizing s with
  | nil =>
    cases ran
    exact (and_iff_left trivial).symm
  | cons e es ih =>
    obtain ⟨mid, first, rest⟩ := (run_cons_iff s t e es).mp ran
    rw [ih (preserved s e mid initial first) rest, exact s e mid initial first, and_assoc]
    refine and_congr_right fun _ => ⟨?_, ?_⟩
    · exact fun ⟨met, along⟩ => along_cons first met along
    · exact fun along => ⟨along.1, along.2 mid first⟩

/-- Every state of the run has the property. -/
def Always (step : σ → ε → Option σ) (Good : σ → Prop) : σ → List ε → Prop
  | s, [] => Good s
  | s, e :: es => Good s ∧ ∀ t, step s e = some t → Always step Good t es

theorem Always.head (always : Always step Good s es) : Good s := by
  cases es with
  | nil => exact always
  | cons e es => exact always.1

/-- Events that are allowed keep an invariant, and each of them decides on its own whether a property
goes on to hold. -/
theorem run_good_iff_forall {Allowed C : ε → Prop}
    (preserved : ∀ s e t, P s → Allowed e → step s e = some t → P t)
    (exact : ∀ s e t, P s → Allowed e → step s e = some t → (Good t ↔ Good s ∧ C e))
    (initial : P s) (allowed : ∀ e ∈ es, Allowed e)
    (ran : run step s es = some t) : P t ∧ (Good t ↔ Good s ∧ ∀ e ∈ es, C e) := by
  induction es generalizing s with
  | nil =>
    cases ran
    exact ⟨initial, by simp⟩
  | cons e es ih =>
    obtain ⟨mid, first, rest⟩ := (run_cons_iff s t e es).mp ran
    obtain ⟨here, later⟩ := List.forall_mem_cons.mp allowed
    obtain ⟨inv, iff⟩ := ih (preserved s e mid initial here first) later rest
    refine ⟨inv, ?_⟩
    rw [iff, exact s e mid initial here first, List.forall_mem_cons, and_assoc]

theorem always_of_invariant
    (preserved : ∀ s e t, P s → step s e = some t → P t) (good : ∀ s, P s → Good s)
    (initial : P s) (es : List ε) : Always step Good s es := by
  induction es generalizing s with
  | nil => exact good s initial
  | cons e es ih => exact ⟨good s initial, fun t first => ih (preserved s e t initial first)⟩

/-- A condition that keeps the invariant in every state of a run. -/
theorem always_of_along
    (preserved : ∀ s e t, P s → C s e → step s e = some t → P t) (good : ∀ s, P s → Good s)
    (initial : P s) (along : Along step C s es) : Always step Good s es := by
  induction es generalizing s with
  | nil => exact good s initial
  | cons e es ih =>
    exact ⟨good s initial, fun t first => ih (preserved s e t initial along.1 first) (along.2 t first)⟩

/-- A condition that decides exactly whether a property holds in every state of a run: it keeps the
invariant, and the first step that fails it ends in a state without the property. -/
theorem always_iff_along (preserved : ∀ s e t, P s → C s e → step s e = some t → P t)
    (good : ∀ s, P s → Good s)
    (breaks : ∀ s e t, P s → ¬ C s e → step s e = some t → ¬ Good t)
    (initial : P s) (ran : run step s es = some t) :
    Always step Good s es ↔ Along step C s es := by
  induction es generalizing s with
  | nil => exact iff_of_true (good s initial) trivial
  | cons e es ih =>
    obtain ⟨mid, first, rest⟩ := (run_cons_iff s t e es).mp ran
    by_cases met : C s e
    · have later := ih (preserved s e mid initial met first) rest
      constructor
      · exact fun always => along_cons first met (later.mp (always.2 mid first))
      · intro along
        refine ⟨good s initial, fun t' first' => ?_⟩
        cases first.symm.trans first'
        exact later.mpr (along.2 mid first)
    · refine iff_of_false (fun always => ?_) (fun along => met along.1)
      exact breaks s e mid initial met first (always.2 mid first).head

/-- A condition that decides exactly whether a property holds in every state of a run and another
one at every step: where the condition fails first, the step fails the one or is made and leads to a
state that fails the other. -/
theorem always_along_iff {Right : σ → ε → Prop}
    (preserved : ∀ s e t, P s → C s e → step s e = some t → P t) (good : ∀ s, P s → Good s)
    (right : ∀ s e, P s → C s e → Right s e)
    (breaks : ∀ s e, P s → ¬ C s e → ¬ Right s e ∨ ∃ t, step s e = some t ∧ ¬ Good t)
    (initial : P s) (es : List ε) :
    (Always step Good s es ∧ Along step Right s es) ↔ Along step C s es := by
  induction es generalizing s with
  | nil => exact iff_of_true ⟨good s initial, trivial⟩ trivial
  | cons e es ih =>
    constructor
    · rintro ⟨always, along⟩
      by_cases met : C s e
      · refine ⟨met, fun t first => ?_⟩
        exact (ih (preserved s e t initial met first)).mp ⟨always.2 t first, along.2 t first⟩
      · rcases breaks s e initial met with wrong | ⟨t, first, bad⟩
        · exact absurd along.1 wrong
        · exact absurd (always.2 t first).head bad
    · intro along
      have later := fun t first => (ih (preserved s e t initial along.1 first)).mpr (along.2 t first)
      exact ⟨⟨good s initial, fun t first => (later t first).1⟩,
        right s e initial along.1, fun t first => (later t first).2⟩

theorem along_true (s : σ) (es : List ε) : Along step (fun _ _ => True) s es := by
  induction es generalizing s with
  | nil => trivial
  | cons e es ih => exact ⟨trivial, fun t _ => ih t⟩

/-- A condition that decides exactly whether a property holds in every state of a run, where steps
that fail it are made. -/
theorem always_iff_along_of_made
    (preserved : ∀ s e t, P s → C s e → step s e = some t → P t) (good : ∀ s, P s → Good s)
    (breaks : ∀ s e, P s → ¬ C s e → ∃ t, step s e = some t ∧ ¬ Good t)
    (initial : P s) (es : List ε) : Always step Good s es ↔ Along step C s es := by
  rw [← always_along_iff preserved good (fun _ _ _ _ => trivial)
    (fun s e inv failed => Or.inr (breaks s e inv failed)) initial es]
  exact (and_iff_left (along_true s es)).symm

/-- A condition that keeps an invariant, and with it implies another condition. -/
theorem along_of_along {D : σ → ε → Prop}
    (preserved : ∀ s e t, P s → C s e → step s e = some t → P t)
    (implies : ∀ s e, P s → C s e → D s e) (initial : P s)
    (along : Along step C s es) : Along step D s es := by
  induction es generalizing s with
  | nil => trivial
  | cons e es ih =>
    refine ⟨implies s e initial along.1, fun t first => ?_⟩
    exact ih (preserved s e t initial along.1 first) (along.2 t first)

/-- Two conditions that decide each other, as long as one of them has been met so far, are
met along the same runs. -/
theorem along_iff_along {D : σ → ε → Prop}
    (preserved : ∀ s e t, P s → C s e → step s e = some t → P t)
    (same : ∀ s e, P s → (D s e ↔ C s e)) (initial : P s) (es : List ε) :
    Along step D s es ↔ Along step C s es := by
  constructor
  · exact along_of_along (fun s e t inv met => preserved s e t inv ((same s e inv).mp met))
      (fun s e inv => (same s e inv).mp) initial
  · exact along_of_along preserved (fun s e inv => (same s e inv).mpr) initial

/-! ### Computations that may fail -/

theorem ok_bind {φ α β : Type} (a : α) (rest : α → Except φ β) : Except.ok a >>= rest = rest a :=
  rfl

theorem error_bind {φ α β : Type} (e : φ) (rest : α → Except φ β) :
    Except.error e >>= rest = .error e :=
  rfl

theorem ok_of_bind_ok {φ α β : Type} {first : Except φ α} {rest : α → Except φ β} {result : β}
    (returned : (do let value ← first; rest value) = .ok result) :
    ∃ value, first = .ok value ∧ rest value = .ok result := by
  cases first with
  | error fault => cases returned
  | ok value => exact ⟨value, rfl, returned⟩

section Loops

variable {φ α β σ : Type} {f : α → Except φ β} {as : List α} {bs : List β}

theorem mapM_eq_ok_iff : as.mapM f = .ok bs ↔ List.Forall₂ (fun a b => f a = .ok b) as bs := by
  induction as generalizing bs with
  | nil =>
    rw [List.forall₂_nil_left_iff]
    exact ⟨fun ok => (Except.ok.inj ok).symm, fun none => none ▸ rfl⟩
  | cons a as ih =>
    rw [List.mapM_cons, List.forall₂_cons_left_iff]
    constructor
    · intro ok
      obtain ⟨b, first, rest⟩ := ok_of_bind_ok ok
      obtain ⟨bs, others, made⟩ := ok_of_bind_ok rest
      cases made
      exact ⟨b, bs, first, ih.mp others, rfl⟩
    · rintro ⟨b, bs, first, others, rfl⟩
      rw [first, ok_bind, ih.mpr others]
      rfl

theorem getElem?_of_mapM_ok {i : Nat} {a : α} (ok : as.mapM f = .ok bs) (here : as[i]? = some a) :
    ∃ b, bs[i]? = some b ∧ f a = .ok b := by
  induction mapM_eq_ok_iff.mp ok generalizing i with
  | nil => simp at here
  | @cons _ b _ _ first others ih =>
    cases i with
    | zero =>
      cases here
      exact ⟨b, rfl, first⟩
    | succ i => exact ih (mapM_eq_ok_iff.mpr others) here

theorem exists_mem_of_mapM_error {e : φ} (failed : as.mapM f = .error e) : ∃ a ∈ as, f a = .error e := by
  induction as with
  | nil => cases failed
  | cons a as ih =>
    rw [List.mapM_cons] at failed
    cases first : f a with
    | error fault =>
      rw [first, error_bind] at failed
      cases failed
      exact ⟨a, List.mem_cons_self, first⟩
    | ok b =>
      rw [first, ok_bind] at failed
      cases others : as.mapM f with
      | error fault =>
        rw [others, error_bind] at failed
        cases failed
        obtain ⟨later, member, fails⟩ := ih others
        exact ⟨later, List.mem_cons_of_mem a member, fails⟩
      | ok bs =>
        rw [others, ok_bind] at failed
        cases failed

theorem forall_mem_of_mapM_ok {P : β → Prop} (ok : as.mapM f = .ok bs)
    (each : ∀ a b, f a = .ok b → P b) : ∀ b ∈ bs, P b := by
  induction mapM_eq_ok_iff.mp ok with
  | nil => simp
  | cons first others ih =>
    rw [List.forall_mem_cons]
    exact ⟨each _ _ first, ih (mapM_eq_ok_iff.mpr others)⟩

/-- A loop that may fail in every round, and otherwise folds in what the round has found. -/
theorem loop_ok_iff {g : σ → β → σ} {loop : List α → σ → Except φ σ}
    (stop : ∀ s, loop [] s = .ok s)
    (next : ∀ a as s, loop (a :: as) s = f a >>= fun b => loop as (g s b)) {s r : σ} :
    loop as s = .ok r ↔ ∃ bs, as.mapM f = .ok bs ∧ bs.foldl g s = r := by
  simp only [mapM_eq_ok_iff]
  induction as generalizing s with
  | nil => simp [stop]
  | cons a as ih =>
    rw [next]
    constructor
    · intro ok
      obtain ⟨b, first, rest⟩ := ok_of_bind_ok ok
      obtain ⟨bs, others, made⟩ := ih.mp rest
      exact ⟨b :: bs, .cons first others, made⟩
    · rintro ⟨_, found, made⟩
      cases found with
      | cons first others =>
        rw [first, ok_bind]
        exact ih.mpr ⟨_, others, made⟩

end Loops

end Xrt.Lib
