import Xrt.Lib.Bytes

/-!
# Readers

A reader takes a value from the front of its input, or throws. `Reads` says that a reader takes
certain bytes, whatever follows them, and composes along the readers.
-/
namespace Xrt.Lib

variable {σ ε α β : Type}

/-- A value from the front of a list, and what is left of the list. -/
abbrev Reader (σ ε α : Type) := List σ → Except ε (α × List σ)

/-- The reader takes exactly these bytes and returns this value. -/
def Reads (read : Reader σ ε α) (bytes : List σ) (value : α) : Prop :=
  ∀ rest, read (bytes ++ rest) = .ok (value, rest)

namespace Reader

instance : Monad (Reader σ ε) where
  pure value := fun input => .ok (value, input)
  bind read next := fun input =>
    match read input with
    | .ok (value, rest) => next value rest
    | .error fault => .error fault

def fail (fault : ε) : Reader σ ε α := fun _ => .error fault

def times (read : Reader σ ε α) : Nat → Reader σ ε (List α)
  | 0 => pure []
  | count + 1 => do
    let first ← read
    let rest ← times read count
    pure (first :: rest)

/-- As many elements as told, or the end is met. -/
def take (atEnd : ε) (count : Nat) : Reader σ ε (List σ) := fun input =>
  if count ≤ input.length then .ok (input.take count, input.drop count) else .error atEnd

end Reader

variable {read : Reader σ ε α} {next : α → Reader σ ε β} {first second : List σ} {a : α} {b : β}

theorem reads_pure (a : α) : Reads (pure a : Reader σ ε α) [] a := fun _ => rfl

theorem Reads.bind (one : Reads read first a) (two : Reads (next a) second b) :
    Reads (read >>= next) (first ++ second) b := by
  intro rest
  have taken := one (second ++ rest)
  rw [List.append_assoc]
  simp only [Bind.bind, taken]
  exact two rest

theorem Reads.map (f : α → β) (one : Reads read first a) :
    Reads (do let value ← read; pure (f value)) first (f a) := by
  have both : Reads (read >>= fun value => (pure (f value) : Reader σ ε β)) (first ++ []) (f a) :=
    one.bind (reads_pure (f a))
  rwa [List.append_nil] at both

theorem reads_take (atEnd : ε) (bytes : List σ) : Reads (Reader.take atEnd bytes.length) bytes bytes := by
  intro rest
  simp [Reader.take]

theorem Reads.times_cons {as : List α} {count : Nat} (one : Reads read first a)
    (others : Reads (read.times count) second as) :
    Reads (read.times (count + 1)) (first ++ second) (a :: as) :=
  one.bind (others.map (a :: ·))

end Xrt.Lib
