import Mathlib.Data.Nat.Digits.Defs
import Xrt.Lib.Bytes

/-!
# Texts

Strings of bytes, the texts of literals and of numbers, and texts that are joined with a separator.
-/
namespace Xrt.Lib

abbrev Text := List Byte

def ascii (s : String) : Text := s.toList.map fun c => BitVec.ofNat 8 c.toNat

def contains (text part : Text) : Bool := text.tails.any part.isPrefixOf

def decimal (n : Nat) : Text :=
  match Nat.digits 10 n with
  | [] => [0x30]
  | digits => digits.reverse.map fun d => BitVec.ofNat 8 (0x30 + d)

theorem decimal_of_pos {n : Nat} (pos : n ≠ 0) :
    decimal n = (Nat.digits 10 n).reverse.map fun d => BitVec.ofNat 8 (0x30 + d) := by
  unfold decimal
  split
  · next none => exact absurd (Nat.digits_eq_nil_iff_eq_zero.mp none) pos
  · rfl

theorem decimal_zero : decimal 0 = [0x30] := by
  simp [decimal]

theorem mem_decimal {n : Nat} {b : Byte} (member : b ∈ decimal n) :
    ∃ d < 10, b = BitVec.ofNat 8 (0x30 + d) := by
  by_cases zero : n = 0
  · rw [zero, decimal_zero, List.mem_singleton] at member
    exact ⟨0, by decide, member⟩
  · rw [decimal_of_pos zero, List.mem_map] at member
    obtain ⟨d, inside, rfl⟩ := member
    exact ⟨d, Nat.digits_lt_base (by decide) (List.mem_reverse.mp inside), rfl⟩

theorem decimal_ne_of_pos {n : Nat} (pos : n ≠ 0) : decimal n ≠ decimal 0 := by
  intro same
  rw [decimal_of_pos pos, decimal_zero, List.map_eq_singleton_iff] at same
  obtain ⟨d, digits, zero⟩ := same
  have only : Nat.digits 10 n = [d] := by
    rw [← List.reverse_reverse (Nat.digits 10 n), digits]
    rfl
  have small : d < 10 := Nat.digits_lt_base (by decide) (only ▸ List.mem_singleton_self d)
  have last := Nat.getLast_digit_ne_zero 10 pos
  simp only [only, List.getLast_singleton] at last
  have value : (0x30 + d) % 2 ^ 8 = 0x30 := by simpa using congrArg BitVec.toNat zero
  omega

theorem digits_of_decimal {n : Nat} (pos : n ≠ 0) :
    (decimal n).reverse.map (fun b => b.toNat - 0x30) = Nat.digits 10 n := by
  rw [decimal_of_pos pos, ← List.map_reverse, List.reverse_reverse, List.map_map]
  conv_rhs => rw [← List.map_id (Nat.digits 10 n)]
  apply List.map_congr_left
  intro d inside
  have small : d < 10 := Nat.digits_lt_base (by decide) inside
  simp only [Function.comp_apply, BitVec.toNat_ofNat, id]
  omega

theorem decimal_inj {n k : Nat} (same : decimal n = decimal k) : n = k := by
  by_cases zero : n = 0
  · subst zero
    by_contra pos
    exact decimal_ne_of_pos (Ne.symm pos) same.symm
  · by_cases zero' : k = 0
    · subst zero'
      exact absurd same (decimal_ne_of_pos zero)
    · apply Nat.digits_inj_iff.mp
      rw [← digits_of_decimal zero, ← digits_of_decimal zero', same]

theorem append_cons_inj_of_notMem {sep : Byte} {xs ys us vs : Text} (clean : sep ∉ ys)
    (clean' : sep ∉ vs) (same : xs ++ sep :: ys = us ++ sep :: vs) : xs = us ∧ ys = vs := by
  rcases List.append_eq_append_iff.mp same with ⟨more, rfl, rest⟩ | ⟨more, rfl, rest⟩
  · cases more with
    | nil => exact ⟨(List.append_nil xs).symm, (List.cons.inj rest).2⟩
    | cons b more =>
      have inside : ys = more ++ sep :: vs := (List.cons.inj rest).2
      exact absurd (by simp [inside]) clean
  · cases more with
    | nil => exact ⟨List.append_nil us, (List.cons.inj rest).2.symm⟩
    | cons b more =>
      have inside : vs = more ++ sep :: ys := (List.cons.inj rest).2
      exact absurd (by simp [inside]) clean'

/-- Texts that were joined with a separator are read one by one. -/
theorem mapM_splitOn_intercalate {α : Type} {sep : Byte} {write : α → Text} {read : Text → Option α}
    (back : ∀ a, read (write a) = some a) (clean : ∀ a, sep ∉ write a) {as : List α} (nonempty : as ≠ []) :
    (([sep].intercalate (as.map write)).splitOn sep).mapM read = some as := by
  rw [List.splitOn_intercalate sep (by simpa using fun a _ => clean a) (by simpa using nonempty)]
  clear nonempty
  induction as with
  | nil => rfl
  | cons a as ih => rw [List.map_cons, List.mapM_cons, back a, ih]; rfl

end Xrt.Lib
