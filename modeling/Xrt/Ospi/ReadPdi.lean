import Xrt.Lib.Bytes
import Xrt.Lib.Window

/-!
# Reading a received PDI

`read_versal_pdi` copies a part of the received image, which lies in the payloads of the packet nodes,
to the buffer of the reader. The number of bytes read is an `u32`; sysfs never asks for more than a
page.
-/
namespace Xrt.Ospi

open Lib

/-- The loop over the nodes; `none` is an access outside of a payload. -/
def readLoop (off : Nat) : List (List Byte) → (size preSize remCount nread : Nat) → (Nat → Byte) →
    Option (Nat × (Nat → Byte))
  | [], _, _, _, nread, buf => some (nread, buf)
  | node :: nodes, size, preSize, remCount, nread, buf =>
    let size := size + node.length
    if off > size then readLoop off nodes size size remCount nread buf
    else
      let cpStart := if off ≥ preSize then off - preSize else 0
      let cpSize := if node.length - cpStart ≥ remCount then remCount else node.length - cpStart
      if node.length < cpStart + cpSize then none
      else
        let buf := store buf nread (slice node cpStart cpSize)
        let nread := (nread + cpSize) % 2 ^ 32
        if remCount - cpSize = 0 then some (nread, buf)
        else readLoop off nodes size size (remCount - cpSize) nread buf

/-- The payloads of the list of `ov`, in its order. Without a node the loop returns 0 at once. -/
def readVersalPdi (nodes : List (List Byte)) (buf : Nat → Byte) (off count : Nat) :
    Option (Nat × (Nat → Byte)) :=
  readLoop off nodes 0 0 count 0 buf

variable {nodes : List (List Byte)} {off pre remCount nread : Nat} {buf : Nat → Byte}

theorem readLoop_spec
    (small : nread + (slice nodes.flatten (off - pre) remCount).length < 2 ^ 32) :
    readLoop off nodes pre pre remCount nread buf =
      some (nread + (slice nodes.flatten (off - pre) remCount).length,
        store buf nread (slice nodes.flatten (off - pre) remCount)) := by
  -- over the nodes; `off - pre` is the offset in what is left of the image, 0 once it is reached
  induction nodes generalizing pre remCount nread buf with
  | nil =>
    have nothing : store buf nread [] = buf := by
      funext a
      simp [store]
    simp [readLoop, slice, nothing]
  | cons node nodes ih =>
    rw [List.flatten_cons] at small ⊢
    simp only [readLoop]
    split
    next skip =>
      have same : slice (node ++ nodes.flatten) (off - pre) remCount =
          slice nodes.flatten (off - (pre + node.length)) remCount := by
        rw [show off - pre = node.length + (off - (pre + node.length)) by omega,
          slice_append_right rfl]
      rw [same] at small ⊢
      exact ih small
    next here =>
      have start : (if off ≥ pre then off - pre else 0) = off - pre := by
        split <;> omega
      rw [start]
      by_cases enough : node.length - (off - pre) ≥ remCount
      · have inside : off - pre + remCount ≤ node.length := by omega
        rw [slice_append_left inside, length_slice inside] at small ⊢
        rw [if_pos enough, if_neg (by omega), if_pos (Nat.sub_self _), Nat.mod_eq_of_lt small]
      · -- the rest of this node, and the following ones from their start
        have behind : off - (pre + node.length) = 0 := by omega
        have parts : slice (node ++ nodes.flatten) (off - pre) remCount =
            slice node (off - pre) (node.length - (off - pre)) ++
              slice nodes.flatten (off - (pre + node.length))
                (remCount - (node.length - (off - pre))) := by
          rw [show remCount = node.length - (off - pre) + (remCount - (node.length - (off - pre))) by
            omega, slice_add, slice_append_left (by omega), behind, ← slice_append_right rfl nodes.flatten,
            Nat.add_sub_cancel' (by omega), Nat.add_zero, Nat.add_sub_cancel_left]
        have length : (slice node (off - pre) (node.length - (off - pre))).length =
            node.length - (off - pre) := length_slice (by omega)
        rw [parts, List.length_append, length] at small
        rw [if_neg enough, if_neg (by omega), if_neg (by omega), Nat.mod_eq_of_lt (by omega),
          ih (by omega), parts, List.length_append, length, ← store_append, length, Nat.add_assoc]

theorem readVersalPdi_spec {count : Nat} (small : min count (nodes.flatten.length - off) < 2 ^ 32) :
    readVersalPdi nodes buf off count =
      some (min count (nodes.flatten.length - off), store buf 0 (slice nodes.flatten off count)) := by
  have length : (slice nodes.flatten off count).length = min count (nodes.flatten.length - off) := by
    simp [slice]
  rw [readVersalPdi, readLoop_spec]
  · rw [Nat.sub_zero, length, Nat.zero_add]
  · rwa [Nat.sub_zero, length, Nat.zero_add]

/-- A reader that advances by the returned counts until it gets 0, or until its fuel is spent. -/
def readAll (nodes : List (List Byte)) (buf : Nat → Byte) (counts : Nat → Nat) :
    (fuel round off : Nat) → Option (List Byte)
  | 0, _, _ => none
  | fuel + 1, round, off =>
    match readVersalPdi nodes buf off (counts round) with
    | none => none
    | some (n, new) =>
      if n = 0 then some []
      else (readAll nodes buf counts fuel (round + 1) (off + n)).map (cells new 0 n ++ ·)

theorem readAll_spec {counts : Nat → Nat} (asks : ∀ i, 0 < counts i ∧ counts i < 2 ^ 32)
    {fuel round : Nat} (enough : nodes.flatten.length - off < fuel) :
    readAll nodes buf counts fuel round off = some (nodes.flatten.drop off) := by
  induction fuel generalizing round off with
  | zero => omega
  | succ fuel ih =>
    have ask := asks round
    rw [readAll, readVersalPdi_spec (by omega)]
    dsimp only
    by_cases ended : nodes.flatten.length ≤ off
    · rw [if_pos (by omega), List.drop_eq_nil_of_le ended]
    · rw [if_neg (by omega)]
      generalize count : min (counts round) (nodes.flatten.length - off) = n
      have part : slice nodes.flatten off (counts round) = slice nodes.flatten off n := by
        rw [slice, slice, List.take_eq_take_iff, List.length_drop, ← count, min_assoc, min_self]
      have length : (slice nodes.flatten off n).length = n := length_slice (by omega)
      have got := cells_store buf 0 (slice nodes.flatten off n)
      rw [length] at got
      rw [part, ih (by omega), got, Option.map_some, slice, ← List.drop_drop, List.take_append_drop]

/-- Up to 4 GiB at a time, a read returns the part of the image and its length, and reads nothing
else; so a reader obtains the whole image. -/
theorem readVersalPdi_reads (nodes : List (List Byte)) (buf : Nat → Byte) :
    (∀ off count, min count (nodes.flatten.length - off) < 2 ^ 32 →
      ∃ new, readVersalPdi nodes buf off count =
          some (min count (nodes.flatten.length - off), new) ∧
        cells new 0 (min count (nodes.flatten.length - off)) = slice nodes.flatten off count) ∧
      ∀ counts : Nat → Nat, (∀ i, 0 < counts i ∧ counts i < 2 ^ 32) →
        readAll nodes buf counts (nodes.flatten.length + 1) 0 0 = some nodes.flatten := by
  refine ⟨fun off count small => ⟨_, readVersalPdi_spec small, ?_⟩, fun counts asks => ?_⟩
  · have length : (slice nodes.flatten off count).length = min count (nodes.flatten.length - off) := by
      simp [slice]
    rw [← length, cells_store]
  · rw [readAll_spec asks (by omega), List.drop_zero]

theorem five_bytes_read :
    readAll [[1, 2], [], [3, 4, 5]] (fun _ => 0) (fun _ => 4) 6 0 0 = some [1, 2, 3, 4, 5] :=
  (readVersalPdi_reads [[1, 2], [], [3, 4, 5]] fun _ => 0).2 (fun _ => 4) fun _ => by decide

theorem readVersalPdi_whole_node (node : List Byte) :
    (readVersalPdi [node] buf 0 node.length).map Prod.fst = some (node.length % 2 ^ 32) := by
  simp [readVersalPdi, readLoop]

/-- A read of exactly 4 GiB returns 0. -/
theorem four_gib_read :
    (readVersalPdi [List.replicate (2 ^ 32) 0] (fun _ => 0) 0 (2 ^ 32)).map Prod.fst = some 0 := by
  have whole := @readVersalPdi_whole_node (fun _ => 0) (List.replicate (2 ^ 32) 0)
  rwa [List.length_replicate, Nat.mod_self] at whole

end Xrt.Ospi
