import Xrt.Xgq.Channel
import Xrt.Lib.Lists

/-!
# Correctness of the ring

The four counters of a ring, two of them stale copies, always satisfy

`seenC ≤ released ≤ consumed ≤ seenP ≤ published ≤ produced ≤ seenC + slots`

where `seenC` and `seenP` stand for the cached counters of the producer and of the
consumer. Each 32-bit counter is the true count modulo `2 ^ 32`, and every distance that
the code computes is at most the number of slots, so wrap-around never matters.
-/
namespace Xrt.Xgq

open Lib

variable {L : RingLayout} {base : BitVec 32} {doubleRead : Bool} {s t : Channel}
  {seenC seenP : Nat}

/-- What holds of the `j`-th slot the producer took. Its words are in memory unless a later
ticket has taken over the slot. -/
structure WriteOk (L : RingLayout) (base : BitVec 32) (s : Channel) (j : Nat)
    (w : WriteTicket) : Prop where
  slot : w.slot = L.slotOf (count base j)
  length : w.entry.length = L.words
  bound : w.written ≤ L.words
  complete : j < s.published → w.written = L.words
  stored : s.prod.tickets.length ≤ j + L.slotNum.toNat →
    ∀ k < w.written, w.entry[k]? = some (s.shared.mem (wordAddr w.slot k))

/-- What holds of the `j`-th slot the consumer took. -/
structure ReadOk (L : RingLayout) (base : BitVec 32) (s : Channel) (j : Nat)
    (r : ReadTicket) : Prop where
  slot : r.slot = L.slotOf (count base j)
  bound : r.words.length ≤ L.words
  complete : j < s.released → r.words.length = L.words
  agrees : ∃ w, s.prod.tickets[j]? = some w ∧ r.words <+: w.entry

structure Inv (L : RingLayout) (base : BitVec 32) (s : Channel) (seenC seenP : Nat) : Prop where
  fits : L.ProductFits
  prodRing : L.Describes s.prod.ring
  consRing : L.Describes s.cons.ring
  prodProduced : s.prod.ring.xrProduced = count base s.prod.tickets.length
  prodConsumed : s.prod.ring.xrConsumed = count base seenC
  consProduced : s.cons.ring.xrProduced = count base seenP
  consConsumed : s.cons.ring.xrConsumed = count base s.cons.tickets.length
  sharedProduced : s.shared.produced = count base s.published
  sharedConsumed : s.shared.consumed = count base s.released
  seenC_le : seenC ≤ s.released
  released_le : s.released ≤ s.cons.tickets.length
  consumed_le : s.cons.tickets.length ≤ seenP
  seenP_le : seenP ≤ s.published
  published_le : s.published ≤ s.prod.tickets.length
  room : s.prod.tickets.length ≤ seenC + L.slotNum.toNat
  writes : ∀ j w, s.prod.tickets[j]? = some w → WriteOk L base s j w
  reads : ∀ j r, s.cons.tickets[j]? = some r → ReadOk L base s j r
  pending : ∀ entry r, s.prod.pc = .refresh entry r → entry.length = L.words

theorem inv_initial (fits : L.ProductFits) (base : BitVec 32) (mem : BitVec 64 → BitVec 32) :
    Inv L base (initial L base mem) 0 0 := by
  constructor <;> simp [initial, xgqInitRing, RingLayout.Describes, fits]

section

variable (inv : Inv L base s seenC seenP)
include inv

theorem Inv.seenC_le_published : seenC ≤ s.published :=
  calc seenC ≤ s.released := inv.seenC_le
    _ ≤ s.cons.tickets.length := inv.released_le
    _ ≤ seenP := inv.consumed_le
    _ ≤ s.published := inv.seenP_le

/-! ### What the tests of the code decide -/

theorem Inv.full_iff :
    xgqRingFull s.prod.ring = true ↔ L.slotNum.toNat ≤ s.prod.tickets.length - seenC := by
  have cached := inv.seenC_le_published
  have published := inv.published_le
  have room := inv.room
  have distance := count_sub_toNat base (show seenC ≤ s.prod.tickets.length by omega) (by omega)
  unfold xgqRingFull
  rw [decide_eq_true_iff, BitVec.le_def, inv.prodRing.1, inv.prodProduced, inv.prodConsumed,
    distance]

theorem Inv.empty_iff : xgqRingEmpty s.cons.ring = true ↔ s.cons.tickets.length = seenP := by
  have released := inv.seenC_le
  have consumed := inv.released_le
  have cached := inv.seenP_le
  have published := inv.published_le
  have room := inv.room
  unfold xgqRingEmpty
  rw [decide_eq_true_iff, inv.consProduced, inv.consConsumed]
  exact count_eq_iff base inv.consumed_le (by omega)

/-! ### Steps of the producer -/

theorem Inv.prod_takeSlot (entry : List (BitVec 32))
    (length : entry.length = L.words) (free : xgqRingFull s.prod.ring = false) :
    Inv L base { s with prod := s.prod.takeSlot entry } seenC seenP := by
  have notFull : ¬ L.slotNum.toNat ≤ s.prod.tickets.length - seenC := by
    rw [← inv.full_iff, free]
    exact Bool.false_ne_true
  have published := inv.published_le
  have one : (s.prod.takeSlot entry).tickets.length = s.prod.tickets.length + 1 := by
    simp [Producer.takeSlot]
  refine { inv with
    prodProduced := ?prodProduced, published_le := ?published_le, room := ?room
    writes := ?writes, reads := ?reads, pending := ?pending }
  case prodProduced =>
    rw [one, ← count_succ, ← inv.prodProduced]
    rfl
  case published_le =>
    rw [one]
    exact Nat.le_succ_of_le published
  case room =>
    rw [one]
    omega
  case writes =>
    intro j w found
    rcases getElem?_concat_cases found with old | ⟨last, rfl⟩
    · -- one ticket more makes an older one lose its slot, never gain it
      have ok := inv.writes j w old
      refine ⟨ok.slot, ok.length, ok.bound, ok.complete, ?_⟩
      intro newest
      simp only [Producer.takeSlot, List.length_append, List.length_singleton] at newest
      exact ok.stored (by omega)
    · -- nothing of the new entry is stored yet
      refine ⟨?_, length, Nat.zero_le _, ?_, ?_⟩
      · rw [last, ← inv.prodProduced]
        exact L.slotPtrProduced_eq inv.prodRing
      · intro (early : j < s.published)
        omega
      · intro _ k none
        exact absurd none (Nat.not_lt_zero k)
  case reads =>
    intro j r found
    have ok := inv.reads j r found
    obtain ⟨w, taken, prefixed⟩ := ok.agrees
    exact ⟨ok.slot, ok.bound, ok.complete, w, getElem?_concat_of_some _ taken, prefixed⟩
  case pending =>
    intro _ _ waiting
    cases waiting

theorem Inv.prod_pc (pc : ProducerPc)
    (pending : ∀ entry r, pc = .refresh entry r → entry.length = L.words) :
    Inv L base { s with prod := { s.prod with pc := pc } } seenC seenP :=
  { inv with
    pending := pending
    writes := fun j w found => { inv.writes j w found with }
    reads := fun j r found => { inv.reads j r found with } }

/-- The refresh replaces the stale copy of the consumed counter by the shared one. -/
theorem Inv.prod_cache : Inv L base { s with prod := { s.prod with
      ring := xgqRingReadConsumed s.prod.ring s.shared.consumed } } s.released seenP := by
  have stale := inv.seenC_le
  have room := inv.room
  exact { inv with
    prodConsumed := inv.sharedConsumed
    seenC_le := Nat.le_refl _
    room := (by omega : s.prod.tickets.length ≤ s.released + L.slotNum.toNat)
    writes := fun j w found => { inv.writes j w found with }
    reads := fun j r found => { inv.reads j r found with } }

theorem Inv.prod_produce (entry : List (BitVec 32)) (length : entry.length = L.words) :
    Inv L base { s with prod := s.prod.produce entry } seenC seenP := by
  unfold Producer.produce
  split
  · apply inv.prod_pc
    rintro _ _ ⟨⟩
    exact length
  next free => exact inv.prod_takeSlot entry length (by simpa using free)

theorem Inv.prod_refreshed (entry : List (BitVec 32)) (length : entry.length = L.words) :
    Inv L base { s with prod := s.prod.refreshed entry s.shared.consumed } s.released seenP := by
  have cached := inv.prod_cache.prod_pc .ready (by rintro _ _ ⟨⟩)
  unfold Producer.refreshed
  dsimp only
  split
  · exact cached
  next free => exact cached.prod_takeSlot entry length (by simpa using free)

theorem Inv.words_apart {i j k : Nat} {v w : WriteTicket}
    (found : s.prod.tickets[j]? = some w) (inside : w.written < L.words)
    (unpublished : s.published ≤ j) (there : s.prod.tickets[i]? = some v) (other : i ≠ j)
    (newest : s.prod.tickets.length ≤ i + L.slotNum.toNat) (below : k < L.words) :
    wordAddr v.slot k ≠ wordAddr w.slot w.written := by
  intro same
  have inRange : j < s.prod.tickets.length := (List.getElem?_eq_some_iff.mp found).1
  have inRange' : i < s.prod.tickets.length := (List.getElem?_eq_some_iff.mp there).1
  rw [(inv.writes j w found).slot, (inv.writes i v there).slot] at same
  have slots := (L.wordAddr_inj inv.fits base below inside same).1
  rcases Nat.lt_or_gt_of_ne other with lower | higher
  · -- `i` is a whole lap before `j`, so `j` has taken over its slot
    have lap := slot_apart lower slots
    omega
  · -- `i` is a whole lap after `j`: `room` leaves no place for it behind an unpublished `j`
    have lap := slot_apart higher slots.symm
    have published := inv.seenC_le_published
    have room := inv.room
    omega

end

def Channel.stored (s : Channel) (j : Nat) (w : WriteTicket) (word : BitVec 32) : Channel :=
  { s with
    prod := s.prod.stored j w
    shared := { s.shared with
      mem := Function.update s.shared.mem (wordAddr w.slot w.written) word } }

section

variable (inv : Inv L base s seenC seenP)
include inv

variable {j : Nat} {w : WriteTicket} {word : BitVec 32}

theorem Inv.written_lt (found : s.prod.tickets[j]? = some w)
    (next : w.entry[w.written]? = some word) : w.written < L.words := by
  have inside := (List.getElem?_eq_some_iff.mp next).1
  rwa [(inv.writes j w found).length] at inside

theorem Inv.unpublished
    (found : s.prod.tickets[j]? = some w) (inside : w.written < L.words) : s.published ≤ j := by
  by_contra early
  have complete := (inv.writes j w found).complete (by omega)
  omega

theorem Inv.writeOk_stored_self (found : s.prod.tickets[j]? = some w)
    (next : w.entry[w.written]? = some word) :
    WriteOk L base (s.stored j w word) j { w with written := w.written + 1 } := by
  have ok := inv.writes j w found
  have inside := inv.written_lt found next
  refine ⟨ok.slot, ok.length, inside, ?_, ?_⟩
  · intro (early : j < s.published)
    have late := inv.unpublished found inside
    omega
  · intro newest k below
    simp only [Channel.stored, Producer.stored, List.length_set] at newest ⊢
    rcases Nat.lt_succ_iff_lt_or_eq.mp below with earlier | rfl
    · have distinct : wordAddr w.slot k ≠ wordAddr w.slot w.written := by
        intro same
        rw [ok.slot] at same
        have := (L.wordAddr_inj inv.fits base (by omega) inside same).2
        omega
      rw [Function.update_of_ne distinct]
      exact ok.stored newest k earlier
    · rw [Function.update_self]
      exact next

theorem Inv.writeOk_stored_other {i : Nat} {v : WriteTicket} (found : s.prod.tickets[j]? = some w)
    (next : w.entry[w.written]? = some word) (there : s.prod.tickets[i]? = some v)
    (other : i ≠ j) : WriteOk L base (s.stored j w word) i v := by
  have ok := inv.writes i v there
  have inside := inv.written_lt found next
  refine ⟨ok.slot, ok.length, ok.bound, ok.complete, ?_⟩
  intro newest k below
  simp only [Channel.stored, Producer.stored, List.length_set] at newest ⊢
  have distinct := inv.words_apart found inside (inv.unpublished found inside) there other newest
    (Nat.lt_of_lt_of_le below ok.bound)
  rw [Function.update_of_ne distinct]
  exact ok.stored newest k below

theorem Inv.readOk_stored {i : Nat}
    {r : ReadTicket} (found : s.prod.tickets[j]? = some w) (word : BitVec 32)
    (there : s.cons.tickets[i]? = some r) : ReadOk L base (s.stored j w word) i r := by
  have ok := inv.reads i r there
  obtain ⟨v, taken, prefixed⟩ := ok.agrees
  refine ⟨ok.slot, ok.bound, ok.complete, ?_⟩
  by_cases same : i = j
  · subst same
    rw [found] at taken
    cases taken
    refine ⟨{ w with written := w.written + 1 }, ?_, prefixed⟩
    exact List.getElem?_set_self (List.getElem?_eq_some_iff.mp found).1
  · refine ⟨v, ?_, prefixed⟩
    simp only [Channel.stored, Producer.stored]
    rw [List.getElem?_set_ne (fun h => same h.symm)]
    exact taken

/-- A word that is stored lands in the slot of its own ticket, and no other ticket whose
entry is still needed has that slot. -/
theorem Inv.prod_stored (found : s.prod.tickets[j]? = some w)
    (next : w.entry[w.written]? = some word) : Inv L base (s.stored j w word) seenC seenP := by
  have length : (s.stored j w word).prod.tickets.length = s.prod.tickets.length :=
    List.length_set ..
  refine { inv with
    prodProduced := ?prodProduced, published_le := ?published_le, room := ?room
    writes := ?writes, reads := fun i r there => inv.readOk_stored found word there }
  case prodProduced =>
    rw [length]
    exact inv.prodProduced
  case published_le =>
    rw [length]
    exact inv.published_le
  case room =>
    rw [length]
    exact inv.room
  case writes =>
    intro i v there
    rcases getElem?_set_cases there with ⟨rfl, rfl⟩ | ⟨other, there⟩
    · exact inv.writeOk_stored_self found next
    · exact inv.writeOk_stored_other found next there other

theorem Inv.prod_notify (done : ∀ w ∈ s.prod.tickets, w.written = L.words) :
    Inv L base { s with
      shared := { s.shared with produced := s.prod.ring.xrProduced }
      published := s.prod.tickets.length } seenC seenP := by
  have seen := inv.seenP_le
  have published := inv.published_le
  exact { inv with
    sharedProduced := inv.prodProduced
    seenP_le := (by omega : seenP ≤ s.prod.tickets.length)
    published_le := Nat.le_refl _
    writes := fun j w found =>
      { inv.writes j w found with complete := fun _ => done w (List.mem_of_getElem? found) }
    reads := fun j r found => { inv.reads j r found with } }

/-! ### Steps of the consumer -/

theorem Inv.cons_takeSlot (pending : xgqRingEmpty s.cons.ring = false) :
    Inv L base { s with cons := s.cons.takeSlot } seenC seenP := by
  have notEmpty : s.cons.tickets.length ≠ seenP := by
    intro equal
    rw [inv.empty_iff.mpr equal] at pending
    cases pending
  have consumed := inv.consumed_le
  have released := inv.released_le
  have cached := inv.seenP_le
  have published := inv.published_le
  have one : s.cons.takeSlot.tickets.length = s.cons.tickets.length + 1 := by
    simp [Consumer.takeSlot]
  refine { inv with
    consConsumed := ?consConsumed, released_le := ?released_le, consumed_le := ?consumed_le
    writes := fun j w found => { inv.writes j w found with }, reads := ?reads }
  case consConsumed =>
    rw [one, ← count_succ, ← inv.consConsumed]
    rfl
  case released_le =>
    rw [one]
    exact Nat.le_succ_of_le released
  case consumed_le =>
    rw [one]
    omega
  case reads =>
    intro j r found
    rcases getElem?_concat_cases found with old | ⟨last, rfl⟩
    · exact { inv.reads j r old with }
    · -- the new ticket is below the cached produced count, so the entry exists
      obtain ⟨w, taken⟩ : ∃ w, s.prod.tickets[j]? = some w :=
        ⟨_, List.getElem?_eq_getElem (show j < s.prod.tickets.length by omega)⟩
      refine ⟨?_, Nat.zero_le _, ?_, w, taken, List.nil_prefix⟩
      · rw [last, ← inv.consConsumed]
        exact L.slotPtrConsumed_eq inv.consRing
      · intro (early : j < s.released)
        omega

theorem Inv.cons_pc (pc : ConsumerPc) :
    Inv L base { s with cons := { s.cons with pc := pc } } seenC seenP :=
  { inv with
    writes := fun j w found => { inv.writes j w found with }
    reads := fun j r found => { inv.reads j r found with } }

theorem Inv.cons_cache : Inv L base { s with cons := { s.cons with
      ring := xgqRingReadProduced s.cons.ring s.shared.produced } } seenC s.published := by
  have consumed := inv.consumed_le
  have cached := inv.seenP_le
  exact { inv with
    consProduced := inv.sharedProduced
    consumed_le := (by omega : s.cons.tickets.length ≤ s.published)
    seenP_le := Nat.le_refl _
    writes := fun j w found => { inv.writes j w found with }
    reads := fun j r found => { inv.reads j r found with } }

theorem Inv.cons_consume : Inv L base { s with cons := s.cons.consume } seenC seenP := by
  unfold Consumer.consume
  split
  · exact inv.cons_pc _
  next pending => exact inv.cons_takeSlot (by simpa using pending)

theorem Inv.cons_refreshed :
    Inv L base { s with cons := s.cons.refreshed s.shared.produced } seenC s.published := by
  have cached := inv.cons_cache.cons_pc .ready
  unfold Consumer.refreshed
  dsimp only
  split
  · exact cached
  next pending => exact cached.cons_takeSlot (by simpa using pending)

/-- A word that is read is the word of the producer's entry: the slot is not released, so
the producer cannot have taken it again. -/
theorem Inv.cons_loaded {r : ReadTicket}
    (found : s.cons.tickets[j]? = some r) (more : r.words.length < L.words)
    (value : s.shared.mem (wordAddr r.slot r.words.length) = word) :
    Inv L base { s with cons := s.cons.loaded j r word } seenC seenP := by
  have ok := inv.reads j r found
  have inRange : j < s.cons.tickets.length := (List.getElem?_eq_some_iff.mp found).1
  -- a released ticket has been read to its end
  have unreleased : s.released ≤ j := by
    by_contra early
    have := ok.complete (by omega)
    omega
  obtain ⟨w, taken, prefixed⟩ := ok.agrees
  have okW := inv.writes j w taken
  have written : w.written = L.words := by
    have consumed := inv.consumed_le
    have cached := inv.seenP_le
    exact okW.complete (by omega)
  -- the producer is less than a lap ahead of what is not released, so the entry is in memory
  have stored : w.entry[r.words.length]? = some word := by
    rw [← value, ok.slot, ← okW.slot]
    have room := inv.room
    have released := inv.seenC_le
    exact okW.stored (by omega) _ (by omega)
  have extended : r.words ++ [word] <+: w.entry := prefix_concat_of_getElem? prefixed stored
  have length : (s.cons.loaded j r word).tickets.length = s.cons.tickets.length :=
    List.length_set ..
  refine { inv with
    consConsumed := ?consConsumed, released_le := ?released_le, consumed_le := ?consumed_le
    writes := fun i v there => { inv.writes i v there with }, reads := ?reads }
  case consConsumed =>
    rw [length]
    exact inv.consConsumed
  case released_le =>
    rw [length]
    exact inv.released_le
  case consumed_le =>
    rw [length]
    exact inv.consumed_le
  case reads =>
    intro i v there
    rcases getElem?_set_cases there with ⟨rfl, rfl⟩ | ⟨_, there⟩
    · refine ⟨ok.slot, ?_, ?_, w, taken, extended⟩
      · simp only [List.length_append, List.length_singleton]
        omega
      · intro (early : i < s.released)
        omega
    · exact { inv.reads i v there with }

theorem Inv.cons_notify (done : ∀ r ∈ s.cons.tickets, r.words.length = L.words) :
    Inv L base { s with
      shared := { s.shared with consumed := s.cons.ring.xrConsumed }
      released := s.cons.tickets.length } seenC seenP := by
  have cached := inv.seenC_le
  have released := inv.released_le
  exact { inv with
    sharedConsumed := inv.consConsumed
    seenC_le := (by omega : seenC ≤ s.cons.tickets.length)
    released_le := Nat.le_refl _
    writes := fun j w found => { inv.writes j w found with }
    reads := fun j r found =>
      { inv.reads j r found with complete := fun _ => done r (List.mem_of_getElem? found) } }

end

/-! ### Runs -/

/-- The cached counters are somewhere between the counts of the two sides. -/
def Invariant (L : RingLayout) (base : BitVec 32) (s : Channel) : Prop :=
  ∃ seenC seenP, Inv L base s seenC seenP

theorem writeWord_cases {j : Nat} (moved : step L doubleRead s (.writeWord j) = some t) :
    ∃ w word, s.prod.tickets[j]? = some w ∧ w.entry[w.written]? = some word ∧
      t = s.stored j w word := by
  simp only [step] at moved
  split at moved
  next w _ found =>
    split at moved
    next word following =>
      cases moved
      exact ⟨w, word, found, following, rfl⟩
    · cases moved
  · cases moved

theorem invariant_step (e : Event) (inv : Invariant L base s)
    (moved : step L doubleRead s e = some t) : Invariant L base t := by
  obtain ⟨seenC, seenP, inv⟩ := inv
  cases e with
  | produce entry =>
    simp only [step] at moved
    split at moved
    · split at moved
      next length =>
        cases moved
        exact ⟨_, _, inv.prod_produce entry length⟩
      · cases moved
    · cases moved
  | readConsumed =>
    simp only [step] at moved
    split at moved
    · cases moved
    next entry r waiting =>
      have length := inv.pending entry r waiting
      split at moved
      · -- the double read goes on: nothing is cached yet
        cases moved
        exact ⟨_, _, inv.prod_pc _ (by rintro _ _ ⟨⟩; exact length)⟩
      next value returned =>
        cases moved
        rw [Refresh.read_returns doubleRead r _ value returned]
        exact ⟨_, _, inv.prod_refreshed entry length⟩
  | writeWord j =>
    obtain ⟨w, word, found, following, rfl⟩ := writeWord_cases moved
    exact ⟨_, _, inv.prod_stored found following⟩
  | notifyPeerProduced =>
    simp only [step] at moved
    split at moved
    · split at moved
      next done =>
        cases moved
        exact ⟨_, _, inv.prod_notify done⟩
      · cases moved
    · cases moved
  | consume =>
    simp only [step] at moved
    split at moved
    · cases moved
      exact ⟨_, _, inv.cons_consume⟩
    · cases moved
  | readProduced =>
    simp only [step] at moved
    split at moved
    · cases moved
    next r waiting =>
      split at moved
      · cases moved
        exact ⟨_, _, inv.cons_pc _⟩
      next value returned =>
        cases moved
        rw [Refresh.read_returns doubleRead r _ value returned]
        exact ⟨_, _, inv.cons_refreshed⟩
  | readWord j =>
    simp only [step] at moved
    split at moved
    next r _ found =>
      split at moved
      next more =>
        cases moved
        exact ⟨_, _, inv.cons_loaded found more rfl⟩
      · cases moved
    · cases moved
  | notifyPeerConsumed =>
    simp only [step] at moved
    split at moved
    · split at moved
      next done =>
        cases moved
        exact ⟨_, _, inv.cons_notify done⟩
      · cases moved
    · cases moved

theorem invariant_run (fits : L.ProductFits) (mem : BitVec 64 → BitVec 32) (events : List Event)
    (ran : run (step L doubleRead) (initial L base mem) events = some s) :
    Invariant L base s :=
  run_invariant (fun _ e _ inv moved => invariant_step e inv moved)
    ⟨0, 0, inv_initial fits base mem⟩ ran

section

variable (inv : Inv L base s seenC seenP)
include inv

theorem Inv.read_agrees {j : Nat} {r : ReadTicket} (found : s.cons.tickets[j]? = some r) :
    ∃ w, s.prod.tickets[j]? = some w ∧ w.written = L.words ∧ w.entry.length = L.words ∧
      r.words <+: w.entry := by
  obtain ⟨w, taken, prefixed⟩ := (inv.reads j r found).agrees
  have inRange : j < s.cons.tickets.length := (List.getElem?_eq_some_iff.mp found).1
  have consumed := inv.consumed_le
  have cached := inv.seenP_le
  have ok := inv.writes j w taken
  exact ⟨w, taken, ok.complete (by omega), ok.length, prefixed⟩

theorem Inv.entries_prefix : entriesRead L s <+: entriesWritten L s := by
  apply takeWhile_map_prefix
  intro j r found whole
  obtain ⟨w, taken, complete, length, prefixed⟩ := inv.read_agrees found
  have equal : r.words = w.entry := by
    apply prefixed.eq_of_length
    rw [length]
    simpa using whole
  exact ⟨w, taken, by simpa using complete, equal⟩

theorem Inv.store_released {i j k : Nat} {v w : WriteTicket}
    (found : s.prod.tickets[j]? = some w) (more : w.written < L.words)
    (older : s.prod.tickets[i]? = some v) (before : i < j) (inside : k < L.words)
    (same : wordAddr v.slot k = wordAddr w.slot w.written) : i < s.released := by
  rw [(inv.writes j w found).slot, (inv.writes i v older).slot] at same
  have apart := slot_apart before (L.wordAddr_inj inv.fits base inside more same).1
  have inRange : j < s.prod.tickets.length := (List.getElem?_eq_some_iff.mp found).1
  have room := inv.room
  have cached := inv.seenC_le
  omega

end

/-- In every run of the two sides of a ring whose slot offsets have 32 bits, from any common counter
value: the entries read are a prefix of the entries written; also a slot that is still being read agrees
with the entry of the same index; and a word is stored only where every older entry that used the place
has been released by a consumer notify. -/
theorem xgqRing_correct (L : RingLayout) (fits : L.ProductFits) (doubleRead : Bool) (base : BitVec 32)
    (mem : BitVec 64 → BitVec 32) (events : List Event) (s : Channel)
    (ran : run (step L doubleRead) (initial L base mem) events = some s) :
    entriesRead L s <+: entriesWritten L s ∧
    (∀ (j : Nat) r, s.cons.tickets[j]? = some r →
      ∃ w, s.prod.tickets[j]? = some w ∧ w.written = L.words ∧ r.words <+: w.entry) ∧
    (∀ (j : Nat) w t, s.prod.tickets[j]? = some w →
      step L doubleRead s (.writeWord j) = some t →
      ∀ (i : Nat) v k, i < j → s.prod.tickets[i]? = some v → k < L.words →
        wordAddr v.slot k = wordAddr w.slot w.written → i < s.released) := by
  obtain ⟨seenC, seenP, inv⟩ := invariant_run fits mem events ran
  refine ⟨inv.entries_prefix, ?_, ?_⟩
  · intro j r found
    obtain ⟨w, taken, complete, _, prefixed⟩ := inv.read_agrees found
    exact ⟨w, taken, complete, prefixed⟩
  · intro j w t found moved i v k before older inside same
    obtain ⟨_, word, found', following, _⟩ := writeWord_cases moved
    cases found.symm.trans found'
    have more : w.written < L.words := by
      rw [← (inv.writes j w found).length]
      exact (List.getElem?_eq_some_iff.mp following).1
    exact inv.store_released found more older before inside same

/-- Two one-word slots, with the counters about to wrap past `2 ^ 32`. -/
def wrapLayout : RingLayout where
  slotNum := 2
  slotSz := 4
  slotAddr := 0x1000
  order := 1
  order_pos := Nat.le_refl 1
  slotNum_eq := rfl

def wrapRun : List Event :=
  [.produce [7], .writeWord 0, .produce [8], .writeWord 1, .notifyPeerProduced,
    .consume, .readProduced, .readWord 0, .consume, .readWord 1, .notifyPeerConsumed,
    .produce [9], .readConsumed, .writeWord 2]

theorem xgqRing_correct_wrap :
    ∃ s, run (step wrapLayout false) (initial wrapLayout 0xffffffff fun _ => 0) wrapRun = some s ∧
      entriesRead wrapLayout s = [[7], [8]] ∧ entriesWritten wrapLayout s = [[7], [8], [9]] ∧
      entriesRead wrapLayout s <+: entriesWritten wrapLayout s :=
  ⟨_, rfl, rfl, rfl, (xgqRing_correct wrapLayout (show _ < _ by decide) false 0xffffffff (fun _ => 0) wrapRun _ rfl).1⟩

/-- Four slots of 2 GiB: the offset of every second one is a multiple of `2 ^ 32`. -/
def hugeLayout : RingLayout where
  slotNum := 4
  slotSz := 0x80000000
  slotAddr := 0
  order := 2
  order_pos := by decide
  slotNum_eq := rfl

/-- The third entry goes to the slot of the first, which is not released. -/
theorem xgqRing_correct_huge :
    ∃ entry : List (BitVec 32), entry.length = hugeLayout.words ∧
      ∃ s v w, run (step hugeLayout false) (initial hugeLayout 0 fun _ => 0)
          [.produce entry, .produce entry, .produce entry] = some s
        ∧ s.prod.tickets[0]? = some v ∧ s.prod.tickets[2]? = some w
        ∧ (step hugeLayout false s (.writeWord 2)).isSome
        ∧ wordAddr v.slot 0 = wordAddr w.slot w.written ∧ s.released = 0 := by
  -- 2 GiB of words, of which only the number matters
  obtain ⟨entry, length⟩ : ∃ entry : List (BitVec 32), entry.length = hugeLayout.words :=
    ⟨List.replicate _ 0, List.length_replicate⟩
  obtain ⟨word, first⟩ : ∃ word, entry[0]? = some word :=
    ⟨_, List.getElem?_eq_getElem (by rw [length]; decide)⟩
  refine ⟨entry, length, { initial hugeLayout 0 fun _ => 0 with prod := ⟨⟨4, 0x80000000, 3, 0, 0⟩, .ready,
    [⟨0, entry, 0⟩, ⟨0x80000000, entry, 0⟩, ⟨0, entry, 0⟩]⟩ }, ⟨0, entry, 0⟩, ⟨0, entry, 0⟩, ?_,
    rfl, rfl, ?_, rfl, rfl⟩
  · simp [run_cons, step, length, initial, xgqInitRing, Producer.produce, xgqRingFull,
      Producer.takeSlot, xgqProduceSlot, xgqRingSlotPtrProduced, hugeLayout]
  · simp only [step, List.getElem?_cons_succ, List.getElem?_cons_zero, first, Option.isSome_some]

end Xrt.Xgq
