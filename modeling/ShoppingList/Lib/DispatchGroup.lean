import Mathlib.Tactic.Common

/-!
# Dispatch groups

A group counts `enter` and `leave`. A block given to `notify` waits until the
group is empty and is then submitted to its queue, at once when the group is
empty already. `Holds n` says that `n` calls of `enter` are still to be matched
by a `leave`, and that no block waits for an empty group.
-/

structure DispatchGroup where
  entered : Nat := 0
  left : Nat := 0
  /-- Blocks that wait for the group to be empty. -/
  waiting : Nat := 0
  /-- Blocks submitted to the queue and not yet run. -/
  queued : Nat := 0
  deriving DecidableEq, Repr

namespace DispatchGroup

def submit (g : DispatchGroup) : DispatchGroup :=
  if g.entered = g.left then { g with waiting := 0, queued := g.queued + g.waiting } else g

def enter (g : DispatchGroup) : DispatchGroup := { g with entered := g.entered + 1 }

def leave (g : DispatchGroup) : DispatchGroup := submit { g with left := g.left + 1 }

def notify (g : DispatchGroup) : DispatchGroup := submit { g with waiting := g.waiting + 1 }

def runBlock (g : DispatchGroup) : DispatchGroup := { g with queued := g.queued - 1 }

def forget (g : DispatchGroup) : DispatchGroup := { g with waiting := 0, queued := 0 }

def blocks (g : DispatchGroup) : Nat := g.waiting + g.queued

@[simp] theorem submit_blocks (g : DispatchGroup) : g.submit.blocks = g.blocks := by
  unfold submit blocks
  split
  · simp only; omega
  · rfl

@[simp] theorem submit_entered (g : DispatchGroup) : g.submit.entered = g.entered := by
  unfold submit; split <;> rfl

@[simp] theorem submit_left (g : DispatchGroup) : g.submit.left = g.left := by
  unfold submit; split <;> rfl

@[simp] theorem enter_blocks (g : DispatchGroup) : g.enter.blocks = g.blocks := rfl

@[simp] theorem leave_blocks (g : DispatchGroup) : g.leave.blocks = g.blocks := submit_blocks _

@[simp] theorem notify_blocks (g : DispatchGroup) : g.notify.blocks = g.blocks + 1 := by
  unfold notify
  rw [submit_blocks]
  simp only [blocks]; omega

theorem runBlock_blocks {g : DispatchGroup} (h : 0 < g.queued) : g.runBlock.blocks + 1 = g.blocks := by
  simp only [runBlock, blocks]; omega

/-! ## The number of unmatched calls -/

structure Holds (g : DispatchGroup) (n : Nat) : Prop where
  entered : g.entered = g.left + n
  idle : n = 0 → g.waiting = 0

theorem holds_submit {g : DispatchGroup} {n : Nat} (h : g.entered = g.left + n) : g.submit.Holds n := by
  refine ⟨by rw [submit_entered, submit_left, h], fun hn => ?_⟩
  unfold submit
  rw [if_pos (by omega)]

namespace Holds

variable {g : DispatchGroup} {n : Nat}

theorem left_le (h : g.Holds n) : g.left ≤ g.entered := by rw [h.entered]; omega

theorem enter (h : g.Holds n) : g.enter.Holds (n + 1) := by
  refine ⟨?_, fun hn => absurd hn (by omega)⟩
  simp only [DispatchGroup.enter, h.entered]; omega

theorem leave (h : g.Holds (n + 1)) : g.leave.Holds n := by
  apply holds_submit
  simp only [h.entered]; omega

theorem notify (h : g.Holds n) : g.notify.Holds n := holds_submit h.entered

theorem runBlock (h : g.Holds n) : g.runBlock.Holds n := ⟨h.entered, h.idle⟩

end Holds

end DispatchGroup
