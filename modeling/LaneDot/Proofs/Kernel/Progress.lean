import LaneDot.Proofs.Kernel.RowSum

/-!
# A kernel on its way

The fused kernel takes its steps of eight and then its single steps.  After any
number of them it holds, for every row, the lanes of what it has passed, and
the rest of the run starts from there.
-/

namespace LaneDot

/-- A sweep may be interrupted after any number of steps. -/
theorem sweep_add {Acc : Type} (task : Task) (width : Nat)
    (combine : Lanes width → Vector Code width → Acc → Acc) (first second start : Nat)
    (rows : List (Row Acc)) :
    sweep task width combine (first + second) start rows =
      sweep task width combine first start rows >>=
        sweep task width combine second (start + width * first) := by
  -- the start moves with every step taken, and the second part begins where the first ends
  induction first generalizing start rows with
  | zero => rw [Nat.zero_add, sweep, pure_bind, Nat.mul_zero, Nat.add_zero]
  | succ first ih =>
      have further : start + width * (first + 1) = start + width + width * first := by ring
      simp only [Nat.succ_add, sweep, bind_assoc, ih, further]

theorem foldWindows_add {Acc : Type} {width : Nat}
    (combine : Lanes width → Vector Code width → Acc → Acc) (x : Nat → Single)
    (codes : Nat → Code) (first second start : Nat) (acc : Acc) :
    foldWindows combine x codes (first + second) start acc =
      foldWindows combine x codes second (start + width * first)
        (foldWindows combine x codes first start acc) := by
  induction first generalizing start acc with
  | zero => rw [Nat.zero_add, foldWindows, Nat.mul_zero, Nat.add_zero]
  | succ first ih =>
      have further : start + width * (first + 1) = start + width + width * first := by ring
      rw [Nat.succ_add, foldWindows, foldWindows, ih, further]

theorem foldWindows_invariant {Acc : Type} {width : Nat}
    {combine : Lanes width → Vector Code width → Acc → Acc} {property : Acc → Prop}
    (keeps : ∀ xs codes acc, property acc → property (combine xs codes acc)) (x : Nat → Single)
    (codes : Nat → Code) (steps start : Nat) {acc : Acc} (holds : property acc) :
    property (foldWindows combine x codes steps start acc) := by
  induction steps generalizing start acc with
  | zero => exact holds
  | succ steps ih => exact ih _ (keeps _ _ acc holds)

def Task.fusedSteps (task : Task) : Nat :=
  task.length / laneCount + task.length % laneCount

namespace Backend

def accumulateFor (backend : Backend) (fusion : Nat) (task : Task) (start : Address)
    (steps : Nat) : AccessM (List (Row (Lanes 8))) := do
  let blocks := task.length / laneCount
  let rows := Row.chain Lanes.zero task.rowBytes fusion 0 start
  let rows ← sweep task 8 backend.combineWide (min steps blocks) 0 rows
  sweep task 1 backend.combineOne (steps - blocks) (laneCount * blocks) rows

/-- The steps of the fused kernel after the first ones, with the rows as these left them. -/
def accumulateAfter (backend : Backend) (task : Task) (steps : Nat) (rows : List (Row (Lanes 8))) :
    AccessM (List (Row (Lanes 8))) := do
  let blocks := task.length / laneCount
  let rows ← sweep task 8 backend.combineWide (blocks - steps) (8 * min steps blocks) rows
  sweep task 1 backend.combineOne (task.length % laneCount - (steps - blocks))
    (laneCount * blocks + (steps - blocks)) rows

def lanesFor (backend : Backend) (x : Nat → Single) (codes : Nat → Code) (length steps : Nat) :
    Lanes 8 :=
  let blocks := length / laneCount
  foldWindows backend.combineOne x codes (steps - blocks) (laneCount * blocks)
    (foldWindows backend.combineWide x codes (min steps blocks) 0 Lanes.zero)

section

variable (backend : Backend) (fusion : Nat) (task : Task) (start : Address) (x : Nat → Single)
  (codes : Nat → Code) {length steps : Nat}

/-! Within the steps of eight no single step has been taken; after them, none of eight is left. -/

theorem accumulateFor_of_le (wide : steps ≤ task.length / laneCount) :
    backend.accumulateFor fusion task start steps =
      sweep task 8 backend.combineWide steps 0
        (Row.chain Lanes.zero task.rowBytes fusion 0 start) := by
  simp only [accumulateFor, Nat.min_eq_left wide, Nat.sub_eq_zero_of_le wide, sweep, bind_pure]

theorem accumulateFor_of_ge (ones : task.length / laneCount ≤ steps) :
    backend.accumulateFor fusion task start steps =
      sweep task 8 backend.combineWide (task.length / laneCount) 0
          (Row.chain Lanes.zero task.rowBytes fusion 0 start) >>=
        sweep task 1 backend.combineOne (steps - task.length / laneCount)
          (laneCount * (task.length / laneCount)) := by
  simp only [accumulateFor, Nat.min_eq_right ones]

theorem accumulateAfter_of_le (wide : steps ≤ task.length / laneCount) (rows : List (Row (Lanes 8))) :
    backend.accumulateAfter task steps rows =
      sweep task 8 backend.combineWide (task.length / laneCount - steps) (8 * steps) rows >>=
        sweep task 1 backend.combineOne (task.length % laneCount)
          (laneCount * (task.length / laneCount)) := by
  simp only [accumulateAfter, Nat.min_eq_left wide, Nat.sub_eq_zero_of_le wide, Nat.sub_zero,
    Nat.add_zero]

theorem accumulateAfter_of_ge (ones : task.length / laneCount ≤ steps) (rows : List (Row (Lanes 8))) :
    backend.accumulateAfter task steps rows =
      sweep task 1 backend.combineOne (task.length % laneCount - (steps - task.length / laneCount))
        (laneCount * (task.length / laneCount) + (steps - task.length / laneCount)) rows := by
  simp only [accumulateAfter, Nat.sub_eq_zero_of_le ones, sweep, pure_bind]

theorem lanesFor_of_le (wide : steps ≤ length / laneCount) :
    backend.lanesFor x codes length steps =
      foldWindows backend.combineWide x codes steps 0 Lanes.zero := by
  simp only [lanesFor, Nat.min_eq_left wide, Nat.sub_eq_zero_of_le wide, foldWindows]

theorem lanesFor_of_ge (ones : length / laneCount ≤ steps) :
    backend.lanesFor x codes length steps =
      foldWindows backend.combineOne x codes (steps - length / laneCount)
        (laneCount * (length / laneCount))
        (foldWindows backend.combineWide x codes (length / laneCount) 0 Lanes.zero) := by
  simp only [lanesFor, Nat.min_eq_right ones]

end

/-- The kernel may be interrupted, in its steps of eight or in its single steps. -/
theorem accumulate_eq_for_after (backend : Backend) (fusion : Nat) (task : Task) (start : Address)
    {steps : Nat} (within : steps ≤ task.fusedSteps) :
    backend.accumulate fusion task start =
      backend.accumulateFor fusion task start steps >>= backend.accumulateAfter task steps := by
  unfold Task.fusedSteps at within
  rcases Nat.le_total steps (task.length / laneCount) with wide | ones
  · have blocks : task.length / laneCount = steps + (task.length / laneCount - steps) := by omega
    rw [accumulateFor_of_le _ _ _ _ wide, funext (accumulateAfter_of_le backend task wide),
      accumulate]
    nth_rewrite 1 [blocks]
    rw [sweep_add, bind_assoc, Nat.zero_add]
  · have singles : task.length % laneCount = steps - task.length / laneCount +
        (task.length % laneCount - (steps - task.length / laneCount)) := by omega
    rw [accumulateFor_of_ge _ _ _ _ ones, funext (accumulateAfter_of_ge backend task ones),
      accumulate]
    nth_rewrite 1 [singles]
    simp only [sweep_add, Nat.one_mul, bind_assoc]

/-- The final lanes are those on the way, with the windows after them combined in. -/
theorem lanes_eq_of_lanesFor (backend : Backend) (x : Nat → Single) (codes : Nat → Code)
    {length steps : Nat} (within : steps ≤ length / laneCount + length % laneCount) :
    backend.lanes x codes length =
      foldWindows backend.combineOne x codes (length % laneCount - (steps - length / laneCount))
        (laneCount * (length / laneCount) + (steps - length / laneCount))
        (foldWindows backend.combineWide x codes (length / laneCount - steps)
          (8 * min steps (length / laneCount)) (backend.lanesFor x codes length steps)) := by
  rcases Nat.le_total steps (length / laneCount) with wide | ones
  · have bulk := foldWindows_add backend.combineWide x codes steps (length / laneCount - steps) 0
      Lanes.zero
    rw [Nat.add_sub_cancel' wide, Nat.zero_add] at bulk
    rw [lanesFor_of_le _ _ _ wide, Nat.min_eq_left wide, ← bulk, Nat.sub_eq_zero_of_le wide]
    rfl
  · have inside : steps - length / laneCount ≤ length % laneCount := by omega
    have rest := foldWindows_add backend.combineOne x codes (steps - length / laneCount)
      (length % laneCount - (steps - length / laneCount)) (laneCount * (length / laneCount))
      (foldWindows backend.combineWide x codes (length / laneCount) 0 Lanes.zero)
    rw [Nat.add_sub_cancel' inside, Nat.one_mul] at rest
    rw [lanesFor_of_ge _ _ _ ones, Nat.sub_eq_zero_of_le ones]
    exact rest

end Backend

theorem Task.rowsAt_acc {Acc : Type} (task : Task) (start : Address) {fusion : Nat} (offset : Nat)
    (acc : Nat → Acc) :
    ∀ row < fusion, (task.rowsAt start fusion offset acc)[row]?.map Row.acc = some (acc row) := by
  intro row isRow
  rw [rowsAt, List.getElem?_map, List.getElem?_range isRow, Option.map_some, Option.map_some]

namespace Task.Readable

variable {task : Task} {fusion : Nat} {start : Address}

/-- The kernel gets to every one of its steps, with the lanes of what it has passed. -/
theorem exists_rows_accumulateFor (readable : task.Readable fusion start) (backend : Backend)
    {steps : Nat} (within : steps ≤ task.fusedSteps) (memory : Memory) :
    ∃ rows after, backend.accumulateFor fusion task start steps memory = some (rows, after) ∧
      ∀ row < fusion, rows[row]?.map Row.acc =
        some (backend.lanesFor task.single (task.codeAt start row) task.length steps) := by
  unfold fusedSteps at within
  have bulk := bulk_le task.length
  have whole := bulk_add_rest task.length
  rcases Nat.le_total steps (task.length / laneCount) with wide | ones
  · have ran := readable.sweep_apply (by decide) backend.combineWide
      (by omega : 0 + 8 * steps ≤ task.length) (fun _ => Lanes.zero) memory
    rw [Backend.accumulateFor_of_le _ _ _ _ wide, chain_eq_rowsAt]
    simp only [Backend.lanesFor_of_le _ _ _ wide]
    exact ⟨_, _, ran, rowsAt_acc task start _ _⟩
  · have ran := readable.sweep_apply (by decide) backend.combineWide bulk (fun _ => Lanes.zero) memory
    rw [Nat.zero_add] at ran
    have further := readable.sweep_apply (by decide) backend.combineOne
      (by omega : laneCount * (task.length / laneCount) + 1 * (steps - task.length / laneCount) ≤
        task.length)
    rw [Backend.accumulateFor_of_ge _ _ _ _ ones, chain_eq_rowsAt]
    simp only [Backend.lanesFor_of_ge _ _ _ ones]
    exact ⟨_, _, (bind_of_some ran).trans (further _ _), rowsAt_acc task start _ _⟩

end Task.Readable

end LaneDot
