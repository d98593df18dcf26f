import LaneDot.Proofs.Session.Routes

/-!
# What a call depends on and what it changes

A checked call depends on its task: on the stream up to the length and on the
codes in the windows of its rows.  It changes the sums of its rows.  What the
buffers hold elsewhere, how long they are, where they lie and what the sums
held before has no influence, and a refused call changes nothing.
-/

namespace LaneDot

/-- Rows of one shape over buffers that agree on the stream and in every row window. -/
structure Task.AgreeOn (fusion : Nat) (task task' : Task) : Prop where
  stride : task.stride = task'.stride
  length : task.length = task'.length
  stream : ∀ index < task.length, task.x[index]? = task'.x[index]?
  windows : ∀ row < fusion, ∀ offset < task.length,
    task.y.codes[task.rowOffset row + offset]? = task'.y.codes[task.rowOffset row + offset]?

structure KeptBeyond (fusion : Nat) (before after : Array Single) : Prop where
  size : after.size = before.size
  kept : ∀ index, fusion ≤ index → after[index]? = before[index]?

theorem getElem!_congr {α : Type} [Inhabited α] {first second : Array α} {index : Nat}
    (same : first[index]? = second[index]?) : first[index]! = second[index]! := by
  rw [getElem!_def, getElem!_def, same]

theorem keptBeyond_writeSums (sum : Array Single) (count : Nat) (value : Nat → Single) :
    KeptBeyond count sum (writeSums sum count value) where
  size := size_writeSums sum count value
  kept _ outside := getElem?_writeSums_of_le value outside

namespace Task

variable {task task' : Task} {fusion sums sums' : Nat}

theorem AgreeOn.single_eq (agree : task.AgreeOn fusion task') {index : Nat}
    (inside : index < task.length) : task.single index = task'.single index :=
  getElem!_congr (agree.stream index inside)

/-- Rows of accepted tasks begin at one offset, so codes that agree there are the codes of the rows. -/
theorem AgreeOn.codeAt_eq (agree : task.AgreeOn fusion task')
    (addressable : 2 * task.y.codes.size ≤ addressSpace)
    (addressable' : 2 * task'.y.codes.size ≤ addressSpace) (accepted : task.Accepted fusion sums)
    (accepted' : task'.Accepted fusion sums') {row offset : Nat} (isRow : row < fusion)
    (inside : offset < task.length) :
    task.codeAt task.y.origin row offset = task'.codeAt task'.y.origin row offset := by
  have nonempty : 0 < task.length := Nat.zero_lt_of_lt inside
  have nonempty' : 0 < task'.length := agree.length ▸ nonempty
  have offsets : task.rowOffset row = task'.rowOffset row := by
    rw [rowOffset, rowOffset, agree.stride]
  rw [codeAt, codeAt, accepted.rowStart_eq addressable nonempty isRow,
    accepted'.rowStart_eq addressable' nonempty' isRow, ← offsets]
  exact getElem!_congr (agree.windows row isRow offset inside)

end Task

namespace DotRoute

variable {task task' : Task} {dispatch : Dispatch} {level : Level} {fusion : Nat}
  {sum left : Array Single}

/-- What an accepted call says about its task, and the sums that it leaves. -/
theorem eq_rowSums_of_checked (addressable : 2 * task.y.codes.size ≤ addressSpace)
    (ran : (checked fusion).outcome? dispatch task sum = some (.ok (), left)) :
    task.Accepted fusion sum.size ∧ left = rowSums dispatch.level task fusion sum := by
  rw [outcome?_checked addressable, Option.some.injEq, answer] at ran
  split at ran
  · next accepts =>
      exact ⟨Task.accepted_of_check addressable accepts, (Prod.mk.inj ran).2.symm⟩
  · cases ran

theorem getElem?_rowSums (room : fusion ≤ sum.size) {row : Nat} (isRow : row < fusion) :
    (rowSums level task fusion sum)[row]? =
      some (level.backend.rowSum task.single (task.codeAt task.y.origin row) task.length) :=
  getElem?_writeSums _ isRow room

theorem fst_answer (level : Level) (task : Task) (fusion : Nat) (sum : Array Single) :
    (answer level task fusion sum).1 = (task.extents fusion sum.size).check := by
  rw [answer]
  split
  · next accepts => exact accepts.symm
  · next refused => exact refused.symm

theorem answer_of_refused (level : Level) (task : Task) (sum : Array Single)
    (refused : (answer level task fusion sum).1 ≠ .ok ()) :
    (answer level task fusion sum).2 = sum := by
  rw [answer] at refused ⊢
  split
  · next accepts =>
      rw [accepts] at refused
      exact absurd rfl refused
  · rfl

/--
Nothing outside the task influences the sums, and nothing outside the sums of
the rows changes.  Two accepted calls at one level, on buffers that agree on
the stream and in the row windows, leave the same bits in the sums of the rows,
whatever the buffers hold elsewhere and the sums held before, and each keeps
its sums beyond the rows.  Every checked call and every call through a table of
the machine has an outcome, which is that of the check, and a refused one leaves
the sums as they were.
-/
theorem calls_depend_on_task (addressable : 2 * task.y.codes.size ≤ addressSpace)
    (addressable' : 2 * task'.y.codes.size ≤ addressSpace) (dispatch : Dispatch) (fusion : Nat)
    (sum sum' : Array Single) :
    (∀ left left', task.AgreeOn fusion task' →
      (checked fusion).outcome? dispatch task sum = some (.ok (), left) →
      (checked fusion).outcome? dispatch task' sum' = some (.ok (), left') →
      (∀ row < fusion, ∃ bits, left[row]? = some bits ∧ left'[row]? = some bits) ∧
      KeptBeyond fusion sum left ∧ KeptBeyond fusion sum' left') ∧
    (∃ verdict left, verdict = (task.extents fusion sum.size).check ∧
      (checked fusion).outcome? dispatch task sum = some (verdict, left) ∧
      (verdict ≠ .ok () → left = sum)) ∧
    ∀ choice : Choice, choice.Available dispatch.machine →
      ∃ verdict left, verdict = (task.extents sum.size sum.size).check ∧
        (table choice).outcome? dispatch task sum = some (verdict, left) ∧
        (verdict ≠ .ok () → left = sum) := by
  refine ⟨?_, ?_, ?_⟩
  · intro left left' agree ran ran'
    obtain ⟨accepted, rfl⟩ := eq_rowSums_of_checked addressable ran
    obtain ⟨accepted', rfl⟩ := eq_rowSums_of_checked addressable' ran'
    refine ⟨?_, keptBeyond_writeSums _ _ _, keptBeyond_writeSums _ _ _⟩
    intro row isRow
    refine ⟨_, getElem?_rowSums accepted.output isRow, ?_⟩
    rw [getElem?_rowSums accepted'.output isRow, ← agree.length,
      Backend.rowSum_congr _ (fun index inside => agree.single_eq inside) fun offset inside =>
        agree.codeAt_eq addressable addressable' accepted accepted' isRow inside]
  · exact ⟨_, _, fst_answer dispatch.level task fusion sum,
      outcome?_checked addressable dispatch fusion sum,
      answer_of_refused dispatch.level task sum⟩
  · intro choice available
    exact ⟨_, _, fst_answer (choice.level dispatch.level) task sum.size sum,
      outcome?_table addressable available sum, answer_of_refused _ task sum⟩

/-- Ones in two rows with a gap after each, and one more element at the end of the stream. -/
def spacedProducts (beyond : Single) (gap : Code) : Task where
  x := Array.replicate 9 .one ++ #[beyond]
  y := ⟨Array.replicate 9 .one ++ #[gap] ++ Array.replicate 9 .one ++ #[gap], 0⟩
  stride := 5
  length := 9

/-- Large codes in the gaps and a NaN after the stream leave the sums of the rows alone. -/
theorem calls_depend_on_task_spacedProducts :
    (spacedProducts .one .one).AgreeOn 2 (spacedProducts .nan .max) ∧
    ∃ left left',
      (checked 2).outcome? vectors (spacedProducts .one .one) #[.half, .half] = some (.ok (), left) ∧
      (checked 2).outcome? vectors (spacedProducts .nan .max) #[.nan, .one, .half] =
        some (.ok (), left') ∧
      (∃ bits, left[1]? = some bits ∧ left'[1]? = some bits) ∧ left'[2]? = some .half := by
  have agree : (spacedProducts .one .one).AgreeOn 2 (spacedProducts .nan .max) :=
    ⟨rfl, rfl, by decide, by decide⟩
  have addressable : 2 * (spacedProducts .one .one).y.codes.size ≤ addressSpace := by decide
  have addressable' : 2 * (spacedProducts .nan .max).y.codes.size ≤ addressSpace := by decide
  obtain ⟨same, ⟨verdict, left, isVerdict, ran, -⟩, -⟩ := calls_depend_on_task addressable
    addressable' vectors 2 #[.half, .half] #[.nan, .one, .half]
  obtain ⟨-, ⟨verdict', left', isVerdict', ran', -⟩, -⟩ := calls_depend_on_task addressable'
    addressable vectors 2 #[.nan, .one, .half] #[.half, .half]
  obtain rfl : verdict = .ok () := isVerdict.trans (by decide)
  obtain rfl : verdict' = .ok () := isVerdict'.trans (by decide)
  obtain ⟨rows, -, beyond⟩ := same left left' agree ran ran'
  exact ⟨agree, left, left', ran, ran', rows 1 (by decide), beyond.kept 2 (by decide)⟩

end DotRoute

end LaneDot
