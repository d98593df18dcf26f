import LaneDot.Proofs.Coverage
import LaneDot.Proofs.Dispatch
import LaneDot.Proofs.Kernel.RowSum

/-!
# Accepted calls stay inside their buffers

The check of a call counts codes in unbounded arithmetic, while the kernel
doubles the stride and steps from row to row with wrapping addresses.  On
accepted buffers the two agree on where every row lies, so the record of a run
can be compared with the task: each read takes elements of the stream, or codes
of the row it is made for, and each sum is written once.
-/

namespace LaneDot

/-! ## Accesses that belong to a task -/

def Task.rowOffset (task : Task) (row : Nat) : Nat :=
  2 * task.stride.toNat * row

/-- Access of a task: eight elements or one of the stream or of a row, or the sum of a row. -/
inductive Access.BelongsTo (task : Task) (fusion : Nat) : Access → Prop where
  | readX {start width : Nat} (shape : width = 8 ∨ width = 1) (inside : start + width ≤ task.length) :
      BelongsTo task fusion (.readX start width)
  | readRow {row start width : Nat} (shape : width = 8 ∨ width = 1) (isRow : row < fusion)
      (after : task.rowOffset row ≤ start)
      (inside : start + width ≤ task.rowOffset row + task.length) :
      BelongsTo task fusion (.readRow row start width)
  | writeSum {index : Nat} (isRow : index < fusion) : BelongsTo task fusion (.writeSum index)

def Access.written? : Access → Option Nat
  | .writeSum index => some index
  | _ => none

namespace Task

variable {task : Task} {fusion : Nat} {start : Address}

theorem written?_stepAccesses (width offset : Nat) :
    (task.stepAccesses start fusion width offset).filterMap Access.written? = [] := by
  simp [stepAccesses, Access.written?]

theorem written?_sweepAccesses (width steps offset : Nat) :
    (task.sweepAccesses start fusion width steps offset).filterMap Access.written? = [] := by
  induction steps generalizing offset with
  | zero => rfl
  | succ steps ih =>
      rw [sweepAccesses, List.filterMap_append, written?_stepAccesses, ih, List.nil_append]

/-- The reads of a step belong to the task when its window lies in the stream. -/
theorem stepAccesses_belong {width offset : Nat} (shape : width = 8 ∨ width = 1)
    (starts : ∀ row < fusion, task.rowStart start row = task.rowOffset row)
    (inside : offset + width ≤ task.length) :
    ∀ access ∈ task.stepAccesses start fusion width offset, access.BelongsTo task fusion := by
  intro access member
  rcases List.mem_cons.mp member with rfl | ofRow
  · exact .readX shape inside
  obtain ⟨row, isRow, rfl⟩ := List.mem_map.mp ofRow
  have isRow := List.mem_range.mp isRow
  rw [starts row isRow]
  exact .readRow shape isRow (by omega) (by omega)

/-- The reads of a sweep belong to the task; a sweep over nothing reads nothing. -/
theorem sweepAccesses_belong {width steps offset : Nat} (shape : width = 8 ∨ width = 1)
    (starts : 0 < task.length → ∀ row < fusion, task.rowStart start row = task.rowOffset row)
    (inside : offset + width * steps ≤ task.length) :
    ∀ access ∈ task.sweepAccesses start fusion width steps offset, access.BelongsTo task fusion := by
  induction steps generalizing offset with
  | zero => exact fun access member => nomatch member
  | succ steps ih =>
      have extent : offset + width * (steps + 1) = offset + width + width * steps := by ring
      rw [extent] at inside
      intro access member
      rcases List.mem_append.mp member with first | later
      · exact stepAccesses_belong shape (starts (by omega)) (by omega) access first
      · exact ih inside access later

theorem fusedReads_belong
    (starts : 0 < task.length → ∀ row < fusion, task.rowStart start row = task.rowOffset row) :
    ∀ access ∈ task.fusedReads start fusion, access.BelongsTo task fusion := by
  intro access member
  rcases List.mem_append.mp member with wide | single
  · exact sweepAccesses_belong (Or.inl rfl) starts (bulk_le task.length) access wide
  · exact sweepAccesses_belong (Or.inr rfl) starts (bulk_add_rest task.length).le access single

theorem written?_fusedReads :
    (task.fusedReads start fusion).filterMap Access.written? = [] := by
  rw [fusedReads, List.filterMap_append, written?_sweepAccesses, written?_sweepAccesses,
    List.nil_append]

theorem fusedReads_of_empty (empty : task.length = 0) : task.fusedReads start fusion = [] := by
  rw [fusedReads, empty]
  rfl

/-! ## Accepted extents -/

structure Accepted (task : Task) (fusion sums : Nat) : Prop where
  positive : 0 < fusion
  supported : fusion ≤ maxFusion
  output : fusion ≤ sums
  stream : task.length ≤ task.x.size
  rows : 0 < task.length → ∀ row < fusion, task.rowOffset row + task.length ≤ task.y.codes.size

theorem accepted_of_check {sums : Nat} (addressable : 2 * task.y.codes.size ≤ addressSpace)
    (passes : (task.extents fusion sums).check = .ok ()) : task.Accepted fusion sums := by
  have codes : (task.extents fusion sums).yLength < addressSpace := by
    change task.y.codes.size < addressSpace
    rw [addressSpace_eq] at addressable ⊢
    omega
  cases (Extents.check_eq_iff codes).mp passes with
  | empty admitted isEmpty =>
      obtain ⟨positive, supported, output, stream⟩ := admitted
      exact ⟨positive, supported, output, stream, fun nonempty => absurd isEmpty nonempty.ne'⟩
  | covered admitted nonempty all =>
      obtain ⟨positive, supported, output, stream⟩ := admitted
      exact ⟨positive, supported, output, stream, fun _ => all⟩

namespace Accepted

variable {sums : Nat}

/-- The wrapping steps of the kernel lead to the offset that the check computes. -/
theorem rowStart_eq (accepted : task.Accepted fusion sums)
    (addressable : 2 * task.y.codes.size ≤ addressSpace) (nonempty : 0 < task.length) {row : Nat}
    (isRow : row < fusion) : task.rowStart task.y.origin row = task.rowOffset row := by
  have covered := accepted.rows nonempty row isRow
  have first : task.y.address 0 = task.y.origin := by
    rw [CodeBuffer.address, codeBytes_zero, UInt64.add_zero]
  have inside : 0 + 2 * task.stride.toNat * row < task.y.codes.size := by
    rw [Nat.zero_add]
    exact (Nat.lt_add_of_pos_right nonempty).trans_le covered
  have placed := rowStart_address addressable inside
  rwa [first, Nat.zero_add] at placed

theorem covers (accepted : task.Accepted fusion sums)
    (addressable : 2 * task.y.codes.size ≤ addressSpace) :
    task.Covers fusion task.y.origin sums where
  addressable := addressable
  stream := accepted.stream
  windows row isRow offset inside := by
    have nonempty : 0 < task.length := Nat.zero_lt_of_lt inside
    rw [accepted.rowStart_eq addressable nonempty isRow]
    exact (Nat.add_lt_add_left inside _).trans_le (accepted.rows nonempty row isRow)
  output := accepted.output

end Accepted

end Task

/-! ## Confined runs -/

/-- A run from a fresh record has recorded its accesses, the latest first. -/
theorem Memory.reverse_accesses (sum : Array Single) (count : Nat) (value : Nat → Single)
    (accesses : List Access) :
    (((ofSum sum).withSums count value).recordAll accesses).accesses.reverse = accesses := by
  simp [ofSum, withSums, recordAll]

/-- A run of an accepted task that started on an output buffer and left its buffers nowhere. -/
structure Memory.Confined (task : Task) (fusion : Nat) (sum : Array Single) (memory : Memory) :
    Prop where
  accepted : task.Accepted fusion sum.size
  accesses : ∀ access ∈ memory.accesses, access.BelongsTo task fusion
  /-- The stores hit the sums of the rows in order, each once. -/
  stores : memory.accesses.reverse.filterMap Access.written? = List.range fusion
  /-- An empty task reads nothing. -/
  empty : task.length = 0 → ∀ access ∈ memory.accesses, ∃ index, access = .writeSum index
  size : memory.sum.size = sum.size
  kept : ∀ index, fusion ≤ index → memory.sum[index]? = sum[index]?

namespace Task.Accepted

variable {task : Task} {fusion : Nat} {sum : Array Single}

theorem exists_confined (accepted : task.Accepted fusion sum.size)
    (addressable : 2 * task.y.codes.size ≤ addressSpace) (backend : Backend) :
    ∃ memory, backend.fused fusion task task.y.origin (.ofSum sum) = some ((), memory) ∧
      memory.Confined task fusion sum := by
  have ran := @Readable.fused_apply task fusion task.y.origin (accepted.covers addressable).toReadable
    backend (.ofSum sum) accepted.output
  refine ⟨_, ran, accepted, ?_, ?_, ?_, size_writeSums _ _ _, ?_⟩
  · intro access member
    rw [← List.mem_reverse, Memory.reverse_accesses, List.mem_append] at member
    rcases member with read | write
    · exact fusedReads_belong
        (fun nonempty row isRow => accepted.rowStart_eq addressable nonempty isRow) access read
    · obtain ⟨index, isRow, rfl⟩ := List.mem_map.mp write
      exact .writeSum (List.mem_range.mp isRow)
  · rw [Memory.reverse_accesses, List.filterMap_append, written?_fusedReads, List.nil_append,
      List.filterMap_map]
    exact List.filterMap_some
  · intro empty access member
    rw [← List.mem_reverse, Memory.reverse_accesses, fusedReads_of_empty empty,
      List.nil_append] at member
    obtain ⟨index, -, rfl⟩ := List.mem_map.mp member
    exact ⟨index, rfl⟩
  · exact fun index outside => getElem?_writeSums_of_le _ outside

end Task.Accepted

/-! ## Checked calls -/

/--
A call answers what the check of its extents says.  An accepted call stays
inside its buffers, and a refused one accesses nothing.
-/
def Task.Confines (task : Task) (fusion : Nat) (sum : Array Single)
    (call : AccessM (Except DotError Unit)) : Prop :=
  ∃ answer memory, call (.ofSum sum) = some (answer, memory) ∧
    answer = (task.extents fusion sum.size).check ∧
    (answer = .ok () → memory.Confined task fusion sum) ∧ (answer ≠ .ok () → memory = .ofSum sum)

namespace Task

variable {task : Task}

/-- A call that does what the check says confines its accesses. -/
theorem confines_of_check (addressable : 2 * task.y.codes.size ≤ addressSpace) {fusion : Nat}
    {sum : Array Single} {call : AccessM (Except DotError Unit)} (backend : Backend)
    (refuses : ∀ error, (task.extents fusion sum.size).check = .error error →
      call (.ofSum sum) = some (.error error, .ofSum sum))
    (accepts : (task.extents fusion sum.size).check = .ok () → ∀ memory,
      backend.fused fusion task task.y.origin (.ofSum sum) = some ((), memory) →
      call (.ofSum sum) = some (.ok (), memory)) :
    task.Confines fusion sum call := by
  rcases verdict : (task.extents fusion sum.size).check with error | ⟨⟩
  · exact ⟨.error error, .ofSum sum, refuses error verdict, verdict.symm, nofun, fun _ => rfl⟩
  · have accepted := accepted_of_check addressable verdict
    obtain ⟨memory, ran, confined⟩ := accepted.exists_confined addressable backend
    exact ⟨.ok (), memory, accepts verdict memory ran, verdict.symm, fun _ => confined,
      fun refused => absurd rfl refused⟩

theorem confines_checkedDot (addressable : 2 * task.y.codes.size ≤ addressSpace)
    (dispatch : Dispatch) (fusion : Nat) (sum : Array Single) :
    task.Confines fusion sum ((checkedDot fusion task).run' dispatch) :=
  confines_of_check addressable dispatch.level.backend
    (fun _ refused => DispatchT.run'_of_some (checkedDot_of_refused refused))
    fun accepts _ ran => DispatchT.run'_of_some (checkedDot_of_accepted accepts ran)

/-- A table refuses a fusion factor that the check would refuse with the same error. -/
theorem confines_tableCall (addressable : 2 * task.y.codes.size ≤ addressSpace) (level : Level)
    (sum : Array Single) : task.Confines sum.size sum ((Table.ofLevel level).call task) :=
  confines_of_check addressable level.backend (fun _ => Table.call_of_refused)
    fun accepts _ => Table.call_of_accepted accepts

/-- One row is accepted at every stride, since row zero takes no steps. -/
theorem check_single_row (task : Task) {sums : Nat} (addressable : task.y.codes.size < addressSpace)
    (output : 0 < sums) (stream : task.length ≤ task.x.size)
    (codes : task.length ≤ task.y.codes.size) : (task.extents 1 sums).check = .ok () := by
  have admitted : (task.extents 1 sums).Admitted := ⟨Nat.one_pos, Nat.one_le_ofNat, output, stream⟩
  rcases Nat.eq_zero_or_pos task.length with isEmpty | nonempty
  · exact (Extents.check_eq_iff addressable).mpr (.empty admitted isEmpty)
  · have last : (task.extents 1 sums).need 0 ≤ task.y.codes.size := by
      rw [Extents.need, Nat.mul_zero, Nat.zero_add]
      exact codes
    exact (admitted.check_eq_ok_iff addressable nonempty).mpr last

/--
Accepted calls never leave their buffers.  A checked call for a fusion factor,
whichever level it is dispatched to, and a call through the table of a level
answer what the check says; when it accepts, every read lies in the stream or
in the row it is made for, the sums of the rows are stored once each, and an
empty task reads nothing.  For one row this covers every stride, since the check
accepts them all.
-/
theorem accepted_confined (addressable : 2 * task.y.codes.size ≤ addressSpace) (level : Level)
    (sum : Array Single) :
    (∀ (dispatch : Dispatch) (fusion : Nat),
      task.Confines fusion sum ((checkedDot fusion task).run' dispatch)) ∧
    task.Confines sum.size sum ((Table.ofLevel level).call task) ∧
    (0 < sum.size → task.length ≤ task.x.size → task.length ≤ task.y.codes.size →
      (task.extents 1 sum.size).check = .ok ()) := by
  refine ⟨fun dispatch fusion => confines_checkedDot addressable dispatch fusion sum,
    confines_tableCall addressable level sum, ?_⟩
  · have codes : task.y.codes.size < addressSpace := by
      rw [addressSpace_eq] at addressable ⊢
      omega
    exact task.check_single_row codes

/-- The ones as a single row, at a stride whose double wraps to zero. -/
def wrappedProducts : Task :=
  { unitProducts with stride := 0x8000000000000000 }

theorem accepted_confined_wrappedProducts :
    wrappedProducts.stride + wrappedProducts.stride = 0 ∧
    ∃ memory, (checkedDot 1 wrappedProducts).run' (.settled .full .avx2 rfl) (.ofSum #[.half]) =
      some (.ok (), memory) ∧ memory.Confined wrappedProducts 1 #[.half] := by
  have addressable : 2 * wrappedProducts.y.codes.size ≤ addressSpace := by decide
  obtain ⟨calls, -, single⟩ := accepted_confined addressable .avx2 #[.half]
  obtain ⟨answer, memory, ran, verdict, confined, -⟩ := calls (.settled .full .avx2 rfl) 1
  have accepts : answer = .ok () :=
    verdict.trans (single (by decide) (by decide) (by decide))
  subst accepts
  exact ⟨rfl, memory, ran, confined rfl⟩

end Task

end LaneDot
