import LaneDot.Proofs.Kernel.Placement

/-!
# Runs of a kernel

A kernel whose reads and writes stay inside the buffers has a result, and the
result is a fold: after any number of steps every row's cursor has moved on by
what the shared stream has moved on, and its accumulator has combined exactly
the windows passed so far.  The record of accesses is known as well.
-/

namespace LaneDot

/-! ## Computations that access buffers -/

theorem bind_of_some {σ α β : Type} {first : StateT σ Option α} {next : α → StateT σ Option β}
    {state after : σ} {value : α} (ran : first state = some (value, after)) :
    (first >>= next) state = next value after := by
  change (first state).bind (fun result => next result.1 result.2) = _
  rw [ran]
  rfl

namespace Memory

def recordAll (memory : Memory) (accesses : List Access) : Memory :=
  { memory with accesses := accesses.reverse ++ memory.accesses }

theorem recordAll_cons (memory : Memory) (access : Access) (rest : List Access) :
    memory.recordAll (access :: rest) = (memory.record access).recordAll rest := by
  simp [recordAll, record]

theorem recordAll_append (memory : Memory) (first second : List Access) :
    memory.recordAll (first ++ second) = (memory.recordAll first).recordAll second := by
  simp [recordAll]

end Memory

namespace AccessM

variable {α β : Type}

/-- A loop of reads, each with a known value and access. -/
theorem mapM_of_reads {read : α → AccessM β} {value : α → β} {access : α → Access} {list : List α}
    (reads : ∀ item ∈ list, ∀ memory, read item memory = some (value item, memory.record (access item)))
    (memory : Memory) :
    list.mapM read memory = some (list.map value, memory.recordAll (list.map access)) := by
  induction list generalizing memory with
  | nil => rfl
  | cons item rest ih =>
      have head := reads item List.mem_cons_self memory
      have tail := ih (fun other member => reads other (List.mem_cons_of_mem item member))
        (memory.record (access item))
      rw [List.mapM_cons, bind_of_some head, bind_of_some tail, List.map_cons, List.map_cons,
        Memory.recordAll_cons]
      rfl

end AccessM

/-! ## Steps over the stream -/

def window {α : Type} (values : Nat → α) (start width : Nat) : Vector α width :=
  Vector.ofFn fun lane => values (start + lane.val)

theorem window_congr {α : Type} {values others : Nat → α} {start width : Nat}
    (same : ∀ index < start + width, values index = others index) :
    window values start width = window others start width := by
  apply Vector.ext
  intro lane inside
  rw [window, window, Vector.getElem_ofFn, Vector.getElem_ofFn]
  exact same _ (by omega)

def foldWindows {Acc : Type} {width : Nat} (combine : Lanes width → Vector Code width → Acc → Acc)
    (x : Nat → Single) (codes : Nat → Code) : Nat → Nat → Acc → Acc
  | 0, _, acc => acc
  | steps + 1, start, acc =>
      foldWindows combine x codes steps (start + width)
        (combine (window x start width) (window codes start width) acc)

theorem foldWindows_congr {Acc : Type} {width : Nat}
    {combine : Lanes width → Vector Code width → Acc → Acc} {x x' : Nat → Single}
    {codes codes' : Nat → Code} {steps start : Nat}
    (stream : ∀ index, index < start + width * steps → x index = x' index)
    (row : ∀ index, index < start + width * steps → codes index = codes' index) (acc : Acc) :
    foldWindows combine x codes steps start acc = foldWindows combine x' codes' steps start acc := by
  induction steps generalizing start acc with
  | zero => rfl
  | succ steps ih =>
      have extent : start + width * (steps + 1) = start + width + width * steps := by ring
      rw [extent] at stream row
      have xs : window x start width = window x' start width :=
        window_congr fun index below => stream index (by omega)
      have cs : window codes start width = window codes' start width :=
        window_congr fun index below => row index (by omega)
      rw [foldWindows, foldWindows, xs, cs]
      exact ih stream row _

namespace Task

variable {Acc : Type}

def rowsAt (task : Task) (start : Address) (fusion offset : Nat) (acc : Nat → Acc) :
    List (Row Acc) :=
  (List.range fusion).map fun row => ⟨row, task.cursor start row offset, acc row⟩

theorem rowsAt_succ (task : Task) (start : Address) (fusion offset : Nat) (acc : Nat → Acc) :
    task.rowsAt start (fusion + 1) offset acc =
      task.rowsAt start fusion offset acc ++
        [⟨fusion, task.cursor start fusion offset, acc fusion⟩] := by
  rw [rowsAt, List.range_succ, List.map_append]
  rfl

/-- The accesses of one step: the window of the stream, then the window of each row. -/
def stepAccesses (task : Task) (start : Address) (fusion width offset : Nat) : List Access :=
  .readX offset width ::
    (List.range fusion).map fun row => .readRow row (task.rowStart start row + offset) width

def sweepAccesses (task : Task) (start : Address) (fusion width : Nat) : Nat → Nat → List Access
  | 0, _ => []
  | steps + 1, offset =>
      task.stepAccesses start fusion width offset ++
        task.sweepAccesses start fusion width steps (offset + width)

theorem chain_eq_rowsAt (task : Task) (start : Address) (fusion : Nat) (acc : Acc) :
    Row.chain acc task.rowBytes fusion 0 start = task.rowsAt start fusion 0 fun _ => acc := by
  have rows (count index : Nat) (cursor : Address) : Row.chain acc task.rowBytes count index cursor =
      (List.range count).map fun place =>
        ⟨index + place, cursor + .ofNat place * task.rowBytes, acc⟩ := by
    apply List.ext_getElem?
    intro place
    rcases Nat.lt_or_ge place count with inside | outside
    · simp [Row.getElem?_chain acc task.rowBytes count index cursor place inside, inside]
    · simp [Row.length_chain, outside]
  simp only [rows, rowsAt, cursor_zero, Nat.zero_add]

namespace Readable

variable {task : Task} {fusion : Nat} {start : Address}

theorem readX_apply (readable : task.Readable fusion start) {offset width : Nat}
    (inside : offset + width ≤ task.length) (memory : Memory) :
    readX task.x offset width memory =
      some (window task.single offset width, memory.record (.readX offset width)) := by
  have within : offset + width ≤ task.x.size := Nat.le_trans inside readable.stream
  have values : (Vector.ofFn fun lane : Fin width => task.x[offset + lane.val]) =
      window task.single offset width := by
    apply Vector.ext
    intro lane below
    rw [window, Vector.getElem_ofFn, Vector.getElem_ofFn, single, getElem!_pos]
  rw [readX_of_le within, values]

theorem advance_apply (readable : task.Readable fusion start) {row offset width : Nat}
    (isRow : row < fusion) (inside : offset + width ≤ task.length) (moves : 0 < width)
    (combine : Vector Code width → Acc → Acc) (acc : Acc) (memory : Memory) :
    Row.advance task.y combine ⟨row, task.cursor start row offset, acc⟩ memory =
      some (⟨row, task.cursor start row (offset + width),
          combine (window (task.codeAt start row) offset width) acc⟩,
        memory.record (.readRow row (task.rowStart start row + offset) width)) := by
  have index := readable.index_cursor isRow (by omega : offset < task.length)
  have last := readable.windows row isRow (offset + (width - 1)) (by omega)
  have within : task.y.index (task.cursor start row offset) + width ≤ task.y.codes.size := by
    rw [index]
    omega
  have values : (Vector.ofFn fun lane : Fin width =>
      task.y.codes[task.y.index (task.cursor start row offset) + lane.val]) =
        window (task.codeAt start row) offset width := by
    apply Vector.ext
    intro lane below
    rw [window, Vector.getElem_ofFn, Vector.getElem_ofFn, codeAt, ← Nat.add_assoc, ← index,
      getElem!_pos]
  have read := readRow_of_le within row memory
  rw [values, index] at read
  rw [Row.advance, bind_of_some read, cursor_add]
  rfl

/-- A step over all rows moves every cursor by the width of the shared window. -/
theorem step_apply (readable : task.Readable fusion start) {offset width : Nat}
    (inside : offset + width ≤ task.length) (moves : 0 < width)
    (combine : Vector Code width → Acc → Acc) (acc : Nat → Acc) (memory : Memory) :
    (task.rowsAt start fusion offset acc).mapM (Row.advance task.y combine) memory =
      some (task.rowsAt start fusion (offset + width) (fun row =>
          combine (window (task.codeAt start row) offset width) (acc row)),
        memory.recordAll ((List.range fusion).map fun row =>
          .readRow row (task.rowStart start row + offset) width)) := by
  rw [rowsAt, List.mapM_map]
  exact AccessM.mapM_of_reads
    (fun row member memory =>
      readable.advance_apply (List.mem_range.mp member) inside moves combine (acc row) memory)
    memory

/-- The rows after some steps: cursors moved on, windows combined, accesses recorded. -/
theorem sweep_apply (readable : task.Readable fusion start) {width : Nat} (moves : 0 < width)
    (combine : Lanes width → Vector Code width → Acc → Acc) {steps offset : Nat}
    (inside : offset + width * steps ≤ task.length) (acc : Nat → Acc) (memory : Memory) :
    sweep task width combine steps offset (task.rowsAt start fusion offset acc) memory =
      some (task.rowsAt start fusion (offset + width * steps) (fun row =>
          foldWindows combine task.single (task.codeAt start row) steps offset (acc row)),
        memory.recordAll (task.sweepAccesses start fusion width steps offset)) := by
  induction steps generalizing offset acc memory with
  | zero => rfl
  | succ steps ih =>
      have extent : offset + width * (steps + 1) = offset + width + width * steps := by ring
      rw [extent] at inside ⊢
      have first : offset + width ≤ task.length := by omega
      -- after the step all rows stand at one offset again, so the rest is a sweep from there
      rw [sweep, bind_of_some (readable.readX_apply first memory),
        bind_of_some (readable.step_apply first moves _ acc _), ih inside]
      rw [sweepAccesses, Memory.recordAll_append, stepAccesses, Memory.recordAll_cons]
      rfl

end Readable

end Task

/-! ## Writing the sums -/

def writeSums (sum : Array Single) (count : Nat) (value : Nat → Single) : Array Single :=
  sum.mapIdx fun index old => if index < count then value index else old

theorem size_writeSums (sum : Array Single) (count : Nat) (value : Nat → Single) :
    (writeSums sum count value).size = sum.size := by
  simp [writeSums]

theorem getElem?_writeSums {sum : Array Single} {count index : Nat} (value : Nat → Single)
    (inside : index < count) (room : count ≤ sum.size) :
    (writeSums sum count value)[index]? = some (value index) := by
  have within : index < sum.size := Nat.lt_of_lt_of_le inside room
  simp [writeSums, inside, within]

theorem getElem?_writeSums_of_le {sum : Array Single} {count index : Nat} (value : Nat → Single)
    (outside : count ≤ index) : (writeSums sum count value)[index]? = sum[index]? := by
  simp [writeSums, Nat.not_lt.mpr outside]

theorem set_writeSums {sum : Array Single} {count : Nat} (value : Nat → Single)
    (inside : count < (writeSums sum count value).size) :
    (writeSums sum count value).set count (value count) = writeSums sum (count + 1) value := by
  apply Array.ext
  · simp [writeSums]
  · intro index first second
    rw [Array.getElem_set]
    by_cases same : count = index
    · simp [writeSums, same]
    · have order : index ≤ count ↔ index < count := by omega
      simp [writeSums, same, order]

theorem writeSums_zero (sum : Array Single) (value : Nat → Single) : writeSums sum 0 value = sum := by
  apply Array.ext
  · exact size_writeSums sum 0 value
  · intro index first second
    simp [writeSums]

def Memory.withSums (memory : Memory) (count : Nat) (value : Nat → Single) : Memory :=
  { memory with sum := writeSums memory.sum count value }

theorem Task.finish_apply {Acc : Type} (task : Task) (start : Address) (offset : Nat)
    (acc : Nat → Acc) (total : Acc → Single) {fusion : Nat} {memory : Memory}
    (room : fusion ≤ memory.sum.size) :
    (task.rowsAt start fusion offset acc).forM (Row.finish total) memory =
      some ((), (memory.withSums fusion fun row => total (acc row)).recordAll
        ((List.range fusion).map .writeSum)) := by
  induction fusion with
  | zero =>
      rw [Memory.withSums, writeSums_zero]
      rfl
  | succ fusion ih =>
      have within : fusion < (writeSums memory.sum fusion fun row => total (acc row)).size := by
        rw [size_writeSums]
        exact room
      have last := @writeSum_of_lt fusion
        ((memory.withSums fusion fun row => total (acc row)).recordAll
          ((List.range fusion).map .writeSum)) within (total (acc fusion))
      have earlier := ih (Nat.le_of_succ_le room)
      have grown : memory.withSums (fusion + 1) (fun row => total (acc row)) =
          ⟨(writeSums memory.sum fusion fun row => total (acc row)).set fusion (total (acc fusion))
            within, memory.accesses⟩ :=
        congrArg (Memory.mk · memory.accesses) (set_writeSums (fun row => total (acc row)) within).symm
      rw [List.forM_eq_forM] at earlier ⊢
      rw [rowsAt_succ, List.forM_append, bind_of_some earlier, List.range_succ,
        List.map_append, Memory.recordAll_append, grown]
      exact bind_of_some last

/-! ## The kernels -/

theorem bulk_le (length : Nat) : 0 + 8 * (length / laneCount) ≤ length :=
  (Nat.zero_add _).trans_le (Nat.mul_div_le length 8)

theorem bulk_add_rest (length : Nat) :
    laneCount * (length / laneCount) + 1 * (length % laneCount) = length := by
  rw [Nat.one_mul, Nat.div_add_mod]

namespace Backend

def lanes (backend : Backend) (x : Nat → Single) (codes : Nat → Code) (length : Nat) : Lanes 8 :=
  foldWindows backend.combineOne x codes (length % laneCount) (laneCount * (length / laneCount))
    (foldWindows backend.combineWide x codes (length / laneCount) 0 Lanes.zero)

/-- The fused kernel up to the reduction: the rows with their final accumulators. -/
def accumulate (backend : Backend) (fusion : Nat) (task : Task) (start : Address) :
    AccessM (List (Row (Lanes 8))) := do
  let rows := Row.chain Lanes.zero task.rowBytes fusion 0 start
  let steps := task.length / laneCount
  let rows ← sweep task 8 backend.combineWide steps 0 rows
  sweep task 1 backend.combineOne (task.length % laneCount) (laneCount * steps) rows

theorem fused_eq_accumulate (backend : Backend) (fusion : Nat) (task : Task) (start : Address) :
    backend.fused fusion task start =
      backend.accumulate fusion task start >>= fun rows => rows.forM (Row.finish backend.total) := by
  simp only [fused, accumulate, bind_assoc]

end Backend

namespace Task

variable {task : Task} {fusion : Nat} {start : Address}

def fusedReads (task : Task) (start : Address) (fusion : Nat) : List Access :=
  task.sweepAccesses start fusion 8 (task.length / laneCount) 0 ++
    task.sweepAccesses start fusion 1 (task.length % laneCount)
      (laneCount * (task.length / laneCount))

theorem Readable.accumulate_apply (readable : task.Readable fusion start) (backend : Backend)
    (memory : Memory) :
    backend.accumulate fusion task start memory =
      some (task.rowsAt start fusion task.length (fun row =>
          backend.lanes task.single (task.codeAt start row) task.length),
        memory.recordAll (task.fusedReads start fusion)) := by
  have wide := readable.sweep_apply (by decide) backend.combineWide (bulk_le task.length)
    (fun _ => Lanes.zero) memory
  have ones := readable.sweep_apply (by decide) backend.combineOne
    (bulk_add_rest task.length).le
  rw [Nat.zero_add] at wide
  rw [bulk_add_rest] at ones
  rw [Backend.accumulate, chain_eq_rowsAt, bind_of_some wide, fusedReads,
    Memory.recordAll_append]
  exact ones _ _

/-- The fused kernel has a result, which leaves each row's reduced accumulator in its place. -/
theorem Readable.fused_apply (readable : task.Readable fusion start) (backend : Backend)
    {memory : Memory} (room : fusion ≤ memory.sum.size) :
    backend.fused fusion task start memory =
      some ((), (memory.withSums fusion fun row =>
          backend.total (backend.lanes task.single (task.codeAt start row) task.length)).recordAll
        (task.fusedReads start fusion ++ (List.range fusion).map .writeSum)) := by
  have kept : fusion ≤ (memory.recordAll (task.fusedReads start fusion)).sum.size := room
  have finish := task.finish_apply start task.length
    (fun row => backend.lanes task.single (task.codeAt start row) task.length) backend.total kept
  rw [Backend.fused_eq_accumulate, bind_of_some (readable.accumulate_apply backend memory),
    finish, Memory.recordAll_append]
  rfl

/-- The sequential kernel has a result, which leaves each row's running sum in its place. -/
theorem Readable.sequential_apply (readable : task.Readable fusion start) {memory : Memory}
    (room : fusion ≤ memory.sum.size) :
    sequential fusion task start memory =
      some ((), (memory.withSums fusion fun row =>
          foldWindows combineRounded task.single (task.codeAt start row) task.length 0 .zero).recordAll
        (task.sweepAccesses start fusion 1 task.length 0 ++ (List.range fusion).map .writeSum)) := by
  have whole : 0 + 1 * task.length ≤ task.length := by omega
  have ones := readable.sweep_apply (by decide) combineRounded whole (fun _ => Single.zero) memory
  have kept : fusion ≤ (memory.recordAll (task.sweepAccesses start fusion 1 task.length 0)).sum.size :=
    room
  have finish := task.finish_apply start (0 + 1 * task.length)
    (fun row => foldWindows combineRounded task.single (task.codeAt start row) task.length 0 .zero) id
    kept
  rw [sequential, chain_eq_rowsAt, bind_of_some ones, finish, Memory.recordAll_append]
  rfl

end Task

end LaneDot
