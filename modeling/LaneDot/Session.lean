import LaneDot.Conversion
import LaneDot.Dot
import LaneDot.Dispatch

/-!
# Sessions

A session keeps its dispatch and three buffers over a sequence of steps: `x` and
`sum` hold singles and `y` holds codes.  A step that fails answers its
error and the session goes on.  An unchecked call that would leave its buffers,
and a call through a table that the machine lacks, are refused before they
change anything.
-/

namespace LaneDot

/-- How a call names its level: by dispatch, or outright. -/
inductive Choice where
  | auto
  | fixed (level : Level)

def Choice.table? {m : Type → Type} [Monad m] : Choice → DispatchT m (Option Table)
  | .auto => do return some (← dispatchedTable)
  | .fixed level => do return Table.ofLevel? (← get).machine level

inductive DotRoute where
  | checked (fusion : Nat)
  | table (choice : Choice)
  | routine (choice : Choice) (fusion : Nat)
  /-- The dispatched routine for `index + 1` rows. -/
  | named (index : Fin maxFusion)
  /-- The sequential kernel on `index + 1` rows. -/
  | sequential (index : Fin maxFusion)
  | backend (level : Level) (fusion : Nat)

/-- Run a dot product by a route; unchecked routes start at code `base`. -/
def DotRoute.run (route : DotRoute) (task : Task) (base : Nat) :
    DispatchT AccessM (Except DotError Unit) :=
  let start := task.y.address base
  match route with
  | .checked fusion => checkedDot fusion task
  | .table choice => do
      let some found ← choice.table? | failure
      found.call task
  | .routine choice fusion => do
      let some found ← choice.table? | failure
      match found.get fusion with
      | .error error => pure (.error error)
      | .ok kernel => do
          kernel.run task start
          pure (.ok ())
  | .named index => do
      dispatchedDot (index.val + 1) task start
      pure (.ok ())
  | .sequential index => do
      LaneDot.sequential (index.val + 1) task start
      pure (.ok ())
  | .backend level fusion => do
      level.backend.fused fusion task start
      pure (.ok ())

inductive ConvertRoute where
  | checked
  /-- The conversion of a backend, as far as both buffers go. -/
  | backend (level : Level)

def ConvertRoute.run (route : ConvertRoute) (source : Array Code) :
    DispatchT FillM (Except LengthMismatch Unit) :=
  match route with
  | .checked => checkedConvert source
  | .backend level => do
      let length ← targetLength
      level.backend.convert source (min source.size length)
      pure (.ok ())

/-- A part of a buffer: from a start on, up to a length or to the end. -/
structure Span where
  start : Nat
  length? : Option Nat

namespace Span

def whole : Span := ⟨0, none⟩

def read? {α : Type} (span : Span) (buffer : Array α) : Option (Array α) :=
  let length := span.length?.getD (buffer.size - span.start)
  if span.start + length ≤ buffer.size then
    some (buffer.extract span.start (span.start + length))
  else none

end Span

inductive Step where
  | setX (start : Nat) (values : Array Single)
  | setY (start : Nat) (codes : Array Code)
  /-- Copy a part of `sum` into `x`. -/
  | copySum (start : Nat) (part : Span := .whole)
  | convert (route : ConvertRoute) (y x : Span)
  | dot (route : DotRoute) (stride : UInt64) (length base : Nat) (x y sum : Span)
  | setOverride (value : Option String)
  | lookUp (choice : Choice) (fusions : List Nat)
  | level

inductive Answer where
  | done
  | copied (x : Array Single)
  | converted (verdict : Except LengthMismatch Unit) (x : Array Single)
  | dotted (verdict : Except DotError Unit) (sum : Array Single)
  | found (table : Table) (routines : List (Except DotError Routine))
  /-- The machine lacks the level of the table. -/
  | missing
  | level (selected : Level) (table : Table)
  | refused

structure Buffers where
  x : Array Single
  y : Array Code
  sum : Array Single

structure Session where
  dispatch : Dispatch
  buffers : Buffers

structure Turn where
  session : Session
  answer : Answer

namespace Session

def copy? (session : Session) (start : Nat) (part : Span) : Option (Array Single) := do
  let values ← part.read? session.buffers.sum
  overwrite? session.buffers.x start values

def convert? (session : Session) (route : ConvertRoute) (y x : Span) :
    Option ((Except LengthMismatch Unit × Dispatch) × Array Single) := do
  let source ← y.read? session.buffers.y
  let target ← x.read? session.buffers.x
  let (result, converted) ← route.run source session.dispatch target
  pure (result, ← overwrite? session.buffers.x x.start converted)

def dot? (session : Session) (route : DotRoute) (stride : UInt64) (length base : Nat)
    (x y sum : Span) : Option ((Except DotError Unit × Dispatch) × Array Single) := do
  let xs ← x.read? session.buffers.x
  let codes ← y.read? session.buffers.y
  let sums ← sum.read? session.buffers.sum
  let task : Task := ⟨xs, ⟨codes, 0⟩, stride, length⟩
  let (result, memory) ← route.run task base session.dispatch (.ofSum sums)
  pure (result, ← overwrite? session.buffers.sum sum.start memory.sum)

def lookUp (session : Session) (choice : Choice) : Option Table × Dispatch :=
  choice.table? (m := Id) session.dispatch

def step (session : Session) : Step → Turn
  | .setX start values =>
      match overwrite? session.buffers.x start values with
      | none => ⟨session, .refused⟩
      | some x => ⟨{ session with buffers := { session.buffers with x } }, .done⟩
  | .setY start codes =>
      match overwrite? session.buffers.y start codes with
      | none => ⟨session, .refused⟩
      | some y => ⟨{ session with buffers := { session.buffers with y } }, .done⟩
  | .copySum start part =>
      match session.copy? start part with
      | none => ⟨session, .refused⟩
      | some x => ⟨{ session with buffers := { session.buffers with x } }, .copied x⟩
  | .convert route y x =>
      match session.convert? route y x with
      | none => ⟨session, .refused⟩
      | some ((verdict, dispatch), x) =>
          ⟨⟨dispatch, { session.buffers with x }⟩, .converted verdict x⟩
  | .dot route stride length base x y sum =>
      match session.dot? route stride length base x y sum with
      | none => ⟨session, .refused⟩
      | some ((verdict, dispatch), sum) =>
          ⟨⟨dispatch, { session.buffers with sum }⟩, .dotted verdict sum⟩
  | .setOverride value =>
      ⟨{ session with dispatch := { session.dispatch with override := value } }, .done⟩
  | .lookUp choice fusions =>
      match session.lookUp choice with
      | (none, dispatch) => ⟨{ session with dispatch }, .missing⟩
      | (some table, dispatch) => ⟨{ session with dispatch }, .found table (fusions.map table.get)⟩
  | .level =>
      let (level, dispatch) := askLevel (m := Id) session.dispatch
      let (table, dispatch) := dispatchedTable (m := Id) dispatch
      ⟨{ session with dispatch }, .level level table⟩

def run (session : Session) : List Step → List Turn
  | [] => []
  | step :: rest =>
      let turn := session.step step
      turn :: turn.session.run rest

end Session

end LaneDot
