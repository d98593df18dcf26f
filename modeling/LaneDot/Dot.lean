import LaneDot.Dispatch
import LaneDot.Extents

/-!
# Fused dot products

The ways to a fused dot product: a checked call for a fixed fusion factor, a
table of routines that is looked up by fusion factor, and a checked call through
the table, which takes the fusion factor from the length of the output.  A
routine itself checks nothing.

A checked call asks for the level once its extents are accepted.  A table
belongs to a level, and only the table of dispatched calls asks for it.
-/

namespace LaneDot

def guarded {m : Type → Type} [Monad m] (extents : Extents) (kernel : m Unit) :
    m (Except DotError Unit) :=
  match extents.check with
  | .error error => pure (.error error)
  | .ok () => do
      kernel
      pure (.ok ())

def dispatchedDot (fusion : Nat) (task : Task) (start : Address) : DispatchT AccessM Unit := do
  let level ← askLevel
  level.backend.fused fusion task start

/-- A checked dot product on `fusion` rows; only the first `fusion` sums are written. -/
def checkedDot (fusion : Nat) (task : Task) : DispatchT AccessM (Except DotError Unit) := do
  let length ← sumLength
  guarded (task.extents fusion length) (dispatchedDot fusion task task.y.origin)

/-- An unchecked routine: a kernel for one level and one fusion factor. -/
structure Routine where
  level : Level
  fusion : Nat
  deriving DecidableEq

def Routine.run (routine : Routine) (task : Task) (start : Address) : AccessM Unit :=
  routine.level.backend.fused routine.fusion task start

/-- The routines of one level, the one for `fusion` rows at index `fusion - 1`. -/
structure Table where
  level : Level
  routines : Vector Routine maxFusion

namespace Table

def ofLevel (level : Level) : Table where
  level := level
  routines := Vector.ofFn fun index => ⟨level, index.val + 1⟩

def ofLevel? (machine : Machine) (level : Level) : Option Table :=
  if machine.supports level then some (ofLevel level) else none

def fusion (_ : Table) : Nat := maxFusion

def get (table : Table) (fusion : Nat) : Except DotError Routine :=
  if inside : 0 < fusion ∧ fusion ≤ maxFusion then .ok table.routines[fusion - 1]
  else .error (.fusionFactor fusion table.fusion)

theorem get_ofLevel (level : Level) (fusion : Nat) :
    (ofLevel level).get fusion =
      if 0 < fusion ∧ fusion ≤ maxFusion then .ok ⟨level, fusion⟩
      else .error (.fusionFactor fusion maxFusion) := by
  unfold get ofLevel
  split
  · rename_i inside
    simp [Nat.sub_add_cancel inside.1]
  · rfl

/-- A checked dot product on as many rows as there are sums. -/
def call (table : Table) (task : Task) : AccessM (Except DotError Unit) := do
  let length ← sumLength
  match table.get length with
  | .error error => pure (.error error)
  | .ok routine => guarded (task.extents length length) (routine.run task task.y.origin)

end Table

def dispatchedTable {m : Type → Type} [Monad m] : DispatchT m Table := do
  let level ← askLevel
  let dispatch ← get
  return (Table.ofLevel? dispatch.machine level).getD (Table.ofLevel .portable)

/-- The dispatched level has a table, so the portable one never stands in for it. -/
theorem dispatchedTable_apply {m : Type → Type} [Monad m] [LawfulMonad m] (dispatch : Dispatch) :
    (dispatchedTable : DispatchT m Table) dispatch =
      pure (Table.ofLevel dispatch.level, dispatch.settle) := by
  have present : Table.ofLevel? dispatch.settle.machine dispatch.level =
      some (Table.ofLevel dispatch.level) := by
    rw [dispatch.machine_settle]
    exact if_pos dispatch.supports_level
  have asked : (dispatchedTable : DispatchT m Table) dispatch =
      pure ((Table.ofLevel? dispatch.settle.machine dispatch.level).getD (Table.ofLevel .portable),
        dispatch.settle) := by
    change (askLevel : DispatchT m Level) dispatch >>= _ = _
    rw [askLevel_apply, pure_bind]
    exact pure_bind _ _
  rw [asked, present, Option.getD_some]

end LaneDot
