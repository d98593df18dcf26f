import LaneDot.Override

/-!
# Level selection

Dispatched calls run at one level.  It is selected when one of them first asks
for it, from the machine and from the override that the environment holds at
that moment, and logged.  Every later question gets the same answer, whatever
the environment holds by then.
-/

namespace LaneDot

inductive LogLine where
  | unsupported (forced level : Level)
  | overrideIgnored (invalid : InvalidOverride) (level : Level)
  | selected (level : Level)
  deriving DecidableEq

def LogLine.text : LogLine → String
  | .unsupported forced level =>
      "WARN " ++ overrideVariable ++ "=" ++ forced.name ++
        " not supported on this CPU, using " ++ level.name
  | .overrideIgnored invalid level => "WARN " ++ invalid.message ++ ", using " ++ level.name
  | .selected level => "INFO shdot kernels: selected " ++ level.name ++ " backend"

/-- A level that a machine runs, with the log lines that its selection causes. -/
structure Selection (machine : Machine) where
  level : Level
  supported : machine.supports level = true
  log : List LogLine

namespace Selection

def detected (machine : Machine) (warnings : List LogLine) : Selection machine :=
  ⟨machine.detected, machine.supports_detected, warnings ++ [.selected machine.detected]⟩

def ofOverride (machine : Machine) (override : Option String) : Selection machine :=
  match override.map Override.parse with
  | none => detected machine []
  | some (.ok none) => detected machine []
  | some (.ok (some forced)) =>
      if supported : machine.supports forced = true then ⟨forced, supported, [.selected forced]⟩
      else detected machine [.unsupported forced machine.detected]
  | some (.error invalid) => detected machine [.overrideIgnored invalid machine.detected]

end Selection

/--
What dispatched calls depend on and what they leave: the machine, the override
in the environment, the selected level and the log, the latest line last.
-/
structure Dispatch where
  machine : Machine
  override : Option String
  selected : Option Level
  log : List LogLine
  supported : ∀ level ∈ selected, machine.supports level = true

namespace Dispatch

def fresh (machine : Machine) (override : Option String) : Dispatch :=
  ⟨machine, override, none, [], nofun⟩

/-- With a level selected before the log begins. -/
def settled (machine : Machine) (level : Level) (supported : machine.supports level = true) :
    Dispatch :=
  ⟨machine, none, some level, [], fun _ member => Option.some.inj member ▸ supported⟩

def selection (dispatch : Dispatch) : Selection dispatch.machine :=
  .ofOverride dispatch.machine dispatch.override

def level (dispatch : Dispatch) : Level :=
  dispatch.selected.getD dispatch.selection.level

theorem supports_level (dispatch : Dispatch) :
    dispatch.machine.supports dispatch.level = true := by
  unfold level
  cases selected : dispatch.selected with
  | none => exact dispatch.selection.supported
  | some level => exact dispatch.supported level selected

def settle (dispatch : Dispatch) : Dispatch :=
  match dispatch.selected with
  | some _ => dispatch
  | none =>
      { dispatch with
        selected := some dispatch.level
        log := dispatch.log ++ dispatch.selection.log
        supported := fun _ member => Option.some.inj member ▸ dispatch.supports_level }

theorem settle_of_selected {dispatch : Dispatch} {level : Level}
    (selected : dispatch.selected = some level) : dispatch.settle = dispatch := by
  rw [settle, selected]

theorem level_of_selected {dispatch : Dispatch} {level : Level}
    (selected : dispatch.selected = some level) : dispatch.level = level := by
  rw [Dispatch.level, selected, Option.getD_some]

@[simp] theorem selected_settle (dispatch : Dispatch) :
    dispatch.settle.selected = some dispatch.level := by
  unfold settle level
  split
  · next selected => rw [selected, Option.getD_some]
  · rfl

@[simp] theorem machine_settle (dispatch : Dispatch) : dispatch.settle.machine = dispatch.machine := by
  unfold settle
  split <;> rfl

@[simp] theorem level_settle (dispatch : Dispatch) : dispatch.settle.level = dispatch.level :=
  level_of_selected dispatch.selected_settle

@[simp] theorem settle_settle (dispatch : Dispatch) : dispatch.settle.settle = dispatch.settle :=
  settle_of_selected dispatch.selected_settle

end Dispatch

abbrev DispatchT (m : Type → Type) := StateT Dispatch m

/-- The level of dispatched calls, which the first question selects. -/
def askLevel {m : Type → Type} [Monad m] : DispatchT m Level := do
  modify Dispatch.settle
  return (← get).level

theorem askLevel_apply {m : Type → Type} [Monad m] [LawfulMonad m] (dispatch : Dispatch) :
    (askLevel : DispatchT m Level) dispatch = pure (dispatch.level, dispatch.settle) := by
  rw [← dispatch.level_settle]
  exact (pure_bind _ _).trans (pure_bind _ _)

end LaneDot
