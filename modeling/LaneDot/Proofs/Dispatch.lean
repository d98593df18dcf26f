import LaneDot.Dot
import LaneDot.Proofs.Kernel.Run

/-!
# Calls that may ask for the level

A call that asks for the level runs the kernel of that level and leaves the
dispatch settled; every other one leaves the dispatch as it was.  A checked
call asks exactly when its extents are accepted.
-/

namespace LaneDot

/-! ## Computations over buffers and a dispatch -/

namespace DispatchT

variable {σ α β : Type} {dispatch after : Dispatch} {state left : σ} {value : α}

theorem bind_of_some {call : DispatchT (StateT σ Option) α}
    {next : α → DispatchT (StateT σ Option) β}
    (ran : call dispatch state = some ((value, after), left)) :
    (call >>= next) dispatch state = next value after left := by
  change (call dispatch >>= fun result => next result.1 result.2) state = _
  rw [LaneDot.bind_of_some ran]

/-- What only accesses buffers does not touch the dispatch. -/
theorem lift_of_some {action : StateT σ Option α} (ran : action state = some (value, left))
    (dispatch : Dispatch) :
    (monadLift action : DispatchT (StateT σ Option) α) dispatch state =
      some ((value, dispatch), left) := by
  change (action >>= fun value => pure (value, dispatch)) state = _
  rw [LaneDot.bind_of_some ran]
  rfl

theorem askLevel_eq_some (dispatch : Dispatch) (state : σ) :
    (askLevel : DispatchT (StateT σ Option) Level) dispatch state =
      some ((dispatch.level, dispatch.settle), state) := by
  rw [askLevel_apply]
  rfl

theorem run'_of_some {call : DispatchT (StateT σ Option) α}
    (ran : call dispatch state = some ((value, after), left)) :
    call.run' dispatch state = some (value, left) := by
  change (call dispatch >>= fun result => pure result.1) state = _
  rw [LaneDot.bind_of_some ran]
  rfl

end DispatchT

/-- A call leaves the dispatch settled if it needs the level, and otherwise as it was. -/
structure Dispatch.Leaves (dispatch : Dispatch) (needs : Prop) (after : Dispatch) : Prop where
  needed : needs → after = dispatch.settle
  idle : ¬ needs → after = dispatch

theorem Dispatch.Leaves.machine_eq {dispatch after : Dispatch} {needs : Prop}
    (leaves : dispatch.Leaves needs after) : after.machine = dispatch.machine := by
  by_cases needed : needs
  · rw [leaves.needed needed, dispatch.machine_settle]
  · rw [leaves.idle needed]

/-! ## Dispatched dot products -/

variable {task : Task} {fusion : Nat} {dispatch : Dispatch}

theorem dispatchedDot_of_some {start : Address} {memory left : Memory}
    (ran : dispatch.level.backend.fused fusion task start memory = some ((), left)) :
    dispatchedDot fusion task start dispatch memory = some (((), dispatch.settle), left) := by
  rw [dispatchedDot, DispatchT.bind_of_some (DispatchT.askLevel_eq_some dispatch memory)]
  exact DispatchT.lift_of_some ran dispatch.settle

theorem sumLength_ofSum (sum : Array Single) :
    sumLength (.ofSum sum) = some (sum.size, .ofSum sum) :=
  rfl

theorem checkedDot_of_refused {sum : Array Single} {error : DotError}
    (refused : (task.extents fusion sum.size).check = .error error) :
    checkedDot fusion task dispatch (.ofSum sum) = some ((.error error, dispatch), .ofSum sum) := by
  rw [checkedDot, DispatchT.bind_of_some (DispatchT.lift_of_some (sumLength_ofSum sum) dispatch),
    guarded, refused]
  rfl

theorem checkedDot_of_accepted {sum : Array Single} {memory : Memory}
    (accepts : (task.extents fusion sum.size).check = .ok ())
    (ran : dispatch.level.backend.fused fusion task task.y.origin (.ofSum sum) =
      some ((), memory)) :
    checkedDot fusion task dispatch (.ofSum sum) = some ((.ok (), dispatch.settle), memory) := by
  rw [checkedDot, DispatchT.bind_of_some (DispatchT.lift_of_some (sumLength_ofSum sum) dispatch)]
  simp only [guarded, accepts]
  exact DispatchT.bind_of_some (dispatchedDot_of_some ran)

/-! ## Calls through a table -/

namespace Table

variable {level : Level} {sum : Array Single}

/-- A table refuses a fusion factor before the check does, and with the same error. -/
theorem call_of_refused {error : DotError}
    (refused : (task.extents sum.size sum.size).check = .error error) :
    (ofLevel level).call task (.ofSum sum) = some (.error error, .ofSum sum) := by
  by_cases supported : 0 < sum.size ∧ sum.size ≤ maxFusion
  · rw [call, bind_of_some (sumLength_ofSum sum), get_ofLevel, if_pos supported]
    simp only [guarded, refused]
    rfl
  · have unsupported : sum.size = 0 ∨ maxFusion < sum.size := by omega
    have same : Except.error (.fusionFactor sum.size maxFusion) = Except.error error :=
      (if_pos unsupported).symm.trans refused
    rw [call, bind_of_some (sumLength_ofSum sum), get_ofLevel, if_neg supported, ← same]
    rfl

theorem call_of_accepted {memory : Memory}
    (accepts : (task.extents sum.size sum.size).check = .ok ())
    (ran : level.backend.fused sum.size task task.y.origin (.ofSum sum) = some ((), memory)) :
    (ofLevel level).call task (.ofSum sum) = some (.ok (), memory) := by
  have supported : 0 < sum.size ∧ sum.size ≤ maxFusion := by
    by_contra other
    have unsupported : sum.size = 0 ∨ maxFusion < sum.size := by omega
    cases (if_pos unsupported).symm.trans accepts
  rw [call, bind_of_some (sumLength_ofSum sum), get_ofLevel, if_pos supported]
  simp only [guarded, accepts]
  exact bind_of_some ran

end Table

end LaneDot
