import LaneDot.Session
import LaneDot.Proofs.Conversion
import LaneDot.Proofs.Kernel.Confinement

/-!
# Calls that a session can make

A call is legal when its parts lie in the buffers of the session, when the
machine runs the level that it names, and, where it checks nothing itself, when
those parts cover the task.  A legal call has the result that its route has at
the dispatched level, and leaves a part as long as the one it found, so the
session never refuses it.  It leaves the dispatch settled if it needs the level,
and otherwise as it was.
-/

namespace LaneDot

variable {dispatch : Dispatch}

/-! ## Tables -/

def Choice.level (dispatched : Level) : Choice → Level
  | .auto => dispatched
  | .fixed level => level

/-- The machine runs the level of a choice; it always runs the dispatched one. -/
def Choice.Available (machine : Machine) : Choice → Prop
  | .auto => True
  | .fixed level => machine.supports level = true

instance (machine : Machine) : (choice : Choice) → Decidable (choice.Available machine)
  | .auto => inferInstanceAs (Decidable True)
  | .fixed _ => inferInstanceAs (Decidable (_ = _))

/-- Only the table of dispatched calls needs the level. -/
def Choice.NeedsLevel : Choice → Prop
  | .auto => True
  | .fixed _ => False

theorem Choice.table?_auto {m : Type → Type} [Monad m] [LawfulMonad m] (dispatch : Dispatch) :
    (auto.table? : DispatchT m (Option Table)) dispatch =
      pure (some (Table.ofLevel dispatch.level), dispatch.settle) := by
  change (dispatchedTable : DispatchT m Table) dispatch >>= _ = _
  rw [dispatchedTable_apply, pure_bind]
  rfl

theorem Choice.exists_table? {choice : Choice} (available : choice.Available dispatch.machine) :
    ∃ after, dispatch.Leaves choice.NeedsLevel after ∧ ∀ memory : Memory,
      (choice.table? : DispatchT AccessM (Option Table)) dispatch memory =
        some ((some (Table.ofLevel (choice.level dispatch.level)), after), memory) := by
  cases choice with
  | auto =>
      refine ⟨dispatch.settle, ⟨fun _ => rfl, fun idle => absurd trivial idle⟩, fun memory => ?_⟩
      rw [table?_auto]
      rfl
  | fixed level =>
      have present : Table.ofLevel? dispatch.machine level = some (Table.ofLevel level) :=
        if_pos available
      exact ⟨dispatch, ⟨False.elim, fun _ => rfl⟩,
        fun memory => congrArg (fun table => some ((table, dispatch), memory)) present⟩

/-! ## Conversions -/

def ConvertRoute.outcome (route : ConvertRoute) (source : Array Code) (target : Array Single) :
    Except LengthMismatch Unit × Array Single :=
  match route with
  | .checked =>
      if source.size = target.size then (.ok (), convertRange source target 0 source.size)
      else (.error ⟨source.size, target.size⟩, target)
  | .backend _ => (.ok (), convertRange source target 0 (min source.size target.size))

/-- A backend that is named outright asks for a machine that runs it. -/
def ConvertRoute.Legal (route : ConvertRoute) (machine : Machine) : Prop :=
  match route with
  | .checked => True
  | .backend level => machine.supports level = true

instance (route : ConvertRoute) (machine : Machine) : Decidable (route.Legal machine) :=
  match route with
  | .checked => inferInstanceAs (Decidable True)
  | .backend _ => inferInstanceAs (Decidable (_ = _))

/-- A conversion needs the level when it is checked and the lengths are equal. -/
def ConvertRoute.NeedsLevel (route : ConvertRoute) (source target : Nat) : Prop :=
  match route with
  | .checked => source = target
  | .backend _ => False

/-- Every conversion has a result, and the level does not enter it. -/
theorem ConvertRoute.exists_run (route : ConvertRoute) (dispatch : Dispatch) (source : Array Code)
    (target : Array Single) :
    ∃ after, route.run source dispatch target =
        some (((route.outcome source target).1, after), (route.outcome source target).2) ∧
      dispatch.Leaves (route.NeedsLevel source.size target.size) after := by
  cases route with
  | checked =>
      rw [outcome]
      by_cases whole : source.size = target.size
      · rw [if_pos whole]
        exact ⟨_, checkedConvert_of_eq whole dispatch, fun _ => rfl, absurd whole⟩
      · rw [if_neg whole]
        exact ⟨_, checkedConvert_of_ne whole dispatch, (absurd · whole), fun _ => rfl⟩
  | backend fixed =>
      have converted := fixed.convert_apply (Nat.min_le_left source.size target.size)
        (Nat.min_le_right source.size target.size)
      refine ⟨dispatch, ?_, False.elim, fun _ => rfl⟩
      simp only [run]
      rw [DispatchT.bind_of_some (DispatchT.lift_of_some (targetLength_apply target) _),
        DispatchT.bind_of_some (DispatchT.lift_of_some converted _)]
      rfl

theorem ConvertRoute.size_outcome (route : ConvertRoute) (source : Array Code)
    (target : Array Single) : (route.outcome source target).2.size = target.size := by
  cases route with
  | checked =>
      rw [outcome]
      split
      · exact size_convertRange _ _ _ _
      · rfl
  | backend fixed => exact size_convertRange _ _ _ _

/-! ## Dot products -/

namespace DotRoute

/--
What a route asks of its caller.  A checked route asks for codes that can lie in
one address space, an unchecked one for buffers that cover the task, and a level
that is named outright for a machine that runs it.
-/
def Legal (route : DotRoute) (machine : Machine) (task : Task) (base sums : Nat) : Prop :=
  match route with
  | .checked _ => 2 * task.y.codes.size ≤ addressSpace
  | .table choice => choice.Available machine ∧ 2 * task.y.codes.size ≤ addressSpace
  | .routine choice fusion => choice.Available machine ∧
      (0 < fusion ∧ fusion ≤ maxFusion → task.Covers fusion (task.y.address base) sums)
  | .named index => task.Covers (index.val + 1) (task.y.address base) sums
  | .sequential index => task.Covers (index.val + 1) (task.y.address base) sums
  | .backend level fusion =>
      machine.supports level = true ∧ task.Covers fusion (task.y.address base) sums

instance (route : DotRoute) (machine : Machine) (task : Task) (base sums : Nat) :
    Decidable (route.Legal machine task base sums) :=
  match route with
  | .checked _ => inferInstanceAs (Decidable (_ ≤ _))
  | .table _ | .routine _ _ | .backend _ _ => inferInstanceAs (Decidable (_ ∧ _))
  | .named _ | .sequential _ => inferInstanceAs (Decidable (Task.Covers _ _ _ _))

/--
A dot product needs the level when it is a checked call with accepted extents, a
named routine or a use of the table of dispatched calls.
-/
def NeedsLevel (route : DotRoute) (task : Task) (sums : Nat) : Prop :=
  match route with
  | .checked fusion => (task.extents fusion sums).check = .ok ()
  | .table choice => choice.NeedsLevel
  | .routine choice _ => choice.NeedsLevel
  | .named _ => True
  | .sequential _ => False
  | .backend _ _ => False

/-- Unchecked routes accept every task; a routine only has to be in the table. -/
def verdict (route : DotRoute) (task : Task) (sums : Nat) : Except DotError Unit :=
  match route with
  | .checked fusion => (task.extents fusion sums).check
  | .table _ => (task.extents sums sums).check
  | .routine _ fusion =>
      if 0 < fusion ∧ fusion ≤ maxFusion then .ok () else .error (.fusionFactor fusion maxFusion)
  | .named _ | .sequential _ | .backend _ _ => .ok ()

/-- The kernel of an accepted call; a call through a table has as many rows as sums. -/
def kernel (route : DotRoute) (level : Level) (task : Task) (base sums : Nat) : AccessM Unit :=
  match route with
  | .checked fusion => level.backend.fused fusion task task.y.origin
  | .table choice => (choice.level level).backend.fused sums task task.y.origin
  | .routine choice fusion => (choice.level level).backend.fused fusion task (task.y.address base)
  | .named index => level.backend.fused (index.val + 1) task (task.y.address base)
  | .sequential index => LaneDot.sequential (index.val + 1) task (task.y.address base)
  | .backend fixed fusion => fixed.backend.fused fusion task (task.y.address base)

/-- The verdict of a call, given the level of dispatched calls, and the sums that it leaves. -/
def resultAt? (route : DotRoute) (level : Level) (task : Task) (base : Nat) (sum : Array Single) :
    Option (Except DotError Unit × Array Single) :=
  match route.verdict task sum.size with
  | .ok () => (sumsAfter (route.kernel level task base sum.size) sum).map (.ok (), ·)
  | .error error => some (.error error, sum)

/--
A call that has the result of the dispatched level, leaves as many sums as
before and selects the level if it needs one.
-/
structure Runs (route : DotRoute) (dispatch : Dispatch) (task : Task) (base : Nat)
    (sum : Array Single) (verdict : Except DotError Unit) (after : Dispatch) (memory : Memory) :
    Prop where
  ran : route.run task base dispatch (.ofSum sum) = some ((verdict, after), memory)
  result : route.resultAt? dispatch.level task base sum = some (verdict, memory.sum)
  size : memory.sum.size = sum.size
  leaves : dispatch.Leaves (route.NeedsLevel task sum.size) after

variable {route : DotRoute} {level : Level} {task : Task} {base : Nat} {sum : Array Single}

theorem resultAt?_of_refused {error : DotError}
    (refused : route.verdict task sum.size = .error error) :
    route.resultAt? level task base sum = some (.error error, sum) := by
  rw [resultAt?, refused]

theorem resultAt?_of_accepted {memory : Memory} (accepts : route.verdict task sum.size = .ok ())
    (ran : route.kernel level task base sum.size (.ofSum sum) = some ((), memory)) :
    route.resultAt? level task base sum = some (.ok (), memory.sum) := by
  rw [resultAt?, accepts, sumsAfter, ran]
  rfl

theorem size_of_covers {fusion : Nat} {start : Address} (covers : task.Covers fusion start sum.size)
    (backend : Backend) :
    ∃ memory, backend.fused fusion task start (.ofSum sum) = some ((), memory) ∧
      memory.sum.size = sum.size :=
  ⟨_, covers.fused_apply backend covers.output, size_writeSums _ _ _⟩

theorem exists_runs_checked (addressable : 2 * task.y.codes.size ≤ addressSpace)
    (dispatch : Dispatch) (fusion : Nat) (sum : Array Single) :
    ∃ verdict after memory,
      (checked fusion).Runs dispatch task base sum verdict after memory := by
  rcases verdict : (task.extents fusion sum.size).check with error | ⟨⟩
  · have idle : ¬ (checked fusion).NeedsLevel task sum.size := by
      rw [NeedsLevel, verdict]
      nofun
    exact ⟨_, _, _, checkedDot_of_refused verdict, resultAt?_of_refused verdict, rfl,
      (absurd · idle), fun _ => rfl⟩
  · have covers := (Task.accepted_of_check addressable verdict).covers addressable
    obtain ⟨memory, ran, size⟩ := size_of_covers covers dispatch.level.backend
    exact ⟨_, _, memory, checkedDot_of_accepted verdict ran, resultAt?_of_accepted verdict ran, size,
      fun _ => rfl, absurd verdict⟩

theorem exists_run_table {choice : Choice} (available : choice.Available dispatch.machine)
    (task : Task) (base : Nat) :
    ∃ after, dispatch.Leaves choice.NeedsLevel after ∧ ∀ {memory left : Memory} {verdict},
      (Table.ofLevel (choice.level dispatch.level)).call task memory = some (verdict, left) →
      (table choice).run task base dispatch memory = some ((verdict, after), left) := by
  obtain ⟨after, leaves, found⟩ := Choice.exists_table? available
  refine ⟨after, leaves, fun {memory} _ _ ran => ?_⟩
  rw [run, DispatchT.bind_of_some (found memory)]
  exact DispatchT.lift_of_some ran after

theorem exists_run_routine {choice : Choice} (available : choice.Available dispatch.machine)
    (task : Task) (base : Nat) {fusion : Nat} (supported : 0 < fusion ∧ fusion ≤ maxFusion) :
    ∃ after, dispatch.Leaves choice.NeedsLevel after ∧ ∀ {memory left : Memory},
      (choice.level dispatch.level).backend.fused fusion task (task.y.address base) memory =
        some ((), left) →
      (routine choice fusion).run task base dispatch memory = some ((.ok (), after), left) := by
  obtain ⟨after, leaves, found⟩ := Choice.exists_table? available
  refine ⟨after, leaves, fun {memory} _ ran => ?_⟩
  rw [run, DispatchT.bind_of_some (found memory)]
  simp only [Table.get_ofLevel, if_pos supported]
  exact DispatchT.bind_of_some (DispatchT.lift_of_some ran after)

theorem exists_run_routine_of_unsupported {choice : Choice}
    (available : choice.Available dispatch.machine) (task : Task) (base : Nat) {fusion : Nat}
    (unsupported : ¬ (0 < fusion ∧ fusion ≤ maxFusion)) (memory : Memory) :
    ∃ after, dispatch.Leaves choice.NeedsLevel after ∧
      (routine choice fusion).run task base dispatch memory =
        some ((.error (.fusionFactor fusion maxFusion), after), memory) := by
  obtain ⟨after, leaves, found⟩ := Choice.exists_table? available
  refine ⟨after, leaves, ?_⟩
  rw [run, DispatchT.bind_of_some (found memory)]
  simp only [Table.get_ofLevel, if_neg unsupported]
  rfl

theorem exists_runs_table {choice : Choice} (available : choice.Available dispatch.machine)
    (addressable : 2 * task.y.codes.size ≤ addressSpace) (sum : Array Single) :
    ∃ verdict after memory, (table choice).Runs dispatch task base sum verdict after memory := by
  obtain ⟨after, leaves, called⟩ := exists_run_table available task base
  rcases verdict : (task.extents sum.size sum.size).check with error | ⟨⟩
  · exact ⟨_, after, _, called (Table.call_of_refused verdict), resultAt?_of_refused verdict, rfl,
      leaves⟩
  · have covers := (Task.accepted_of_check addressable verdict).covers addressable
    obtain ⟨memory, ran, size⟩ := size_of_covers covers (choice.level dispatch.level).backend
    exact ⟨_, after, memory, called (Table.call_of_accepted verdict ran),
      resultAt?_of_accepted verdict ran, size, leaves⟩

/-- A legal call runs whatever the dispatch. -/
theorem Legal.exists_runs (legal : route.Legal dispatch.machine task base sum.size) :
    ∃ verdict after memory, route.Runs dispatch task base sum verdict after memory := by
  cases route with
  | checked fusion => exact exists_runs_checked legal dispatch fusion sum
  | table choice => exact exists_runs_table legal.1 legal.2 sum
  | routine choice fusion =>
      obtain ⟨available, covers⟩ := legal
      by_cases supported : 0 < fusion ∧ fusion ≤ maxFusion
      · obtain ⟨after, leaves, called⟩ := exists_run_routine available task base supported
        obtain ⟨memory, ran, size⟩ :=
          size_of_covers (covers supported) (choice.level dispatch.level).backend
        exact ⟨_, after, memory, called ran, resultAt?_of_accepted (if_pos supported) ran, size,
          leaves⟩
      · obtain ⟨after, leaves, refused⟩ :=
          exists_run_routine_of_unsupported available task base supported (.ofSum sum)
        exact ⟨_, after, _, refused, resultAt?_of_refused (if_neg supported), rfl, leaves⟩
  | named index =>
      obtain ⟨memory, ran, size⟩ := size_of_covers legal dispatch.level.backend
      exact ⟨_, dispatch.settle, memory, DispatchT.bind_of_some (dispatchedDot_of_some ran),
        resultAt?_of_accepted rfl ran, size, fun _ => rfl, fun idle => absurd trivial idle⟩
  | sequential index =>
      have ran := legal.sequential_apply (show index.val + 1 ≤ (Memory.ofSum sum).sum.size from
        legal.output)
      exact ⟨_, dispatch, _, DispatchT.bind_of_some (DispatchT.lift_of_some ran dispatch),
        resultAt?_of_accepted rfl ran, size_writeSums _ _ _, False.elim, fun _ => rfl⟩
  | backend fixed fusion =>
      obtain ⟨memory, ran, size⟩ := size_of_covers legal.2 fixed.backend
      exact ⟨_, dispatch, memory, DispatchT.bind_of_some (DispatchT.lift_of_some ran dispatch),
        resultAt?_of_accepted rfl ran, size, False.elim, fun _ => rfl⟩

end DotRoute

/-! ## Parts of buffers -/

theorem Span.start_add_size_le {α : Type} {span : Span} {buffer part : Array α}
    (read : span.read? buffer = some part) : span.start + part.size ≤ buffer.size := by
  unfold read? at read
  dsimp only at read
  split at read
  · next inside =>
      obtain rfl := Option.some.inj read
      rw [Array.size_extract]
      omega
  · cases read

theorem exists_overwrite?_part {α : Type} {span : Span} {buffer part values : Array α}
    (read : span.read? buffer = some part) (sizes : values.size = part.size) :
    ∃ stored, overwrite? buffer span.start values = some stored := by
  obtain ⟨stored, written, -⟩ :=
    exists_overwrite? (sizes ▸ Span.start_add_size_le read : span.start + values.size ≤ buffer.size)
  exact ⟨stored, written⟩

namespace Session

variable {session : Session}

theorem convert?_eq {y x : Span} {source : Array Code} {target : Array Single}
    (codes : y.read? session.buffers.y = some source)
    (singles : x.read? session.buffers.x = some target) (route : ConvertRoute) :
    ∃ after stored,
      overwrite? session.buffers.x x.start (route.outcome source target).2 = some stored ∧
      session.convert? route y x = some (((route.outcome source target).1, after), stored) ∧
      session.dispatch.Leaves (route.NeedsLevel source.size target.size) after := by
  obtain ⟨stored, written⟩ := exists_overwrite?_part singles (route.size_outcome source target)
  obtain ⟨after, ran, leaves⟩ := route.exists_run session.dispatch source target
  refine ⟨after, stored, written, ?_, leaves⟩
  simp only [convert?, codes, singles, ran, Option.bind_eq_bind, Option.bind_some, written]
  rfl

theorem dot?_eq {x y sum : Span} {xs sums : Array Single} {codes : Array Code}
    (stream : x.read? session.buffers.x = some xs) (rows : y.read? session.buffers.y = some codes)
    (output : sum.read? session.buffers.sum = some sums) {route : DotRoute} {stride : UInt64}
    {length base : Nat}
    (legal : route.Legal session.dispatch.machine ⟨xs, ⟨codes, 0⟩, stride, length⟩ base sums.size) :
    ∃ verdict left after stored,
      route.resultAt? session.dispatch.level ⟨xs, ⟨codes, 0⟩, stride, length⟩ base sums =
        some (verdict, left) ∧
      overwrite? session.buffers.sum sum.start left = some stored ∧
      session.dot? route stride length base x y sum = some ((verdict, after), stored) ∧
      session.dispatch.Leaves (route.NeedsLevel ⟨xs, ⟨codes, 0⟩, stride, length⟩ sums.size)
        after := by
  obtain ⟨verdict, after, memory, runs⟩ := legal.exists_runs
  obtain ⟨stored, written⟩ := exists_overwrite?_part output runs.size
  refine ⟨verdict, memory.sum, after, stored, runs.result, written, ?_, runs.leaves⟩
  simp only [dot?, stream, rows, output, runs.ran, Option.bind_eq_bind, Option.bind_some, written]
  rfl

end Session

/-! ## Questions -/

namespace Session

theorem lookUp_auto (session : Session) :
    session.lookUp .auto = (some (Table.ofLevel session.dispatch.level), session.dispatch.settle) :=
  Choice.table?_auto _

/-- The level and its table answer one selection: the second question changes nothing. -/
theorem step_level (session : Session) :
    session.step .level = ⟨⟨session.dispatch.settle, session.buffers⟩,
      .level session.dispatch.level (Table.ofLevel session.dispatch.level)⟩ := by
  have asked : (askLevel : DispatchT Id Level) session.dispatch =
      (session.dispatch.level, session.dispatch.settle) := askLevel_apply _
  have found : (dispatchedTable : DispatchT Id Table) session.dispatch.settle =
      (Table.ofLevel session.dispatch.level, session.dispatch.settle) := by
    rw [dispatchedTable_apply, Dispatch.level_settle, Dispatch.settle_settle]
    rfl
  simp only [step, asked, found]

end Session

/-! ## Legal steps -/

/-- The step stays inside the buffers, and a call that checks nothing keeps its contract. -/
def Step.Legal (step : Step) (machine : Machine) (buffers : Buffers) : Prop :=
  match step with
  | .setX start values => start + values.size ≤ buffers.x.size
  | .setY start codes => start + codes.size ≤ buffers.y.size
  | .copySum start part =>
      ∃ values ∈ part.read? buffers.sum, start + values.size ≤ buffers.x.size
  | .convert route y x =>
      route.Legal machine ∧ (y.read? buffers.y).isSome ∧ (x.read? buffers.x).isSome
  | .dot route stride length base x y sum =>
      ∃ xs ∈ x.read? buffers.x, ∃ codes ∈ y.read? buffers.y, ∃ sums ∈ sum.read? buffers.sum,
        route.Legal machine ⟨xs, ⟨codes, 0⟩, stride, length⟩ base sums.size
  | .setOverride _ => True
  | .lookUp _ _ => True
  | .level => True

instance (step : Step) (machine : Machine) (buffers : Buffers) :
    Decidable (step.Legal machine buffers) :=
  match step with
  | .setX _ _ | .setY _ _ => inferInstanceAs (Decidable (_ ≤ _))
  | .copySum _ _ => inferInstanceAs (Decidable (∃ _ ∈ _, _))
  | .convert _ _ _ => inferInstanceAs (Decidable (_ ∧ _))
  | .dot _ _ _ _ _ _ _ =>
      inferInstanceAs (Decidable (∃ _ ∈ _, ∃ _ ∈ _, ∃ _ ∈ _, DotRoute.Legal _ _ _ _ _))
  | .setOverride _ | .lookUp _ _ | .level => inferInstanceAs (Decidable True)

namespace Session

def Legal (session : Session) : List Step → Prop
  | [] => True
  | step :: rest =>
      step.Legal session.dispatch.machine session.buffers ∧
        (session.step step).session.Legal rest

def decidableLegal (session : Session) : (script : List Step) → Decidable (session.Legal script)
  | [] => inferInstanceAs (Decidable True)
  | step :: rest =>
      have := (session.step step).session.decidableLegal rest
      inferInstanceAs (Decidable (_ ∧ _))

instance (session : Session) (script : List Step) : Decidable (session.Legal script) :=
  session.decidableLegal script

theorem answer_ne_refused {session : Session} {step : Step}
    (legal : step.Legal session.dispatch.machine session.buffers) :
    (session.step step).answer ≠ .refused := by
  cases step with
  | setX start values =>
      obtain ⟨stored, written, -⟩ := exists_overwrite? legal
      simp only [Session.step, written]
      nofun
  | setY start codes =>
      obtain ⟨stored, written, -⟩ := exists_overwrite? legal
      simp only [Session.step, written]
      nofun
  | copySum start part =>
      obtain ⟨values, read, room⟩ := legal
      obtain ⟨stored, written, -⟩ := exists_overwrite? room
      have copied : session.copy? start part = some stored := by
        rw [copy?, Option.mem_def.mp read]
        exact written
      simp only [Session.step, copied]
      nofun
  | convert route y x =>
      obtain ⟨source, codes⟩ := Option.isSome_iff_exists.mp legal.2.1
      obtain ⟨target, singles⟩ := Option.isSome_iff_exists.mp legal.2.2
      obtain ⟨after, stored, -, converted, -⟩ := convert?_eq codes singles route
      simp only [Session.step, converted]
      nofun
  | dot route stride length base x y sum =>
      obtain ⟨xs, stream, codes, rows, sums, output, legal⟩ := legal
      obtain ⟨verdict, left, after, stored, -, -, dotted, -⟩ := dot?_eq stream rows output legal
      simp only [Session.step, dotted]
      nofun
  | setOverride value => nofun
  | lookUp choice fusions =>
      simp only [Session.step]
      split <;> nofun
  | level =>
      rw [step_level]
      nofun

theorem answers_ne_refused {session : Session} {script : List Step} (legal : session.Legal script) :
    ∀ turn ∈ session.run script, turn.answer ≠ .refused := by
  induction script generalizing session with
  | nil => exact fun turn member => nomatch member
  | cons step rest ih =>
      intro turn member
      rcases List.mem_cons.mp member with rfl | later
      · exact answer_ne_refused legal.1
      · exact ih legal.2 turn later

end Session

end LaneDot
