import LaneDot.Proofs.Kernel.Agreement
import LaneDot.Proofs.Kernel.Simulation
import LaneDot.Proofs.Session.Legal

/-!
# The level does not show in a session

Two sessions that start from the same buffers and take the same steps, one at
each level, give the same verdicts and keep buffers that are alike up to the
sign of zeros, although what one step leaves in `sum` may be copied to `x` and
enter later products.  A step depends on its buffers through operations that
cannot tell alike values apart, so the two sessions never drift further.
-/

namespace LaneDot

open AccessM (Matches)

/-! ## Parts of buffers -/

namespace SinglesAlike

variable {first second : Array Single}

theorem read? (alike : SinglesAlike first second) (span : Span) :
    Option.Rel SinglesAlike (span.read? first) (span.read? second) := by
  unfold Span.read?
  rw [← alike.size_eq]
  dsimp only
  split
  · refine .some fun index => ?_
    rw [Array.getElem?_extract, Array.getElem?_extract, ← alike.size_eq]
    split
    · exact alike _
    · exact .none
  · exact .none

theorem overwrite? (alike : SinglesAlike first second) (start : Nat) {values values' : Array Single}
    (same : SinglesAlike values values') :
    Option.Rel SinglesAlike (overwrite? first start values) (overwrite? second start values') := by
  by_cases room : start + values.size ≤ first.size
  · have room' : start + values'.size ≤ second.size := same.size_eq ▸ alike.size_eq ▸ room
    obtain ⟨stored, written, elements⟩ := exists_overwrite? room
    obtain ⟨stored', written', elements'⟩ := exists_overwrite? room'
    rw [written, written']
    refine .some fun index => ?_
    rw [elements, elements', ← same.size_eq]
    split
    · exact same _
    · exact alike index
  · have full : ¬ start + values'.size ≤ second.size := same.size_eq ▸ alike.size_eq ▸ room
    rw [LaneDot.overwrite?, if_neg room, LaneDot.overwrite?, if_neg full]
    exact .none

theorem convertRange (alike : SinglesAlike first second) (source : Array Code) (start stop : Nat) :
    SinglesAlike (convertRange source first start stop) (convertRange source second start stop) := by
  intro index
  by_cases inside : start ≤ index ∧ index < stop
  · rw [getElem?_convertRange inside.1 inside.2, getElem?_convertRange inside.1 inside.2]
    rcases eq_none_or_of_rel (alike index) with ⟨left, right⟩ | ⟨a, b, left, right, -⟩
    · rw [left, right]
      exact .none
    · rw [left, right]
      exact .some (.refl _)
  · rw [getElem?_convertRange_of_not inside, getElem?_convertRange_of_not inside]
    exact alike index

end SinglesAlike

/-! ## Conversions -/

structure SameVerdict {ε : Type} (first second : (Except ε Unit × Dispatch) × Array Single) :
    Prop where
  verdict : first.1.1 = second.1.1
  machine : first.1.2.machine = second.1.2.machine
  buffer : SinglesAlike first.2 second.2

theorem ConvertRoute.outcome_alike (route : ConvertRoute) (source : Array Code)
    {target target' : Array Single} (targets : SinglesAlike target target') :
    (route.outcome source target).1 = (route.outcome source target').1 ∧
      SinglesAlike (route.outcome source target).2 (route.outcome source target').2 := by
  cases route with
  | checked =>
      rw [outcome, outcome, ← targets.size_eq]
      split
      · exact ⟨rfl, targets.convertRange source 0 source.size⟩
      · exact ⟨rfl, targets⟩
  | backend fixed =>
      rw [outcome, outcome, ← targets.size_eq]
      exact ⟨rfl, targets.convertRange source 0 _⟩

theorem ConvertRoute.run_alike (route : ConvertRoute) (source : Array Code)
    {dispatch dispatch' : Dispatch} (machines : dispatch.machine = dispatch'.machine)
    {target target' : Array Single} (targets : SinglesAlike target target') :
    Option.Rel SameVerdict (route.run source dispatch target)
      (route.run source dispatch' target') := by
  obtain ⟨after, ran, leaves⟩ := route.exists_run dispatch source target
  obtain ⟨after', ran', leaves'⟩ := route.exists_run dispatch' source target'
  obtain ⟨verdict, buffer⟩ := route.outcome_alike source targets
  rw [ran, ran']
  exact .some ⟨verdict, leaves.machine_eq.trans (machines.trans leaves'.machine_eq.symm), buffer⟩

/-! ## Calls that may ask for the level -/

theorem Dispatch.machine_settle_congr {dispatch dispatch' : Dispatch}
    (machines : dispatch.machine = dispatch'.machine) :
    dispatch.settle.machine = dispatch'.settle.machine := by
  rw [dispatch.machine_settle, dispatch'.machine_settle, machines]

/-- From any dispatches of one machine the calls match and leave dispatches of one machine. -/
def DispatchT.Matches {α β : Type} (related : α → β → Prop) (first : DispatchT AccessM α)
    (second : DispatchT AccessM β) : Prop :=
  ∀ dispatch dispatch' : Dispatch, dispatch.machine = dispatch'.machine →
    AccessM.Matches (fun left right => related left.1 right.1 ∧ left.2.machine = right.2.machine)
      (first dispatch) (second dispatch')

namespace DispatchT.Matches

variable {α β γ δ : Type} {related : α → β → Prop} {later : γ → δ → Prop}

theorem pure {left : α} {right : β} (values : related left right) :
    DispatchT.Matches related (pure left) (pure right) :=
  fun _ _ machines => .pure ⟨values, machines⟩

theorem bind {first : DispatchT AccessM α} {second : DispatchT AccessM β}
    {next : α → DispatchT AccessM γ} {next' : β → DispatchT AccessM δ}
    (start : DispatchT.Matches related first second)
    (rest : ∀ {left right}, related left right → DispatchT.Matches later (next left) (next' right)) :
    DispatchT.Matches later (first >>= next) (second >>= next') :=
  fun dispatch dispatch' machines =>
    (start dispatch dispatch' machines).bind fun results => rest results.1 _ _ results.2

theorem lift {first : AccessM α} {second : AccessM β} (start : AccessM.Matches related first second) :
    DispatchT.Matches related (monadLift first) (monadLift second) := by
  intro dispatch dispatch' machines
  change AccessM.Matches _ (first >>= fun value => Pure.pure (value, dispatch))
    (second >>= fun value => Pure.pure (value, dispatch'))
  exact start.bind fun values => .pure ⟨values, machines⟩

theorem failure : DispatchT.Matches related failure failure :=
  fun _ _ _ _ _ _ => .none

/-- The answers may differ, and no matching call shows the difference. -/
theorem askLevel : DispatchT.Matches (fun _ _ => True) askLevel askLevel := by
  intro dispatch dispatch' machines
  rw [askLevel_apply, askLevel_apply]
  exact .pure ⟨trivial, Dispatch.machine_settle_congr machines⟩

end DispatchT.Matches

/-! ## Dot products -/

def Table.Related (first second : Table) : Prop :=
  ∃ level level', first = ofLevel level ∧ second = ofLevel level'

theorem Table.ofLevel?_related (machine : Machine) (level : Level) :
    Option.Rel Related (ofLevel? machine level) (ofLevel? machine level) := by
  unfold ofLevel?
  split
  · exact .some ⟨level, level, rfl, rfl⟩
  · exact .none

theorem Choice.table?_matches (choice : Choice) :
    DispatchT.Matches (Option.Rel Table.Related) choice.table? choice.table? := by
  intro dispatch dispatch' machines
  cases choice with
  | auto =>
      rw [table?_auto, table?_auto]
      exact .pure ⟨.some ⟨_, _, rfl, rfl⟩, Dispatch.machine_settle_congr machines⟩
  | fixed level =>
      refine .pure ⟨?_, machines⟩
      rw [← machines]
      exact Table.ofLevel?_related _ _

namespace Task.Alike

variable {task task' : Task}

theorem extents_eq (tasks : task.Alike task') (fusion sums : Nat) :
    task.extents fusion sums = task'.extents fusion sums := by
  rw [extents, extents, tasks.x.size_eq, tasks.y, tasks.stride, tasks.length]

theorem dispatchedDot (tasks : task.Alike task') (fusion : Nat) (start : Address) :
    DispatchT.Matches Eq (dispatchedDot fusion task start)
      (LaneDot.dispatchedDot fusion task' start) :=
  DispatchT.Matches.askLevel.bind fun _ => .lift (tasks.fused _ _ fusion start)

theorem checkedDot (tasks : task.Alike task') (fusion : Nat) :
    DispatchT.Matches Eq (checkedDot fusion task) (LaneDot.checkedDot fusion task') := by
  refine (DispatchT.Matches.lift Matches.sumLength).bind ?_
  rintro sums _ rfl
  rw [← tasks.extents_eq, ← tasks.y]
  unfold guarded
  split
  · exact .pure rfl
  · exact (tasks.dispatchedDot fusion _).bind fun _ => .pure rfl

theorem tableCall (tasks : task.Alike task') {table table' : Table} (tables : table.Related table') :
    Matches Eq (table.call task) (table'.call task') := by
  obtain ⟨level, level', rfl, rfl⟩ := tables
  refine Matches.sumLength.bind ?_
  rintro sums _ rfl
  rw [Table.get_ofLevel, Table.get_ofLevel]
  by_cases supported : 0 < sums ∧ sums ≤ maxFusion
  · rw [if_pos supported, if_pos supported, ← tasks.extents_eq, ← tasks.y]
    unfold guarded
    dsimp only
    split
    · exact .pure rfl
    · exact (tasks.fused level level' sums _).bind fun _ => .pure rfl
  · rw [if_neg supported, if_neg supported]
    exact .pure rfl

/-- By every route alike tasks get the same verdict from any two dispatches, and alike sums. -/
theorem run (tasks : task.Alike task') (route : DotRoute) (base : Nat) :
    DispatchT.Matches Eq (route.run task base) (route.run task' base) := by
  unfold DotRoute.run
  rw [← tasks.y]
  cases route with
  | checked fusion => exact tasks.checkedDot fusion
  | table choice =>
      refine choice.table?_matches.bind fun tables => ?_
      cases tables with
      | none => exact .failure
      | some tables => exact .lift (tasks.tableCall tables)
  | routine choice fusion =>
      refine choice.table?_matches.bind fun tables => ?_
      cases tables with
      | none => exact .failure
      | some tables =>
          obtain ⟨level, level', rfl, rfl⟩ := tables
          dsimp only
          rw [Table.get_ofLevel, Table.get_ofLevel]
          by_cases supported : 0 < fusion ∧ fusion ≤ maxFusion
          · rw [if_pos supported, if_pos supported]
            exact (DispatchT.Matches.lift (tasks.fused level level' fusion _)).bind fun _ =>
              .pure rfl
          · rw [if_neg supported, if_neg supported]
            exact .pure rfl
  | named index => exact (tasks.dispatchedDot _ _).bind fun _ => .pure rfl
  | sequential index =>
      exact (DispatchT.Matches.lift (tasks.sequential _ _)).bind fun _ => .pure rfl
  | backend fixed fusion =>
      exact (DispatchT.Matches.lift (tasks.fused fixed fixed fusion _)).bind fun _ => .pure rfl

end Task.Alike

/-! ## Steps -/

structure Buffers.Alike (first second : Buffers) : Prop where
  x : SinglesAlike first.x second.x
  y : first.y = second.y
  sum : SinglesAlike first.sum second.sum

/-- The same answer up to the sign of zeros, apart from the name of a level. -/
inductive Answer.Alike : Answer → Answer → Prop where
  | done : Alike .done .done
  | copied {x x' : Array Single} (same : SinglesAlike x x') : Alike (.copied x) (.copied x')
  | converted {x x' : Array Single} (verdict : Except LengthMismatch Unit)
      (same : SinglesAlike x x') : Alike (.converted verdict x) (.converted verdict x')
  | dotted {sum sum' : Array Single} (verdict : Except DotError Unit)
      (same : SinglesAlike sum sum') : Alike (.dotted verdict sum) (.dotted verdict sum')
  /-- Each look-up finds a routine for the same fusion factor or fails with the same error. -/
  | found {table table' : Table} {routines routines' : List (Except DotError Routine)}
      (same : routines.map (Except.map Routine.fusion) = routines'.map (Except.map Routine.fusion)) :
      Alike (.found table routines) (.found table' routines')
  | missing : Alike .missing .missing
  | level {level level' : Level} {table table' : Table} :
      Alike (.level level table) (.level level' table')
  | refused : Alike .refused .refused

structure Session.Alike (first second : Session) : Prop where
  machine : first.dispatch.machine = second.dispatch.machine
  buffers : first.buffers.Alike second.buffers

structure Turn.Alike (first second : Turn) : Prop where
  session : first.session.Alike second.session
  answer : first.answer.Alike second.answer

theorem Table.map_fusion_get (level level' : Level) (fusions : List Nat) :
    (fusions.map (ofLevel level).get).map (Except.map Routine.fusion) =
      (fusions.map (ofLevel level').get).map (Except.map Routine.fusion) := by
  rw [List.map_map, List.map_map]
  refine List.map_congr_left fun fusion _ => ?_
  rw [Function.comp_apply, Function.comp_apply, get_ofLevel, get_ofLevel]
  split <;> rfl

namespace Session

variable {session session' : Session}

theorem copy?_alike (sessions : session.Alike session') (start : Nat) (part : Span) :
    Option.Rel SinglesAlike (session.copy? start part) (session'.copy? start part) :=
  rel_bind (sessions.buffers.sum.read? part) fun values => sessions.buffers.x.overwrite? start values

theorem convert?_alike (sessions : session.Alike session') (route : ConvertRoute) (y x : Span) :
    Option.Rel SameVerdict (session.convert? route y x) (session'.convert? route y x) := by
  unfold convert?
  rw [← sessions.buffers.y]
  refine rel_bind (rel_self _) ?_
  rintro source _ rfl
  refine rel_bind (sessions.buffers.x.read? x) fun targets => ?_
  refine rel_bind (route.run_alike source sessions.machine targets) fun converted => ?_
  refine rel_bind (sessions.buffers.x.overwrite? x.start converted.buffer) fun stored => ?_
  exact .some ⟨converted.verdict, converted.machine, stored⟩

theorem dot?_alike (sessions : session.Alike session') (route : DotRoute) (stride : UInt64)
    (length base : Nat) (x y sum : Span) :
    Option.Rel SameVerdict (session.dot? route stride length base x y sum)
      (session'.dot? route stride length base x y sum) := by
  unfold dot?
  rw [← sessions.buffers.y]
  refine rel_bind (sessions.buffers.x.read? x) fun streams => ?_
  refine rel_bind (rel_self _) ?_
  rintro codes _ rfl
  refine rel_bind (sessions.buffers.sum.read? sum) fun sums => ?_
  have tasks : Task.Alike ⟨_, ⟨codes, 0⟩, stride, length⟩ ⟨_, ⟨codes, 0⟩, stride, length⟩ :=
    ⟨streams, rfl, rfl, rfl⟩
  refine rel_bind (tasks.run route base _ _ sessions.machine (.ofSum _) (.ofSum _) sums)
    fun outcome => ?_
  refine rel_bind (sessions.buffers.sum.overwrite? sum.start outcome.2) fun stored => ?_
  exact .some ⟨outcome.1.1, outcome.1.2, stored⟩

/-- A look-up finds related tables, or the machine of both sessions lacks the level. -/
theorem lookUp_alike (sessions : session.Alike session') (choice : Choice) :
    Option.Rel Table.Related (session.lookUp choice).1 (session'.lookUp choice).1 ∧
      (session.lookUp choice).2.machine = (session'.lookUp choice).2.machine := by
  unfold lookUp
  cases choice with
  | auto =>
      rw [Choice.table?_auto, Choice.table?_auto]
      exact ⟨.some ⟨_, _, rfl, rfl⟩, Dispatch.machine_settle_congr sessions.machine⟩
  | fixed level =>
      refine ⟨?_, sessions.machine⟩
      change Option.Rel Table.Related (Table.ofLevel? session.dispatch.machine level)
        (Table.ofLevel? session'.dispatch.machine level)
      rw [← sessions.machine]
      exact Table.ofLevel?_related _ _

/-- One step on alike sessions leaves alike sessions and gives alike answers. -/
theorem step_alike (sessions : session.Alike session') (step : Step) :
    (session.step step).Alike (session'.step step) := by
  have buffers := sessions.buffers
  cases step with
  | setX start values =>
      rcases eq_none_or_of_rel (buffers.x.overwrite? start (.refl values)) with
        ⟨left, right⟩ | ⟨x, x', left, right, stored⟩
      · simp only [Session.step, left, right]
        exact ⟨sessions, .refused⟩
      · simp only [Session.step, left, right]
        exact ⟨⟨sessions.machine, stored, buffers.y, buffers.sum⟩, .done⟩
  | setY start codes =>
      simp only [Session.step, ← buffers.y]
      split
      · exact ⟨sessions, .refused⟩
      · exact ⟨⟨sessions.machine, buffers.x, rfl, buffers.sum⟩, .done⟩
  | copySum start part =>
      rcases eq_none_or_of_rel (copy?_alike sessions start part) with
        ⟨left, right⟩ | ⟨x, x', left, right, stored⟩
      · simp only [Session.step, left, right]
        exact ⟨sessions, .refused⟩
      · simp only [Session.step, left, right]
        exact ⟨⟨sessions.machine, stored, buffers.y, buffers.sum⟩, .copied stored⟩
  | convert route y x =>
      rcases eq_none_or_of_rel (convert?_alike sessions route y x) with
        ⟨left, right⟩ | ⟨⟨⟨verdict, after⟩, x⟩, ⟨⟨verdict', after'⟩, x'⟩, left, right, same⟩
      · simp only [Session.step, left, right]
        exact ⟨sessions, .refused⟩
      · obtain ⟨rfl, machine, stored⟩ := same
        simp only [Session.step, left, right]
        exact ⟨⟨machine, stored, buffers.y, buffers.sum⟩, .converted verdict stored⟩
  | dot route stride length base x y sum =>
      rcases eq_none_or_of_rel (dot?_alike sessions route stride length base x y sum) with
        ⟨left, right⟩ | ⟨⟨⟨verdict, after⟩, sum⟩, ⟨⟨verdict', after'⟩, sum'⟩, left, right, same⟩
      · simp only [Session.step, left, right]
        exact ⟨sessions, .refused⟩
      · obtain ⟨rfl, machine, stored⟩ := same
        simp only [Session.step, left, right]
        exact ⟨⟨machine, buffers.x, buffers.y, stored⟩, .dotted verdict stored⟩
  | setOverride value => exact ⟨⟨sessions.machine, buffers⟩, .done⟩
  | lookUp choice fusions =>
      obtain ⟨tables, machine⟩ := lookUp_alike sessions choice
      simp only [Session.step]
      rcases found : session.lookUp choice with ⟨table, after⟩
      rcases found' : session'.lookUp choice with ⟨table', after'⟩
      rw [found, found'] at tables machine
      cases tables with
      | none => exact ⟨⟨machine, buffers⟩, .missing⟩
      | some related =>
          obtain ⟨level, level', rfl, rfl⟩ := related
          exact ⟨⟨machine, buffers⟩, .found (Table.map_fusion_get level level' fusions)⟩
  | level =>
      rw [step_level, step_level]
      exact ⟨⟨Dispatch.machine_settle_congr sessions.machine, buffers⟩, .level⟩

/-- Alike sessions stay alike over any steps, whatever their levels. -/
theorem run_alike (sessions : session.Alike session') (script : List Step) :
    List.Forall₂ Turn.Alike (session.run script) (session'.run script) := by
  induction script generalizing session session' with
  | nil => exact .nil
  | cons step rest ih =>
      have turns := step_alike sessions step
      exact .cons turns (ih turns.session)

/--
The choice of a level does not show, up to the sign of zeros, over whole runs.
Whatever the steps, a session at the portable level and one at the vector level
that start from the same buffers get the same verdicts, and after every step
corresponding singles of their buffers are one value or two zeros.  Neither
session refuses a legal call.
-/
theorem runs_of_levels_alike {machine : Machine} (vectors : machine.supports .avx2 = true)
    (buffers : Buffers) (script : List Step) :
    List.Forall₂ Turn.Alike (run ⟨.settled machine .portable rfl, buffers⟩ script)
      (run ⟨.settled machine .avx2 vectors, buffers⟩ script) ∧
    ∀ (level : Level) (supported : machine.supports level = true),
      Legal ⟨.settled machine level supported, buffers⟩ script →
      ∀ turn ∈ run ⟨.settled machine level supported, buffers⟩ script,
        turn.answer ≠ .refused := by
  have same : buffers.Alike buffers := ⟨.refl buffers.x, rfl, .refl buffers.sum⟩
  have sessions : Session.Alike ⟨.settled machine .portable rfl, buffers⟩
      ⟨.settled machine .avx2 vectors, buffers⟩ := ⟨rfl, same⟩
  exact ⟨run_alike sessions script, fun _ _ legal => answers_ne_refused legal⟩

/-- Buffers on which a dot product of nine products underflows to a zero. -/
def tinyBuffers : Buffers where
  x := tinyProducts.x
  y := tinyProducts.y.codes
  sum := #[.one]

def tinySession (level : Level) (supported : Machine.full.supports level = true) : Session :=
  ⟨.settled .full level supported, tinyBuffers⟩

/-- A dot product, its sum copied into the stream, and a dot product on the new stream. -/
def feedback : List Step :=
  [.dot (.named ⟨0, by decide⟩) 0 9 0 .whole .whole .whole, .copySum 4,
    .dot (.checked 1) 0 9 0 .whole .whole .whole]

/-- The two sessions hold different zeros in the stream, and yet they stay alike. -/
theorem runs_of_levels_alike_feedback :
    Machine.full.supports .avx2 = true ∧
    (tinySession .portable rfl).Legal feedback ∧ (tinySession .avx2 rfl).Legal feedback ∧
    List.Forall₂ Turn.Alike ((tinySession .portable rfl).run feedback)
      ((tinySession .avx2 rfl).run feedback) ∧
    (∀ turn ∈ (tinySession .portable rfl).run feedback, turn.answer ≠ .refused) ∧
    ((tinySession .portable rfl).run feedback)[1]?.map (·.session.buffers.x[4]?) =
      some (some .negZero) ∧
    ((tinySession .avx2 rfl).run feedback)[1]?.map (·.session.buffers.x[4]?) =
      some (some .zero) := by
  have portable : (tinySession .portable rfl).Legal feedback := by decide +kernel
  have avx2 : (tinySession .avx2 rfl).Legal feedback := by decide +kernel
  obtain ⟨alike, made⟩ := @runs_of_levels_alike .full rfl tinyBuffers feedback
  exact ⟨rfl, portable, avx2, alike, made .portable rfl portable, by decide +kernel,
    by decide +kernel⟩

end Session

end LaneDot
