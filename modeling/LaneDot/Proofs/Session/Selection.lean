import LaneDot.Proofs.Session.Legal

/-!
# The level is selected once

A fresh session has no level.  The first step whose call asks for one selects
it, from the override that the environment holds at that step, and logs the
selection.  Until then nothing is selected or logged.  After it the level stays,
calls run at it and nothing more is logged, whatever later steps do and however
the environment changes.  A check that refuses its call, a table or a backend
named outright and the sequential kernels ask for no level.
-/

namespace LaneDot

/-! ## Steps that need the level -/

/--
A step needs the level when its call does, when it looks up the table of
dispatched calls and when it asks for the level itself.
-/
def Step.NeedsLevel (step : Step) (buffers : Buffers) : Prop :=
  match step with
  | .convert route y x =>
      ∃ source ∈ y.read? buffers.y, ∃ target ∈ x.read? buffers.x,
        route.NeedsLevel source.size target.size
  | .dot route stride length _ x y sum =>
      ∃ xs ∈ x.read? buffers.x, ∃ codes ∈ y.read? buffers.y, ∃ sums ∈ sum.read? buffers.sum,
        route.NeedsLevel ⟨xs, ⟨codes, 0⟩, stride, length⟩ sums.size
  | .lookUp choice _ => choice.NeedsLevel
  | .level => True
  | .setX _ _ | .setY _ _ | .copySum _ _ | .setOverride _ => False

def Step.overrideAfter (override : Option String) : Step → Option String
  | .setOverride value => value
  | _ => override

def Step.prepare (step : Step) (dispatch : Dispatch) : Dispatch :=
  { dispatch with override := step.overrideAfter dispatch.override }

/-- A step that needs the level finds the environment as it is. -/
theorem Step.prepare_of_needs {step : Step} {buffers : Buffers} (needs : step.NeedsLevel buffers)
    (dispatch : Dispatch) : step.prepare dispatch = dispatch := by
  cases step with
  | setOverride value => exact needs.elim
  | _ => rfl

theorem Dispatch.Leaves.of_iff {dispatch after : Dispatch} {needs needs' : Prop}
    (leaves : dispatch.Leaves needs after) (same : needs' ↔ needs) :
    dispatch.Leaves needs' after :=
  ⟨fun needed => leaves.needed (same.mp needed), fun idle => leaves.idle (idle ∘ same.mpr)⟩

namespace Session

variable {session : Session} {step : Step}

/-- A legal step selects a level exactly when it needs one, and otherwise changes nothing of it. -/
theorem leaves_step (legal : step.Legal session.dispatch.machine session.buffers) :
    (step.prepare session.dispatch).Leaves (step.NeedsLevel session.buffers)
      (session.step step).session.dispatch := by
  cases step with
  | setX start values =>
      simp only [Session.step]
      split <;> exact ⟨False.elim, fun _ => rfl⟩
  | setY start codes =>
      simp only [Session.step]
      split <;> exact ⟨False.elim, fun _ => rfl⟩
  | copySum start part =>
      simp only [Session.step]
      split <;> exact ⟨False.elim, fun _ => rfl⟩
  | convert route y x =>
      obtain ⟨source, codes⟩ := Option.isSome_iff_exists.mp legal.2.1
      obtain ⟨target, singles⟩ := Option.isSome_iff_exists.mp legal.2.2
      obtain ⟨after, stored, -, converted, leaves⟩ := convert?_eq codes singles route
      simp only [Session.step, converted]
      refine leaves.of_iff ?_
      simp only [Step.NeedsLevel, codes, singles, Option.mem_some_iff, exists_eq_left']
  | dot route stride length base x y sum =>
      obtain ⟨xs, stream, codes, rows, sums, output, legal⟩ := legal
      obtain ⟨verdict, left, after, stored, -, -, dotted, leaves⟩ :=
        dot?_eq stream rows output legal
      simp only [Session.step, dotted]
      refine leaves.of_iff ?_
      simp only [Step.NeedsLevel, Option.mem_def.mp stream, Option.mem_def.mp rows,
        Option.mem_def.mp output, Option.mem_some_iff, exists_eq_left']
  | setOverride value => exact ⟨False.elim, fun _ => rfl⟩
  | lookUp choice fusions =>
      cases choice with
      | auto =>
          simp only [Session.step, lookUp_auto]
          exact ⟨fun _ => rfl, fun idle => absurd trivial idle⟩
      | fixed level =>
          have kept : (session.lookUp (.fixed level)).2 = session.dispatch := rfl
          simp only [Session.step]
          split
          · next found => exact ⟨False.elim, fun _ => (congrArg Prod.snd found).symm.trans kept⟩
          · next found => exact ⟨False.elim, fun _ => (congrArg Prod.snd found).symm.trans kept⟩
  | level =>
      rw [step_level]
      exact ⟨fun _ => rfl, fun idle => absurd trivial idle⟩

/-- Once a level is selected a legal step changes nothing but the environment. -/
theorem dispatch_step_of_selected {level : Level}
    (selected : session.dispatch.selected = some level)
    (legal : step.Legal session.dispatch.machine session.buffers) :
    (session.step step).session.dispatch = step.prepare session.dispatch := by
  have kept : (step.prepare session.dispatch).selected = some level := selected
  by_cases needs : step.NeedsLevel session.buffers
  · exact ((leaves_step legal).needed needs).trans (Dispatch.settle_of_selected kept)
  · exact (leaves_step legal).idle needs

end Session

/-! ## Steps at a level -/

/--
What a step answers when dispatched calls run at a level: the level and its
table when it asks for them, and otherwise what its call leaves at this level.
-/
def Step.AnswersAt (step : Step) (level : Level) (buffers : Buffers) (answer : Answer) : Prop :=
  match step with
  | .convert route y x =>
      ∃ source ∈ y.read? buffers.y, ∃ target ∈ x.read? buffers.x,
        ∃ stored ∈ overwrite? buffers.x x.start (route.outcome source target).2,
          answer = .converted (route.outcome source target).1 stored
  | .dot route stride length base x y sum =>
      ∃ xs ∈ x.read? buffers.x, ∃ codes ∈ y.read? buffers.y, ∃ sums ∈ sum.read? buffers.sum,
        ∃ result ∈ route.resultAt? level ⟨xs, ⟨codes, 0⟩, stride, length⟩ base sums,
          ∃ stored ∈ overwrite? buffers.sum sum.start result.2, answer = .dotted result.1 stored
  | .lookUp .auto fusions =>
      answer = .found (Table.ofLevel level) (fusions.map (Table.ofLevel level).get)
  | .level => answer = .level level (Table.ofLevel level)
  | _ => True

namespace Session

variable {session : Session} {step : Step}

theorem answersAt_step (legal : step.Legal session.dispatch.machine session.buffers) :
    step.AnswersAt session.dispatch.level session.buffers (session.step step).answer := by
  cases step with
  | convert route y x =>
      obtain ⟨source, codes⟩ := Option.isSome_iff_exists.mp legal.2.1
      obtain ⟨target, singles⟩ := Option.isSome_iff_exists.mp legal.2.2
      obtain ⟨after, stored, written, converted, -⟩ := convert?_eq codes singles route
      simp only [Session.step, converted]
      exact ⟨source, codes, target, singles, stored, written, rfl⟩
  | dot route stride length base x y sum =>
      obtain ⟨xs, stream, codes, rows, sums, output, legal⟩ := legal
      obtain ⟨verdict, left, after, stored, result, written, dotted, -⟩ :=
        dot?_eq stream rows output legal
      simp only [Session.step, dotted]
      exact ⟨xs, stream, codes, rows, sums, output, (verdict, left), result, stored, written, rfl⟩
  | lookUp choice fusions =>
      cases choice with
      | auto =>
          simp only [Session.step, lookUp_auto]
          rfl
      | fixed level => trivial
  | level =>
      rw [step_level]
      rfl
  | setX _ _ | setY _ _ | copySum _ _ | setOverride _ => trivial

end Session

/-! ## Runs -/

def Turn.Unselected (turn : Turn) : Prop :=
  turn.session.dispatch.selected = none ∧ turn.session.dispatch.log = []

/-- By the end of a turn a level is selected, and some lines are the whole log. -/
structure Turn.Shows (turn : Turn) (level : Level) (lines : List String) : Prop where
  selected : turn.session.dispatch.selected = some level
  log : turn.session.dispatch.log.map LogLine.text = lines

namespace Session

variable {session : Session}

def after (session : Session) (script : List Step) : Session :=
  script.foldl (fun session step => (session.step step).session) session

theorem run_append (session : Session) (first second : List Step) :
    session.run (first ++ second) = session.run first ++ (session.after first).run second := by
  induction first generalizing session with
  | nil => rfl
  | cons step rest ih => exact congrArg (List.cons _) (ih _)

def NeedsNoLevel (session : Session) : List Step → Prop
  | [] => True
  | step :: rest =>
      ¬ step.NeedsLevel session.buffers ∧ (session.step step).session.NeedsNoLevel rest

def AnswersAt (session : Session) (level : Level) : List Step → Prop
  | [] => True
  | step :: rest =>
      step.AnswersAt level session.buffers (session.step step).answer ∧
        (session.step step).session.AnswersAt level rest

theorem legal_append {first second : List Step} (legal : session.Legal (first ++ second)) :
    session.Legal first ∧ (session.after first).Legal second := by
  induction first generalizing session with
  | nil => exact ⟨trivial, legal⟩
  | cons step rest ih =>
      obtain ⟨now, later⟩ := legal
      exact ⟨⟨now, (ih later).1⟩, (ih later).2⟩

/-- A script either never needs the level or has a first step that does. -/
theorem needsNoLevel_or_exists_first (session : Session) (script : List Step) :
    session.NeedsNoLevel script ∨ ∃ before step rest, script = before ++ step :: rest ∧
      session.NeedsNoLevel before ∧ step.NeedsLevel (session.after before).buffers := by
  induction script generalizing session with
  | nil => exact Or.inl trivial
  | cons step script ih =>
      by_cases needs : step.NeedsLevel session.buffers
      · exact Or.inr ⟨[], step, script, rfl, trivial, needs⟩
      rcases ih (session.step step).session with idle | ⟨before, first, rest, rfl, idle, needed⟩
      · exact Or.inl ⟨needs, idle⟩
      · exact Or.inr ⟨step :: before, first, rest, rfl, ⟨needs, idle⟩, needed⟩

/-- Steps that need no level change the environment of a fresh dispatch and nothing else of it. -/
theorem dispatch_after_of_needsNoLevel {script : List Step} (legal : session.Legal script)
    (idle : session.NeedsNoLevel script) {machine : Machine} {override : Option String}
    (fresh : session.dispatch = .fresh machine override) :
    (session.after script).dispatch =
        .fresh machine (script.foldl Step.overrideAfter override) ∧
      ∀ turn ∈ session.run script, turn.Unselected := by
  induction script generalizing session override with
  | nil => exact ⟨fresh, fun turn member => nomatch member⟩
  | cons step rest ih =>
      have dispatch := (leaves_step legal.1).idle idle.1
      rw [fresh] at dispatch
      obtain ⟨last, later⟩ := ih legal.2 idle.2 dispatch
      refine ⟨last, fun turn member => ?_⟩
      rcases List.mem_cons.mp member with rfl | isLater
      · exact ⟨congrArg Dispatch.selected dispatch, congrArg Dispatch.log dispatch⟩
      · exact later turn isLater

/-- The selected level and the log stay over any steps. -/
theorem shows_of_selected {level : Level} {lines : List String}
    (selected : session.dispatch.selected = some level)
    (log : session.dispatch.log.map LogLine.text = lines) {script : List Step}
    (legal : session.Legal script) : ∀ turn ∈ session.run script, turn.Shows level lines := by
  induction script generalizing session with
  | nil => exact fun turn member => nomatch member
  | cons step rest ih =>
      have dispatch := dispatch_step_of_selected selected legal.1
      have selected' := (congrArg Dispatch.selected dispatch).trans selected
      have log' := (congrArg (fun dispatch => dispatch.log.map LogLine.text) dispatch).trans log
      intro turn member
      rcases List.mem_cons.mp member with rfl | later
      · exact ⟨selected', log'⟩
      · exact ih selected' log' legal.2 turn later

/-- Once a level is selected every step answers at this level. -/
theorem answersAt_of_selected {level : Level} (selected : session.dispatch.selected = some level)
    {script : List Step} (legal : session.Legal script) : session.AnswersAt level script := by
  induction script generalizing session with
  | nil => trivial
  | cons step rest ih =>
      have dispatch := dispatch_step_of_selected selected legal.1
      refine ⟨?_, ih ((congrArg Dispatch.selected dispatch).trans selected) legal.2⟩
      rw [← Dispatch.level_of_selected selected]
      exact answersAt_step legal.1

/-- The step that needs the level of a fresh dispatch selects and logs it. -/
theorem shows_of_needs {machine : Machine} {override : Option String} {step : Step}
    (fresh : session.dispatch = .fresh machine override)
    (legal : step.Legal session.dispatch.machine session.buffers)
    (needs : step.NeedsLevel session.buffers) :
    let selection := Selection.ofOverride machine override
    (session.step step).Shows selection.level (selection.log.map LogLine.text) := by
  intro selection
  have dispatch := (leaves_step legal).needed needs
  rw [Step.prepare_of_needs needs, fresh] at dispatch
  exact ⟨congrArg Dispatch.selected dispatch,
    congrArg (fun dispatch => dispatch.log.map LogLine.text) dispatch⟩

end Session

/-! ## What is selected -/

/--
The level that an override selects on a machine with vectors, and the lines of
the log: a level that it forces, or the vector level, with a warning first if it
names no level.
-/
inductive Selects : Option String → Level → List String → Prop where
  | unset : Selects none .avx2 ["INFO shdot kernels: selected avx2 backend"]
  | automatic {value : String} (parsed : Override.parse value = .ok none) :
      Selects (some value) .avx2 ["INFO shdot kernels: selected avx2 backend"]
  | forced {value : String} {level : Level} (parsed : Override.parse value = .ok (some level)) :
      Selects (some value) level ["INFO shdot kernels: selected " ++ level.name ++ " backend"]
  | invalid {value : String} {invalid : InvalidOverride}
      (parsed : Override.parse value = .error invalid) :
      Selects (some value) .avx2
        ["WARN " ++ invalid.message ++ ", using " ++ Level.avx2.name,
          "INFO shdot kernels: selected avx2 backend"]

theorem Machine.supports_of_vectors {machine : Machine} (vectors : machine.supports .avx2 = true)
    (level : Level) : machine.supports level = true := by
  cases level with
  | portable => rfl
  | avx2 => exact vectors

theorem Selection.selects_ofOverride {machine : Machine} (vectors : machine.supports .avx2 = true)
    (override : Option String) :
    Selects override (ofOverride machine override).level
      ((ofOverride machine override).log.map LogLine.text) := by
  have level := Machine.detected_of_supports vectors
  cases override with
  | none =>
      simp only [ofOverride, Option.map_none, detected, level]
      exact .unset
  | some value =>
      rcases parsed : Override.parse value with invalid | forced
      · simp only [ofOverride, Option.map_some, parsed, detected, level]
        exact .invalid parsed
      cases forced with
      | none =>
          simp only [ofOverride, Option.map_some, parsed, detected, level]
          exact .automatic parsed
      | some forced =>
          simp only [ofOverride, Option.map_some, parsed,
            dif_pos (Machine.supports_of_vectors vectors forced)]
          exact .forced parsed

namespace Session

/--
The level is selected once and then fixed.  On a machine with vectors, in a
fresh session either no step needs the level and nothing is ever selected or
logged, or there is a first step that does.  Before that step nothing is
selected or logged.  The step selects the level that the override of that moment
selects, and logs what belongs to it.  From then on every turn keeps the level
and the log, and every step answers at this level.
-/
theorem level_selected_once {machine : Machine} (vectors : machine.supports .avx2 = true)
    (override : Option String) (buffers : Buffers) (script : List Step)
    (legal : Legal ⟨.fresh machine override, buffers⟩ script) :
    let start : Session := ⟨.fresh machine override, buffers⟩
    (start.NeedsNoLevel script ∧ ∀ turn ∈ start.run script, turn.Unselected) ∨
    ∃ before step rest, script = before ++ step :: rest ∧
      start.NeedsNoLevel before ∧ step.NeedsLevel (start.after before).buffers ∧
      (∀ earlier ∈ start.run before, earlier.Unselected) ∧
      start.run script = start.run before ++ (start.after before).run (step :: rest) ∧
      ∃ level lines, Selects (before.foldl Step.overrideAfter override) level lines ∧
        (∀ turn ∈ (start.after before).run (step :: rest), turn.Shows level lines) ∧
        (start.after before).AnswersAt level (step :: rest) := by
  intro start
  rcases start.needsNoLevel_or_exists_first script with
    idle | ⟨before, step, rest, rfl, idle, needs⟩
  · exact Or.inl ⟨idle, (dispatch_after_of_needsNoLevel legal idle rfl).2⟩
  obtain ⟨legalBefore, legalStep, legalRest⟩ := legal_append legal
  obtain ⟨fresh, earlier⟩ := dispatch_after_of_needsNoLevel legalBefore idle rfl
  have selects := Selection.selects_ofOverride vectors (before.foldl Step.overrideAfter override)
  have turn := shows_of_needs fresh legalStep needs
  have later := shows_of_selected turn.selected turn.log legalRest
  have answer := answersAt_step legalStep
  rw [fresh] at answer
  refine Or.inr ⟨before, step, rest, rfl, idle, needs, earlier, start.run_append before _, _, _,
    selects, ?_, answer, answersAt_of_selected turn.selected legalRest⟩
  intro shown member
  rcases List.mem_cons.mp member with rfl | isLater
  · exact turn
  · exact later shown isLater

def unitBuffers : Buffers where
  x := unitProducts.x
  y := unitProducts.y.codes
  sum := #[.half]

/-- Refused checks and a backend named outright, a table used in vain, and a late override. -/
def overriddenCalls : List Step :=
  [.setOverride (some " Portable "), .dot (.checked 9) 0 9 0 .whole .whole .whole,
    .convert .checked ⟨0, some 3⟩ ⟨0, some 2⟩, .dot (.backend .avx2 1) 0 9 0 .whole .whole .whole,
    .dot (.table .auto) 0 9 0 .whole .whole ⟨0, some 0⟩, .setOverride (some "avx2"), .level]

theorem level_selected_once_overriddenCalls :
    let start : Session := ⟨.fresh .full none, unitBuffers⟩
    Machine.full.supports .avx2 = true ∧ start.Legal overriddenCalls ∧
    (∃ before step rest, overriddenCalls = before ++ step :: rest ∧
      start.NeedsNoLevel before ∧ step.NeedsLevel (start.after before).buffers) ∧
    (start.run overriddenCalls).map (·.session.dispatch.selected) =
      [none, none, none, none, some .portable, some .portable, some .portable] := by
  intro start
  have legal : start.Legal overriddenCalls := by decide +kernel
  refine ⟨rfl, legal, ?_, by decide +kernel⟩
  rcases @level_selected_once .full rfl none unitBuffers overriddenCalls legal with
    ⟨idle, -⟩ | ⟨before, step, rest, split, idle, needs, -⟩
  · obtain ⟨-, -, -, -, table, -⟩ := idle
    exact absurd ⟨_, rfl, _, rfl, _, rfl, trivial⟩ table
  · exact ⟨before, step, rest, split, idle, needs⟩

end Session

end LaneDot
