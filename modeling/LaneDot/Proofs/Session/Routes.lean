import LaneDot.Proofs.Session.Legal

/-!
# All routes to a dot product agree

A checked call, a call through the table of the level, a routine found in that
table, a named routine and the backend of the level choose their kernel and
check their arguments each in its own way.  Where they take the same arguments
they give the same verdict and leave the same sums, and a checked call on more
sums than rows is the call through the table on the first of them.
-/

namespace LaneDot

/-! ## Extents and sums -/

/-- Sums beyond the rows do not enter a check. -/
theorem Task.check_extents_of_le (task : Task) {fusion sums : Nat} (output : fusion ≤ sums) :
    (task.extents fusion sums).check = (task.extents fusion fusion).check := by
  have rows (count row : Nat) : (task.extents fusion sums).checkRows count row =
      (task.extents fusion fusion).checkRows count row := by
    induction count generalizing row with
    | zero => rfl
    | succ count ih =>
        rw [Extents.checkRows, Extents.checkRows, ih]
        rfl
  have long : ¬ (task.extents fusion sums).sumLength < (task.extents fusion sums).fusion :=
    Nat.not_lt.mpr output
  have enough : ¬ (task.extents fusion fusion).sumLength < (task.extents fusion fusion).fusion :=
    Nat.lt_irrefl fusion
  rw [Extents.check, Extents.check, if_neg long, if_neg enough, rows]
  rfl

theorem writeSums_eq_append {sum : Array Single} {count : Nat} (value : Nat → Single)
    (room : count ≤ sum.size) :
    writeSums sum count value =
      writeSums (sum.extract 0 count) count value ++ sum.extract count sum.size := by
  have front : (sum.extract 0 count).size = count := Array.size_extract_of_le room
  apply Array.ext_getElem?
  intro index
  rw [Array.getElem?_append, size_writeSums, front]
  split
  · next inside =>
      rw [getElem?_writeSums value inside room, getElem?_writeSums value inside front.ge]
  · next outside =>
      have place : count + (index - count) = index := by omega
      rw [getElem?_writeSums_of_le value (by omega), Array.getElem?_extract, place]
      split
      · rfl
      · exact Array.getElem?_eq_none (by omega)

namespace DotRoute

/-- The verdict of a call that starts at the first code, and the sums that it leaves. -/
def outcome? (route : DotRoute) (dispatch : Dispatch) (task : Task) (sum : Array Single) :
    Option (Except DotError Unit × Array Single) :=
  ((route.run task 0).run' dispatch (.ofSum sum)).map fun result => (result.1, result.2.sum)

def rowSums (level : Level) (task : Task) (fusion : Nat) (sum : Array Single) : Array Single :=
  writeSums sum fusion fun row =>
    level.backend.rowSum task.single (task.codeAt task.y.origin row) task.length

def answer (level : Level) (task : Task) (fusion : Nat) (sum : Array Single) :
    Except DotError Unit × Array Single :=
  match (task.extents fusion sum.size).check with
  | .ok () => (.ok (), rowSums level task fusion sum)
  | .error error => (.error error, sum)

variable {task : Task} {fusion : Nat} {sum : Array Single} {dispatch : Dispatch}

theorem outcome?_of_some {route : DotRoute} {verdict : Except DotError Unit} {after : Dispatch}
    {memory : Memory}
    (ran : route.run task 0 dispatch (.ofSum sum) = some ((verdict, after), memory)) :
    route.outcome? dispatch task sum = some (verdict, memory.sum) := by
  rw [outcome?, DispatchT.run'_of_some ran]
  rfl

theorem exists_fused (covers : task.Covers fusion task.y.origin sum.size) (level : Level) :
    ∃ memory, level.backend.fused fusion task task.y.origin (.ofSum sum) = some ((), memory) ∧
      memory.sum = rowSums level task fusion sum :=
  ⟨_, covers.fused_apply level.backend covers.output, rfl⟩

theorem Legal.outcome?_eq {route : DotRoute}
    (legal : route.Legal dispatch.machine task 0 sum.size) :
    route.outcome? dispatch task sum = route.resultAt? dispatch.level task 0 sum := by
  obtain ⟨verdict, after, memory, runs⟩ := legal.exists_runs
  rw [outcome?_of_some runs.ran, runs.result]

theorem resultAt?_checked (addressable : 2 * task.y.codes.size ≤ addressSpace) (level : Level)
    (fusion : Nat) (sum : Array Single) :
    (checked fusion).resultAt? level task 0 sum = some (answer level task fusion sum) := by
  rcases verdict : (task.extents fusion sum.size).check with error | ⟨⟩
  · have refused : (checked fusion).verdict task sum.size = .error error := verdict
    rw [resultAt?_of_refused refused, answer, verdict]
  · have covers := (Task.accepted_of_check addressable verdict).covers addressable
    obtain ⟨memory, ran, sums⟩ := exists_fused covers level
    have accepts : (checked fusion).verdict task sum.size = .ok () := verdict
    rw [resultAt?_of_accepted accepts ran, answer, verdict, sums]

theorem outcome?_checked (addressable : 2 * task.y.codes.size ≤ addressSpace)
    (dispatch : Dispatch) (fusion : Nat) (sum : Array Single) :
    (checked fusion).outcome? dispatch task sum = some (answer dispatch.level task fusion sum) := by
  have legal : (checked fusion).Legal dispatch.machine task 0 sum.size := addressable
  rw [legal.outcome?_eq, resultAt?_checked addressable]

/-- A call through an available table answers at the level of the table. -/
theorem outcome?_table (addressable : 2 * task.y.codes.size ≤ addressSpace) {choice : Choice}
    (available : choice.Available dispatch.machine) (sum : Array Single) :
    (table choice).outcome? dispatch task sum =
      some (answer (choice.level dispatch.level) task sum.size sum) := by
  have legal : (table choice).Legal dispatch.machine task 0 sum.size := ⟨available, addressable⟩
  rw [legal.outcome?_eq]
  exact resultAt?_checked addressable (choice.level dispatch.level) sum.size sum

/-- The routes that check nothing run the kernel of the level. -/
theorem outcome?_unchecked (covers : task.Covers fusion task.y.origin sum.size)
    (dispatch : Dispatch) {index : Fin maxFusion} (isFusion : index.val + 1 = fusion) :
    ∀ route ∈ [named index, routine .auto fusion, backend dispatch.level fusion],
      route.outcome? dispatch task sum = some (.ok (), rowSums dispatch.level task fusion sum) := by
  obtain ⟨memory, ran, sums⟩ := exists_fused covers dispatch.level
  have origin : task.y.address 0 = task.y.origin := UInt64.add_zero _
  have supported : 0 < fusion ∧ fusion ≤ maxFusion := by
    have bound := index.isLt
    omega
  rw [← origin] at covers ran
  have outcome {route : DotRoute} (legal : route.Legal dispatch.machine task 0 sum.size)
      (accepts : route.verdict task sum.size = .ok ())
      (same : route.kernel dispatch.level task 0 sum.size =
        dispatch.level.backend.fused fusion task (task.y.address 0)) :
      route.outcome? dispatch task sum = some (.ok (), rowSums dispatch.level task fusion sum) := by
    rw [← same] at ran
    rw [legal.outcome?_eq, resultAt?_of_accepted accepts ran, sums]
  intro route member
  rcases List.mem_cons.mp member with rfl | member
  · subst isFusion
    exact outcome covers rfl rfl
  rcases List.mem_cons.mp member with rfl | member
  · exact outcome ⟨trivial, fun _ => covers⟩ (if_pos supported) rfl
  · obtain rfl := List.mem_singleton.mp member
    exact outcome ⟨dispatch.supports_level, covers⟩ rfl rfl

/-! ## Agreement -/

theorem size_answer (level : Level) (task : Task) (fusion : Nat) (sum : Array Single) :
    (answer level task fusion sum).2.size = sum.size := by
  rw [answer]
  split
  · exact size_writeSums _ _ _
  · rfl

/-- Sums beyond the rows are kept, and the others are treated as if they were all. -/
theorem answer_eq_append (level : Level) (task : Task) (room : fusion ≤ sum.size) :
    answer level task fusion sum =
      ((answer level task fusion (sum.extract 0 fusion)).1,
        (answer level task fusion (sum.extract 0 fusion)).2 ++ sum.extract fusion sum.size) := by
  have front : (sum.extract 0 fusion).size = fusion := Array.size_extract_of_le room
  rw [answer, answer, front, task.check_extents_of_le room]
  split
  · rw [rowSums, writeSums_eq_append _ room]
    rfl
  · rw [Array.extract_append_extract, Nat.zero_min, Nat.max_eq_right room, Array.extract_size]

theorem answer_of_unsupported (level : Level) (task : Task) (sum : Array Single)
    (unsupported : fusion = 0 ∨ maxFusion < fusion) :
    answer level task fusion sum = (.error (.fusionFactor fusion maxFusion), sum) := by
  have refused : (task.extents fusion sum.size).check = .error (.fusionFactor fusion maxFusion) :=
    if_pos unsupported
  rw [answer, refused]

theorem answer_ne_outputTooShort (addressable : task.y.codes.size < addressSpace)
    (room : fusion ≤ sum.size) (length required : Nat) (left : Array Single) :
    answer level task fusion sum ≠ (.error (.outputTooShort length required), left) := by
  intro short
  have verdict : (task.extents fusion sum.size).check = .error (.outputTooShort length required) := by
    rw [answer] at short
    split at short
    · cases short
    · next refused => rw [refused, (Prod.mk.inj short).1]
  cases (Extents.check_eq_iff addressable).mp verdict with
  | outputTooShort _ _ less => exact absurd room (Nat.not_le.mpr less)

/-- Accepted extents make the checked call and the three unchecked ones agree. -/
theorem exists_sums_of_accepted (addressable : 2 * task.y.codes.size ≤ addressSpace)
    (dispatch : Dispatch) (accepts : (task.extents fusion sum.size).check = .ok ()) :
    ∃ (index : Fin maxFusion) (sums : Array Single), index.val + 1 = fusion ∧
      ∀ route ∈ [checked fusion, named index, routine .auto fusion, backend dispatch.level fusion],
        route.outcome? dispatch task sum = some (.ok (), sums) := by
  have accepted := Task.accepted_of_check addressable accepts
  have positive := accepted.positive
  have isFusion : fusion - 1 + 1 = fusion := Nat.sub_add_cancel positive
  have inside : fusion - 1 < maxFusion := (Nat.sub_one_lt_of_lt positive).trans_le accepted.supported
  refine ⟨⟨fusion - 1, inside⟩, rowSums dispatch.level task fusion sum, isFusion, ?_⟩
  intro route member
  rcases List.mem_cons.mp member with rfl | unchecked
  · rw [outcome?_checked addressable, answer, accepts]
  · exact outcome?_unchecked (accepted.covers addressable) dispatch isFusion route unchecked

/-- Every way to a routine refuses a fusion factor without one, before anything else. -/
theorem refused_of_unsupported (addressable : 2 * task.y.codes.size ≤ addressSpace)
    (dispatch : Dispatch) (sum : Array Single) (unsupported : fusion = 0 ∨ maxFusion < fusion) :
    (Table.ofLevel dispatch.level).get fusion = .error (.fusionFactor fusion maxFusion) ∧
    (∀ route ∈ [checked fusion, routine .auto fusion],
      route.outcome? dispatch task sum = some (.error (.fusionFactor fusion maxFusion), sum)) ∧
    (sum.size = fusion →
      (table .auto).outcome? dispatch task sum =
        some (.error (.fusionFactor fusion maxFusion), sum)) := by
  have missing : (Table.ofLevel dispatch.level).get fusion =
      .error (.fusionFactor fusion maxFusion) := by
    rw [Table.get_ofLevel, if_neg (by omega)]
  refine ⟨missing, ?_, ?_⟩
  · intro route member
    rcases List.mem_cons.mp member with rfl | member
    · rw [outcome?_checked addressable, answer_of_unsupported dispatch.level task sum unsupported]
    · obtain rfl := List.mem_singleton.mp member
      have absent : ¬ (0 < fusion ∧ fusion ≤ maxFusion) := by omega
      have legal : (routine .auto fusion).Legal dispatch.machine task 0 sum.size :=
        ⟨trivial, (absurd · absent)⟩
      rw [legal.outcome?_eq]
      exact resultAt?_of_refused (if_neg absent)
  · rintro rfl
    rw [@outcome?_table task dispatch addressable .auto trivial,
      answer_of_unsupported (Choice.auto.level dispatch.level) task sum unsupported]

/--
All routes agree, whatever the dispatch.  On as many sums as rows a checked call
and a call through the table have one outcome; on more sums the checked call
leaves those beyond the rows as they were and treats the others as the table
does.  Where the extents are accepted the named routine, the routine of the
table and the backend of the level leave the same sums.  A fusion factor without
a routine is refused by all of them in one way, and the table finds no output
too short.
-/
theorem routes_agree (addressable : 2 * task.y.codes.size ≤ addressSpace) (dispatch : Dispatch)
    (fusion : Nat) (sum : Array Single) :
    (sum.size = fusion → ∃ outcome,
      (checked fusion).outcome? dispatch task sum = some outcome ∧
      (table .auto).outcome? dispatch task sum = some outcome) ∧
    (fusion < sum.size → ∃ verdict front,
      (table .auto).outcome? dispatch task (sum.extract 0 fusion) = some (verdict, front) ∧
      (checked fusion).outcome? dispatch task sum =
        some (verdict, front ++ sum.extract fusion sum.size) ∧ front.size = fusion) ∧
    ((task.extents fusion sum.size).check = .ok () →
      ∃ (index : Fin maxFusion) (sums : Array Single), index.val + 1 = fusion ∧
        ∀ route ∈ [checked fusion, named index, routine .auto fusion,
            backend dispatch.level fusion],
          route.outcome? dispatch task sum = some (.ok (), sums)) ∧
    (fusion = 0 ∨ 8 < fusion →
      (Table.ofLevel dispatch.level).get fusion = .error (.fusionFactor fusion 8) ∧
      (∀ route ∈ [checked fusion, routine .auto fusion],
        route.outcome? dispatch task sum = some (.error (.fusionFactor fusion 8), sum)) ∧
      (sum.size = fusion →
        (table .auto).outcome? dispatch task sum = some (.error (.fusionFactor fusion 8), sum))) ∧
    ∀ length required left, (table .auto).outcome? dispatch task sum ≠
      some (.error (.outputTooShort length required), left) := by
  have called (sums : Array Single) := @outcome?_table task dispatch addressable .auto trivial sums
  refine ⟨?_, ?_, ?_, ?_, ?_⟩
  · rintro rfl
    exact ⟨_, outcome?_checked addressable dispatch _ sum, called sum⟩
  · intro longer
    have front : (sum.extract 0 fusion).size = fusion := Array.size_extract_of_le longer.le
    have onFront := called (sum.extract 0 fusion)
    have checked := outcome?_checked addressable dispatch fusion sum
    rw [front] at onFront
    rw [answer_eq_append dispatch.level task longer.le] at checked
    exact ⟨_, _, onFront, checked, (size_answer _ _ _ _).trans front⟩
  · exact exists_sums_of_accepted addressable dispatch
  · exact refused_of_unsupported addressable dispatch sum
  · intro length required left
    have codes : task.y.codes.size < addressSpace := by
      rw [addressSpace_eq] at addressable ⊢
      omega
    rw [called, Ne, Option.some.injEq]
    exact answer_ne_outputTooShort codes le_rfl length required left

def vectors : Dispatch := .settled .full .avx2 rfl

/-- Two rows of ones and three sums: the routes leave the same sums and keep the third. -/
theorem routes_agree_unitProducts :
    2 * unitProducts.y.codes.size ≤ addressSpace ∧
    (unitProducts.extents 2 3).check = .ok () ∧
    ∃ verdict front,
      (table .auto).outcome? vectors unitProducts #[.half, .half] = some (verdict, front) ∧
      (checked 2).outcome? vectors unitProducts #[.half, .half, .one] =
        some (verdict, front ++ #[.one]) ∧
      (routine .auto 2).outcome? vectors unitProducts #[.half, .half, .one] =
        some (.ok (), front ++ #[.one]) := by
  have addressable : 2 * unitProducts.y.codes.size ≤ addressSpace := by decide
  have accepts : (unitProducts.extents 2 3).check = .ok () := by decide
  obtain ⟨-, longer, accepted, -⟩ := routes_agree addressable vectors 2 #[.half, .half, .one]
  obtain ⟨verdict, front, called, checked, -⟩ := longer (by decide)
  obtain ⟨index, sums, -, same⟩ := accepted accepts
  have left := same (.checked 2) (by simp)
  have found := same (.routine .auto 2) (by simp)
  rw [checked, Option.some.injEq, Prod.mk.injEq] at left
  refine ⟨addressable, accepts, verdict, front, called, checked, ?_⟩
  rw [found, ← left.2]
  rfl

end DotRoute

end LaneDot
