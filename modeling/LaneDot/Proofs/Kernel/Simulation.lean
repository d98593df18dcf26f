import LaneDot.Proofs.Conversion
import LaneDot.Proofs.Single.Alike

/-!
# Kernels on alike buffers

Two runs of a kernel make the same accesses when they start from streams and
outputs that are alike up to the sign of zeros, so either both leave a buffer
or neither does.  Their accumulators stay alike through every step, also when
the runs belong to different levels, and so they leave alike outputs.
-/

namespace LaneDot

/-! ## Related results -/

section

variable {α β γ δ : Type} {related : α → β → Prop} {later : γ → δ → Prop}

theorem eq_none_or_of_rel {first : Option α} {second : Option β}
    (rel : Option.Rel related first second) :
    first = none ∧ second = none ∨
      ∃ left right, first = some left ∧ second = some right ∧ related left right := by
  cases rel with
  | none => exact Or.inl ⟨rfl, rfl⟩
  | some values => exact Or.inr ⟨_, _, rfl, rfl, values⟩

theorem rel_self (option : Option α) : Option.Rel Eq option option := by
  cases option with
  | none => exact .none
  | some value => exact .some rfl

theorem rel_bind {first : Option α} {second : Option β} {next : α → Option γ}
    {next' : β → Option δ} (rel : Option.Rel related first second)
    (rest : ∀ {left right}, related left right → Option.Rel later (next left) (next' right)) :
    Option.Rel later (first >>= next) (second >>= next') := by
  cases rel with
  | none => exact .none
  | some values => exact rest values

end

/-! ## Alike buffers -/

/-- Two buffers whose elements at every index are alike, and hence of one length. -/
def SinglesAlike (first second : Array Single) : Prop :=
  ∀ index : Nat, Option.Rel Single.Alike first[index]? second[index]?

def Lanes.Alike {width : Nat} (first second : Lanes width) : Prop :=
  ∀ lane, (first.get lane).Alike (second.get lane)

namespace SinglesAlike

variable {first second : Array Single}

theorem refl (singles : Array Single) : SinglesAlike singles singles := by
  intro index
  cases singles[index]? with
  | none => exact .none
  | some value => exact .some (.refl value)

theorem size_eq (alike : SinglesAlike first second) : first.size = second.size := by
  have ends (index : Nat) : first.size ≤ index ↔ second.size ≤ index := by
    rw [← Array.getElem?_eq_none_iff, ← Array.getElem?_eq_none_iff]
    rcases eq_none_or_of_rel (alike index) with ⟨left, right⟩ | ⟨a, b, left, right, -⟩ <;>
      simp [left, right]
  exact Nat.le_antisymm ((ends _).mpr le_rfl) ((ends _).mp le_rfl)

theorem getElem (alike : SinglesAlike first second) {index : Nat} (left : index < first.size)
    (right : index < second.size) : first[index].Alike second[index] := by
  have same := alike index
  rw [Array.getElem?_eq_getElem left, Array.getElem?_eq_getElem right] at same
  cases same with
  | some values => exact values

theorem set (alike : SinglesAlike first second) {index : Nat} (left : index < first.size)
    (right : index < second.size) {a b : Single} (values : a.Alike b) :
    SinglesAlike (first.set index a) (second.set index b) := by
  intro place
  rw [Array.getElem?_set, Array.getElem?_set]
  split
  · exact .some values
  · exact alike place

end SinglesAlike

/-! ## Matching computations -/

/--
From memories with alike sums both computations leave a buffer, or both have
results, which are related and come with alike sums.
-/
def AccessM.Matches {α β : Type} (related : α → β → Prop) (first : AccessM α)
    (second : AccessM β) : Prop :=
  ∀ memory memory' : Memory, SinglesAlike memory.sum memory'.sum →
    Option.Rel (fun left right => related left.1 right.1 ∧ SinglesAlike left.2.sum right.2.sum)
      (first memory) (second memory')

namespace AccessM.Matches

variable {α β γ δ : Type} {related : α → β → Prop} {later : γ → δ → Prop}

theorem pure {left : α} {right : β} (values : related left right) :
    Matches related (pure left) (pure right) :=
  fun _ _ sums => .some ⟨values, sums⟩

theorem bind {first : AccessM α} {second : AccessM β} {next : α → AccessM γ}
    {next' : β → AccessM δ} (start : Matches related first second)
    (rest : ∀ {left right}, related left right → Matches later (next left) (next' right)) :
    Matches later (first >>= next) (second >>= next') := by
  intro memory memory' sums
  exact rel_bind (start memory memory' sums) fun results => rest results.1 _ _ results.2

theorem mapM {loop : α → AccessM γ} {loop' : β → AccessM δ} {list : List α} {list' : List β}
    (lists : List.Forall₂ related list list')
    (body : ∀ {left right}, related left right → Matches later (loop left) (loop' right)) :
    Matches (List.Forall₂ later) (list.mapM loop) (list'.mapM loop') := by
  induction lists with
  | nil => exact pure .nil
  | cons head tail ih =>
      rw [List.mapM_cons, List.mapM_cons]
      exact (body head).bind fun first => ih.bind fun others => pure (.cons first others)

theorem forM {loop : α → AccessM Unit} {loop' : β → AccessM Unit} {list : List α} {list' : List β}
    (lists : List.Forall₂ related list list')
    (body : ∀ {left right}, related left right → Matches Eq (loop left) (loop' right)) :
    Matches Eq (list.forM loop) (list'.forM loop') := by
  induction lists with
  | nil => exact pure rfl
  | cons head tail ih => exact (body head).bind fun _ => ih

theorem sumLength : Matches Eq sumLength sumLength :=
  fun _ _ sums => .some ⟨sums.size_eq, sums⟩

theorem readX {x x' : Array Single} (streams : SinglesAlike x x') (start width : Nat) :
    Matches Lanes.Alike (readX x start width) (readX x' start width) := by
  intro memory memory' sums
  by_cases inside : start + width ≤ x.size
  · have inside' : start + width ≤ x'.size := streams.size_eq ▸ inside
    rw [readX_of_le inside, readX_of_le inside']
    refine .some ⟨fun lane => ?_, sums⟩
    simp only [Vector.get_eq_getElem, Vector.getElem_ofFn]
    exact streams.getElem _ _
  · have outside : ¬ start + width ≤ x'.size := streams.size_eq ▸ inside
    rw [LaneDot.readX, dif_neg inside, LaneDot.readX, dif_neg outside]
    exact .none

theorem readRow (y : CodeBuffer) (row : Nat) (cursor : Address) (width : Nat) :
    Matches Eq (readRow y row cursor width) (readRow y row cursor width) := by
  intro memory memory' sums
  by_cases inside : y.index cursor + width ≤ y.codes.size
  · rw [readRow_of_le inside, readRow_of_le inside]
    exact .some ⟨rfl, sums⟩
  · rw [LaneDot.readRow, dif_neg inside, LaneDot.readRow, dif_neg inside]
    exact .none

theorem writeSum (index : Nat) {a b : Single} (values : a.Alike b) :
    Matches Eq (writeSum index a) (writeSum index b) := by
  intro memory memory' sums
  by_cases inside : index < memory.sum.size
  · have inside' : index < memory'.sum.size := sums.size_eq ▸ inside
    rw [writeSum_of_lt inside, writeSum_of_lt inside']
    exact .some ⟨rfl, sums.set inside inside' values⟩
  · have outside : ¬ index < memory'.sum.size := sums.size_eq ▸ inside
    rw [LaneDot.writeSum, dif_neg inside, LaneDot.writeSum, dif_neg outside]
    exact .none

end AccessM.Matches

open AccessM (Matches)

/-! ## Sweeps -/

structure Row.Alike {Acc : Type} (related : Acc → Acc → Prop) (first second : Row Acc) : Prop where
  index : first.index = second.index
  cursor : first.cursor = second.cursor
  acc : related first.acc second.acc

structure Task.Alike (first second : Task) : Prop where
  x : SinglesAlike first.x second.x
  y : first.y = second.y
  stride : first.stride = second.stride
  length : first.length = second.length

def CombineAlike {Acc : Type} {width : Nat} (related : Acc → Acc → Prop)
    (combine combine' : Lanes width → Vector Code width → Acc → Acc) : Prop :=
  ∀ (xs xs' : Lanes width) (codes : Vector Code width) (acc acc' : Acc), xs.Alike xs' →
    related acc acc' → related (combine xs codes acc) (combine' xs' codes acc')

section

variable {Acc : Type} {related : Acc → Acc → Prop}

theorem Row.chain_alike {start start' : Acc} (starts : related start start') (rowBytes : Address)
    (count index : Nat) (cursor : Address) :
    List.Forall₂ (Row.Alike related) (chain start rowBytes count index cursor)
      (chain start' rowBytes count index cursor) := by
  induction count generalizing index cursor with
  | zero => exact .nil
  | succ count ih => exact .cons ⟨rfl, rfl, starts⟩ (ih _ _)

theorem Row.Alike.advance {width : Nat} {combine combine' : Vector Code width → Acc → Acc}
    (y : CodeBuffer) {row row' : Row Acc} (rows : row.Alike related row')
    (combines : ∀ codes, related (combine codes row.acc) (combine' codes row'.acc)) :
    Matches (Row.Alike related) (row.advance y combine) (row'.advance y combine') := by
  obtain ⟨index, cursor, acc⟩ := row
  obtain ⟨index', cursor', acc'⟩ := row'
  obtain ⟨rfl, rfl, accs⟩ := rows
  refine (Matches.readRow y index cursor width).bind ?_
  rintro codes _ rfl
  exact .pure ⟨rfl, rfl, combines codes⟩

/-- Alike rows stay alike through any number of steps over alike streams. -/
theorem Task.Alike.sweep {task task' : Task} (tasks : task.Alike task') {width : Nat}
    {combine combine' : Lanes width → Vector Code width → Acc → Acc}
    (combines : CombineAlike related combine combine') (steps start : Nat)
    {rows rows' : List (Row Acc)} (alike : List.Forall₂ (Row.Alike related) rows rows') :
    Matches (List.Forall₂ (Row.Alike related)) (sweep task width combine steps start rows)
      (sweep task' width combine' steps start rows') := by
  induction steps generalizing start rows rows' with
  | zero => exact .pure alike
  | succ steps ih =>
      refine (Matches.readX tasks.x start width).bind fun streams => ?_
      rw [← tasks.y]
      refine (Matches.mapM alike fun row => ?_).bind fun advanced => ih _ advanced
      exact row.advance task.y fun codes => combines _ _ codes _ _ streams row.acc

theorem Row.Alike.finish {total total' : Acc → Single} {row row' : Row Acc}
    (rows : row.Alike related row')
    (totals : ∀ {acc acc'}, related acc acc' → (total acc).Alike (total' acc')) :
    Matches Eq (row.finish total) (row'.finish total') := by
  rw [Row.finish, Row.finish, ← rows.index]
  exact .writeSum row.index (totals rows.acc)

end

/-! ## The levels -/

namespace Level

theorem combineWide_alike (level level' : Level) :
    CombineAlike Lanes.Alike level.backend.combineWide level'.backend.combineWide := by
  intro xs xs' codes acc acc' streams accs lane
  have decodes : level.backend.Decodes := level.decodesLanes_wide
  have decodes' : level'.backend.Decodes := level'.decodesLanes_wide
  rw [decodes.get_combineWide, decodes'.get_combineWide]
  exact (streams lane).mulAdd (.refl _) (accs lane)

/-- A single step adds one product to the first lane and keeps the others up to the sign of zeros. -/
theorem get_combineOne_alike (level : Level) (xs : Lanes 1) (codes : Vector Code 1) (acc : Lanes 8)
    (lane : Fin 8) :
    (if lane = 0 then (xs.get 0).mulAdd (codes.get 0).value (acc.get lane) else acc.get lane).Alike
      ((level.backend.combineOne xs codes acc).get lane) := by
  cases level with
  | portable =>
      rw [backend, Backend.portable_get_combineOne]
      exact .refl _
  | avx2 =>
      rw [backend, Backend.avx2_get_combineOne]
      split
      · exact .refl _
      · exact Single.alike_clearZeroSign _

theorem combineOne_alike (level level' : Level) :
    CombineAlike Lanes.Alike level.backend.combineOne level'.backend.combineOne := by
  intro xs xs' codes acc acc' streams accs lane
  refine (level.get_combineOne_alike xs codes acc lane).symm.trans ?_
  refine .trans ?_ (level'.get_combineOne_alike xs' codes acc' lane)
  split
  · exact (streams 0).mulAdd (.refl _) (accs lane)
  · exact accs lane

theorem total_alike (level level' : Level) {acc acc' : Lanes 8} (accs : acc.Alike acc') :
    (level.backend.total acc).Alike (level'.backend.total acc') := by
  have tree (level : Level) (acc : Lanes 8) : level.backend.total acc = laneTree acc.get := by
    cases level with
    | portable => exact Backend.portable_total acc
    | avx2 => exact Backend.avx2_total acc
  rw [tree, tree]
  exact (((accs 0).add (accs 4)).add ((accs 1).add (accs 5))).add
    (((accs 2).add (accs 6)).add ((accs 3).add (accs 7)))

end Level

/-! ## The kernels -/

namespace Task.Alike

variable {task task' : Task}

theorem rowBytes_eq (tasks : task.Alike task') : task.rowBytes = task'.rowBytes := by
  rw [rowBytes, rowBytes, tasks.stride]

theorem fused (tasks : task.Alike task') (level level' : Level) (fusion : Nat) (start : Address) :
    Matches Eq (level.backend.fused fusion task start)
      (level'.backend.fused fusion task' start) := by
  have empty : (Lanes.zero : Lanes 8).Alike Lanes.zero := fun lane => .refl _
  have rows := Row.chain_alike empty task.rowBytes fusion 0 start
  unfold Backend.fused
  rw [← tasks.rowBytes_eq, ← tasks.length]
  refine (tasks.sweep (level.combineWide_alike level') _ _ rows).bind fun bulk => ?_
  refine (tasks.sweep (level.combineOne_alike level') _ _ bulk).bind fun rest => ?_
  exact .forM rest fun row => row.finish (level.total_alike level')

theorem combineRounded_alike : CombineAlike Single.Alike combineRounded combineRounded :=
  fun _ _ _ _ _ streams accs => accs.add ((streams 0).mul (.refl _))

theorem sequential (tasks : task.Alike task') (fusion : Nat) (start : Address) :
    Matches Eq (sequential fusion task start) (LaneDot.sequential fusion task' start) := by
  have empty : Single.zero.Alike .zero := .refl _
  have rows := Row.chain_alike empty task.rowBytes fusion 0 start
  unfold LaneDot.sequential
  rw [← tasks.rowBytes_eq, ← tasks.length]
  refine (tasks.sweep combineRounded_alike _ _ rows).bind fun swept => ?_
  exact .forM swept fun row => row.finish id

end Task.Alike

end LaneDot
