/-!
# Layout of short vectors

Ways to take vectors of eight and of four elements apart and to put them
together.  They move elements and compute nothing.
-/

namespace LaneDot.Layout

def low {α : Type} (v : Vector α 8) : Vector α 4 := #v[v[0], v[1], v[2], v[3]]

def high {α : Type} (v : Vector α 8) : Vector α 4 := #v[v[4], v[5], v[6], v[7]]

def join {α : Type} (lower upper : Vector α 4) : Vector α 8 :=
  #v[lower[0], lower[1], lower[2], lower[3], upper[0], upper[1], upper[2], upper[3]]

def evens {α : Type} (v : Vector α 8) : Vector α 4 := #v[v[0], v[2], v[4], v[6]]

def odds {α : Type} (v : Vector α 8) : Vector α 4 := #v[v[1], v[3], v[5], v[7]]

/-- Two vectors in turn, the first one at even places. -/
def interleave {α : Type} (first second : Vector α 4) : Vector α 8 :=
  #v[first[0], second[0], first[1], second[1], first[2], second[2], first[3], second[3]]

/-- Four elements combined as two pairs, and the pairs with each other. -/
def pairwise {α : Type} (combine : α → α → α) (v : Vector α 4) : α :=
  combine (combine v[0] v[1]) (combine v[2] v[3])

def lowest {α : Type} (v : Vector α 4) : α := v[0]

def modifyLowest {α : Type} (change : α → α) (v : Vector α 8) : Vector α 8 :=
  v.set 0 (change v[0])

def only {α : Type} (v : Vector α 1) : α := v[0]

theorem join_low_high {α : Type} (v : Vector α 8) : join (low v) (high v) = v := by
  apply Vector.ext
  intro place inside
  rcases (by omega : place = 0 ∨ place = 1 ∨ place = 2 ∨ place = 3 ∨ place = 4 ∨ place = 5 ∨
    place = 6 ∨ place = 7) with rfl | rfl | rfl | rfl | rfl | rfl | rfl | rfl <;> rfl

end LaneDot.Layout
