/-!
# Binary32 values

A `Single` is what a binary32 pattern means: every NaN pattern is one value,
and a finite value is a sign with its place among the finite magnitudes in
increasing order.  That place is the pattern without its sign bit, so reading
and writing patterns needs no arithmetic, and rounding may carry from one
binade into the next by adding one.
-/

namespace LaneDot

/-- The number of finite magnitudes, which is also the pattern of infinity. -/
def finiteMagnitudes : Nat := 0x7F800000

/-- A finite magnitude, numbered from zero in increasing order. -/
abbrev Magnitude := Fin finiteMagnitudes

/--
The value of the magnitude at a place, in units of `2 ^ -149`: the first
`2 ^ 23` places are the subnormals, and each later block of `2 ^ 23` places is
one binade with twice the spacing of the block before it.
-/
def placeUnits (place : Nat) : Nat :=
  if place < 0x800000 then place
  else (0x800000 + place % 0x800000) <<< (place / 0x800000 - 1)

def Magnitude.units (magnitude : Magnitude) : Nat :=
  placeUnits magnitude.val

def signed : Bool → Nat → Int
  | false, units => units
  | true, units => -units

/-- A binary32 value; the payload and sign of a NaN are not kept. -/
inductive Single where
  | nan
  | inf (negative : Bool)
  | finite (negative : Bool) (magnitude : Magnitude)
  deriving DecidableEq

namespace Single

def zero : Single := .finite false ⟨0, by decide⟩

def quarter : Single := .finite false ⟨0x3E800000, by decide⟩

def half : Single := .finite false ⟨0x3F000000, by decide⟩

def one : Single := .finite false ⟨0x3F800000, by decide⟩

instance : Inhabited Single := ⟨zero⟩

def neg : Single → Single
  | .nan => .nan
  | .inf negative => .inf !negative
  | .finite negative magnitude => .finite (!negative) magnitude

def signWeight : Bool → Nat
  | false => 0
  | true => 0x80000000

/-- The value at a signed place, with the places past the last magnitude read as infinity. -/
def ofPlace (negative : Bool) (place : Nat) : Single :=
  if inRange : place < finiteMagnitudes then .finite negative ⟨place, inRange⟩
  else .inf negative

def ofBits (bits : UInt32) : Single :=
  let place := bits.toNat % 0x80000000
  if finiteMagnitudes < place then .nan
  else ofPlace (0x80000000 ≤ bits.toNat) place

/-- The binary32 pattern of a value; every NaN is the positive quiet one. -/
def toBits : Single → UInt32
  | .nan => 0x7FC00000
  | .inf negative => .ofNat (signWeight negative + finiteMagnitudes)
  | .finite negative magnitude => .ofNat (signWeight negative + magnitude.val)

def isFinite : Single → Bool
  | .finite _ _ => true
  | _ => false

theorem ofPlace_val (negative : Bool) (magnitude : Magnitude) :
    ofPlace negative magnitude.val = .finite negative magnitude := by
  simp [ofPlace]

theorem ofBits_toBits (value : Single) : ofBits value.toBits = value := by
  cases value with
  | nan => rfl
  | inf negative => cases negative <;> rfl
  | finite negative magnitude =>
      have bound : magnitude.val < 2139095040 := magnitude.isLt
      have top : finiteMagnitudes = 2139095040 := rfl
      have whole : (signWeight negative + magnitude.val) % 2 ^ 32 =
          signWeight negative + magnitude.val :=
        Nat.mod_eq_of_lt (by cases negative <;> simp only [signWeight] <;> omega)
      have low : (signWeight negative + magnitude.val) % 0x80000000 = magnitude.val := by
        cases negative <;> simp only [signWeight] <;> omega
      have high : decide (0x80000000 ≤ signWeight negative + magnitude.val) = negative := by
        cases negative
        · exact decide_eq_false (by simp only [signWeight]; omega)
        · exact decide_eq_true (Nat.le_add_right _ _)
      simp only [toBits, ofBits, UInt32.toNat_ofNat', whole, low, high, ofPlace_val]
      exact if_neg (by omega)

end Single

end LaneDot
