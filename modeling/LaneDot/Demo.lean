import LaneDot.Session
import LaneDot.Text.Decimal

/-!
# Demonstration

A tour of the library: the selected level, one dot product with a known sum,
one call for every fusion factor, and the code that binary16 cannot express.
-/

namespace LaneDot.Demo

/-- The codes of some natural numbers; a number without a code is left out. -/
def encode (numbers : List Nat) : List Code :=
  numbers.filterMap Code.ofNat?

def sums (dispatch : Dispatch) (route : DotRoute) (x : Array Single) (y : Array Code)
    (stride : UInt64) (length fusion : Nat) : Except String (List Single) :=
  let session : Session := ⟨dispatch, ⟨x, y, Array.replicate fusion .zero⟩⟩
  match session.dot? route stride length 0 .whole .whole .whole with
  | none => .error "a row leaves its buffer"
  | some ((.error error, _), _) => .error error.message
  | some ((.ok (), _), sum) => .ok sum.toList

def levelLine (machine : Machine) (level : Level) : String :=
  let mark := if machine.supports level then "✅" else "❌"
  "  " ++ mark ++ " " ++ level.name

def onesLine (dispatch : Dispatch) : String :=
  let codes := encode ((List.range 9).map (· + 1))
  match sums dispatch (.checked 1) (Array.replicate 9 .one) codes.toArray 0 9 1 with
  | .ok values =>
      "  sum = " ++ " ".intercalate (values.map (Text.singleText .bare)) ++ " (expect 45)"
  | .error message => "  failed: " ++ message

/-- The length of the rows in the fused calls, which is also their stride. -/
def rowLength : Nat := 37

/-- Rows of twice their length: row `r` holds the code of `r + 1` and then zeros. -/
def stackedRows : List Code :=
  (List.range maxFusion).flatMap fun row =>
    encode (List.replicate rowLength (row + 1)) ++ List.replicate rowLength .zero

def fusedLine (dispatch : Dispatch) (fusion : Nat) : String :=
  let x := Array.replicate rowLength Single.half
  let result :=
    sums dispatch (.table .auto) x stackedRows.toArray (.ofNat rowLength) rowLength fusion
  "  F=" ++ toString fusion ++ ": " ++
    match result with
    | .ok values => Text.listText values
    | .error message => "failed: " ++ message

def halfText : Option UInt16 → String
  | none => "None"
  | some bits => "Some(" ++ toString bits ++ ")"

def lines (machine : Machine) (override : Option String) : List String :=
  let (selected, dispatch) := askLevel (m := Id) (.fresh machine override)
  ["=== shdot backend ===",
    "  Selected: " ++ selected.name,
    levelLine machine .portable,
    levelLine machine .avx2,
    "",
    "=== shdotxf1: ones · [1..9] ===",
    onesLine dispatch,
    "",
    "=== shdotxf1.." ++ toString maxFusion ++ ": row r holds r + 1 ==="] ++
  (List.range maxFusion).map (fun index => fusedLine dispatch (index + 1)) ++
  ["",
    "=== exponent 31 is finite ===",
    "  AltHalf::MAX = " ++ Text.singleText .bare Code.max.decode,
    "  as IEEE f16  = " ++ halfText Code.max.toHalf?]

end LaneDot.Demo
