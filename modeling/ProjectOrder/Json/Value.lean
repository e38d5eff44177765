import ProjectOrder.Distinct
import ProjectOrder.Text.Units

/-! JSON values. -/
namespace ProjectOrder.Json
open ProjectOrder.Text

/-- Numbers are kept as they are written, for nothing is ever computed with them. An escape in a string
can write one half of a surrogate pair alone. -/
inductive Value where
  | null
  | bool (value : Bool)
  | number (literal : String)
  | string (text : Units)
  | array (items : List Value)
  /-- Members in the order in which they are written. A key may be there more than once. -/
  | object (members : List (Units × Value))
  deriving Repr, Inhabited

def Value.nat (n : Nat) : Value :=
  .number (toString n)

def Value.int (n : Int) : Value :=
  .number (toString n)

/-- The number that a key writes in its shortest form, if it can be the index of an array. -/
def arrayIndex? (key : Units) : Option Nat :=
  match key.shown.toNat? with
  | some n => if Units.ofString (toString n) = key ∧ n < 4294967295 then some n else none
  | none => none

def lastValue? (key : Units) (members : List (Units × Value)) : Option Value :=
  (members.reverse.find? (·.1 == key)).map (·.2)

/-- Each key with the value that holds for it. Array indices come first, by number, and then the
other keys, by first occurrence. -/
def fields (members : List (Units × Value)) : List (Units × Value) :=
  let keys := distinct (members.map (·.1))
  let indices := (keys.filterMap fun key => (arrayIndex? key).map (·, key)).mergeSort
    fun a b => decide (a.1 ≤ b.1)
  let names := keys.filter fun key => (arrayIndex? key).isNone
  (indices.map (·.2) ++ names).filterMap fun key => (lastValue? key members).map (key, ·)

def Value.field? (key : Units) : Value → Option Value
  | .object members => lastValue? key members
  | _ => none

end ProjectOrder.Json
