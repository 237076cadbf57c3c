import Std.Data.ExtTreeSet

/-! Fact values and tuples, with the total order in which the rows of a relation are written:
numbers come before strings and strings before truth values, and tuples are compared from the
left. -/

namespace ProgramFacts.Fact

inductive Datum
  | int (value : Int)
  | str (value : String)
  | bool (value : Bool)
deriving DecidableEq, Repr

namespace Datum

def text : Datum → String
  | int value => toString value
  | str value => value
  | bool value => if value then "true" else "false"

instance : Ord Datum where
  compare
    | int a, int b => compare a b
    | int _, _ => .lt
    | str _, int _ => .gt
    | str a, str b => compare a b
    | str _, bool _ => .lt
    | bool a, bool b => compare a b
    | bool _, _ => .gt

instance : Std.TransOrd Datum where
  eq_swap {a b} := by
    cases a <;> cases b <;> try rfl
    case int.int x y => exact (Std.OrientedCmp.eq_swap : compare x y = (compare y x).swap)
    case str.str x y => exact (Std.OrientedCmp.eq_swap : compare x y = (compare y x).swap)
    case bool.bool x y => exact (Std.OrientedCmp.eq_swap : compare x y = (compare y x).swap)
  isLE_trans {a b c} hab hbc := by
    cases a <;> cases b <;> cases c <;> try (first | rfl | contradiction)
    case int.int.int x y z =>
      exact (Std.TransCmp.isLE_trans : (compare x y).isLE → (compare y z).isLE → _) hab hbc
    case str.str.str x y z =>
      exact (Std.TransCmp.isLE_trans : (compare x y).isLE → (compare y z).isLE → _) hab hbc
    case bool.bool.bool x y z =>
      exact (Std.TransCmp.isLE_trans : (compare x y).isLE → (compare y z).isLE → _) hab hbc

instance : Std.LawfulEqOrd Datum where
  eq_of_compare {a b} h := by
    cases a <;> cases b <;> try contradiction
    case int.int x y => exact congrArg int (Std.LawfulEqOrd.eq_of_compare (a := x) h)
    case str.str x y => exact congrArg str (Std.LawfulEqOrd.eq_of_compare (a := x) h)
    case bool.bool x y => exact congrArg bool (Std.LawfulEqOrd.eq_of_compare (a := x) h)

end Datum

abbrev Tuple := List Datum

/-- The text of a row: its values, divided by tabs. -/
def Tuple.text (t : Tuple) : String := "\t".intercalate (t.map Datum.text)

/-- A set of rows, in ascending order. -/
abbrev TupleSet := Std.ExtTreeSet Tuple

end ProgramFacts.Fact
