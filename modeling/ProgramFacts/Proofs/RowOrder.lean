import Mathlib.Data.String.Basic
import Mathlib.Order.Defs.Unbundled
import ProgramFacts.Fact.Datum

/-! The order of values and of rows, said without comparing: numbers come before strings and these
before truth values, strings are ordered by the code points of their characters, and rows by the
first position in which they differ.  It is the order of the comparison, and total. -/

namespace ProgramFacts.Fact

/-- The order of values. -/
inductive Datum.Precedes : Datum → Datum → Prop
  | int {a b : Int} : a < b → Precedes (.int a) (.int b)
  | str {a b : String} :
      List.Lex (· < ·) (a.toList.map Char.toNat) (b.toList.map Char.toNat) →
      Precedes (.str a) (.str b)
  | bool {a b : Bool} : a < b → Precedes (.bool a) (.bool b)
  | intStr (a : Int) (b : String) : Precedes (.int a) (.str b)
  | intBool (a : Int) (b : Bool) : Precedes (.int a) (.bool b)
  | strBool (a : String) (b : Bool) : Precedes (.str a) (.bool b)

/-- The order of rows.  A row precedes the longer ones that begin with it. -/
def Tuple.Precedes : Tuple → Tuple → Prop := List.Lex Datum.Precedes

theorem lex_map_iff {α β : Type} {r : α → α → Prop} {r' : β → β → Prop} {f : α → β}
    (hr : ∀ a b, r a b ↔ r' (f a) (f b)) (hf : f.Injective) {l l' : List α} :
    List.Lex r l l' ↔ List.Lex r' (l.map f) (l'.map f) := by
  constructor
  · intro h
    induction h with
    | nil => exact .nil
    | cons _ ih => exact .cons ih
    | rel h => exact .rel ((hr _ _).mp h)
  · intro h
    induction l generalizing l' with
    | nil =>
      cases l' with
      | nil => contradiction
      | cons b l' => exact .nil
    | cons a l ih =>
      cases l' with
      | nil => contradiction
      | cons b l' =>
        rw [List.map_cons, List.map_cons, List.cons_lex_cons_iff] at h
        rcases h with h | ⟨h, htail⟩
        · exact .rel ((hr _ _).mpr h)
        · obtain rfl := hf h
          exact .cons (ih htail)

/-- Strings are compared by the code points of their characters. -/
theorem string_lt_iff {a b : String} :
    a < b ↔ List.Lex (· < ·) (a.toList.map Char.toNat) (b.toList.map Char.toNat) := by
  have hlt (x y : Char) : x < y ↔ x.toNat < y.toNat := UInt32.lt_iff_toNat_lt
  have hinjective : Char.toNat.Injective := fun x y h => Char.toNat_inj.mp h
  rw [String.lt_iff_toList_lt, ← lex_map_iff hlt hinjective]
  exact List.lex_lt.symm

theorem Datum.compare_eq_lt {a b : Datum} : compare a b = .lt ↔ a.Precedes b := by
  cases a <;> cases b
  case int.int a b =>
    have hlt : compare a b = .lt ↔ a < b := Int.compare_eq_lt
    refine hlt.trans ⟨.int, fun h => ?_⟩
    cases h with
    | int h => exact h
  case str.str a b =>
    have hlt : compare a b = .lt ↔ a < b := compareOfLessAndEq_eq_lt
    refine (hlt.trans string_lt_iff).trans ⟨.str, fun h => ?_⟩
    cases h with
    | str h => exact h
  case bool.bool a b =>
    have hlt : compare a b = .lt ↔ a < b := by decide +revert
    refine hlt.trans ⟨.bool, fun h => ?_⟩
    cases h with
    | bool h => exact h
  case int.str a b => exact iff_of_true rfl (.intStr a b)
  case int.bool a b => exact iff_of_true rfl (.intBool a b)
  case str.bool a b => exact iff_of_true rfl (.strBool a b)
  all_goals exact iff_of_false nofun nofun

theorem Tuple.compare_eq_lt {t u : Tuple} : compare t u = .lt ↔ t.Precedes u := by
  induction t generalizing u with
  | nil =>
    cases u with
    | nil => exact iff_of_false nofun nofun
    | cons b u => exact iff_of_true rfl .nil
  | cons a t ih =>
    cases u with
    | nil => exact iff_of_false nofun nofun
    | cons b u =>
      have hcompare : compare (a :: t) (b :: u) = (compare a b).then (compare t u) :=
        List.compareLex_cons_cons
      rw [hcompare, Ordering.then_eq_lt, Datum.compare_eq_lt, Std.LawfulEqCmp.compare_eq_iff_eq, ih]
      exact List.cons_lex_cons_iff.symm

/-- The order of rows is total, and rows that neither precedes are equal. -/
theorem isStrictTotalOrder_precedes : IsStrictTotalOrder Tuple Tuple.Precedes where
  irrefl t h := by
    have hself : compare t t = .eq := Std.ReflCmp.compare_self
    rw [← Tuple.compare_eq_lt, hself] at h
    contradiction
  trans t u v htu huv := by
    rw [← Tuple.compare_eq_lt] at htu huv ⊢
    exact Std.TransCmp.lt_trans htu huv
  trichotomous t u htu hut := by
    have heq : compare t u = .eq ↔ t = u := Std.LawfulEqCmp.compare_eq_iff_eq
    rw [← Tuple.compare_eq_lt] at htu hut
    rw [← Std.OrientedCmp.gt_iff_lt] at hut
    apply heq.mp
    cases h : compare t u with
    | lt => exact absurd h htu
    | eq => rfl
    | gt => exact absurd h hut

end ProgramFacts.Fact
