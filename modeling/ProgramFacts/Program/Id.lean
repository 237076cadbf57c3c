import Std.Data.ExtTreeMap

/-! Identity tokens.  Nodes refer to each other by token only; a token is the position of a node in
the arena that holds it, so any token may stand in any field, and whether it fits is decided when it
is looked up. -/

namespace ProgramFacts.Program

/-- An identity token: the position of a node in the arena that holds it. -/
structure NodeId where
  word : UInt32
deriving DecidableEq, Repr, Inhabited

def NodeId.index (id : NodeId) : Nat := id.word.toNat

def NodeId.text (id : NodeId) : String := "#" ++ toString id.index

/-- The token of a position; positions past the last word wrap around. -/
def NodeId.ofIndex (index : Nat) : NodeId := ⟨UInt32.ofNat index⟩

theorem NodeId.index_lt (id : NodeId) : id.index < UInt32.size := id.word.toNat_lt

theorem NodeId.ext_index {a b : NodeId} (h : a.index = b.index) : a = b := by
  obtain ⟨a⟩ := a
  obtain ⟨b⟩ := b
  exact congrArg NodeId.mk (UInt32.toNat_inj.mp h)

@[simp] theorem NodeId.ofIndex_index (id : NodeId) : ofIndex id.index = id :=
  NodeId.ext_index (by simp [ofIndex, index])

theorem NodeId.index_ofIndex {n : Nat} (h : n < UInt32.size) : (ofIndex n).index = n :=
  UInt32.toNat_ofNat_of_lt' h

/-- Tokens are ordered by position. -/
instance : Ord NodeId := ⟨fun a b => compare a.index b.index⟩

instance : Std.TransOrd NodeId where
  eq_swap {a b} :=
    (Std.OrientedCmp.eq_swap : compare a.index b.index = (compare b.index a.index).swap)
  isLE_trans {a b c} :=
    (Std.TransCmp.isLE_trans : (compare a.index b.index).isLE → (compare b.index c.index).isLE → _)

instance : Std.LawfulEqOrd NodeId where
  eq_of_compare {a _} h := NodeId.ext_index (Std.LawfulEqOrd.eq_of_compare (a := a.index) h)

/-- A token that should resolve to a statement; the names below are for the other kinds of node. -/
abbrev StmtId := NodeId

abbrev ValueId := NodeId

abbrev TypeId := NodeId

abbrev MethodId := NodeId

abbrev FieldId := NodeId

end ProgramFacts.Program
