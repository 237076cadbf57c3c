import ProgramFacts.Proofs.Gathering
import ProgramFacts.Proofs.Slots

/-! The rows that record operands.  An operand stands in the own row of its statement or value,
unless it is an entry of a list: arguments and array sizes have rows of their own.  The row of an
operand tells which value it is. -/

namespace ProgramFacts.Extraction

open Program ProgramFacts.Fact ProgramFacts.Flow

variable {g : Arena} {c : FlowGraph}

/-- The list that an operand of a value is an entry of, and its place there. -/
def listPosition : Value → Nat → Option (Rel × Nat)
  | .instanceInvoke .., i + 1 => some (.invocationArguments, i)
  | .staticInvoke .., i => some (.invocationArguments, i)
  | .newMultiArray .., i => some (.newMultiArraySizes, i)
  | _, _ => none

/-- The row records the `i`-th operand, `w`, of a node. -/
inductive Records (c : FlowGraph) (id : NodeId) (i : Nat) (w : ValueId) : Node → Row → Prop
  | stmt {s : Stmt} {owner : MethodId} {row : Row} :
      c.owner id = .ok owner → StmtRow id owner s row → Records c id i w (.stmt s) row
  | value {x : Value} {owner : MethodId} {row : Row} :
      listPosition x i = none → ValueRow id owner x row → Records c id i w (.value x) row
  | entry {x : Value} {rel : Rel} {j : Nat} :
      listPosition x i = some (rel, j) →
      Records c id i w (.value x) ⟨rel, [token id, .int j, token w]⟩

/-- The owner of its statement counts for the row of a value without operands only. -/
theorem valueColumns_eq {x : Value} {i : Nat} {w : ValueId} (h : x.operands[i]? = some w)
    (owner owner' : MethodId) : valueColumns owner x = valueColumns owner' x := by
  cases x <;> first | rfl | simp [Value.operands] at h

theorem operand_of_valueColumns {x : Value} {f : Nat → ValueId → ValueId} {owner owner' : MethodId}
    (h : valueColumns owner x = valueColumns owner' (x.mapOperands f)) {i : Nat}
    (hentry : listPosition x i = none) : x.operands[i]? = (x.mapOperands f).operands[i]? := by
  cases x <;> simp only [valueColumns, Value.mapOperands, List.cons.injEq, token_inj] at h <;>
    simp only [Value.operands, Value.mapOperands] <;> grind [listPosition]

@[simp] theorem ofValue_mapOperands (x : Value) (f : Nat → ValueId → ValueId) :
    Rel.ofValue (x.mapOperands f) = .ofValue x := by
  cases x <;> rfl

theorem valueColumns_of_listPosition {x : Value} {i : Nat} (hentry : listPosition x i ≠ none)
    {f : Nat → ValueId → ValueId} (hf : ∀ j w, j ≠ i → f j w = w) (owner : MethodId) :
    valueColumns owner (x.mapOperands f) = valueColumns owner x := by
  cases x with
  | instanceInvoke dispatch base method args =>
    have hi : 0 ≠ i := by
      rintro rfl
      exact hentry rfl
    rw [Value.mapOperands, valueColumns, hf 0 base hi, valueColumns]
  | staticInvoke | newMultiArray => rfl
  | _ => exact absurd rfl hentry

theorem operands_of_stmtColumns {s : Stmt} {f : Nat → ValueId → ValueId} {owner owner' : MethodId}
    (h : stmtColumns owner s = stmtColumns owner' (s.mapOperands f)) :
    s.operands = (s.mapOperands f).operands := by
  cases s <;> simp only [stmtColumns, Stmt.mapOperands, List.cons.injEq, token_inj] at h <;>
    simp only [Stmt.operands, Stmt.mapOperands] <;> grind

theorem Records.unique {id : NodeId} {i : Nat} {w : ValueId} {n : Node}
    (hw : n.operands[i]? = some w) {row row' : Row} (h : Records c id i w n row)
    (h' : Records c id i w n row') : row = row' := by
  cases h with
  | stmt hm hrow =>
    cases h' with
    | stmt hm' hrow' =>
      obtain rfl := Except.ok.inj (hm.symm.trans hm')
      rw [stmtRow_iff.mp hrow, stmtRow_iff.mp hrow']
  | @value x owner _ hown hrow =>
    cases h' with
    | @value _ owner' _ _ hrow' =>
      rw [valueRow_iff.mp hrow, valueRow_iff.mp hrow', valueColumns_eq hw owner owner']
    | entry hentry =>
      rw [hown] at hentry
      contradiction
  | entry hentry =>
    cases h' with
    | value hown _ =>
      rw [hown] at hentry
      contradiction
    | entry hentry' =>
      obtain ⟨rfl, rfl⟩ := Prod.mk.inj (Option.some.inj (hentry.symm.trans hentry'))
      rfl

theorem listPosition_mapOperands (x : Value) (f : Nat → ValueId → ValueId) (i : Nat) :
    listPosition (x.mapOperands f) i = listPosition x i := by
  cases x <;> cases i <;> rfl

theorem eq_of_entryTuple {a b c d : NodeId} {i j : Nat}
    (h : [token a, Datum.int i, token b] = [token c, Datum.int j, token d]) :
    a = c ∧ i = j ∧ b = d := by
  simpa [Int.natCast_inj] using h

theorem listPosition_eq_some {x : Value} {i j : Nat} {rel : Rel}
    (h : listPosition x i = some (rel, j)) :
    (rel = .invocationArguments ∧ (arguments x)[j]? = x.operands[i]?) ∨
      rel = .newMultiArraySizes ∧ i = j ∧ ∃ element, x = .newMultiArray element x.operands := by
  unfold listPosition at h
  split at h
  · obtain ⟨rfl, rfl⟩ := Prod.mk.inj (Option.some.inj h)
    exact .inl ⟨rfl, rfl⟩
  · obtain ⟨rfl, rfl⟩ := Prod.mk.inj (Option.some.inj h)
    exact .inl ⟨rfl, rfl⟩
  · obtain ⟨rfl, rfl⟩ := Prod.mk.inj (Option.some.inj h)
    exact .inr ⟨rfl, rfl, _, rfl⟩
  · contradiction

theorem exists_listPosition_of_argument {x : Value} {j : Nat} {arg : ValueId}
    (h : (arguments x)[j]? = some arg) :
    ∃ i, listPosition x i = some (.invocationArguments, j) := by
  cases x with
  | instanceInvoke => exact ⟨j + 1, rfl⟩
  | staticInvoke => exact ⟨j, rfl⟩
  | _ => simp [arguments] at h

theorem Records.fact_of_value {order : List StmtId} {E : List (StmtId × StmtId)} {id : StmtId}
    {owner : MethodId} (hid : id ∈ order) (howner : c.owner id = .ok owner) {v w : ValueId}
    {x : Value} (hv : Mentions g id v) (hx : g.value v = .ok x) {i : Nat}
    (hw : x.operands[i]? = some w) {row : Row} (h : Records c v i w (.value x) row) :
    Fact g c order E row.rel row.tuple := by
  cases h with
  | @value _ owner' _ _ hrow =>
    rw [valueRow_iff.mp hrow, valueColumns_eq hw owner' owner]
    exact .definition hid hv hx howner (valueRow_iff.mpr rfl)
  | entry hentry =>
    rcases listPosition_eq_some hentry with ⟨rfl, harg⟩ | ⟨rfl, rfl, element, hsizes⟩
    · exact .argument hid hv hx (harg.trans hw)
    · exact .size hid hv (hsizes ▸ hx) hw

/-- A program that has the row of an operand has this operand, if its node differs from that of the
row in operands only. -/
theorem Records.operand {order : List StmtId} {E : List (StmtId × StmtId)} {id : NodeId} {i : Nat}
    {w : ValueId} {n : Node} (hw : n.operands[i]? = some w) {row : Row}
    (h : Records c id i w n row) (hfact : Fact g c order E row.rel row.tuple)
    {f : Nat → ValueId → ValueId} (hn : g.node? id = some (n.mapOperands f)) :
    (n.mapOperands f).operands[i]? = some w := by
  have htells := hfact.tells
  cases h with
  | @stmt s owner _ hm hrow =>
    obtain rfl := stmtRow_iff.mp hrow
    rw [topic_ofStmt] at htells
    obtain ⟨id', s', m, hs', hrel, ht⟩ := htells
    obtain ⟨htoken, hcolumns⟩ := List.cons.inj ht
    obtain rfl := token_injective htoken
    obtain rfl : s.mapOperands f = s' :=
      Node.stmt.inj (Option.some.inj (hn.symm.trans (Arena.stmt_eq_ok.mp hs')))
    exact (congrArg (·[i]?) (operands_of_stmtColumns hcolumns)).symm.trans hw
  | @value x owner _ hown hrow =>
    obtain rfl := valueRow_iff.mp hrow
    rw [topic_ofValue] at htells
    obtain ⟨v, x', m, hx', hrel, ht⟩ := htells
    obtain ⟨htoken, hcolumns⟩ := List.cons.inj ht
    obtain rfl := token_injective htoken
    obtain rfl : x.mapOperands f = x' :=
      Node.value.inj (Option.some.inj (hn.symm.trans (Arena.value_eq_ok.mp hx')))
    exact (operand_of_valueColumns hcolumns hown).symm.trans hw
  | @entry x rel j hentry =>
    have hentry' := (listPosition_mapOperands x f i).trans hentry
    rcases listPosition_eq_some hentry' with ⟨rfl, harg⟩ | ⟨rfl, rfl, element, hsizes⟩
    · obtain ⟨v, x', arg, k, hx', ha, ht⟩ := htells
      obtain ⟨rfl, rfl, rfl⟩ := eq_of_entryTuple ht
      obtain rfl : x.mapOperands f = x' :=
        Node.value.inj (Option.some.inj (hn.symm.trans (Arena.value_eq_ok.mp hx')))
      exact harg.symm.trans ha
    · obtain ⟨v, element', sizes, size, k, hx', hz, ht⟩ := htells
      obtain ⟨rfl, rfl, rfl⟩ := eq_of_entryTuple ht
      have hx : x.mapOperands f = .newMultiArray element' sizes :=
        Node.value.inj (Option.some.inj (hn.symm.trans (Arena.value_eq_ok.mp hx')))
      rw [Node.mapOperands, Node.operands, hx]
      exact hz

end ProgramFacts.Extraction
