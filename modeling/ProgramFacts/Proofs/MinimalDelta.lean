import ProgramFacts.Proofs.OperandRows
import ProgramFacts.Proofs.Replay
import ProgramFacts.Proofs.Upkeep

/-! The delta of one mutation.  All that it inserts is what the mutation put into the program: the
rows of the new constant and the row of the operand that now holds it.  Whatever else changes is
deleted, since the program mentions no more than before. -/

namespace ProgramFacts

namespace Fact.Delta

def Inserts (d : Delta) (name : String) (t : Tuple) : Prop :=
  ∃ change, d.get? name = some change ∧ t ∈ change.inserted

def Deletes (d : Delta) (name : String) (t : Tuple) : Prop :=
  ∃ change, d.get? name = some change ∧ t ∈ change.deleted

variable {s s' : Store} {name : String} {t : Tuple}

/-- The rows of a change are found in the delta, as a change without rows is left out. -/
theorem exists_change_iff {rows : RelationDelta → TupleSet}
    (hrows : ∀ change : RelationDelta, change.isEmpty = true → t ∉ rows change) :
    (∃ change, (between (some s) (some s')).get? name = some change ∧ t ∈ rows change) ↔
      t ∈ rows (.between (s.relation name) (s'.relation name)) := by
  have hget := get?_between (some s) (some s') name
  simp only [Option.getD_some] at hget
  rw [hget]
  split
  · rename_i hempty
    simpa using hrows _ hempty
  · simp

theorem inserts_between : (between (some s) (some s')).Inserts name t ↔
    t ∈ (s'.relation name).tuples ∧ t ∉ (s.relation name).tuples := by
  refine (exists_change_iff fun change hempty => ?_).trans Std.ExtTreeSet.mem_diff_iff
  have hinserted := (Bool.and_eq_true_iff.mp hempty).2
  exact Std.ExtTreeSet.eq_empty_iff_forall_not_mem.mp (Std.ExtTreeSet.isEmpty_iff.mp hinserted) t

theorem deletes_between : (between (some s) (some s')).Deletes name t ↔
    t ∈ (s.relation name).tuples ∧ t ∉ (s'.relation name).tuples := by
  refine (exists_change_iff fun change hempty => ?_).trans Std.ExtTreeSet.mem_diff_iff
  have hdeleted := (Bool.and_eq_true_iff.mp hempty).1
  exact Std.ExtTreeSet.eq_empty_iff_forall_not_mem.mp (Std.ExtTreeSet.isEmpty_iff.mp hdeleted) t

end Fact.Delta

namespace Extraction.Presents

open Program ProgramFacts.Fact

variable {s s' : Store} {P Q : Rel → Tuple → Prop} {name : String} {t : Tuple}

theorem exists_rel (h : Presents s P) (ht : t ∈ (s.relation name).tuples) :
    ∃ rel : Rel, rel.name = name ∧ P rel t := by
  cases hr : s.relation? name with
  | none => simp [Store.relation, hr, Relation.empty] at ht
  | some r =>
    obtain ⟨rel, rfl, _⟩ := h.relation hr
    exact ⟨rel, rfl, h.mem.mp ht⟩

theorem inserts_iff (h : Presents s P) (h' : Presents s' Q) :
    (Delta.between (some s) (some s')).Inserts name t ↔
      ∃ rel : Rel, rel.name = name ∧ Q rel t ∧ ¬P rel t := by
  rw [Delta.inserts_between]
  constructor
  · rintro ⟨ht', ht⟩
    obtain ⟨rel, rfl, hQ⟩ := h'.exists_rel ht'
    exact ⟨rel, rfl, hQ, fun hP => ht (h.mem.mpr hP)⟩
  · rintro ⟨rel, rfl, hQ, hP⟩
    exact ⟨h'.mem.mpr hQ, fun ht => hP (h.mem.mp ht)⟩

theorem deletes (h : Presents s P) (h' : Presents s' Q) {rel : Rel} (hP : P rel t)
    (hQ : ¬Q rel t) : (Delta.between (some s) (some s')).Deletes rel.name t :=
  Delta.deletes_between.mpr ⟨h.mem.mpr hP, fun ht => hQ (h'.mem.mp ht)⟩

end Extraction.Presents

namespace Mutation

open Program ProgramFacts.Fact ProgramFacts.Flow ProgramFacts.Random Extraction

variable {g g' : Arena} {c : FlowGraph} {m : Edit} {v : Value}

/-! ## The order of the statements -/

theorem Patched.walk (h : Patched g g' m v) {before ids after : List StmtId}
    (hwalk : Walk g before ids after) : Walk g' before ids after := by
  induction hwalk with
  | nil => exact .nil
  | again hid _ ih => exact .again hid ih
  | @begin order mid ids after id s hnew hs _ _ ihTargets ih =>
    rw [← s.targets_mapOperands (m.redirect id)] at ihTargets
    exact .begin hnew (h.stmt_eq_ok.mpr ⟨s, hs, rfl⟩) ihTargets ih

theorem Patched.rounds (h : Patched g g' m v) {before roots after : List StmtId}
    (hrounds : Rounds g before roots after) : Rounds g' before roots after := by
  induction hrounds with
  | nil => exact .nil
  | @root order mid roots after root s hs ht _ ih =>
    have htargets := h.walk ht
    rw [← s.targets_mapOperands (m.redirect root)] at htargets
    exact .root (h.stmt_eq_ok.mpr ⟨s, hs, rfl⟩) htargets ih

theorem Patched.order (h : Patched g g' m v) {order : List StmtId} (horder : Order g c order) :
    Order g' c order :=
  ⟨h.rounds horder.rounds, fun {_} => horder.mem.trans h.reached.symm⟩

/-! ## The rows after a mutation are rows before it, but for the new ones -/

/-- All statements that mention a variable have one owner. -/
def LocalsOwned (g : Arena) (c : FlowGraph) : Prop :=
  ∀ v name ty id id' m m', g.value v = .ok (.localVar name ty) → Reached g c id →
    Reached g c id' → Mentions g id v → Mentions g id' v → c.owner id = .ok m →
    c.owner id' = .ok m' → m = m'

/-- The row that defines the constant `0`. -/
def zeroRow (id : ValueId) : Row := ⟨.intConst, [token id, .int 0]⟩

theorem exists_firstMention {order : List StmtId} {id : StmtId} {v : ValueId} (hid : id ∈ order)
    (hv : Mentions g id v) : ∃ first, FirstMention g order v first := by
  induction order with
  | nil => exact absurd hid List.not_mem_nil
  | cons j order ih =>
    by_cases hj : Mentions g j v
    · exact ⟨j, [], order, rfl, hj, fun _ h => absurd h List.not_mem_nil⟩
    · have hid : id ∈ order := (List.mem_cons.mp hid).resolve_left fun h => hj (h ▸ hv)
      obtain ⟨first, before, after, rfl, hfirst, hbefore⟩ := ih hid
      exact ⟨first, j :: before, after, rfl, hfirst, List.forall_mem_cons.mpr ⟨hj, hbefore⟩⟩

section Rows

variable {order : List StmtId} {E : List (StmtId × StmtId)} {rel : Rel} {t : Tuple}

/-- A row that a mutation by the constant `0` adds, if it is new: the rows of the constant, and the
row of the slot. -/
inductive Added (g : Arena) (c : FlowGraph) (m : Edit) : Row → Prop
  | occurrence : Added g c m (occurrenceRow m.replacement)
  | zero : Added g c m (zeroRow m.replacement)
  | operand {n : Node} {row : Row} :
      g.node? m.slot.parent = some n →
      Records c m.slot.parent m.slot.index m.replacement (m.patch m.slot.parent n) row →
      Added g c m row

/-- The own row of a value is the row that it had, or records the slot. -/
theorem ownRow_redirect (m : Edit) (id : ValueId) (x : Value) (owner : MethodId) :
    (⟨.ofValue (x.mapOperands (m.redirect id)),
        token id :: valueColumns owner (x.mapOperands (m.redirect id))⟩ : Row) =
      ⟨.ofValue x, token id :: valueColumns owner x⟩ ∨
    id = m.slot.parent ∧ Records c id m.slot.index m.replacement
      (.value (x.mapOperands (m.redirect id)))
      ⟨.ofValue (x.mapOperands (m.redirect id)),
        token id :: valueColumns owner (x.mapOperands (m.redirect id))⟩ := by
  by_cases hid : id = m.slot.parent
  · by_cases hentry : listPosition x m.slot.index = none
    · exact .inr ⟨hid, .value ((listPosition_mapOperands ..).trans hentry) (valueRow_iff.mpr rfl)⟩
    · have hredirect (j : Nat) (w : ValueId) (hj : j ≠ m.slot.index) : m.redirect id j w = w :=
        if_neg fun hslot => hj (congrArg Slot.index hslot)
      exact .inl (by rw [ofValue_mapOperands, valueColumns_of_listPosition hentry hredirect])
  · left
    have hpatch := Edit.patch_of_ne hid (.value x)
    rw [show x.mapOperands (m.redirect id) = x from Node.value.inj hpatch]

theorem exists_or_added {id : ValueId} {x : Value} (hx : g.value id = .ok x) {i j : Nat}
    (hentry : listPosition x i = some (rel, j)) {w : ValueId}
    (hw : (x.mapOperands (m.redirect id)).operands[i]? = some w) :
    x.operands[i]? = some w ∨ Added g c m ⟨rel, [token id, .int j, token w]⟩ := by
  rw [Value.operands_mapOperands] at hw
  rcases Edit.getElem?_redirect hw with hw | ⟨hslot, rfl⟩
  · exact .inl hw
  · obtain rfl : id = m.slot.parent := congrArg Slot.parent hslot
    obtain rfl : i = m.slot.index := congrArg Slot.index hslot
    exact .inr (.operand (Arena.value_eq_ok.mp hx)
      (.entry ((listPosition_mapOperands ..).trans hentry)))

theorem fact_methodOfLocal (hlocals : LocalsOwned g c) (howned : Owned c (Reached g c))
    (horder : Order g c order) {id : StmtId} {w : ValueId} (hid : id ∈ order) {name : String}
    {ty : TypeId} (hx : g.value w = .ok (.localVar name ty)) {owner : MethodId}
    (hm : c.owner id = .ok owner) (hw : Mentions g id w) :
    Fact g c order E .methodOfLocal [token w, token owner] := by
  obtain ⟨first, hfirst⟩ := exists_firstMention hid hw
  have hreached := horder.mem.mp hfirst.mem
  obtain ⟨owner', hm'⟩ := howned first hreached
  obtain rfl := hlocals w name ty first id owner' owner hx hreached (horder.mem.mp hid)
    hfirst.mentions hw hm' hm
  exact .methodOfLocal hfirst hx hm'

theorem Patched.entity (h : Patched g g' m (.intConst 0)) (horder : Order g c order) {p : Part}
    (hp : Met g' c (· ∈ order) p) (hk : p.kind ≠ .value) {n : Node} (hn : Resolves g' p n) :
    Met g c (· ∈ order) p ∧ g.node? p.id = some n := by
  constructor
  · rcases h.met rfl rfl ((h.order horder).met_iff.mp hp) with hp | rfl
    · exact horder.met_iff.mpr hp
    · exact absurd rfl hk
  · refine h.node?_of_entity hn.1 ?_ (hn.2 ▸ hk)
    rw [hn.2]
    cases p <;> simp [Part.kind]

/-- A row after the mutation is a row before it, or one that the mutation adds. -/
theorem Patched.fact (h : Patched g g' m (.intConst 0)) (hlocals : LocalsOwned g c)
    (howned : Owned c (Reached g c)) (horder : Order g c order) (hfact : Fact g' c order E rel t) :
    Fact g c order E rel t ∨ Added g c m ⟨rel, t⟩ := by
  cases hfact with
  | unit hid => exact .inl (.unit hid)
  | methodOfUnit hid hm => exact .inl (.methodOfUnit hid hm)
  | @stmt id s' owner _ _ hid hs' hm hrow =>
    obtain ⟨s, hs, rfl⟩ := h.stmt_eq_ok.mp hs'
    by_cases hp : id = m.slot.parent
    · subst hp
      exact .inr (.operand (Arena.stmt_eq_ok.mp hs) (.stmt hm hrow))
    · have hsame : s.mapOperands (m.redirect id) = s :=
        Node.stmt.inj (Edit.patch_of_ne hp (.stmt s))
      rw [hsame] at hrow
      exact .inl (.stmt hid hs hm hrow)
  | tableCase hid hs' ht =>
    obtain ⟨s, hs, heq⟩ := h.stmt_eq_ok.mp hs'
    cases s with
    | tableSwitch key low targets default =>
      obtain ⟨_, rfl, rfl, _⟩ := Stmt.tableSwitch.inj heq
      exact .inl (.tableCase hid hs ht)
    | _ => cases heq
  | lookupCase hid hs' hl ht =>
    obtain ⟨s, hs, heq⟩ := h.stmt_eq_ok.mp hs'
    cases s with
    | lookupSwitch key labels targets default =>
      obtain ⟨_, rfl, rfl, _⟩ := Stmt.lookupSwitch.inj heq
      exact .inl (.lookupCase hid hs hl ht)
    | _ => cases heq
  | edge he => exact .inl (.edge he)
  | @value id w hid hw =>
    rcases h.mentions rfl hw with hw | rfl
    · exact .inl (.value hid hw)
    · exact .inr .occurrence
  | @definition id w x' owner _ _ hid hw hx' hm hrow' =>
    obtain ⟨rfl, rfl⟩ := Row.mk.inj (valueRow_iff.mp hrow')
    by_cases hr : w = m.replacement
    · subst hr
      obtain rfl := Except.ok.inj (h.content.symm.trans hx')
      exact .inr .zero
    · obtain ⟨x, hx, rfl⟩ := (h.value_eq_ok hr).mp hx'
      rcases ownRow_redirect m w x owner with hrow | ⟨rfl, hrow⟩
      · have hold := (h.mentions rfl hw).resolve_right hr
        exact .inl (.definition hid hold hx hm (valueRow_iff.mpr hrow))
      · exact .inr (.operand (Arena.value_eq_ok.mp hx) hrow)
  | @argument id w arg x' i hid hw hx' ha =>
    have hr : w ≠ m.replacement := by
      rintro rfl
      obtain rfl := Except.ok.inj (h.content.symm.trans hx')
      simp [arguments] at ha
    obtain ⟨x, hx, rfl⟩ := (h.value_eq_ok hr).mp hx'
    obtain ⟨k, hentry'⟩ := exists_listPosition_of_argument ha
    have hentry := (listPosition_mapOperands ..).symm.trans hentry'
    obtain ⟨_, harg'⟩ | ⟨hrel, _⟩ := listPosition_eq_some hentry'
    · rcases exists_or_added hx hentry (harg'.symm.trans ha) with harg | hadded
      · obtain ⟨_, hargs⟩ | ⟨hrel, _⟩ := listPosition_eq_some hentry
        · exact .inl (.argument hid ((h.mentions rfl hw).resolve_right hr) hx (hargs.trans harg))
        · contradiction
      · exact .inr hadded
    · contradiction
  | @size id w size element sizes i hid hw hx' hz =>
    have hr : w ≠ m.replacement := by
      rintro rfl
      cases h.content.symm.trans hx'
    obtain ⟨x, hx, heq⟩ := (h.value_eq_ok hr).mp hx'
    cases x with
    | newMultiArray element' sizes' =>
      obtain ⟨rfl, rfl⟩ := Value.newMultiArray.inj heq
      rcases exists_or_added hx (i := i) rfl hz with hsize | hadded
      · exact .inl (.size hid ((h.mentions rfl hw).resolve_right hr) hx hsize)
      · exact .inr hadded
    | _ => cases heq
  | @methodOfLocal id w name ty owner hfirst hx' hm =>
    have hr : w ≠ m.replacement := by
      rintro rfl
      cases h.content.symm.trans hx'
    obtain ⟨x, hx, heq⟩ := (h.value_eq_ok hr).mp hx'
    have hw := (h.mentions rfl hfirst.mentions).resolve_right hr
    cases x with
    | localVar name' ty' =>
      obtain ⟨rfl, rfl⟩ := Value.localVar.inj heq
      exact .inl (fact_methodOfLocal hlocals howned horder hfirst.mem hx hm hw)
    | _ => cases heq
  | method hp hm =>
    obtain ⟨hp, hm⟩ := h.entity horder hp (by simp [Part.kind]) ⟨Arena.method_eq_ok.mp hm, rfl⟩
    exact .inl (.method hp (Arena.method_eq_ok.mpr hm))
  | parameter hp hm ht =>
    obtain ⟨hp, hm⟩ := h.entity horder hp (by simp [Part.kind]) ⟨Arena.method_eq_ok.mp hm, rfl⟩
    exact .inl (.parameter hp (Arena.method_eq_ok.mpr hm) ht)
  | field hp hf =>
    obtain ⟨hp, hf⟩ := h.entity horder hp (by simp [Part.kind]) ⟨Arena.field_eq_ok.mp hf, rfl⟩
    exact .inl (.field hp (Arena.field_eq_ok.mpr hf))
  | type hp ht hrow =>
    obtain ⟨hp, ht⟩ := h.entity horder hp (by simp [Part.kind]) ⟨Arena.type_eq_ok.mp ht, rfl⟩
    exact .inl (.type hp (Arena.type_eq_ok.mpr ht) hrow)

/-! ## The slot before and after -/

theorem exists_records (howned : Owned c (Reached g c)) (horder : Order g c order)
    {ancestors : List NodeId} {slot : Slot} {w : ValueId} (hplace : Place g c ancestors slot w) :
    ∃ n row, g.node? slot.parent = some n ∧ n.operands[slot.index]? = some w ∧
      Records c slot.parent slot.index w n row ∧ Fact g c order E row.rel row.tuple := by
  cases hplace with
  | @top ancestors id s i _ hid hs hw =>
    obtain ⟨owner, hm⟩ := howned id hid.reached
    have hrow : StmtRow id owner s _ := stmtRow_iff.mpr rfl
    exact ⟨.stmt s, _, Arena.stmt_eq_ok.mp hs, hw, .stmt hm hrow,
      .stmt (horder.mem.mpr hid.reached) hs hm hrow⟩
  | @inner ancestors slot v _ x i hplace hx hw =>
    obtain ⟨id, hid, hv, _⟩ := hplace.mentions
    obtain ⟨owner, hm⟩ := howned id hid
    have hrow : ∃ row, Records c v i w (.value x) row := by
      cases hentry : listPosition x i with
      | none => exact ⟨_, @Records.value c v i w x owner _ hentry (valueRow_iff.mpr rfl)⟩
      | some e => exact ⟨_, .entry hentry⟩
    obtain ⟨row, hrow⟩ := hrow
    exact ⟨.value x, row, Arena.value_eq_ok.mp hx, hw, hrow,
      hrow.fact_of_value (horder.mem.mpr hid) hm hv hx hw⟩

theorem Patched.trail (h : Patched g g' m v) {ancestors : List NodeId} {id : StmtId}
    (hid : Trail g c ancestors id) : Trail g' c ancestors id := by
  induction hid with
  | root hid => exact .root hid
  | @target ancestors id t s _ hs ht ih =>
    rw [← s.targets_mapOperands (m.redirect id)] at ht
    exact .target ih (h.stmt_eq_ok.mpr ⟨s, hs, rfl⟩) ht

/-- The places above the slot are as before, since the value in the slot is not nested in
itself. -/
theorem Patched.place_above (h : Patched g g' m v) (hslot : g.slot m.slot = .ok m.replaced)
    (hacyclic : ¬Relation.TransGen (Operand g) m.replaced m.replaced) {x : Value}
    (hx : g.value m.slot.parent = .ok x) {ancestors : List NodeId} {slot : Slot} {w : ValueId}
    (hplace : Place g c ancestors slot w)
    (hwithin : Relation.ReflTransGen (Operand g) w m.slot.parent) :
    Place g' c ancestors slot w := by
  have hparent : Operand g m.slot.parent m.replaced := by
    obtain ⟨n, hn, hw⟩ := Arena.slot_eq_ok.mp hslot
    obtain rfl := Option.some.inj ((Arena.value_eq_ok.mp hx).symm.trans hn)
    exact ⟨x, hx, List.mem_of_getElem? hw⟩
  have hnot (hback : Relation.ReflTransGen (Operand g) m.replaced m.slot.parent) : False :=
    hacyclic (.tail' hback hparent)
  induction hplace with
  | @top ancestors id s i w hid hs hw =>
    have hne : (⟨id, i⟩ : Slot) ≠ m.slot := by
      rintro heq
      have hnode := Arena.value_eq_ok.mp hx
      rw [← heq, Arena.stmt_eq_ok.mp hs] at hnode
      cases hnode
    refine .top (h.trail hid) (h.stmt_eq_ok.mpr ⟨s, hs, rfl⟩) ?_
    rw [Stmt.operands_mapOperands]
    exact Edit.getElem?_redirect_of_ne hne hw
  | @inner ancestors slot u w y i hplace hy hw ih =>
    have hstep : Operand g u w := ⟨y, hy, List.mem_of_getElem? hw⟩
    have hu : u ≠ m.replacement := by
      rintro rfl
      have hone := h.alone (.operand slot) _ (Arena.value_eq_ok.mp hy) hplace.enclosed.slot
      obtain rfl := Holder.operand.inj hone
      have hsame := Except.ok.inj (hslot.symm.trans hplace.enclosed.slot)
      exact hnot (hsame ▸ .head hstep hwithin)
    have hne : (⟨u, i⟩ : Slot) ≠ m.slot := by
      intro heq
      have hheld : g.slot ⟨u, i⟩ = .ok w :=
        Arena.slot_eq_ok.mpr ⟨_, Arena.value_eq_ok.mp hy, hw⟩
      have hsame : m.replaced = w := Except.ok.inj (hslot.symm.trans (heq ▸ hheld))
      exact hnot (hsame ▸ hwithin)
    refine .inner (ih (.head hstep hwithin)) ((h.value_eq_ok hu).mpr ⟨y, hy, rfl⟩) ?_
    rw [Value.operands_mapOperands]
    exact Edit.getElem?_redirect_of_ne hne hw

theorem Patched.place (h : Patched g g' m v)
    (hacyclic : ¬Relation.TransGen (Operand g) m.replaced m.replaced) {ancestors : List NodeId}
    (hplace : Place g c ancestors m.slot m.replaced) :
    Place g' c ancestors m.slot m.replacement := by
  have hslot := hplace.enclosed.slot
  obtain ⟨rule, slot, replaced, replacement⟩ := m
  cases hplace with
  | @top ancestors id s i w hid hs hw =>
    refine .top (h.trail hid) (h.stmt_eq_ok.mpr ⟨s, hs, rfl⟩) ?_
    rw [Stmt.operands_mapOperands]
    exact Edit.getElem?_redirect_slot (m := ⟨rule, ⟨id, i⟩, replaced, replacement⟩) hw
  | @inner ancestors slot u w y i hplace hy hw =>
    have habove := h.place_above hslot hacyclic hy hplace .refl
    refine .inner habove ((h.value_eq_ok h.parent_ne).mpr ⟨y, hy, rfl⟩) ?_
    rw [Value.operands_mapOperands]
    exact Edit.getElem?_redirect_slot (m := ⟨rule, ⟨u, i⟩, replaced, replacement⟩) hw

/-! ## Both cases -/

theorem exists_of_ownRow {owner : MethodId} {id : ValueId} {x : Value}
    (hfact : Fact g c order E (.ofValue x) (token id :: valueColumns owner x)) :
    ∃ y owner', g.value id = .ok y ∧ Rel.ofValue x = .ofValue y ∧
      valueColumns owner x = valueColumns owner' y := by
  have htells := hfact.tells
  rw [topic_ofValue] at htells
  obtain ⟨id', y, owner', hy, hrel, ht⟩ := htells
  obtain ⟨htoken, hcolumns⟩ := List.cons.inj ht
  obtain rfl := token_injective htoken
  exact ⟨y, owner', hy, hrel, hcolumns⟩

theorem eq_zero_of_columns {x : Value} {owner : MethodId} (hrel : Rel.ofValue x = .intConst)
    (hcolumns : valueColumns owner x = [.int 0]) : x = .intConst 0 := by
  cases x with
  | intConst k =>
    have hk : k.toInt = (0 : Int32).toInt := Datum.int.inj (List.cons.inj hcolumns).1
    rw [Int32.toInt_inj.mp hk]
  | _ => contradiction

/-- The built-in rules do not apply to the constant that they give. -/
theorem ne_zero_of_applies {rule : Rule} (hrule : rule ∈ builtInRules) {w : ValueId}
    {ancestors : List NodeId} (happlies : rule.applies g w ancestors = .ok true) :
    g.value w ≠ .ok (.intConst 0) := by
  intro hzero
  rcases List.mem_pair.mp hrule with rfl | rfl
  · simp only [intConstantRule, lookUp, hzero, Except.mapError, bind, Except.bind] at happlies
    cases hparent : parent? g ancestors <;> rw [hparent] at happlies <;> cases happlies
  · simp only [fieldReferenceRule, lookUp, hzero, Except.mapError, bind, Except.bind,
      referredField?] at happlies
    cases happlies

theorem Patched.fact_replacement (h : Patched g g' m (.intConst 0)) (horder : Order g c order)
    (howned : Owned c (Reached g c)) {ancestors : List NodeId}
    (hplace : Place g' c ancestors m.slot m.replacement) :
    Fact g' c order E .value [token m.replacement] ∧
      Fact g' c order E .intConst [token m.replacement, .int 0] := by
  obtain ⟨id, hid, hmentions, _⟩ := hplace.mentions
  have hmem : id ∈ order := (h.order horder).mem.mpr hid
  obtain ⟨owner, hm⟩ := h.owned howned id hid
  exact ⟨.value hmem hmentions, .definition hmem hmentions h.content hm .intConst⟩

theorem Rewired.not_fact (hrewired : Rewired g g' m v) (hkinds : WellKinded g c)
    (horder : Order g c order) : ¬Fact g c order E .value [token m.replacement] ∧
      ¬Fact g c order E .intConst [token m.replacement, .int 0] := by
  have hnone : g.node? m.replacement = none :=
    Array.getElem?_eq_none (Nat.le_of_eq hrewired.index.symm)
  constructor
  · intro hfact
    obtain ⟨id, hid, w, hmentions, ht⟩ := hfact.tells
    obtain rfl : m.replacement = w := token_injective (List.cons.inj ht).1
    obtain ⟨n, hn, _⟩ := hkinds.part (.value (horder.mem.mp hid) hmentions)
    rw [Part.id, hnone] at hn
    contradiction
  · intro hfact
    obtain ⟨w, y, _, hy, _, ht⟩ := hfact.tells
    obtain rfl : m.replacement = w := token_injective (List.cons.inj ht).1
    rw [Arena.value_eq_ok, hnone] at hy
    contradiction

/-- What a new node for the constant changes: its own rows are new, and the row of the slot is
another one. -/
theorem Rewired.rows (hrewired : Rewired g g' m (.intConst 0)) (hkinds : WellKinded g c)
    (hlocals : LocalsOwned g c) (howned : Owned c (Reached g c)) (horder : Order g c order)
    (hloop : ¬Relation.TransGen (Operand g) m.replaced m.replaced) {ancestors : List NodeId}
    (hplace : Place g c ancestors m.slot m.replaced) :
    ∃ n old new, g.node? m.slot.parent = some n ∧
      Records c m.slot.parent m.slot.index m.replaced n old ∧
      Records c m.slot.parent m.slot.index m.replacement
        (n.setOperand m.slot.index m.replacement) new ∧
      (∀ rel t, Fact g' c order E rel t ∧ ¬Fact g c order E rel t ↔
        (⟨rel, t⟩ : Row) ∈ [occurrenceRow m.replacement, zeroRow m.replacement, new]) ∧
      Fact g c order E old.rel old.tuple ∧ ¬Fact g' c order E old.rel old.tuple := by
  have h := hrewired.patched
  have hplace' := h.place hloop hplace
  obtain ⟨n, old, hn, hw, hold, hfactOld⟩ := exists_records (E := E) howned horder hplace
  obtain ⟨n', new, hn', hw', hnew, hfactNew⟩ :=
    exists_records (E := E) (h.owned howned) (h.order horder) hplace'
  obtain rfl : m.patch m.slot.parent n = n' :=
    Option.some.inj ((h.node?_eq h.parent_ne hn).symm.trans hn')
  rw [Edit.patch_parent] at hn' hw' hnew
  have hback : (n.setOperand m.slot.index m.replacement).setOperand m.slot.index m.replaced = n :=
    (n.setOperand_setOperand ..).trans (Node.setOperand_eq_self hw)
  have hnotNew : ¬Fact g c order E new.rel new.tuple := by
    intro hfact
    have hsame : ((n.setOperand m.slot.index m.replacement).setOperand m.slot.index
        m.replaced).operands[m.slot.index]? = some m.replacement :=
      hnew.operand hw' hfact (hn.trans (congrArg some hback.symm))
    rw [hback, hw] at hsame
    exact hrewired.ne (Option.some.inj hsame).symm
  have hnotOld : ¬Fact g' c order E old.rel old.tuple := by
    intro hfact
    have hsame : (n.setOperand m.slot.index m.replacement).operands[m.slot.index]? =
        some m.replaced := hold.operand hw hfact hn'
    rw [hw'] at hsame
    exact hrewired.ne (Option.some.inj hsame)
  obtain ⟨hoccurrence, hzero⟩ := h.fact_replacement (E := E) horder howned hplace'
  obtain ⟨hnoOccurrence, hnoZero⟩ := hrewired.not_fact (E := E) hkinds horder
  refine ⟨n, old, new, hn, hold, hnew, fun rel t => ⟨?_, ?_⟩, hfactOld, hnotOld⟩
  · rintro ⟨hafter, hbefore⟩
    cases (h.fact hlocals howned horder hafter).resolve_left hbefore with
    | occurrence => exact .head _
    | zero => exact .tail _ (.head _)
    | operand hk hrow =>
      obtain rfl := Option.some.inj (hn.symm.trans hk)
      rw [Edit.patch_parent] at hrow
      obtain rfl := hrow.unique hw' hnew
      exact .tail _ (.tail _ (.head _))
  · intro hmem
    rcases List.mem_cons.mp hmem with hrow | hmem
    · obtain ⟨rfl, rfl⟩ := Row.mk.inj hrow
      exact ⟨hoccurrence, hnoOccurrence⟩
    · rcases List.mem_pair.mp hmem with hrow | rfl
      · obtain ⟨rfl, rfl⟩ := Row.mk.inj hrow
        exact ⟨hzero, hnoZero⟩
      · exact ⟨hfactNew, hnotNew⟩

/-- What the new content of a node changes: its own row is another one. -/
theorem Overwritten.rows (hoverwritten : Overwritten g g' m (.intConst 0))
    (hlocals : LocalsOwned g c) (howned : Owned c (Reached g c)) (horder : Order g c order)
    (hloop : ¬Relation.TransGen (Operand g) m.replaced m.replaced) {x : Value}
    (hx : g.value m.replaced = .ok x) (hzero : x ≠ .intConst 0) {ancestors : List NodeId}
    (hplace : Place g c ancestors m.slot m.replaced) :
    (∀ rel t, Fact g' c order E rel t ∧ ¬Fact g c order E rel t ↔
      (⟨rel, t⟩ : Row) = zeroRow m.replaced) ∧
    ∃ owner old, ValueRow m.replaced owner x old ∧ Fact g c order E old.rel old.tuple ∧
      ¬Fact g' c order E old.rel old.tuple := by
  have h := hoverwritten.patched hx fun hop => hloop (.single hop)
  have hplace' := h.place hloop hplace
  obtain ⟨n, row, hn, hw, hrow, hfactRow⟩ := exists_records (E := E) howned horder hplace
  obtain ⟨_, hfactZero⟩ := h.fact_replacement (E := E) horder howned hplace'
  obtain ⟨id, hid, hmentions, _⟩ := hplace.mentions
  obtain ⟨owner, hm⟩ := howned id hid
  rw [hoverwritten.same] at hfactZero
  have hnotZero : ¬Fact g c order E .intConst [token m.replaced, .int 0] := by
    intro hfact
    obtain ⟨w, y, owner', hy, hrel, ht⟩ := hfact.tells
    obtain ⟨htoken, hcolumns⟩ := List.cons.inj ht
    obtain rfl := token_injective htoken
    obtain rfl := Except.ok.inj (hx.symm.trans hy)
    exact hzero (eq_zero_of_columns hrel.symm hcolumns.symm)
  have hold : ValueRow m.replaced owner x _ := valueRow_iff.mpr rfl
  refine ⟨fun rel t => ⟨?_, ?_⟩, owner, _, hold,
    .definition (horder.mem.mpr hid) hmentions hx hm hold, ?_⟩
  · rintro ⟨hafter, hbefore⟩
    cases (h.fact hlocals howned horder hafter).resolve_left hbefore with
    | occurrence =>
      rw [hoverwritten.same] at hbefore
      exact absurd (.value (horder.mem.mpr hid) hmentions) hbefore
    | zero => rw [hoverwritten.same]; rfl
    | operand hk hrow' =>
      obtain rfl := Option.some.inj (hn.symm.trans hk)
      rw [Edit.patch_parent, hoverwritten.same, Node.setOperand_eq_self hw] at hrow'
      obtain rfl := hrow.unique hw hrow'
      exact absurd hfactRow hbefore
  · intro hrow
    obtain ⟨rfl, rfl⟩ := Row.mk.inj hrow
    exact ⟨hfactZero, hnotZero⟩
  · intro hfact
    obtain ⟨y, owner', hy, hrel, hcolumns⟩ := exists_of_ownRow hfact
    obtain rfl := Except.ok.inj (hoverwritten.content.symm.trans hy)
    exact hzero (eq_zero_of_columns hrel hcolumns)

end Rows

/-! ## The delta -/

def InsertsExactly (d : Delta) (rows : List Row) : Prop :=
  ∀ name t, d.Inserts name t ↔ ∃ row ∈ rows, row.rel.name = name ∧ row.tuple = t

/-- The delta of a mutation by the constant `0`, from the facts of `g` on. -/
inductive Minimal (g : Arena) (c : FlowGraph) (m : Edit) (d : Delta) : Prop
  /-- The constant is a new node: it occurs, it is defined, and the slot is recorded anew. -/
  | fresh {n : Node} {old new : Row} :
      m.replacement.index = g.size → g.node? m.slot.parent = some n →
      Records c m.slot.parent m.slot.index m.replaced n old →
      Records c m.slot.parent m.slot.index m.replacement
        (n.setOperand m.slot.index m.replacement) new →
      InsertsExactly d [occurrenceRow m.replacement, zeroRow m.replacement, new] →
      d.Deletes old.rel.name old.tuple → Minimal g c m d
  /-- The constant is the new content of the node, which is defined anew. -/
  | inPlace {x : Value} {owner : MethodId} {old : Row} :
      m.replacement = m.replaced → g.value m.replaced = .ok x →
      ValueRow m.replaced owner x old → InsertsExactly d [zeroRow m.replaced] →
      d.Deletes old.rel.name old.tuple → Minimal g c m d

theorem insertsExactly_of_facts {s s' : Store} {P Q : Rel → Tuple → Prop} (h : Presents s P)
    (h' : Presents s' Q) {rows : List Row}
    (hrows : ∀ rel t, Q rel t ∧ ¬P rel t ↔ (⟨rel, t⟩ : Row) ∈ rows) :
    InsertsExactly (.between (some s) (some s')) rows := by
  intro name t
  rw [h.inserts_iff h']
  constructor
  · rintro ⟨rel, rfl, hnew⟩
    exact ⟨⟨rel, t⟩, (hrows rel t).mp hnew, rfl, rfl⟩
  · rintro ⟨row, hrow, rfl, rfl⟩
    exact ⟨row.rel, rfl, (hrows row.rel row.tuple).mpr hrow⟩

theorem Minimal.size_pos {d : Delta} (h : Minimal g c m d) : 0 < d.size := by
  have hpos {name : String} {t : Tuple} (hinserts : d.Inserts name t) : 0 < d.size := by
    obtain ⟨change, hchange, _⟩ := hinserts
    refine Nat.pos_of_ne_zero fun hsize => ?_
    have hempty : d.relations = ∅ := Std.ExtTreeMap.eq_empty_iff_size_eq_zero.mpr hsize
    rw [Delta.get?, hempty, Std.ExtTreeMap.getElem?_empty] at hchange
    contradiction
  cases h with
  | fresh _ _ _ _ hinserts _ => exact hpos ((hinserts _ _).mpr ⟨_, .head _, rfl, rfl⟩)
  | inPlace _ _ _ hinserts _ => exact hpos ((hinserts _ _).mpr ⟨_, .head _, rfl, rfl⟩)

theorem minimal_of_applies {policy : IdentityPolicy} {rule : Rule} (hkinds : WellKinded g c)
    (hacyclic : Acyclic g (Met g c (Reached g c))) (hlocals : LocalsOwned g c)
    (hsize : g.size < UInt32.size) {s : Store} (hs : extract g c = .ok s)
    (happlies : Applies (.builtIn policy) g g' c m rule v) :
    ∃ s', extract g' c = .ok s' ∧ Minimal g c m (.between (some s) (some s')) := by
  obtain rfl := replacement_of_mem_builtInRules happlies.mem happlies.replacement
  have h := happlies.patched hsize hacyclic
  have hloop := happlies.acyclic_replaced hacyclic
  have howned := owned_of_extract hs
  obtain ⟨ancestors, hplace, hrule⟩ := happlies.place
  obtain ⟨order, _, horder, _, hpresents⟩ := exact_of_extract hs
  obtain ⟨s', hs'⟩ := exists_extract (h.wellKinded rfl rfl hkinds) (h.acyclic rfl hacyclic)
    (h.owned howned) (h.even (even_of_extract hs))
  obtain ⟨order', _, horder', _, hpresents'⟩ := exact_of_extract hs'
  -- the statements come in one order before and after, so variables have the same first mention
  obtain rfl := horder'.rounds.unique (h.order horder).rounds
  refine ⟨s', hs', ?_⟩
  rcases happlies.rewired_or_overwritten hsize with hrewired | hoverwritten
  · obtain ⟨n, old, new, hn, hold, hnew, hrows, hbefore, hafter⟩ :=
      hrewired.rows hkinds hlocals howned horder hloop hplace
    exact .fresh hrewired.index hn hold hnew
      (insertsExactly_of_facts hpresents hpresents' hrows)
      (hpresents.deletes hpresents' hbefore hafter)
  · obtain ⟨x, hx⟩ := happlies.resolves
    have hzero : x ≠ .intConst 0 := by
      rintro rfl
      exact ne_zero_of_applies happlies.mem hrule hx
    obtain ⟨hrows, owner, old, hold, hbefore, hafter⟩ :=
      hoverwritten.rows hlocals howned horder hloop hx hzero hplace
    have hsingle (rel : Rel) (t : Tuple) :
        Fact g' c order' c.edges rel t ∧ ¬Fact g c order' c.edges rel t ↔
          (⟨rel, t⟩ : Row) ∈ [zeroRow m.replaced] :=
      (hrows rel t).trans List.mem_singleton.symm
    exact .inPlace hoverwritten.same hx hold
      (insertsExactly_of_facts hpresents hpresents' hsingle)
      (hpresents.deletes hpresents' hbefore hafter)

/-- After a mutation by the built-in rules the facts can be extracted again.  The delta from the
facts before is not empty.  For a new node it inserts that the constant occurs and is defined and
that the slot holds it, and deletes that the slot held the old node; for a node that is overwritten
it inserts the new definition, and deletes the old one.  It inserts nothing else. -/
theorem mutation_delta_minimal (hkinds : WellKinded g c)
    (hacyclic : Acyclic g (Met g c (Reached g c))) (hlocals : LocalsOwned g c)
    (hsize : g.size < UInt32.size) {s : Store} (hs : extract g c = .ok s)
    (policy : IdentityPolicy) (r : Generator) {m : Edit}
    (hm : ((Mutator.builtIn policy).mutate g c r).result = .ok (some m)) :
    ∃ s', extract ((Mutator.builtIn policy).mutate g c r).arena c = .ok s' ∧
      0 < (Delta.between (some s) (some s')).size ∧
      Minimal g c m (.between (some s) (some s')) := by
  cases attempted_mutate hacyclic hsize (.builtIn policy) r with
  | unchanged hnone _ => exact absurd hm (hnone m)
  | applied hm' happlies =>
    obtain rfl := Option.some.inj (Except.ok.inj (hm.symm.trans hm'))
    obtain ⟨s', hs', hminimal⟩ :=
      minimal_of_applies hkinds hacyclic hlocals hsize hs happlies
    exact ⟨s', hs', hminimal.size_pos, hminimal⟩

theorem localsOwned_loop : LocalsOwned loop loopFlow := by
  intro v name ty id id' owner owner' _ hid hid' _ _ hm hm'
  have howner : loopFlow.owner ⟨4⟩ = .ok ⟨1⟩ ∧ loopFlow.owner ⟨5⟩ = .ok ⟨1⟩ := by decide +kernel
  have hone {j : StmtId} (hj : Reached loop loopFlow j) : loopFlow.owner j = .ok ⟨1⟩ := by
    rcases reached_loop hj with rfl | rfl
    · exact howner.1
    · exact howner.2
  rw [hone hid] at hm
  rw [hone hid'] at hm'
  exact Except.ok.inj (hm.symm.trans hm')

/-- The assignment is visited before the jump, and its constant is found. -/
theorem result_loop (r : Generator) : ((Mutator.builtIn .preserve).mutate loop loopFlow r).result =
    .ok (some ⟨"REPLACE_INT_CONSTANT", ⟨⟨4⟩, 1⟩, ⟨3⟩, ⟨3⟩⟩) := by
  have hnodes : loopFlow.nodes = [⟨4⟩, ⟨5⟩] := by decide +kernel
  have hquiet : Tries loop builtInRules [⟨4⟩] ⟨⟨4⟩, 0⟩ ⟨2⟩ (.ok (.localVar "x" ⟨0⟩)) _ :=
    .quiet rfl (.no rfl (.no rfl .nil))
  have hfound : Tries loop builtInRules [⟨4⟩] ⟨⟨4⟩, 1⟩ ⟨3⟩
      (.error (.ok ⟨⟨⟨4⟩, 1⟩, ⟨3⟩, intConstantRule, []⟩)) _ := .found rfl (.yes rfl (.no rfl .nil))
  have hexplores : Explores loop builtInRules [] [(⟨4⟩, []), (⟨5⟩, [])] _ _ :=
    .stop List.not_mem_nil rfl (.next hquiet .nil (.stop hfound))
  have hroots : roots loopFlow = [(⟨4⟩, []), (⟨5⟩, [])] := by rw [roots, hnodes]; rfl
  rw [result_of_explores (acyclic_of_valuesEarlier (by decide) _) (hroots ▸ hexplores)]
  rfl

/-- Only the assignment holds the constant `7`, so its node is kept; the variable and both
statements are as before. -/
theorem mutation_delta_minimal_loop :
    let a := (Mutator.builtIn .preserve).mutate loop loopFlow (.ofSeed 0)
    ∃ s s', extract loop loopFlow = .ok s ∧ extract a.arena loopFlow = .ok s' ∧
      InsertsExactly (.between (some s) (some s')) [zeroRow ⟨3⟩] := by
  obtain ⟨s, hs⟩ := exists_extract_loop
  obtain ⟨s', hs', _, hminimal⟩ := mutation_delta_minimal (wellKinded_of_tokensFit tokensFit_loop)
    (acyclic_of_valuesEarlier (by decide) _) localsOwned_loop (by decide) hs .preserve (.ofSeed 0)
    (result_loop _)
  refine ⟨s, s', hs, hs', ?_⟩
  cases hminimal with
  | fresh hindex => contradiction
  | inPlace _ _ _ hinserts _ => exact hinserts

end Mutation

end ProgramFacts
