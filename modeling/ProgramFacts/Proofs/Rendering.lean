import ProgramFacts.Program.Display
import ProgramFacts.Proofs.Exactness
import ProgramFacts.Proofs.Slots

/-! Which nodes have a text: those in which no type and no value is nested in itself.  The depth to
which texts are written cuts no other text short. -/

namespace ProgramFacts.Program.Arena

open Extraction

variable {g : Arena}

/-- What holds of a node one deeper than it holds of all that is nested in the node holds at the
size of the arena: nothing nests deeper, unless it is nested in itself. -/
theorem of_nested {r : NodeId → NodeId → Prop} {P : Nat → NodeId → Prop}
    (hlt : ∀ u w, r u w → u.index < g.size)
    (hstep : ∀ depth u, (∀ w, r u w → P depth w) → P (depth + 1) u) {v : NodeId}
    (hv : ∀ w, Relation.ReflTransGen r v w → ¬Relation.TransGen r w w) : P (g.size + 1) v := by
  -- the nodes that `v` is nested in are distinct, and there are no more than the arena has
  suffices h : ∀ depth (above : List NodeId) v, above.Nodup → (∀ u ∈ above, u.index < g.size) →
      (∀ u ∈ above, Relation.TransGen r u v) →
      (∀ w, Relation.ReflTransGen r v w → ¬Relation.TransGen r w w) →
      g.size - above.length < depth → P depth v from
    h (g.size + 1) [] v .nil (by simp) (by simp) hv (by simp)
  intro depth
  induction depth with
  | zero => omega
  | succ depth ih =>
    intro above v hnodup hindex hnested hv hdepth
    refine hstep depth v fun w hw => ?_
    have hcons : (v :: above).Nodup :=
      List.nodup_cons.mpr ⟨fun hmem => hv v .refl (hnested v hmem), hnodup⟩
    have hindex' : ∀ u ∈ v :: above, u.index < g.size :=
      List.forall_mem_cons.mpr ⟨hlt v w hw, hindex⟩
    have hlength := length_le_size hcons hindex'
    refine ih (v :: above) w hcons hindex' ?_ (fun u hu => hv u (.head hw hu)) ?_
    · exact List.forall_mem_cons.mpr ⟨.single hw, fun u hu => (hnested u hu).tail hw⟩
    · rw [List.length_cons] at hlength ⊢
      omega

/-! ## Types -/

/-- A type whose elements are of the other one. -/
def Element (g : Arena) (t e : TypeId) : Prop := g.type t = .ok (.array e)

/-- No type of elements in the type, itself among them, has itself for elements. -/
def FiniteType (g : Arena) (t : TypeId) : Prop :=
  ∀ e, Relation.ReflTransGen (Element g) t e → ¬Relation.TransGen (Element g) e e

/-- A type contains itself only by way of its elements, so it is finite if these are. -/
theorem finiteType_of_elements {t : TypeId} (h : ∀ e, Element g t e → FiniteType g e) :
    FiniteType g t := by
  intro e hreach hloop
  rcases hreach.cases_head with rfl | ⟨e', he', hreach⟩
  · obtain ⟨e, he, hback⟩ := Relation.TransGen.head'_iff.mp hloop
    exact h e he t hback hloop
  · exact h e' he' e hreach hloop

theorem typeTextWithin?_mono {depth depth' : Nat} (hle : depth ≤ depth') {t : TypeId} {s : String}
    (h : g.typeTextWithin? depth t = some s) : g.typeTextWithin? depth' t = some s := by
  induction depth generalizing depth' t s with
  | zero => contradiction
  | succ depth ih =>
    obtain ⟨depth', rfl⟩ := Nat.exists_eq_add_of_lt hle
    unfold typeTextWithin? at h ⊢
    cases ht : g.type t with
    | error fault => simpa [ht] using h
    | ok x =>
      rw [ht] at h
      cases x with
      | array element =>
        obtain ⟨s', hs', rfl⟩ := Option.map_eq_some_iff.mp h
        exact Option.map_eq_some_iff.mpr ⟨s', ih (by omega) hs', rfl⟩
      | _ => exact h

theorem finiteType_of_typeTextWithin? {depth : Nat} {t : TypeId} {s : String}
    (h : g.typeTextWithin? depth t = some s) : FiniteType g t := by
  induction depth generalizing t s with
  | zero => contradiction
  | succ depth ih =>
    refine finiteType_of_elements fun e he => ?_
    unfold typeTextWithin? at h
    rw [he] at h
    obtain ⟨s', hs', _⟩ := Option.map_eq_some_iff.mp h
    exact ih hs'

theorem FiniteType.isSome {t : TypeId} (h : FiniteType g t) : (g.typeText? t).isSome := by
  refine of_nested (r := Element g) (P := fun depth t => (g.typeTextWithin? depth t).isSome)
    (fun t e he => index_lt_of_resolve he) (fun depth t helements => ?_) h
  unfold typeTextWithin?
  cases ht : g.type t with
  | error fault => rfl
  | ok x =>
    cases x with
    | array element => simpa using helements element ht
    | _ => rfl

/-- A type has a text unless it contains itself. -/
theorem isSome_typeText?_iff {t : TypeId} : (g.typeText? t).isSome ↔ FiniteType g t := by
  refine ⟨fun h => ?_, FiniteType.isSome⟩
  obtain ⟨s, hs⟩ := Option.isSome_iff_exists.mp h
  exact finiteType_of_typeTextWithin? hs

/-- The depth to which types are written is enough for those that any depth is enough for. -/
theorem typeText?_eq_some_iff {t : TypeId} {s : String} :
    g.typeText? t = some s ↔ ∃ depth, g.typeTextWithin? depth t = some s := by
  refine ⟨fun h => ⟨_, h⟩, fun ⟨depth, hs⟩ => ?_⟩
  obtain ⟨s', hs'⟩ := Option.isSome_iff_exists.mp (finiteType_of_typeTextWithin? hs).isSome
  have hdeep := typeTextWithin?_mono (Nat.le_max_left depth (g.size + 1)) hs
  rw [typeTextWithin?_mono (Nat.le_max_right ..) hs'] at hdeep
  rw [hs', hdeep]

theorem typeText?_of_element {t e : TypeId} (he : Element g t e) :
    g.typeText? t = (g.typeText? e).map (· ++ "[]") := by
  have hstep (depth : Nat) :
      g.typeTextWithin? (depth + 1) t = (g.typeTextWithin? depth e).map (· ++ "[]") := by
    rw [typeTextWithin?, he]
  refine Option.ext fun s => ?_
  rw [Option.map_eq_some_iff]
  constructor
  · intro h
    rw [typeText?, hstep] at h
    obtain ⟨s', hs', rfl⟩ := Option.map_eq_some_iff.mp h
    exact ⟨s', typeText?_eq_some_iff.mpr ⟨_, hs'⟩, rfl⟩
  · rintro ⟨s', hs', rfl⟩
    refine typeText?_eq_some_iff.mpr ⟨g.size + 1 + 1, ?_⟩
    rw [hstep]
    exact Option.map_eq_some_iff.mpr ⟨s', hs', rfl⟩

/-! ## Values -/

/-- No value in the operand tree of the value, itself among them, is nested in itself. -/
def FiniteValue (g : Arena) (v : ValueId) : Prop :=
  ∀ w, Within g v w → ¬Relation.TransGen (Operand g) w w

/-- The types that the text of a type, method or field names. -/
def namedBy (g : Arena) : Part → List TypeId
  | .value _ => []
  | .type id => [id]
  | .method id =>
    match g.method id with
    | .ok m => m.returnType :: m.parameterTypes
    | .error _ => []
  | .field id =>
    match g.field id with
    | .ok f => [f.ty]
    | .error _ => []

/-- The types that the text of a value names, besides those that its operands name. -/
def namedTypes (g : Arena) : Value → List TypeId
  | .localVar .. => []
  | x => (valueRefs x).flatMap g.namedBy

/-- No value in the operand tree is nested in itself, and no type that is named there. -/
structure FiniteText (g : Arena) (v : ValueId) : Prop where
  value : FiniteValue g v
  types : ∀ w x, Within g v w → g.value w = .ok x → ∀ t ∈ g.namedTypes x, FiniteType g t

theorem any_const {α : Type} (o : Option α) (b : Bool) : o.any (fun _ => b) = (o.isSome && b) := by
  cases o <;> rfl

theorem isSome_mapM {α : Type} {f : α → Option String} {l : List α} :
    (l.mapM f).isSome ↔ ∀ a ∈ l, (f a).isSome := by
  induction l with
  | nil => simp
  | cons a l ih => simp [List.mapM_cons, Option.isSome_bind, any_const, ih]

theorem map_eq_of_mapM {α : Type} {f : α → Option String} {l : List α} {texts : List String}
    (h : l.mapM f = some texts) : l.map f = texts.map some := by
  induction l generalizing texts with
  | nil =>
    obtain rfl := Option.some.inj h
    rfl
  | cons a l ih =>
    simp only [List.mapM_cons, Option.bind_eq_bind, Option.bind_eq_some_iff] at h
    obtain ⟨text, ha, rest, hl, hcons⟩ := h
    obtain rfl := Option.some.inj hcons
    rw [List.map_cons, ha, ih hl]
    rfl

theorem isSome_methodText?_iff {id : MethodId} :
    (g.methodText? id).isSome ↔ ∀ t ∈ g.namedBy (.method id), FiniteType g t := by
  unfold methodText? namedBy
  cases hm : g.method id <;>
    simp [hm, Option.isSome_bind, any_const, isSome_mapM, isSome_typeText?_iff]

theorem isSome_fieldText?_iff {id : FieldId} :
    (g.fieldText? id).isSome ↔ ∀ t ∈ g.namedBy (.field id), FiniteType g t := by
  unfold fieldText? namedBy
  cases hf : g.field id <;> simp [hf, Option.isSome_bind, isSome_typeText?_iff]

theorem isSome_valueTextWith?_iff {text : ValueId → Option String} {x : Value} :
    (g.valueTextWith? text x).isSome ↔
      (∀ w ∈ x.operands, (text w).isSome) ∧ ∀ t ∈ g.namedTypes x, FiniteType g t := by
  have htype (t : TypeId) : (g.typeText? t).isSome ↔ ∀ t' ∈ g.namedBy (.type t), FiniteType g t' :=
    isSome_typeText?_iff.trans List.forall_mem_singleton.symm
  unfold valueTextWith? namedTypes
  cases x <;>
    simp [valueRefs, Value.operands, Option.isSome_bind, any_const, isSome_mapM, htype,
      isSome_methodText?_iff, isSome_fieldText?_iff, and_assoc, and_comm]

theorem mapM_congr {α β : Type} {text₁ : α → Option String} {text₂ : β → Option String}
    {l₁ : List α} {l₂ : List β} (h : List.Forall₂ (fun a b => text₁ a = text₂ b) l₁ l₂) :
    l₁.mapM text₁ = l₂.mapM text₂ := by
  have hmap : l₁.map text₁ = l₂.map text₂ := by
    rwa [← List.forall₂_eq_eq_eq, List.forall₂_map_left_iff, List.forall₂_map_right_iff]
  have hsame : (l₁.map text₁).mapM id = (l₂.map text₂).mapM id := by rw [hmap]
  rwa [List.mapM_map, List.mapM_map] at hsame

/-- The text of a value is made of those of its operands and of the types, methods and fields that
it names. -/
theorem valueTextWith?_mapOperands {g₁ g₂ : Arena} {x : Value} {f : Nat → ValueId → ValueId}
    {text₁ text₂ : ValueId → Option String}
    (htype : ∀ ty, Part.type ty ∈ valueRefs x → g₁.typeText? ty = g₂.typeText? ty)
    (hmethod : ∀ m, Part.method m ∈ valueRefs x → g₁.methodText? m = g₂.methodText? m)
    (hfield : ∀ d, Part.field d ∈ valueRefs x → g₁.fieldText? d = g₂.fieldText? d)
    (hops : List.Forall₂ (fun w₁ w₂ => text₁ w₁ = text₂ w₂) x.operands
      (x.mapOperands f).operands) :
    g₁.valueTextWith? text₁ x = g₂.valueTextWith? text₂ (x.mapOperands f) := by
  unfold valueTextWith?
  cases x with
  | newMultiArray element sizes =>
    have hsizes : sizes.mapM text₁ = (sizes.mapIdx f).mapM text₂ := mapM_congr hops
    simp only [Value.mapOperands, htype element (.head _), hsizes]
  | staticInvoke method args =>
    have hargs : args.mapM text₁ = (args.mapIdx f).mapM text₂ := mapM_congr hops
    simp only [Value.mapOperands, hmethod method (.head _), hargs]
  | instanceInvoke dispatch base method args =>
    obtain ⟨hbase, htexts⟩ := List.forall₂_cons.mp hops
    have hargs : args.mapM text₁ = (args.mapIdx fun i a => f (i + 1) a).mapM text₂ :=
      mapM_congr htexts
    simp only [Value.mapOperands, hmethod method (.head _), hbase, hargs]
  | _ => simp_all [Value.mapOperands, Value.operands, valueRefs]

theorem valueTextWith?_congr {x : Value} {text text' : ValueId → Option String}
    (h : ∀ w ∈ x.operands, text w = text' w) :
    g.valueTextWith? text x = g.valueTextWith? text' x := by
  have hsame : g.valueTextWith? text x = g.valueTextWith? text' (x.mapOperands fun _ w => w) := by
    refine valueTextWith?_mapOperands (fun _ _ => rfl) (fun _ _ => rfl) (fun _ _ => rfl) ?_
    rw [x.mapOperands_id]
    exact List.forall₂_same.mpr h
  rwa [x.mapOperands_id] at hsame

theorem valueTextWith?_mono {x : Value} {text text' : ValueId → Option String} {s : String}
    (hmono : ∀ w s, text w = some s → text' w = some s) (h : g.valueTextWith? text x = some s) :
    g.valueTextWith? text' x = some s := by
  have hops := (isSome_valueTextWith?_iff.mp (Option.isSome_of_eq_some h)).1
  rw [← h]
  refine valueTextWith?_congr fun w hw => ?_
  obtain ⟨s', hs'⟩ := Option.isSome_iff_exists.mp (hops w hw)
  rw [hs', hmono w s' hs']

theorem valueTextWithin?_mono {depth depth' : Nat} (hle : depth ≤ depth') {v : ValueId}
    {s : String} (h : g.valueTextWithin? depth v = some s) :
    g.valueTextWithin? depth' v = some s := by
  induction depth generalizing depth' v s with
  | zero => contradiction
  | succ depth ih =>
    obtain ⟨depth', rfl⟩ := Nat.exists_eq_add_of_lt hle
    unfold valueTextWithin? at h ⊢
    cases hx : g.value v with
    | error fault => simpa [hx] using h
    | ok x =>
      rw [hx] at h
      exact valueTextWith?_mono (fun w s hs => ih (by omega) hs) h

/-- A value contains itself only by way of its operands. -/
theorem finiteText_of_operands {v : ValueId} (hops : ∀ w, Operand g v w → FiniteText g w)
    (htypes : ∀ x, g.value v = .ok x → ∀ t ∈ g.namedTypes x, FiniteType g t) :
    FiniteText g v where
  value w hreach hloop := by
    rcases hreach.cases_head with rfl | ⟨u, hu, hreach⟩
    · obtain ⟨u, hu, hback⟩ := Relation.TransGen.head'_iff.mp hloop
      exact (hops u hu).value v hback hloop
    · exact (hops u hu).value w hreach hloop
  types w x hreach hx := by
    rcases hreach.cases_head with rfl | ⟨u, hu, hreach⟩
    · exact htypes x hx
    · exact (hops u hu).types w x hreach hx

theorem finiteText_of_valueTextWithin? {depth : Nat} {v : ValueId} {s : String}
    (h : g.valueTextWithin? depth v = some s) : FiniteText g v := by
  induction depth generalizing v s with
  | zero => contradiction
  | succ depth ih =>
    have hparts {x : Value} (hx : g.value v = .ok x) :
        (∀ w ∈ x.operands, (g.valueTextWithin? depth w).isSome) ∧
          ∀ t ∈ g.namedTypes x, FiniteType g t := by
      unfold valueTextWithin? at h
      rw [hx] at h
      exact isSome_valueTextWith?_iff.mp (Option.isSome_of_eq_some h)
    refine finiteText_of_operands (fun w hw => ?_) fun x hx => (hparts hx).2
    obtain ⟨x, hx, hw⟩ := hw
    obtain ⟨s', hs'⟩ := Option.isSome_iff_exists.mp ((hparts hx).1 w hw)
    exact ih hs'

theorem FiniteText.isSome {v : ValueId} (h : FiniteText g v) : (g.valueText? v).isSome := by
  refine of_nested (r := Operand g)
    (P := fun depth w => Within g v w → (g.valueTextWithin? depth w).isSome)
    (fun u w hw => ?_) (fun depth u hops hu => ?_) h.value .refl
  · obtain ⟨x, hx, _⟩ := hw
    exact index_lt_of_resolve hx
  · unfold valueTextWithin?
    cases hx : g.value u with
    | error fault => rfl
    | ok x =>
      refine isSome_valueTextWith?_iff.mpr ⟨fun w hw => ?_, h.types u x hu hx⟩
      exact hops w ⟨x, hx, hw⟩ (hu.tail ⟨x, hx, hw⟩)

/-- A value has a text unless a value or type is nested in itself there. -/
theorem isSome_valueText?_iff {v : ValueId} : (g.valueText? v).isSome ↔ FiniteText g v := by
  refine ⟨fun h => ?_, FiniteText.isSome⟩
  obtain ⟨s, hs⟩ := Option.isSome_iff_exists.mp h
  exact finiteText_of_valueTextWithin? hs

theorem valueText?_eq_none_iff {v : ValueId} : g.valueText? v = none ↔ ¬FiniteText g v := by
  rw [← isSome_valueText?_iff, Option.not_isSome_iff_eq_none]

/-- The depth to which values are written is enough for those that any depth is enough for. -/
theorem valueText?_eq_some_iff {v : ValueId} {s : String} :
    g.valueText? v = some s ↔ ∃ depth, g.valueTextWithin? depth v = some s := by
  refine ⟨fun h => ⟨_, h⟩, fun ⟨depth, hs⟩ => ?_⟩
  obtain ⟨s', hs'⟩ := Option.isSome_iff_exists.mp (finiteText_of_valueTextWithin? hs).isSome
  have hdeep := valueTextWithin?_mono (Nat.le_max_left depth (g.size + 1)) hs
  rw [valueTextWithin?_mono (Nat.le_max_right ..) hs'] at hdeep
  rw [hs', hdeep]

/-- The text of a value is made of the texts of its operands. -/
theorem valueText?_of_value {v : ValueId} {x : Value} (hx : g.value v = .ok x) :
    g.valueText? v = g.valueTextWith? g.valueText? x := by
  have hstep (depth : Nat) :
      g.valueTextWithin? (depth + 1) v = g.valueTextWith? (g.valueTextWithin? depth) x := by
    rw [valueTextWithin?, hx]
  refine Option.ext fun s => ⟨fun h => ?_, fun h => ?_⟩
  · rw [valueText?, hstep] at h
    exact valueTextWith?_mono (fun w s hs => valueText?_eq_some_iff.mpr ⟨_, hs⟩) h
  · exact valueText?_eq_some_iff.mpr ⟨g.size + 1 + 1, (hstep _).trans h⟩

theorem valueText?_intConst {v : ValueId} {n : Int32}
    (hx : g.value v = .ok (.intConst n)) : g.valueText? v = some (toString n.toInt) :=
  valueText?_of_value hx

/-! ## Statements -/

theorem isSome_stmtText?_iff {id : StmtId} : (g.stmtText? id).isSome ↔
    ∀ s, g.stmt id = .ok s → ∀ v ∈ s.operands ++ s.labels, FiniteText g v := by
  unfold stmtText?
  cases hs : g.stmt id with
  | error fault => simp
  | ok s =>
    cases s <;>
      simp [Stmt.operands, Stmt.labels, Option.isSome_bind, any_const, isSome_mapM,
        isSome_valueText?_iff]

end ProgramFacts.Program.Arena

namespace ProgramFacts.Extraction

open Program ProgramFacts.Flow

variable {g : Arena} {c : FlowGraph} {S : StmtId → Prop}

/-- No type of `P` has itself for elements. -/
def AcyclicTypes (g : Arena) (P : Part → Prop) : Prop :=
  ∀ t, P (.type t) → ¬Relation.TransGen (Arena.Element g) t t

/-- Whether all array types have their elements at earlier positions. -/
def typesEarlier (g : Arena) : Bool :=
  g.nodes.toList.zipIdx.all fun e =>
    match e.1 with
    | .type (.array element) => element.index < e.2
    | _ => true

/-- Types whose elements are earlier ones only are not nested in themselves. -/
theorem acyclicTypes_of_typesEarlier (h : typesEarlier g = true) (P : Part → Prop) :
    AcyclicTypes g P := by
  refine fun t _ => not_transGen_of_index_lt (fun t e he => ?_) t
  have hall := List.all_eq_true.mp h _ (mem_zipIdx_nodes (Arena.type_eq_ok.mp he))
  simpa using hall

theorem finiteType_of_met (h : AcyclicTypes g (Met g c S)) {t : TypeId}
    (ht : Met g c S (.type t)) : g.FiniteType t := by
  intro e hreach
  refine h e ?_
  induction hreach with
  | refl => exact ht
  | tail _ he ih => exact .ref ih ⟨Arena.type_eq_ok.mp he, rfl⟩ (.head _)

/-- The types that the text of a part names are met with the part. -/
theorem Met.namedBy {p : Part} (hp : Met g c S p) {t : TypeId} (ht : t ∈ g.namedBy p) :
    Met g c S (.type t) := by
  cases p with
  | value v => contradiction
  | type id => exact List.mem_singleton.mp ht ▸ hp
  | method id =>
    simp only [Arena.namedBy] at ht
    split at ht
    · rename_i m hm
      exact .ref hp ⟨Arena.method_eq_ok.mp hm, rfl⟩ (List.mem_map_of_mem ht)
    · contradiction
  | field id =>
    simp only [Arena.namedBy] at ht
    split at ht
    · rename_i f hf
      obtain rfl := List.mem_singleton.mp ht
      exact .ref hp ⟨Arena.field_eq_ok.mp hf, rfl⟩ (.head _)
    · contradiction

/-- The values that are met have a text if nothing that is met is nested in itself. -/
theorem finiteText_of_met (hacyclic : Acyclic g (Met g c S)) (htypes : AcyclicTypes g (Met g c S))
    {v : ValueId} (hv : Met g c S (.value v)) : g.FiniteText v := by
  have within {w : ValueId} (hw : Within g v w) : Met g c S (.value w) := by
    obtain ⟨id, hid, hmentions⟩ := hv.mentions
    refine .value hid ?_
    induction hw with
    | refl => exact hmentions
    | tail _ hop ih => exact ih.operand hop
  refine ⟨fun w hw => hacyclic w (within hw), fun w x hw hx t ht => finiteType_of_met htypes ?_⟩
  unfold Arena.namedTypes at ht
  split at ht
  · contradiction
  · obtain ⟨q, hq, ht⟩ := List.mem_flatMap.mp ht
    exact (Met.ref (within hw) ⟨Arena.value_eq_ok.mp hx, rfl⟩ hq).namedBy ht

end ProgramFacts.Extraction
