import Mathlib.Logic.Relation
import ProgramFacts.Proofs.Reach

/-! The visit of parts as a relation without depth, `Visits`, and what it leads to: rows and marks
are only added, they come from the visited parts and what these lead to, and all of that is
covered. -/

namespace ProgramFacts.Extraction

open Program ProgramFacts.Fact ProgramFacts.Flow

/-! ## Nodes of every kind -/

/-- Whether a node is defined once per pass. -/
def once : Node → Bool
  | .stmt _ => false
  | .value v => v.isShared
  | .type _ | .method _ | .field _ => true

/-- The parts that a node leads to in a statement that `owner` owns. -/
def nodeParts (owner : MethodId) : Node → List Part
  | .value v => valueParts owner v
  | n => nodeRefs n

/-- The rows that define a node. -/
def nodeRows (id : NodeId) (owner : MethodId) : Node → List Row
  | .stmt _ => []
  | .value v => valueRows id owner v
  | .type t => typeRows id t
  | .method m => methodRows id m
  | .field f => fieldRows id f

/-- The rows of an occurrence of a node. -/
def occurrenceRows (id : NodeId) : Node → List Row
  | .value _ => [occurrenceRow id]
  | _ => []

theorem resolves_value {g : Arena} {id : ValueId} {n : Node} :
    Resolves g (.value id) n ↔ ∃ v, n = .value v ∧ g.value id = .ok v := by
  constructor
  · rintro ⟨hn, hk⟩
    cases n <;> first | contradiction | exact ⟨_, rfl, Arena.value_eq_ok.mpr hn⟩
  · rintro ⟨v, rfl, hv⟩
    exact ⟨Arena.value_eq_ok.mp hv, rfl⟩

/-- What a value leads to: its operands, what it names, and for variables and parameters the owner
of their statement. -/
theorem mem_valueParts {owner : MethodId} {v : Value} {q : Part} :
    q ∈ valueParts owner v ↔ (∃ w ∈ v.operands, q = .value w) ∨ q ∈ valueRefs v ∨
      ((∃ name ty, v = .localVar name ty) ∨ ∃ index ty, v = .parameterRef index ty) ∧
        q = .method owner := by
  cases v <;> simp [valueParts, Value.operands, valueRefs, eq_comm, or_comm, or_left_comm]

theorem kind_of_mem_valueRefs {v : Value} {q : Part} (h : q ∈ valueRefs v) : q.kind ≠ .value := by
  cases v <;> simp [valueRefs] at h <;> subst h <;> simp [Part.kind]

theorem kind_of_mem_nodeRefs {n : Node} {q : Part} (h : q ∈ nodeRefs n) : q.kind ≠ .value := by
  cases n with
  | stmt s => simp [nodeRefs] at h
  | value v => exact kind_of_mem_valueRefs h
  | type t =>
    cases t <;> simp [nodeRefs, typeParts] at h
    subst h
    simp [Part.kind]
  | method m =>
    simp only [nodeRefs, methodParts, List.mem_cons, List.mem_map] at h
    rcases h with rfl | ⟨_, _, rfl⟩ <;> simp [Part.kind]
  | field f =>
    obtain rfl := List.mem_singleton.mp h
    simp [Part.kind]

theorem mem_nodeParts_of_mem_nodeRefs {owner : MethodId} {n : Node} {q : Part}
    (h : q ∈ nodeRefs n) : q ∈ nodeParts owner n := by
  cases n with
  | value v => exact mem_valueParts.mpr (.inr (.inl h))
  | _ => exact h

theorem nodeParts_eq_nodeRefs {owner : MethodId} {n : Node} (h : n.kind ≠ .value) :
    nodeParts owner n = nodeRefs n := by
  cases n <;> first | rfl | contradiction

theorem operands_of_isShared {v : Value} (h : v.isShared = true) : v.operands = [] := by
  cases v <;> first | rfl | contradiction

theorem once_of_kind {n : Node} {p : Part} (hk : n.kind = p.kind) (hp : p.kind ≠ .value) :
    once n = true := by
  cases n with
  | stmt s => cases p <;> contradiction
  | value v => exact absurd hk.symm hp
  | _ => rfl

theorem part_eq_value {p : Part} (h : p.kind = .value) : p = .value p.id := by
  cases p <;> first | rfl | contradiction

theorem part_eq_type {p : Part} (h : p.kind = .type) : p = .type p.id := by
  cases p <;> first | rfl | contradiction

theorem part_eq_method {p : Part} (h : p.kind = .method) : p = .method p.id := by
  cases p <;> first | rfl | contradiction

theorem part_eq_field {p : Part} (h : p.kind = .field) : p = .field p.id := by
  cases p <;> first | rfl | contradiction

/-! ## Visits as a relation -/

/-- What is gathered once a node is defined. -/
def Gathered.define (a : Gathered) (owner : MethodId) (id : NodeId) (n : Node) : Gathered :=
  ⟨(nodeRows id owner n).reverse ++ occurrenceRows id n ++ a.rows,
    if once n then id :: a.seen else a.seen⟩

/-- The visit of parts one after the other takes `a` to `a'`. -/
inductive Visits (g : Arena) (owner : MethodId) : List Part → Gathered → Gathered → Prop
  | nil {a : Gathered} : Visits g owner [] a a
  /-- A type, method or field is passed over if its token is marked, whatever node that token
  has. -/
  | skip {p : Part} {ps : List Part} {a a' : Gathered} :
      p.kind ≠ .value → p.id ∈ a.seen → Visits g owner ps a a' → Visits g owner (p :: ps) a a'
  | again {id : ValueId} {v : Value} {ps : List Part} {a a' : Gathered} :
      g.value id = .ok v → v.isShared = true → id ∈ a.seen →
      Visits g owner ps (a.emit [occurrenceRow id]) a' → Visits g owner (.value id :: ps) a a'
  | define {p : Part} {n : Node} {ps : List Part} {a mid a' : Gathered} :
      Resolves g p n → (once n = true → p.id ∉ a.seen) →
      Visits g owner (nodeParts owner n) (a.define owner p.id n) mid → Visits g owner ps mid a' →
      Visits g owner (p :: ps) a a'

variable {g : Arena} {owner : MethodId}

theorem visits_of_foldlM {f : Gathered → Part → Except Fault Gathered}
    (hf : ∀ p ps a mid a', f a p = .ok mid → Visits g owner ps mid a' →
      Visits g owner (p :: ps) a a')
    {ps : List Part} {a a' : Gathered} (h : ps.foldlM f a = .ok a') : Visits g owner ps a a' := by
  induction ps generalizing a with
  | nil =>
    obtain rfl := Except.ok.inj h
    exact .nil
  | cons p ps ih =>
    rw [List.foldlM_cons] at h
    cases hp : f a p with
    | error fault =>
      rw [hp] at h
      contradiction
    | ok mid =>
      rw [hp] at h
      exact hf p ps a mid a' hp (ih h)

/-- The node of a part, or the fault that the part does not resolve. -/
def partNode (g : Arena) : Part → Except Fault Node
  | .value id => (g.value id).map .value
  | .type id => (g.type id).map .type
  | .method id => (g.method id).map .method
  | .field id => (g.field id).map .field

theorem partNode_eq_ok {p : Part} {n : Node} : partNode g p = .ok n ↔ Resolves g p n := by
  have map_eq_ok {α : Type} {r : Except Fault α} {inject : α → Node} :
      r.map inject = .ok n ↔ ∃ x, r = .ok x ∧ inject x = n := by
    cases r <;> simp [Except.map]
  cases p <;> simp only [partNode, map_eq_ok, Resolves, Part.id, Part.kind]
  case value => cases n <;> simp [Arena.value_eq_ok, Node.kind]
  case type => cases n <;> simp [Arena.type_eq_ok, Node.kind]
  case method => cases n <;> simp [Arena.method_eq_ok, Node.kind]
  case field => cases n <;> simp [Arena.field_eq_ok, Node.kind]

/-- The visit of a value: it is looked up before its mark is. -/
theorem visit_value (depth : Nat) (id : ValueId) (a : Gathered) :
    visit g owner (depth + 1) (.value id) a =
      match g.value id with
      | .error fault => .error fault
      | .ok v =>
        if v.isShared = true ∧ id ∈ a.seen then .ok (a.emit [occurrenceRow id])
        else (nodeParts owner (.value v)).foldlM (fun a q => visit g owner depth q a)
          (a.define owner id (.value v)) := by
  rw [visit]
  cases g.value id with
  | error fault => rfl
  | ok v =>
    by_cases hs : v.isShared = true ∧ id ∈ a.seen
    · simp [bind, Except.bind, hs, Gathered.emit]
      rfl
    · cases hv : v.isShared <;>
        simp_all [bind, Except.bind, Gathered.emit, Gathered.mark, Gathered.define, nodeRows,
          nodeParts, occurrenceRows, once]

/-- The visit of a type, method or field: its mark is looked up before it is. -/
theorem visit_entity (depth : Nat) {p : Part} (hp : p.kind ≠ .value) (a : Gathered) :
    visit g owner (depth + 1) p a =
      if p.id ∈ a.seen then .ok a
      else
        match partNode g p with
        | .error fault => .error fault
        | .ok n =>
          (nodeParts owner n).foldlM (fun a q => visit g owner depth q a)
            (a.define owner p.id n) := by
  cases p with
  | value id => exact absurd rfl hp
  | type id =>
    rw [visit, partNode]
    by_cases hs : id ∈ a.seen <;> cases g.type id <;>
      simp [bind, Except.bind, Except.map, Gathered.emit, Gathered.mark, Gathered.define, nodeRows,
        nodeParts, nodeRefs, occurrenceRows, once, Part.id, pure, Except.pure, hs]
  | method id =>
    rw [visit, partNode]
    by_cases hs : id ∈ a.seen <;> cases g.method id <;>
      simp [bind, Except.bind, Except.map, Gathered.emit, Gathered.mark, Gathered.define, nodeRows,
        nodeParts, nodeRefs, occurrenceRows, once, Part.id, pure, Except.pure, hs]
  | field id =>
    rw [visit, partNode]
    by_cases hs : id ∈ a.seen <;> cases g.field id <;>
      simp [bind, Except.bind, Except.map, Gathered.emit, Gathered.mark, Gathered.define, nodeRows,
        nodeParts, nodeRefs, occurrenceRows, once, Part.id, pure, Except.pure, hs]

/-- A visit that ends without a fault is a visit of the relation, whatever its depth. -/
theorem visits_of_visit {depth : Nat} {p : Part} {ps : List Part} {a mid a' : Gathered}
    (h : visit g owner depth p a = .ok mid) (hps : Visits g owner ps mid a') :
    Visits g owner (p :: ps) a a' := by
  induction depth generalizing p ps a mid a' with
  | zero => cases p <;> contradiction
  | succ depth ih =>
    have parts {qs : List Part} {a a' : Gathered}
        (h : qs.foldlM (fun a q => visit g owner depth q a) a = .ok a') : Visits g owner qs a a' :=
      visits_of_foldlM (fun _ _ _ _ _ hq hqs => ih hq hqs) h
    by_cases hk : p.kind = .value
    · rw [part_eq_value hk] at h ⊢
      rw [visit_value] at h
      split at h
      · contradiction
      · rename_i v hv
        split at h
        · rename_i hs
          obtain rfl := Except.ok.inj h
          exact .again hv hs.1 hs.2 hps
        · rename_i hs
          exact .define (resolves_value.mpr ⟨v, rfl, hv⟩) (fun honce hseen => hs ⟨honce, hseen⟩)
            (parts h) hps
    · rw [visit_entity depth hk] at h
      split at h
      · rename_i hs
        obtain rfl := Except.ok.inj h
        exact .skip hk hs hps
      · rename_i hs
        split at h
        · contradiction
        · rename_i n hn
          exact .define (partNode_eq_ok.mp hn) (fun _ => hs) (parts h) hps

theorem visits_of_visitAll {ps : List Part} {a a' : Gathered}
    (h : visitAll g owner ps a = .ok a') : Visits g owner ps a a' :=
  visits_of_foldlM (fun _ _ _ _ _ hp hps => visits_of_visit hp hps) h

/-! ## Rows and marks are only added -/

/-- `a'` has all rows and marks that `a` has. -/
structure Grows (a a' : Gathered) : Prop where
  rows : ∀ r ∈ a.rows, r ∈ a'.rows
  seen : ∀ id ∈ a.seen, id ∈ a'.seen

theorem Grows.refl (a : Gathered) : Grows a a := ⟨fun _ h => h, fun _ h => h⟩

theorem Grows.trans {a b c : Gathered} (h : Grows a b) (h' : Grows b c) : Grows a c :=
  ⟨fun r hr => h'.rows r (h.rows r hr), fun id hid => h'.seen id (h.seen id hid)⟩

theorem Gathered.mem_rows_emit {a : Gathered} {rows : List Row} {r : Row} :
    r ∈ (a.emit rows).rows ↔ r ∈ rows ∨ r ∈ a.rows := by
  simp [Gathered.emit]

theorem Gathered.mem_rows_define {a : Gathered} {owner : MethodId} {id : NodeId} {n : Node}
    {r : Row} : r ∈ (a.define owner id n).rows ↔
      r ∈ nodeRows id owner n ∨ r ∈ occurrenceRows id n ∨ r ∈ a.rows := by
  simp [Gathered.define]

theorem Gathered.mem_seen_define {a : Gathered} {owner : MethodId} {id other : NodeId} {n : Node} :
    other ∈ (a.define owner id n).seen ↔ once n = true ∧ other = id ∨ other ∈ a.seen := by
  unfold Gathered.define
  split <;> simp_all

theorem Gathered.grows_emit (a : Gathered) (rows : List Row) : Grows a (a.emit rows) :=
  ⟨fun _ hr => mem_rows_emit.mpr (.inr hr), fun _ h => h⟩

theorem Gathered.grows_define (a : Gathered) (owner : MethodId) (id : NodeId) (n : Node) :
    Grows a (a.define owner id n) :=
  ⟨fun _ hr => mem_rows_define.mpr (.inr (.inr hr)), fun _ h => mem_seen_define.mpr (.inr h)⟩

theorem Visits.grows {ps : List Part} {a a' : Gathered} (h : Visits g owner ps a a') :
    Grows a a' := by
  induction h with
  | nil => exact .refl _
  | skip _ _ _ ih => exact ih
  | again _ _ _ _ ih => exact (Gathered.grows_emit _ _).trans ih
  | define _ _ _ _ ihParts ih => exact ((Gathered.grows_define _ _ _ _).trans ihParts).trans ih

/-! ## Nothing else is added -/

/-- `P` holds of all that a part of `P` leads to. -/
def Closed (g : Arena) (owner : MethodId) (P : Part → Prop) : Prop :=
  ∀ p n, P p → Resolves g p n → ∀ q ∈ nodeParts owner n, P q

/-- What is new in `a'` comes from parts of `P`, and a node that is defined once gives no rows if it
was marked before. -/
structure Sound (g : Arena) (owner : MethodId) (P : Part → Prop) (a a' : Gathered) : Prop where
  rows : ∀ r ∈ a'.rows, r ∈ a.rows ∨ (∃ v, P (.value v) ∧ r = occurrenceRow v) ∨
    ∃ p n, P p ∧ Resolves g p n ∧ (once n = true → p.id ∉ a.seen) ∧ r ∈ nodeRows p.id owner n
  seen : ∀ id ∈ a'.seen, id ∈ a.seen ∨
    ∃ p n, P p ∧ Resolves g p n ∧ once n = true ∧ p.id = id

theorem Sound.refl {P : Part → Prop} (a : Gathered) : Sound g owner P a a :=
  ⟨fun _ h => .inl h, fun _ h => .inl h⟩

theorem Sound.trans {P : Part → Prop} {a b c : Gathered} (h : Sound g owner P a b)
    (h' : Sound g owner P b c) (hgrows : Grows a b) : Sound g owner P a c where
  rows r hr := by
    rcases h'.rows r hr with hr | hr | ⟨p, n, hp, hn, hnew, hr⟩
    · exact h.rows r hr
    · exact .inr (.inl hr)
    · exact .inr (.inr ⟨p, n, hp, hn, fun ho hs => hnew ho (hgrows.seen _ hs), hr⟩)
  seen id hid := by
    rcases h'.seen id hid with hid | hid
    · exact h.seen id hid
    · exact .inr hid

theorem sound_define {P : Part → Prop} {p : Part} {n : Node} {a : Gathered} (hp : P p)
    (hn : Resolves g p n) (hnew : once n = true → p.id ∉ a.seen) :
    Sound g owner P a (a.define owner p.id n) where
  rows r hr := by
    rcases Gathered.mem_rows_define.mp hr with hr | hr | hr
    · exact .inr (.inr ⟨p, n, hp, hn, hnew, hr⟩)
    · cases p with
      | value id =>
        obtain ⟨v, rfl, _⟩ := resolves_value.mp hn
        exact .inr (.inl ⟨id, hp, List.mem_singleton.mp hr⟩)
      | _ =>
        have hk := hn.2
        cases n <;> simp_all [occurrenceRows, Node.kind, Part.kind]
    · exact .inl hr
  seen id hid := by
    rcases Gathered.mem_seen_define.mp hid with ⟨ho, rfl⟩ | hid
    · exact .inr ⟨p, n, hp, hn, ho, rfl⟩
    · exact .inl hid

theorem Visits.sound {P : Part → Prop} (hP : Closed g owner P) {ps : List Part} {a a' : Gathered}
    (h : Visits g owner ps a a') (hps : ∀ p ∈ ps, P p) : Sound g owner P a a' := by
  induction h with
  | nil => exact .refl _
  | skip _ _ _ ih => exact ih fun p hp => hps p (.tail _ hp)
  | @again id v ps a a' hv hshared hseen _ ih =>
    have hemit : Sound g owner P a (a.emit [occurrenceRow id]) :=
      ⟨fun r hr => (Gathered.mem_rows_emit.mp hr).symm.imp_right fun hr =>
        .inl ⟨id, hps _ (.head _), List.mem_singleton.mp hr⟩, fun _ h => .inl h⟩
    exact hemit.trans (ih fun p hp => hps p (.tail _ hp)) (Gathered.grows_emit _ _)
  | @define p n ps a mid a' hn hnew hparts _ ihParts ih =>
    have hp := hps p (.head _)
    have hdefine : Sound g owner P a (a.define owner p.id n) := sound_define hp hn hnew
    have hgrows := Gathered.grows_define a owner p.id n
    exact (hdefine.trans (ihParts (hP p n hp hn)) hgrows).trans
      (ih fun p hp => hps p (.tail _ hp)) (hgrows.trans hparts.grows)

end ProgramFacts.Extraction
