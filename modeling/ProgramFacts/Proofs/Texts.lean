import ProgramFacts.Proofs.Likeness
import ProgramFacts.Proofs.Relevance
import ProgramFacts.Proofs.Rendering

/-! Arenas that hold the same program show the same texts: of types, methods and fields, since these
are common, and of values and statements, since their operands stand for the same values.  Where one
of them shows no text, neither does the other. -/

namespace ProgramFacts.Mutation

open Program ProgramFacts.Flow Extraction

variable {g₁ g₂ : Arena} {c : FlowGraph} {L : NodeKind → NodeId → Prop}

/-! ## Types, methods and fields -/

theorem typeText?_eq_of_depths {t₁ t₂ : TypeId}
    (h : ∀ depth, g₁.typeTextWithin? depth t₁ = g₂.typeTextWithin? depth t₂) :
    g₁.typeText? t₁ = g₂.typeText? t₂ :=
  Option.ext fun s => by simp only [Arena.typeText?_eq_some_iff, h]

/-- Arenas with the same node, or none, at each type, method and field of `P`, which has all that
these name. -/
structure SameNames (g₁ g₂ : Arena) (P : Part → Prop) : Prop where
  node : ∀ {p}, P p → p.kind ≠ .value → g₁.node? p.id = g₂.node? p.id
  refs : ∀ {p n}, P p → Resolves g₁ p n → ∀ q ∈ nodeRefs n, P q

namespace SameNames

variable {P : Part → Prop} (h : SameNames g₁ g₂ P)
include h

theorem typeTextWithin? (depth : Nat) {id : TypeId} (hid : P (.type id)) :
    g₁.typeTextWithin? depth id = g₂.typeTextWithin? depth id := by
  induction depth generalizing id with
  | zero => rfl
  | succ depth ih =>
    have hnode : g₁.node? id = g₂.node? id := h.node hid (by simp [Part.kind])
    unfold Arena.typeTextWithin?
    rcases ok_or_error_of_mapError (type_congr hnode) with
      ⟨t, ht₁, ht₂⟩ | ⟨_, _, ht₁, ht₂, _⟩
    · have hrefs := h.refs hid ⟨Arena.type_eq_ok.mp ht₁, rfl⟩
      simp only [ht₁, ht₂]
      cases t with
      | array element => exact congrArg (Option.map (· ++ "[]")) (ih (hrefs _ (.head _)))
      | _ => rfl
    · simp only [ht₁, ht₂]

theorem typeText? {id : TypeId} (hid : P (.type id)) : g₁.typeText? id = g₂.typeText? id :=
  typeText?_eq_of_depths fun depth => h.typeTextWithin? depth hid

theorem methodText? {id : MethodId} (hid : P (.method id)) :
    g₁.methodText? id = g₂.methodText? id := by
  have hnode : g₁.node? id = g₂.node? id := h.node hid (by simp [Part.kind])
  unfold Arena.methodText?
  rcases ok_or_error_of_mapError (method_congr hnode) with
    ⟨m, hm₁, hm₂⟩ | ⟨_, _, hm₁, hm₂, _⟩
  · have hrefs := h.refs hid ⟨Arena.method_eq_ok.mp hm₁, rfl⟩
    have hresult : g₁.typeText? m.returnType = g₂.typeText? m.returnType :=
      h.typeText? (hrefs _ (.head _))
    have hparameters : m.parameterTypes.mapM g₁.typeText? = m.parameterTypes.mapM g₂.typeText? :=
      Arena.mapM_congr (List.forall₂_same.mpr fun t ht =>
        h.typeText? (hrefs _ (.tail _ (List.mem_map_of_mem ht))))
    simp only [hm₁, hm₂, hresult, hparameters]
  · simp only [hm₁, hm₂]

theorem fieldText? {id : FieldId} (hid : P (.field id)) : g₁.fieldText? id = g₂.fieldText? id := by
  have hnode : g₁.node? id = g₂.node? id := h.node hid (by simp [Part.kind])
  unfold Arena.fieldText?
  rcases ok_or_error_of_mapError (field_congr hnode) with
    ⟨f, hf₁, hf₂⟩ | ⟨_, _, hf₁, hf₂, _⟩
  · have hty : g₁.typeText? f.ty = g₂.typeText? f.ty :=
      h.typeText? (h.refs hid ⟨Arena.field_eq_ok.mp hf₁, rfl⟩ _ (.head _))
    simp only [hf₁, hf₂, hty]
  · simp only [hf₁, hf₂]

/-- Values that differ in operands only have the same text if the operands have the same texts. -/
theorem valueTextWith? {x : Value} {f : Nat → ValueId → ValueId}
    {text₁ text₂ : ValueId → Option String} (hrefs : ∀ q ∈ valueRefs x, P q)
    (hops : List.Forall₂ (fun w₁ w₂ => text₁ w₁ = text₂ w₂) x.operands
      (x.mapOperands f).operands) :
    g₁.valueTextWith? text₁ x = g₂.valueTextWith? text₂ (x.mapOperands f) :=
  Arena.valueTextWith?_mapOperands (fun _ hty => h.typeText? (hrefs _ hty))
    (fun _ hm => h.methodText? (hrefs _ hm)) (fun _ hd => h.fieldText? (hrefs _ hd)) hops

end SameNames

/-! ## Values -/

theorem valueText?_eq_of_depths {v₁ v₂ : ValueId}
    (h : ∀ depth, g₁.valueTextWithin? depth v₁ = g₂.valueTextWithin? depth v₂) :
    g₁.valueText? v₁ = g₂.valueText? v₂ :=
  Option.ext fun s => by simp only [Arena.valueText?_eq_some_iff, h]

section Common

variable (h : Alike g₁ g₂ L)
include h

theorem Alike.sameNames : SameNames g₁ g₂ fun p => L p.kind p.id := by
  have hentity {p : Part} (hp : L p.kind p.id) (hk : p.kind ≠ .value) :=
    h.entity hp (by cases p <;> simp [Part.kind]) hk
  constructor
  · intro p hp hk
    obtain ⟨n, hn₁, hn₂, _⟩ := hentity hp hk
    exact hn₁.trans hn₂.symm
  · intro p n hp hn
    obtain ⟨n₁, n₂, hn₁, _, _, hc⟩ := h.node hp
    obtain rfl := Option.some.inj (hn.1.symm.trans hn₁)
    exact hc.refs

theorem Alike.valueTextWithin? (depth : Nat) {v₁ v₂ : ValueId} (hv : SameOperand g₁ g₂ L v₁ v₂) :
    g₁.valueTextWithin? depth v₁ = g₂.valueTextWithin? depth v₂ := by
  induction depth generalizing v₁ v₂ with
  | zero => rfl
  | succ depth ih =>
    obtain ⟨x, f, hx₁, hx₂, hops, hrefs, _⟩ := hv.value h
    simp only [Arena.valueTextWithin?, hx₁, hx₂]
    exact h.sameNames.valueTextWith? hrefs (hops.imp fun _ _ hw => ih hw)

theorem Alike.valueText? {v₁ v₂ : ValueId} (hv : SameOperand g₁ g₂ L v₁ v₂) :
    g₁.valueText? v₁ = g₂.valueText? v₂ :=
  valueText?_eq_of_depths fun depth => h.valueTextWithin? depth hv

/-! ## Statements -/

omit h in
theorem stmtText?_mapOperands {id : StmtId} {s : Stmt} {f : Nat → ValueId → ValueId}
    (hs₁ : g₁.stmt id = .ok s) (hs₂ : g₂.stmt id = .ok (s.mapOperands f))
    (hops : List.Forall₂ (fun v₁ v₂ => g₁.valueText? v₁ = g₂.valueText? v₂) s.operands
      (s.mapOperands f).operands)
    (hlabels : ∀ v ∈ s.labels, g₁.valueText? v = g₂.valueText? v) :
    g₁.stmtText? id = g₂.stmtText? id := by
  unfold Arena.stmtText?
  rw [hs₁, hs₂]
  cases s with
  | lookupSwitch key labels targets default =>
    have hkey : g₁.valueText? key = g₂.valueText? (f 0 key) := (List.forall₂_cons.mp hops).1
    have htexts : labels.mapM g₁.valueText? = labels.mapM g₂.valueText? :=
      Arena.mapM_congr (List.forall₂_same.mpr hlabels)
    simp only [Stmt.mapOperands, hkey, htexts]
  | _ => simp_all [Stmt.mapOperands, Stmt.operands]

theorem Alike.stmtText? {id : StmtId} (hid : L .stmt id) : g₁.stmtText? id = g₂.stmtText? id := by
  obtain ⟨s₁, s₂, hs₁, hs₂, hc⟩ := h.stmt hid
  obtain ⟨f, hmap⟩ := hc.exists_map
  obtain rfl := Node.stmt.inj hmap
  exact stmtText?_mapOperands hs₁ hs₂ (hc.operands.imp fun _ _ hv => h.valueText? hv)
    fun v hv => h.valueText? (.common (hc.labels v hv))

end Common

/-! ## Arenas that agree on what is relevant -/

section Agreement

variable (hsame : ∀ id, Relevant g₁ c id → g₁.node? id = g₂.node? id)
include hsame

theorem sameNames_of_relevant : SameNames g₁ g₂ fun p => Relevant g₁ c p.id where
  node hp _ := hsame _ hp
  refs hp hn _ hq := hp.ref hn.1 hq

theorem valueTextWithin?_of_relevant (depth : Nat) {v : ValueId} (hv : Relevant g₁ c v) :
    g₁.valueTextWithin? depth v = g₂.valueTextWithin? depth v := by
  induction depth generalizing v with
  | zero => rfl
  | succ depth ih =>
    unfold Arena.valueTextWithin?
    rcases ok_or_error_of_mapError (value_congr (hsame v hv)) with
      ⟨x, hx₁, hx₂⟩ | ⟨_, _, hx₁, hx₂, _⟩
    · have hn := Arena.value_eq_ok.mp hx₁
      have hops : List.Forall₂ (fun w₁ w₂ => g₁.valueTextWithin? depth w₁ =
          g₂.valueTextWithin? depth w₂) x.operands (x.mapOperands fun _ w => w).operands := by
        rw [x.mapOperands_id]
        exact List.forall₂_same.mpr fun w hw => ih (hv.operand hn hw)
      have htext := (sameNames_of_relevant hsame).valueTextWith? (fun _ hq => hv.ref hn hq) hops
      rw [x.mapOperands_id] at htext
      simp only [hx₁, hx₂, htext]
    · simp only [hx₁, hx₂]

theorem valueText?_of_relevant {v : ValueId} (hv : Relevant g₁ c v) :
    g₁.valueText? v = g₂.valueText? v :=
  valueText?_eq_of_depths fun depth => valueTextWithin?_of_relevant hsame depth hv

end Agreement

end ProgramFacts.Mutation
