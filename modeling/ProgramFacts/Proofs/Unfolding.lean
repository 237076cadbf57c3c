import ProgramFacts.Proofs.Visit

/-! The runs of a pass without a bound on their depth: what happens in them, in order, and how they
end.  A visit of parts is a relation `Expands` between the parts and the runs of their visit, which
looks nothing up in a node that is marked. -/

namespace ProgramFacts.Extraction

open Program ProgramFacts.Fact ProgramFacts.Flow

/-! ## Runs -/

/-- Where a statement that is emitted comes from: the registered statements or the stack. -/
inductive Origin
  | root
  | pending
deriving DecidableEq, Repr

/-- What happens in a pass: a statement is emitted, the node of a part is looked up for what it
refers to, or the statements of a stack are done, with what is left of the stack and the statements
that have begun. -/
inductive Event
  | emit (origin : Origin) (id : StmtId)
  | expand (p : Part)
  | rest (stack begun : List StmtId)
deriving DecidableEq, Repr

/-- The runs of a computation: what happens in each, in order, and how it ends. -/
def Runs (ε α : Type) : Type := List Event → Except ε α → Prop

namespace Runs

variable {ε ε' α β : Type}

/-- A computation in which nothing happens. -/
def done (r : Except ε α) : Runs ε α := fun events r' => events = [] ∧ r' = r

/-- A computation that comes after an event. -/
def after (e : Event) (x : Runs ε α) : Runs ε α := fun events r =>
  ∃ rest, events = e :: rest ∧ x rest r

/-- A computation that another one goes on with, unless it fails. -/
def bind (x : Runs ε α) (f : α → Runs ε β) : Runs ε β := fun events r =>
  (∃ fault, x events (.error fault) ∧ r = .error fault) ∨
    ∃ first a rest, x first (.ok a) ∧ f a rest r ∧ events = first ++ rest

/-- A computation whose faults are told in another way. -/
def mapError (f : ε → ε') (x : Runs ε α) : Runs ε' α := fun events r =>
  ∃ r', x events r' ∧ r = r'.mapError f

theorem ext {x y : Runs ε α} (h : ∀ events r, x events r ↔ y events r) : x = y :=
  funext fun events => funext fun r => propext (h events r)

/-- There is one run, and it ends with `r`. -/
def Exactly (x : Runs ε α) (r : Except ε α) : Prop :=
  ∃ events, ∀ events' r', x events' r' ↔ events' = events ∧ r' = r

theorem Exactly.eq {x : Runs ε α} {r : Except ε α} (h : x.Exactly r) {events : List Event}
    {r' : Except ε α} (hx : x events r') : r' = r := by
  obtain ⟨_, h⟩ := h
  exact ((h events r').mp hx).2

theorem Exactly.exists_run {x : Runs ε α} {r : Except ε α} (h : x.Exactly r) :
    ∃ events, x events r := by
  obtain ⟨events, h⟩ := h
  exact ⟨events, (h events r).mpr ⟨rfl, rfl⟩⟩

theorem exactly_done (r : Except ε α) : (done r).Exactly r := ⟨[], fun _ _ => Iff.rfl⟩

theorem Exactly.after {x : Runs ε α} {r : Except ε α} (h : x.Exactly r) (e : Event) :
    (after e x).Exactly r := by
  obtain ⟨events, h⟩ := h
  refine ⟨e :: events, fun events' r' => ?_⟩
  simp only [Runs.after, h]
  exact ⟨fun ⟨_, hevents, rfl, hr⟩ => ⟨hevents, hr⟩, fun ⟨hevents, hr⟩ => ⟨_, hevents, rfl, hr⟩⟩

theorem Exactly.mapError {x : Runs ε α} {r : Except ε α} (h : x.Exactly r) (f : ε → ε') :
    (x.mapError f).Exactly (r.mapError f) := by
  obtain ⟨events, h⟩ := h
  refine ⟨events, fun events' r' => ?_⟩
  simp only [Runs.mapError, h]
  exact ⟨fun ⟨_, ⟨hevents, rfl⟩, hr⟩ => ⟨hevents, hr⟩, fun ⟨hevents, hr⟩ => ⟨_, ⟨hevents, rfl⟩, hr⟩⟩

theorem Exactly.bind {x : Runs ε α} {r : Except ε α} (h : x.Exactly r) {f : α → Runs ε β}
    {k : α → Except ε β} (hf : ∀ a, r = .ok a → (f a).Exactly (k a)) :
    (x.bind f).Exactly (r >>= k) := by
  obtain ⟨first, h⟩ := h
  cases r with
  | error fault =>
    refine ⟨first, fun events r' => ⟨?_, fun ⟨hevents, hr⟩ => ?_⟩⟩
    · rintro (⟨fault', hx, rfl⟩ | ⟨_, a, _, hx, _⟩)
      · obtain ⟨hevents, hfault⟩ := (h ..).mp hx
        exact ⟨hevents, congrArg Except.error (Except.error.inj hfault)⟩
      · exact absurd ((h ..).mp hx).2 (by simp)
    · exact .inl ⟨fault, (h ..).mpr ⟨hevents, rfl⟩, hr⟩
  | ok a =>
    obtain ⟨rest, hf⟩ := hf a rfl
    refine ⟨first ++ rest, fun events r' => ⟨?_, fun ⟨hevents, hr⟩ => ?_⟩⟩
    · rintro (⟨fault, hx, _⟩ | ⟨first', a', rest', hx, hf', rfl⟩)
      · exact absurd ((h ..).mp hx).2 (by simp)
      · obtain ⟨rfl, ha⟩ := (h ..).mp hx
        obtain rfl := Except.ok.inj ha
        obtain ⟨rfl, hr⟩ := (hf ..).mp hf'
        exact ⟨rfl, hr⟩
    · exact .inr ⟨first, a, rest, (h ..).mpr ⟨rfl, rfl⟩, (hf ..).mpr ⟨rfl, hr⟩, hevents⟩

end Runs

/-! ## Visits of parts -/

variable {g : Arena} {owner : MethodId}

/-- What is gathered when a part is passed over, or else its node. -/
def enter (g : Arena) (a : Gathered) (p : Part) : Except Fault (Gathered ⊕ Node) :=
  if p.kind ≠ .value ∧ p.id ∈ a.seen then .ok (.inl a)
  else
    match partNode g p with
    | .error fault => .error fault
    | .ok n =>
      if once n = true ∧ p.id ∈ a.seen then .ok (.inl (a.emit (occurrenceRows p.id n)))
      else .ok (.inr n)

theorem enter_eq_inr {a : Gathered} {p : Part} {n : Node} (h : enter g a p = .ok (.inr n)) :
    Resolves g p n ∧ (once n = true → p.id ∉ a.seen) := by
  unfold enter at h
  split at h
  · simp at h
  · split at h
    · contradiction
    · rename_i n' hn
      split at h
      · simp at h
      · rename_i hs
        obtain rfl : n' = n := by simpa using h
        exact ⟨partNode_eq_ok.mp hn, fun honce hseen => hs ⟨honce, hseen⟩⟩

/-- A part is passed over only with a mark, and it does not get another one. -/
theorem seen_of_enter_eq_inl {a a' : Gathered} {p : Part} (h : enter g a p = .ok (.inl a')) :
    a'.seen = a.seen := by
  unfold enter at h
  split at h
  · simp_all
  · split at h
    · contradiction
    · split at h
      · obtain rfl : a.emit _ = a' := by simpa using h
        rfl
      · simp at h

/-- A fault is not at a type, method or field that is marked. -/
theorem enter_eq_error {a : Gathered} {p : Part} {fault : Fault} (h : enter g a p = .error fault) :
    partNode g p = .error fault ∧ (p.kind ≠ .value → p.id ∉ a.seen) := by
  unfold enter at h
  split at h
  · contradiction
  · rename_i hs
    split at h
    · rename_i fault' hn
      obtain rfl : fault' = fault := Except.error.inj h
      exact ⟨hn, fun hk hseen => hs ⟨hk, hseen⟩⟩
    · split at h <;> contradiction

theorem visit_succ (depth : Nat) (p : Part) (a : Gathered) :
    visit g owner (depth + 1) p a =
      match enter g a p with
      | .error fault => .error fault
      | .ok (.inl a') => .ok a'
      | .ok (.inr n) =>
        (nodeParts owner n).foldlM (fun a q => visit g owner depth q a)
          (a.define owner p.id n) := by
  unfold enter
  by_cases hk : p.kind = .value
  · obtain ⟨id, rfl⟩ : ∃ id, p = .value id := ⟨_, part_eq_value hk⟩
    rw [visit_value, partNode]
    cases g.value id with
    | error fault => simp [Part.kind, Except.map]
    | ok v =>
      by_cases hs : v.isShared = true ∧ id ∈ a.seen
      · simp [Part.kind, Part.id, Except.map, once, occurrenceRows, hs]
      · simp [Part.kind, Part.id, Except.map, once, hs]
  · rw [visit_entity depth hk]
    by_cases hs : p.id ∈ a.seen
    · simp [hk, hs]
    · cases partNode g p <;> simp [hs]

/-- The visit of parts one after the other: the node of each part that is not passed over is defined
and what it leads to is visited before the next part is. -/
inductive Expands (g : Arena) (owner : MethodId) : List Part → Gathered → Runs Fault Gathered
  | nil {a : Gathered} : Expands g owner [] a [] (.ok a)
  | skip {p : Part} {ps : List Part} {a a' : Gathered} {events : List Event}
      {r : Except Fault Gathered} :
      enter g a p = .ok (.inl a') → Expands g owner ps a' events r →
      Expands g owner (p :: ps) a events r
  | lost {p : Part} {ps : List Part} {a : Gathered} {fault : Fault} :
      enter g a p = .error fault → Expands g owner (p :: ps) a [.expand p] (.error fault)
  | within {p : Part} {ps : List Part} {a : Gathered} {n : Node} {events : List Event}
      {fault : Fault} :
      enter g a p = .ok (.inr n) →
      Expands g owner (nodeParts owner n) (a.define owner p.id n) events (.error fault) →
      Expands g owner (p :: ps) a (.expand p :: events) (.error fault)
  | define {p : Part} {ps : List Part} {a mid : Gathered} {n : Node}
      {events events' : List Event} {r : Except Fault Gathered} :
      enter g a p = .ok (.inr n) →
      Expands g owner (nodeParts owner n) (a.define owner p.id n) events (.ok mid) →
      Expands g owner ps mid events' r →
      Expands g owner (p :: ps) a (.expand p :: events ++ events') r

/-- The visit of one part. -/
def expansion (g : Arena) (owner : MethodId) (p : Part) (a : Gathered) : Runs Fault Gathered :=
  match enter g a p with
  | .error fault => .after (.expand p) (.done (.error fault))
  | .ok (.inl a') => .done (.ok a')
  | .ok (.inr n) =>
    .after (.expand p) (Expands g owner (nodeParts owner n) (a.define owner p.id n))

theorem expands_nil (a : Gathered) : Expands g owner [] a = .done (.ok a) := by
  refine Runs.ext fun events r => ⟨fun h => ?_, fun ⟨hevents, hr⟩ => ?_⟩
  · cases h
    exact ⟨rfl, rfl⟩
  · subst hevents hr
    exact .nil

theorem expands_cons (p : Part) (ps : List Part) (a : Gathered) :
    Expands g owner (p :: ps) a = (expansion g owner p a).bind (Expands g owner ps) := by
  refine Runs.ext fun events r => ⟨fun h => ?_, fun h => ?_⟩
  · unfold expansion
    cases h with
    | skip he h =>
      rw [he]
      exact .inr ⟨[], _, _, ⟨rfl, rfl⟩, h, rfl⟩
    | lost he =>
      rw [he]
      exact .inl ⟨_, ⟨[], rfl, rfl, rfl⟩, rfl⟩
    | within he h =>
      rw [he]
      exact .inl ⟨_, ⟨_, rfl, h⟩, rfl⟩
    | define he h h' =>
      rw [he]
      exact .inr ⟨_, _, _, ⟨_, rfl, h⟩, h', rfl⟩
  · unfold expansion at h
    split at h
    · rename_i he
      rcases h with ⟨_, ⟨_, rfl, rfl, hr⟩, rfl⟩ | ⟨_, _, _, ⟨_, _, _, hr⟩, _⟩
      · obtain rfl := Except.error.inj hr
        exact .lost he
      · contradiction
    · rename_i he
      rcases h with ⟨_, ⟨_, hr⟩, _⟩ | ⟨_, _, _, ⟨rfl, hr⟩, h, rfl⟩
      · contradiction
      · obtain rfl := Except.ok.inj hr
        exact .skip he h
    · rename_i he
      rcases h with ⟨_, ⟨_, rfl, h⟩, rfl⟩ | ⟨_, _, _, ⟨_, rfl, h⟩, h', rfl⟩
      · exact .within he h
      · exact .define he h h'

end ProgramFacts.Extraction
