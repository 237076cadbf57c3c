import Mathlib.Data.List.Induction
import ProgramFacts.Proofs.Slots

/-! The identity of nodes along any sequence of writes to an arena, failing ones among them.  A
token that was given once resolves ever after, and to the same kind of node.  The first `2 ^ 32`
allocations give tokens of their own, which resolve to the nodes that were added.  Every later one
gives a token that was given before, and which still resolves to what it did before. -/

namespace ProgramFacts.Program

/-- An operation that writes to an arena. -/
inductive Write
  | alloc (n : Node)
  | replaceSlot (s : Slot) (v : ValueId)
  | overwriteValue (id : ValueId) (v : Value)
  | overwrite (id : NodeId) (n : Node)
deriving DecidableEq, Repr

namespace Write

/-- The arena that a write makes, or why it fails. -/
def result (g : Arena) : Write → Except Fault Arena
  | alloc n => .ok (g.alloc n).2
  | replaceSlot s v => (g.replaceSlot s v).map Prod.snd
  | overwriteValue id v => (g.overwriteValue id v).map Prod.snd
  | overwrite id n => g.overwrite id n

/-- The arena after a write: one that fails leaves it as it is. -/
def apply (g : Arena) (w : Write) : Arena :=
  match w.result g with
  | .ok g' => g'
  | .error _ => g

def isAlloc : Write → Bool
  | alloc _ => true
  | replaceSlot .. | overwriteValue .. | overwrite .. => false

end Write

namespace Arena

/-- The kind of the node that a token resolves to. -/
def kind? (g : Arena) (id : NodeId) : Option NodeKind := (g.node? id).map Node.kind

/-- The arena that writes lead to from the empty one, in order. -/
def after (ws : List Write) : Arena := ws.foldl Write.apply .empty

/-- One of the writes has added a node and given its token. -/
def Given (ws : List Write) (id : NodeId) : Prop :=
  ∃ before n, before ++ [.alloc n] <+: ws ∧ id = ((after before).alloc n).1

/-- Tokens identify nodes along the writes: each token that is given is new and resolves at once to
the node that was added, and later writes keep it resolving, to the same kind of node. -/
structure Identifying (ws : List Write) : Prop where
  fresh : ∀ before n, before ++ [.alloc n] <+: ws → ¬Given before ((after before).alloc n).1
  stored : ∀ before n, before ++ [.alloc n] <+: ws →
    (after (before ++ [.alloc n])).node? ((after before).alloc n).1 = some n
  lasting : ∀ before more, before ++ more <+: ws → ∀ id, Given before id →
    ∃ kind, (after before).kind? id = some kind ∧ (after (before ++ more)).kind? id = some kind

variable {g g' : Arena} {ws : List Write} {w : Write} {id : NodeId}

/-! ## One write -/

/-- What a write makes of an arena: it adds a node, or puts one in the place of another of the same
kind, or does nothing. -/
inductive Written (g : Arena) : Write → Arena → Prop
  | allocated (n : Node) : Written g (.alloc n) (g.alloc n).2
  | put {w : Write} {id : NodeId} {n n' : Node} :
      w.isAlloc = false → g.node? id = some n → n'.kind = n.kind → Written g w (g.put id n')
  | failed {w : Write} : w.isAlloc = false → Written g w g

theorem overwrite_eq_ok {n : Node} (h : g.overwrite id n = .ok g') :
    ∃ old, g.node? id = some old ∧ n.kind = old.kind ∧ g' = g.put id n := by
  unfold overwrite node at h
  cases hold : g.node? id with
  | none => simp [hold, bind, Except.bind] at h
  | some old =>
    by_cases hkind : old.kind = n.kind
    · simp only [hold, bind, Except.bind, if_pos hkind] at h
      exact ⟨old, rfl, hkind.symm, (Except.ok.inj h).symm⟩
    · simp [hold, bind, Except.bind, hkind] at h

/-- Every write does one of these; an allocation always adds its node. -/
theorem written_apply (g : Arena) (w : Write) : Written g w (w.apply g) := by
  unfold Write.apply
  cases w with
  | alloc n => exact .allocated n
  | replaceSlot s v =>
    cases h : g.replaceSlot s v with
    | error fault => simpa [Write.result, h, Except.map] using Written.failed rfl
    | ok r =>
      obtain ⟨n, hn, hg'⟩ := replaceSlot_eq_ok h
      simpa [Write.result, h, Except.map, hg'] using .put rfl hn (n.kind_setOperand s.index v)
  | overwriteValue id v =>
    cases h : g.overwriteValue id v with
    | error fault => simpa [Write.result, h, Except.map] using Written.failed rfl
    | ok r =>
      obtain ⟨⟨x, hx⟩, hg'⟩ := overwriteValue_eq_ok h
      simpa [Write.result, h, Except.map, hg'] using .put rfl (value_eq_ok.mp hx) rfl
  | overwrite id n =>
    cases h : g.overwrite id n with
    | error fault => simpa [Write.result, h] using Written.failed rfl
    | ok g' =>
      obtain ⟨old, hold, hkind, rfl⟩ := overwrite_eq_ok h
      simpa [Write.result, h] using .put rfl hold hkind

theorem Written.size_eq (h : Written g w g') :
    g'.size = g.size + if w.isAlloc then 1 else 0 := by
  cases h with
  | allocated n => simp [Write.isAlloc]
  | put hw => simp [hw]
  | failed hw => simp [hw]

/-- A write keeps the kind of every node that is there. -/
theorem Written.kind?_eq (h : Written g w g') (hid : id.index < g.size) :
    g'.kind? id = g.kind? id := by
  unfold kind?
  cases h with
  | allocated n => rw [node?_alloc_ne (Nat.ne_of_lt hid)]
  | @put _ other n n' _ hn hkind =>
    by_cases heq : id = other
    · rw [heq, node?_put_same (index_lt_of_node? hn), hn]
      exact congrArg some hkind
    · rw [node?_put_ne heq]
  | failed => rfl

/-! ## Sequences of writes -/

theorem after_concat (ws : List Write) (w : Write) : after (ws ++ [w]) = w.apply (after ws) :=
  List.foldl_append ..

/-- An arena has one node for each allocation. -/
theorem size_after (ws : List Write) : (after ws).size = ws.countP Write.isAlloc := by
  induction ws using List.reverseRecOn with
  | nil => rfl
  | append_singleton ws w ih =>
    rw [after_concat, (written_apply _ w).size_eq, ih, List.countP_append, List.countP_singleton]

theorem given_concat : Given (ws ++ [w]) id ↔
    Given ws id ∨ ∃ n, w = .alloc n ∧ id = ((after ws).alloc n).1 := by
  unfold Given
  simp only [List.prefix_concat_iff]
  constructor
  · rintro ⟨before, n, heq | hbefore, hid⟩
    · obtain ⟨rfl, hw⟩ := List.append_inj' heq rfl
      exact .inr ⟨n, (List.head_eq_of_cons_eq hw).symm, hid⟩
    · exact .inl ⟨before, n, hbefore, hid⟩
  · rintro (⟨before, n, hbefore, hid⟩ | ⟨n, rfl, hid⟩)
    · exact ⟨before, n, .inr hbefore, hid⟩
    · exact ⟨ws, n, .inl rfl, hid⟩

/-- The token of a position is one of an earlier position exactly if positions have used up the
tokens. -/
theorem index_ofIndex_lt_iff {i : Nat} : (NodeId.ofIndex i).index < i ↔ UInt32.size ≤ i := by
  constructor
  · intro hlt
    by_contra hi
    exact Nat.ne_of_lt hlt (NodeId.index_ofIndex (Nat.lt_of_not_le hi))
  · exact Nat.lt_of_lt_of_le (NodeId.index_lt _)

theorem index_ofIndex_le (i : Nat) : (NodeId.ofIndex i).index ≤ i := by
  by_cases hi : i < UInt32.size
  · exact Nat.le_of_eq (NodeId.index_ofIndex hi)
  · exact Nat.le_of_lt (index_ofIndex_lt_iff.mpr (Nat.le_of_not_lt hi))

/-- The tokens that were given are those that resolve. -/
theorem given_iff : Given ws id ↔ id.index < (after ws).size := by
  induction ws using List.reverseRecOn with
  | nil => simp [Given, after, empty, size]
  | append_singleton ws w ih =>
    rw [given_concat, ih, after_concat, (written_apply _ w).size_eq]
    cases w with
    | alloc n =>
      simp only [Write.alloc.injEq, exists_eq_left', Write.isAlloc, if_pos, alloc]
      constructor
      · rintro (hid | rfl)
        · exact Nat.lt_succ_of_lt hid
        · exact Nat.lt_succ_of_le (index_ofIndex_le _)
      · intro hid
        rcases Nat.lt_succ_iff_lt_or_eq.mp hid with hid | hid
        · exact .inl hid
        · exact .inr (by rw [← hid, NodeId.ofIndex_index])
    | _ => simp [Write.isAlloc]

/-- A token that was given once resolves ever after, to the same kind of node. -/
theorem kind?_after_append (h : Given ws id) (more : List Write) :
    (after (ws ++ more)).kind? id = (after ws).kind? id := by
  induction more using List.reverseRecOn with
  | nil => rw [List.append_nil]
  | append_singleton more w ih =>
    have hid : id.index < (after (ws ++ more)).size := by
      have := given_iff.mp h
      rw [size_after] at this ⊢
      rw [List.countP_append]
      omega
    rw [← List.append_assoc, after_concat, (written_apply _ w).kind?_eq hid, ih]

theorem exists_kind?_of_given (h : Given ws id) : ∃ kind, (after ws).kind? id = some kind := by
  have hnode := Array.getElem?_eq_getElem (given_iff.mp h)
  exact ⟨_, congrArg (Option.map Node.kind) hnode⟩

/-! ## Running out of tokens -/

/-- The next token has been given before exactly if there have been as many allocations as there are
tokens. -/
theorem given_alloc_iff (n : Node) :
    Given ws ((after ws).alloc n).1 ↔ UInt32.size ≤ ws.countP Write.isAlloc := by
  rw [given_iff, ← size_after]
  exact index_ofIndex_lt_iff

theorem node?_after_alloc (h : ws.countP Write.isAlloc < UInt32.size) (n : Node) :
    (after (ws ++ [.alloc n])).node? ((after ws).alloc n).1 = some n := by
  rw [after_concat]
  exact node?_alloc_same (by rwa [size_after]) n

/-- A node that is added when the tokens have run out is not to be found. -/
theorem node?_after_alloc_of_le (h : UInt32.size ≤ ws.countP Write.isAlloc) (n : Node)
    (id : NodeId) : (after (ws ++ [.alloc n])).node? id = (after ws).node? id := by
  rw [after_concat]
  refine node?_alloc_ne (Nat.ne_of_lt ?_) n
  rw [size_after]
  exact Nat.lt_of_lt_of_le id.index_lt h

/-- Before each allocation but the first there were fewer, one by one. -/
theorem exists_alloc_of_lt {k : Nat} (h : k < ws.countP Write.isAlloc) :
    ∃ before n, before ++ [.alloc n] <+: ws ∧ before.countP Write.isAlloc = k := by
  induction ws using List.reverseRecOn with
  | nil => simp at h
  | append_singleton ws w ih =>
    by_cases hk : k < ws.countP Write.isAlloc
    · obtain ⟨before, n, hbefore, hcount⟩ := ih hk
      exact ⟨before, n, hbefore.trans (List.prefix_append ws [w]), hcount⟩
    · rw [List.countP_append, List.countP_singleton] at h
      cases w with
      | alloc n =>
        simp only [Write.isAlloc, if_pos] at h
        exact ⟨ws, n, List.prefix_rfl, by omega⟩
      | _ =>
        simp only [Write.isAlloc] at h
        exact absurd h hk

theorem countP_before_lt {before : List Write} {n : Node} (h : before ++ [.alloc n] <+: ws) :
    before.countP Write.isAlloc < ws.countP Write.isAlloc := by
  have hle := h.sublist.countP_le (p := Write.isAlloc)
  rw [List.countP_append, List.countP_singleton] at hle
  exact hle

theorem identifying_iff : Identifying ws ↔ ws.countP Write.isAlloc ≤ UInt32.size := by
  constructor
  · intro h
    by_contra hmany
    obtain ⟨before, n, hbefore, hcount⟩ := exists_alloc_of_lt (Nat.lt_of_not_le hmany)
    exact h.fresh before n hbefore ((given_alloc_iff n).mpr (Nat.le_of_eq hcount.symm))
  · intro hfew
    have hlt {before : List Write} {n : Node} (h : before ++ [.alloc n] <+: ws) :
        before.countP Write.isAlloc < UInt32.size :=
      Nat.lt_of_lt_of_le (countP_before_lt h) hfew
    refine ⟨fun before n h hgiven => ?_, fun before n h => node?_after_alloc (hlt h) n,
      fun before more _ id hid => ?_⟩
    · exact absurd ((given_alloc_iff n).mp hgiven) (Nat.not_le_of_lt (hlt h))
    · obtain ⟨kind, hkind⟩ := exists_kind?_of_given hid
      exact ⟨kind, hkind, (kind?_after_append hid more).trans hkind⟩

/-- Tokens identify nodes along a sequence of writes exactly if it has at most `2 ^ 32` allocations.
Whatever their number, a token that was given resolves ever after, to one kind of node.  But once
there were `2 ^ 32` allocations, each further one gives a token that was given before, and every
token resolves to what it did before. -/
theorem tokens_identify_iff (ws : List Write) :
    (Identifying ws ↔ ws.countP Write.isAlloc ≤ UInt32.size) ∧
    (∀ id, Given ws id → ∃ kind, ∀ more, (after (ws ++ more)).kind? id = some kind) ∧
    (UInt32.size ≤ ws.countP Write.isAlloc → ∀ n, Given ws ((after ws).alloc n).1 ∧
      ∀ id, (after (ws ++ [.alloc n])).node? id = (after ws).node? id) := by
  refine ⟨identifying_iff, fun id hid => ?_, fun hfull n => ?_⟩
  · obtain ⟨kind, hkind⟩ := exists_kind?_of_given hid
    exact ⟨kind, fun more => (kind?_after_append hid more).trans hkind⟩
  · exact ⟨(given_alloc_iff n).mpr hfull, node?_after_alloc_of_le hfull n⟩

/-- The nodes of a run of allocations of one node. -/
theorem nodes_after_replicate (k : Nat) (n : Node) :
    (after (List.replicate k (.alloc n))).nodes = Array.replicate k n := by
  induction k with
  | zero => rfl
  | succ k ih =>
    rw [List.replicate_succ', after_concat, Array.replicate_succ, ← ih]
    rfl

/-- Allocations of that many constants. -/
def constants (count : Nat) : List Write :=
  List.replicate count (.alloc (.value (.intConst 1)))

theorem countP_constants (count : Nat) : (constants count).countP Write.isAlloc = count :=
  List.countP_replicate.trans (if_pos rfl)

/-- With as many constants as there are tokens, one more gets the token of the first, and the token
still resolves to the first. -/
theorem not_identifying_constants :
    let ws := constants UInt32.size
    ¬Identifying (ws ++ [.alloc (.value (.intConst 2))]) ∧
      Given ws ⟨0⟩ ∧ ((after ws).alloc (.value (.intConst 2))).1 = ⟨0⟩ ∧
      (after (ws ++ [.alloc (.value (.intConst 2))])).value ⟨0⟩ = .ok (.intConst 1) := by
  intro ws
  have hcount : ws.countP Write.isAlloc = UInt32.size := countP_constants _
  have hsize : (after ws).size = UInt32.size := (size_after ws).trans hcount
  refine ⟨fun h => ?_, given_iff.mpr ?_, ?_, value_eq_ok.mpr ?_⟩
  · have hfew := identifying_iff.mp h
    rw [List.countP_append, hcount] at hfew
    exact Nat.not_succ_le_self _ hfew
  · rw [hsize]
    decide
  · show NodeId.ofIndex (after ws).size = ⟨0⟩
    rw [hsize]
    rfl
  · rw [node?_after_alloc_of_le (Nat.le_of_eq hcount.symm), node?,
      show (after ws).nodes = _ from nodes_after_replicate ..]
    exact Array.getElem?_replicate.trans (if_pos (by decide))

end Arena

end ProgramFacts.Program
