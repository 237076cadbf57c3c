import Mathlib.Data.Set.Card
import ProgramFacts.Proofs.Lenses

/-! Reference counts.  The count of a value is the number of places that hold it, operands and case
labels, wherever they stand in the arena.  An edit changes the counts by what the node in its place
mentions and the former one did, so a value that is counted once has no other place. -/

namespace ProgramFacts.Program

/-! ## Positions -/

section Positions

variable {α : Type} [DecidableEq α]

/-- Where an entry stands in a list. -/
def positions (l : List α) (a : α) : Set Nat := {i | l[i]? = some a}

theorem encard_positions (l : List α) (a : α) : (positions l a).encard = l.count a := by
  induction l with
  | nil => simp [positions]
  | cons b l ih =>
    have htail : (Nat.succ '' positions l a).encard = l.count a := by
      rw [Nat.succ_injective.encard_image, ih]
    by_cases hb : b = a
    · have hsplit : positions (b :: l) a = insert 0 (Nat.succ '' positions l a) := by
        ext i
        cases i <;> simp [positions, hb]
      rw [hsplit, Set.encard_insert_of_notMem (by simp), htail, List.count_cons, hb]
      simp
    · have hshift : positions (b :: l) a = Nat.succ '' positions l a := by
        ext i
        cases i <;> simp [positions, hb]
      rw [hshift, htail, List.count_cons]
      simp [hb]

/-- The entry at a position of the list at a position. -/
def entryAt (ls : List (List α)) (p : Nat × Nat) : Option α := ls[p.1]?.bind fun l => l[p.2]?

theorem encard_entries (ls : List (List α)) (a : α) :
    {p | entryAt ls p = some a}.encard = ls.flatten.count a := by
  induction ls with
  | nil => simp [entryAt]
  | cons l ls ih =>
    have hhead : (Prod.mk 0 '' positions l a).encard = l.count a := by
      rw [(Prod.mk_right_injective 0).encard_image, encard_positions]
    have htail : (Prod.map Nat.succ id '' {p | entryAt ls p = some a}).encard =
        ls.flatten.count a := by
      rw [(Nat.succ_injective.prodMap Function.injective_id).encard_image, ih]
    have hsplit : {p | entryAt (l :: ls) p = some a} =
        Prod.mk 0 '' positions l a ∪ Prod.map Nat.succ id '' {p | entryAt ls p = some a} := by
      ext ⟨i, j⟩
      cases i <;> simp [entryAt, positions]
    have hdisjoint : Disjoint (Prod.mk 0 '' positions l a)
        (Prod.map Nat.succ id '' {p | entryAt ls p = some a}) := by
      refine Set.disjoint_left.mpr ?_
      rintro _ ⟨i, _, rfl⟩ ⟨p, _, hp⟩
      exact Nat.succ_ne_zero _ (congrArg Prod.fst hp)
    rw [hsplit, Set.encard_union_eq hdisjoint, hhead, htail, List.flatten_cons, List.count_append]
    rfl

/-- An entry that takes the place of another one adds what it holds, and the other takes away what
it held. -/
theorem count_flatMap_set {β : Type} {f : β → List α} {l : List β} {i : Nat} {b b' : β}
    (hb : l[i]? = some b) (a : α) :
    ((l.set i b').flatMap f).count a + (f b).count a =
      (l.flatMap f).count a + (f b').count a := by
  induction l generalizing i with
  | nil => simp at hb
  | cons c l ih =>
    cases i with
    | zero =>
      obtain rfl := Option.some.inj hb
      simp only [List.set_cons_zero, List.flatMap_cons, List.count_append]
      omega
    | succ i =>
      have hrest := ih (by simpa using hb)
      simp only [List.set_cons_succ, List.flatMap_cons, List.count_append]
      omega

/-- An entry that takes the place of a different one is counted once more, and that once less. -/
theorem count_set_of_ne {l : List α} {i : Nat} {b b' : α} (hb : l[i]? = some b) (hne : b ≠ b') :
    (l.set i b').count b' = l.count b' + 1 ∧ l.count b = (l.set i b').count b + 1 ∧
      ∀ a, a ≠ b' → a ≠ b → (l.set i b').count a = l.count a := by
  have hcount (a : α) : (l.set i b').count a + [b].count a = l.count a + [b'].count a := by
    simpa only [List.flatMap_singleton'] using count_flatMap_set (f := fun x => [x]) hb a
  simp only [List.count_singleton, beq_iff_eq] at hcount
  refine ⟨?_, ?_, fun a ha ha' => ?_⟩
  · have := hcount b'
    simp only [if_neg hne, if_pos] at this
    omega
  · have := hcount b
    simp only [if_neg hne.symm, if_pos] at this
    omega
  · have := hcount a
    simp only [if_neg (Ne.symm ha), if_neg (Ne.symm ha')] at this
    omega

end Positions

/-- Where a slot lies: the position of its node in the arena, and that of the operand there. -/
def Slot.place (s : Slot) : Nat × Nat := (s.parent.index, s.index)

theorem Slot.place_injective : Function.Injective Slot.place := by
  rintro ⟨id, i⟩ ⟨id', i'⟩ h
  obtain ⟨hid, hi⟩ := Prod.mk.inj h
  exact congrArg₂ Slot.mk (NodeId.ext_index hid) hi

namespace Arena

variable {g g' : Arena}

/-! ## Places -/

/-- The operand at a position of the node at a position of the arena. -/
def operandAt (g : Arena) (p : Nat × Nat) : Option ValueId :=
  g.nodes[p.1]?.bind fun n => n.operands[p.2]?

/-- The case label at a position of the node at a position of the arena. -/
def labelAt (g : Arena) (p : Nat × Nat) : Option ValueId :=
  g.nodes[p.1]?.bind fun n => n.labels[p.2]?

theorem slot_eq_ok_iff_operandAt {s : Slot} {x : ValueId} :
    g.slot s = .ok x ↔ g.operandAt s.place = some x := by
  rw [slot_eq_ok]
  exact Option.bind_eq_some_iff.symm

/-- Where all nodes have tokens of their own, every operand has its slot. -/
theorem encard_slots (hsize : g.size ≤ UInt32.size) (x : ValueId) :
    {s | g.slot s = .ok x}.encard = {p | g.operandAt p = some x}.encard := by
  rw [← Slot.place_injective.encard_image]
  congr 1
  ext ⟨i, j⟩
  constructor
  · rintro ⟨s, hs, hp⟩
    exact hp ▸ slot_eq_ok_iff_operandAt.mp hs
  · intro hp
    obtain ⟨n, hn, _⟩ := Option.bind_eq_some_iff.mp hp
    have hi : (NodeId.ofIndex i).index = i :=
      NodeId.index_ofIndex (Nat.lt_of_lt_of_le (Array.getElem?_eq_some_iff.mp hn).1 hsize)
    have hplace : Slot.place ⟨.ofIndex i, j⟩ = (i, j) := congrArg (·, j) hi
    exact ⟨_, slot_eq_ok_iff_operandAt.mpr (hplace ▸ hp), hplace⟩

theorem encard_operands (g : Arena) (x : ValueId) :
    {p | g.operandAt p = some x}.encard = (g.nodes.toList.flatMap Node.operands).count x := by
  have hentries (p : Nat × Nat) :
      g.operandAt p = entryAt (g.nodes.toList.map Node.operands) p := by
    simp [operandAt, entryAt, Option.bind_map]
  simp only [hentries, encard_entries, List.flatMap_def]

theorem encard_labels (g : Arena) (x : ValueId) :
    {p | g.labelAt p = some x}.encard = (g.nodes.toList.flatMap Node.labels).count x := by
  have hentries (p : Nat × Nat) : g.labelAt p = entryAt (g.nodes.toList.map Node.labels) p := by
    simp [labelAt, entryAt, Option.bind_map]
  simp only [hentries, encard_entries, List.flatMap_def]

theorem referenceCount_eq_add (g : Arena) (x : ValueId) :
    g.referenceCount x = (g.nodes.toList.flatMap Node.operands).count x +
      (g.nodes.toList.flatMap Node.labels).count x := by
  unfold referenceCount
  induction g.nodes.toList with
  | nil => rfl
  | cons n ns ih =>
    simp only [List.flatMap_cons, List.count_append, Node.mentions] at ih ⊢
    omega

/-- The count of a value is the number of operands that hold it and of labels that do. -/
theorem referenceCount_eq_encard (g : Arena) (x : ValueId) :
    (g.referenceCount x : ENat) =
      {p | g.operandAt p = some x}.encard + {p | g.labelAt p = some x}.encard := by
  rw [encard_operands, encard_labels, referenceCount_eq_add, Nat.cast_add]

/-- A value that is counted once and stands in a slot stands nowhere else. -/
theorem sole_of_referenceCount {s : Slot} {x : ValueId} (hone : g.referenceCount x = 1)
    (hs : g.slot s = .ok x) :
    (∀ p, g.operandAt p = some x → p = s.place) ∧
      ∀ p, g.labelAt p ≠ some x := by
  have hplace : s.place ∈ {p | g.operandAt p = some x} :=
    slot_eq_ok_iff_operandAt.mp hs
  have hoperands := encard_operands g x
  have hlabels := encard_labels g x
  rw [referenceCount_eq_add] at hone
  have hpos : (g.nodes.toList.flatMap Node.operands).count x ≠ 0 := by
    intro hzero
    rw [hzero, Nat.cast_zero, Set.encard_eq_zero] at hoperands
    exact (hoperands ▸ hplace : _ ∈ (∅ : Set (Nat × Nat)))
  rw [show (g.nodes.toList.flatMap Node.operands).count x = 1 by omega, Nat.cast_one] at hoperands
  rw [show (g.nodes.toList.flatMap Node.labels).count x = 0 by omega, Nat.cast_zero,
    Set.encard_eq_zero] at hlabels
  refine ⟨fun p hp => Set.encard_le_one_iff.mp hoperands.le p _ hp hplace,
    fun p hp => ?_⟩
  exact (hlabels ▸ hp : p ∈ (∅ : Set (Nat × Nat)))

/-! ## Edits -/

/-- What a node mentioned before and after it is put in place makes all the difference. -/
theorem referenceCount_put {id : NodeId} {n : Node} (hn : g.node? id = some n) (n' : Node)
    (x : ValueId) :
    (g.put id n').referenceCount x + n.mentions.count x =
      g.referenceCount x + n'.mentions.count x := by
  have hi : g.nodes.toList[id.index]? = some n := by simpa [node?] using hn
  unfold referenceCount put
  rw [Array.toList_setIfInBounds]
  exact count_flatMap_set hi x

theorem referenceCount_alloc (g : Arena) (n : Node) (x : ValueId) :
    (g.alloc n).2.referenceCount x = g.referenceCount x + n.mentions.count x := by
  simp [referenceCount, alloc, List.flatMap_append]

/-- Only the count of the value that comes and of the one that goes change. -/
theorem referenceCount_replaceSlot {s : Slot} {v old : ValueId}
    (h : g.replaceSlot s v = .ok (old, g')) (hne : old ≠ v) :
    g'.referenceCount v = g.referenceCount v + 1 ∧
      g.referenceCount old = g'.referenceCount old + 1 ∧
      ∀ x, x ≠ v → x ≠ old → g'.referenceCount x = g.referenceCount x := by
  obtain ⟨_, n, hn, hold, rfl⟩ := replaceSlot_eq_ok_iff.mp h
  obtain ⟨hv, ho, hothers⟩ := count_set_of_ne hold hne
  have hput (x : ValueId) := referenceCount_put hn (n.setOperand s.index v) x
  simp only [Node.mentions, List.count_append, n.operands_setOperand] at hput
  have hlabels : (n.setOperand s.index v).labels = n.labels := n.labels_mapOperands _
  simp only [hlabels] at hput
  refine ⟨?_, ?_, fun x hx hx' => ?_⟩
  · have := hput v
    omega
  · have := hput old
    omega
  · have := hput x
    have := hothers x hx hx'
    omega

theorem referenceCount_overwriteValue {id : ValueId} {w old : Value}
    (h : g.overwriteValue id w = .ok (old, g')) :
    g.value id = .ok old ∧ ∀ x,
      g'.referenceCount x + old.operands.count x = g.referenceCount x + w.operands.count x := by
  unfold overwriteValue at h
  cases hx : g.value id with
  | error fault =>
    rw [hx] at h
    contradiction
  | ok y =>
    rw [hx] at h
    obtain ⟨rfl, rfl⟩ := Prod.mk.inj (Except.ok.inj h)
    refine ⟨rfl, fun x => ?_⟩
    have hput := referenceCount_put (value_eq_ok.mp hx) (.value w) x
    simpa [Node.mentions, Node.operands, Node.labels] using hput

/-- Reference counts account for every edit.  The count of a value is the number of operands that
hold it, which are the slots that do, and of case labels, in the whole arena.  A replacement of one
value by another counts the former once less, the latter once more and all others as before; the
content of a value that is overwritten no longer counts, and the new content does; and a node that
is added counts with all that it mentions.  So a value with the count one that stands in a slot
stands in no other one, and is no label. -/
theorem counts_account_for_edits (g : Arena) :
    (∀ x, (g.referenceCount x : ENat) =
      {p | g.operandAt p = some x}.encard + {p | g.labelAt p = some x}.encard) ∧
    (∀ s x, g.slot s = .ok x ↔ g.operandAt s.place = some x) ∧
    (g.size ≤ UInt32.size → ∀ x,
      {s | g.slot s = .ok x}.encard = {p | g.operandAt p = some x}.encard) ∧
    (∀ s v old g', g.replaceSlot s v = .ok (old, g') → old ≠ v →
      g'.referenceCount v = g.referenceCount v + 1 ∧
      g.referenceCount old = g'.referenceCount old + 1 ∧
      ∀ x, x ≠ v → x ≠ old → g'.referenceCount x = g.referenceCount x) ∧
    (∀ id w old g', g.overwriteValue id w = .ok (old, g') → g.value id = .ok old ∧ ∀ x,
      g'.referenceCount x + old.operands.count x = g.referenceCount x + w.operands.count x) ∧
    (∀ n x, (g.alloc n).2.referenceCount x =
      g.referenceCount x + (n.operands.count x + n.labels.count x)) ∧
    ∀ s x, g.referenceCount x = 1 → g.slot s = .ok x →
      (∀ other, g.slot other = .ok x → other = s) ∧
      (∀ p, g.operandAt p = some x → p = s.place) ∧ ∀ p, g.labelAt p ≠ some x := by
  refine ⟨referenceCount_eq_encard g, fun s x => slot_eq_ok_iff_operandAt, encard_slots,
    fun s v old g' => referenceCount_replaceSlot, fun id w old g' => referenceCount_overwriteValue,
    fun n x => ?_, fun s x hone hs => ?_⟩
  · rw [referenceCount_alloc, Node.mentions, List.count_append]
  · obtain ⟨hoperands, hlabels⟩ := sole_of_referenceCount hone hs
    refine ⟨fun other hother => Slot.place_injective ?_, hoperands, hlabels⟩
    exact hoperands _ (slot_eq_ok_iff_operandAt.mp hother)

/-- The receiver of the call in `calling` is its second argument too; once that is replaced, the
receiver stands in no other slot. -/
theorem counts_account_for_edits_calling :
    ∃ g', calling.replaceSlot ⟨⟨2⟩, 2⟩ ⟨1⟩ = .ok (⟨0⟩, g') ∧
      calling.referenceCount ⟨0⟩ = 2 ∧ g'.referenceCount ⟨0⟩ = 1 ∧ g'.referenceCount ⟨1⟩ = 2 ∧
      ∀ other, g'.slot other = .ok ⟨0⟩ → other = ⟨⟨2⟩, 0⟩ := by
  obtain ⟨_, _, _, hreplace, _⟩ := counts_account_for_edits calling
  have h : calling.replaceSlot ⟨⟨2⟩, 2⟩ ⟨1⟩ = .ok (⟨0⟩, _) := rfl
  obtain ⟨hnew, hold, _⟩ := hreplace _ _ _ _ h (by decide)
  have hone : (calling.put ⟨2⟩ _).referenceCount ⟨0⟩ = 1 := Nat.succ.inj hold.symm
  obtain ⟨_, _, _, _, _, _, hsole⟩ := counts_account_for_edits (calling.put ⟨2⟩ _)
  exact ⟨_, h, rfl, hone, hnew, (hsole ⟨⟨2⟩, 0⟩ ⟨0⟩ hone rfl).1⟩

end Arena

end ProgramFacts.Program
