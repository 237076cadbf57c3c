import ProgramFacts.Program.Arena

/-! Progress of a traversal: how many positions of the arena hold no statement that it has visited.
A traversal that visits each statement at most once makes this number smaller with every visit. -/

namespace ProgramFacts.Program

/-- How many positions of the arena hold no statement of the list. -/
def unvisited (g : Arena) (visited : List StmtId) : Nat :=
  (List.range g.size).countP fun i => !visited.contains (.ofIndex i)

theorem countP_lt_countP {α : Type} {p q : α → Bool} {l : List α} {x : α} (hx : x ∈ l)
    (hp : p x = true) (hq : q x = false) (h : ∀ y, q y = true → p y = true) :
    l.countP q < l.countP p := by
  induction l with
  | nil => simp at hx
  | cons y l ih =>
    have hle : l.countP q ≤ l.countP p := List.countP_mono_left fun z _ hz => h z hz
    rcases List.mem_cons.mp hx with rfl | hx
    · rw [List.countP_cons_of_pos hp, List.countP_cons_of_neg (by simp [hq])]
      omega
    · have := ih hx
      by_cases hy : q y = true
      · rw [List.countP_cons_of_pos hy, List.countP_cons_of_pos (h y hy)]
        omega
      · rw [List.countP_cons_of_neg hy, List.countP_cons]
        omega

theorem unvisited_cons_lt {g : Arena} {visited : List StmtId} {id : StmtId}
    (hid : id.index < g.size) (hnew : id ∉ visited) :
    unvisited g (id :: visited) < unvisited g visited :=
  countP_lt_countP (List.mem_range.mpr hid) (by simpa using hnew) (by simp)
    fun i hi => by simp at hi ⊢; exact hi.2

end ProgramFacts.Program
