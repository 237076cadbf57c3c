import ProgramFacts.Flow.Dot
import ProgramFacts.Proofs.Escapes
import ProgramFacts.Proofs.Reading
import ProgramFacts.Proofs.Rendering

/-! Drawings of control-flow graphs.  A drawing has one line for each statement and each edge,
whatever texts the program has, and the label of a statement tells its text.  There is a drawing
unless a value or a type that it shows is nested in itself. -/

namespace ProgramFacts

open Program ProgramFacts.Fact Extraction

/-! ## Lines -/

/-- The lines of a text, whose last one may end with a line feed or without. -/
def lines (s : String) : List String :=
  if (pieces '\n' s).getLast? = some "" then (pieces '\n' s).dropLast else pieces '\n' s

theorem join_lines (ls : List String) :
    String.join (ls.map (· ++ "\n")) = "\n".intercalate (ls ++ [""]) := by
  induction ls with
  | nil => rfl
  | cons l ls ih =>
    rw [List.map_cons, String.join_cons, ih, List.cons_append]
    cases ls with
    | nil => rfl
    | cons l' ls => exact String.intercalate_cons_cons.symm

theorem lines_join {ls : List String} (h : ∀ l ∈ ls, '\n' ∉ l.toList) :
    lines (String.join (ls.map (· ++ "\n"))) = ls := by
  have hpieces : pieces '\n' (String.join (ls.map (· ++ "\n"))) = ls ++ [""] := by
    rw [join_lines]
    refine pieces_intercalate rfl (by simp) fun l hl => ?_
    rcases List.mem_append.mp hl with hl | hl
    · exact h l hl
    · simp [List.mem_singleton.mp hl]
  simp [lines, hpieces]

namespace Flow.FlowGraph

variable (c : FlowGraph) {g : Arena} {d : String}

/-- The row of the statement at position `i`: its line without the line feed. -/
def nodeRow (i : Nat) (label : String) : String :=
  "    " ++ toString i ++ " [ label = \"" ++ Text.label label ++ "\"]"

def edgeRow (e : StmtId × StmtId) : String :=
  "    " ++ toString (c.nodes.idxOf e.1) ++ " -> " ++ toString (c.nodes.idxOf e.2) ++ " [ ]"

/-- The rows of a drawing whose statements have the given labels. -/
def rows (labels : List String) : List String :=
  "digraph \x7b" :: (labels.mapIdx nodeRow ++ c.edges.map c.edgeRow ++ ["\x7d"])

theorem nodeLine_eq (i : Nat) (label : String) : nodeLine i label = nodeRow i label ++ "\n" := by
  rw [nodeRow, String.append_assoc]
  rfl

theorem edgeLine_eq (e : StmtId × StmtId) : c.edgeLine e = c.edgeRow e ++ "\n" := by
  rw [edgeRow, String.append_assoc]
  rfl

/-- A drawing has a label for each statement, and its lines are the rows with these labels. -/
theorem dot?_eq_some_iff : c.dot? g = some d ↔ ∃ labels, c.nodes.mapM (nodeLabel? g) = some labels ∧
    d = String.join ((c.rows labels).map (· ++ "\n")) := by
  have hlines (labels : List String) :
      "digraph \x7b\n" ++ String.join (labels.mapIdx nodeLine) ++
        String.join (c.edges.map c.edgeLine) ++ "\x7d\n" =
      String.join ((c.rows labels).map (· ++ "\n")) := by
    have hnodes : labels.mapIdx nodeLine = (labels.mapIdx nodeRow).map (· ++ "\n") := by
      rw [List.mapIdx_eq_zipIdx_map, List.mapIdx_eq_zipIdx_map, List.map_map]
      exact List.map_congr_left fun p _ => nodeLine_eq p.2 p.1
    have hedges : c.edges.map c.edgeLine = (c.edges.map c.edgeRow).map (· ++ "\n") := by
      rw [List.map_map]
      exact List.map_congr_left fun e _ => c.edgeLine_eq e
    rw [hnodes, hedges, rows]
    simp [String.join_append, String.append_assoc]
  unfold dot?
  cases c.nodes.mapM (nodeLabel? g) with
  | none => simp
  | some labels => simp [hlines, eq_comm]

theorem not_mem_nodeRow (i : Nat) (label : String) : '\n' ∉ (nodeRow i label).toList := by
  simp only [nodeRow, String.toList_append, List.mem_append, not_or]
  exact ⟨⟨⟨⟨by decide, not_mem_repr i rfl⟩, by decide⟩, Text.not_mem_label _⟩, by decide⟩

theorem not_mem_edgeRow (e : StmtId × StmtId) : '\n' ∉ (c.edgeRow e).toList := by
  simp only [edgeRow, String.toList_append, List.mem_append, not_or]
  exact ⟨⟨⟨⟨by decide, not_mem_repr _ rfl⟩, by decide⟩, not_mem_repr _ rfl⟩, by decide⟩

theorem lines_rows (labels : List String) :
    lines (String.join ((c.rows labels).map (· ++ "\n"))) = c.rows labels := by
  refine lines_join fun l hl => ?_
  simp only [rows, List.mem_cons, List.mem_append, List.not_mem_nil, or_false] at hl
  rcases hl with rfl | (hl | hl) | rfl
  · decide
  · obtain ⟨i, hi, rfl⟩ := List.mem_mapIdx.mp hl
    exact not_mem_nodeRow i labels[i]
  · obtain ⟨e, _, rfl⟩ := List.mem_map.mp hl
    exact c.not_mem_edgeRow e
  · decide

/-- There is a drawing if nothing that it shows is nested in itself. -/
theorem isSome_dot?_iff : (c.dot? g).isSome ↔ ∀ id ∈ c.nodes, ∀ s, g.stmt id = .ok s →
    ∀ v ∈ s.operands ++ s.labels, g.FiniteText v := by
  have hlabel (id : StmtId) : (nodeLabel? g id).isSome ↔
      ∀ s, g.stmt id = .ok s → ∀ v ∈ s.operands ++ s.labels, g.FiniteText v := by
    rw [nodeLabel?, Option.isSome_map, Arena.isSome_stmtText?_iff]
  have hdot : (c.dot? g).isSome ↔ (c.nodes.mapM (nodeLabel? g)).isSome := by
    unfold dot?
    cases c.nodes.mapM (nodeLabel? g) <;> simp
  rw [hdot, Arena.isSome_mapM]
  exact forall₂_congr fun id _ => hlabel id

/-- The line of a statement in a drawing tells its token and its text. -/
theorem line_of_node (hd : c.dot? g = some d) {i : Nat} {id : StmtId} (hid : c.nodes[i]? = some id) :
    ∃ text, g.stmtText? id = some text ∧
      (lines d)[i + 1]? = some (nodeRow i (id.text ++ ": " ++ text)) := by
  obtain ⟨labels, hlabels, rfl⟩ := c.dot?_eq_some_iff.mp hd
  have hget := congrArg (·[i]?) (Arena.map_eq_of_mapM hlabels)
  simp only [List.getElem?_map, hid, Option.map_some] at hget
  obtain ⟨label, hlabel, hsome⟩ := Option.map_eq_some_iff.mp hget.symm
  obtain ⟨text, htext, rfl⟩ := Option.map_eq_some_iff.mp hsome.symm
  have hi : i < labels.length := (List.getElem?_eq_some_iff.mp hlabel).1
  refine ⟨text, htext, ?_⟩
  rw [lines_rows, rows, List.getElem?_cons_succ, List.append_assoc,
    List.getElem?_append_left (by simpa using hi), List.getElem?_mapIdx, hlabel]
  rfl

/-- There is a drawing unless a value or a type that it shows is nested in itself.  A drawing has a
line for each statement and each edge, and two more.  The label in the line of a statement is
between quotes that no character of it can close: each quote in it stands behind an odd run of
backslashes, and there is an even run before the quote that closes it.  The label tells the token
and the text of the statement, so it tells apart statements with different texts.  These texts nest
values and types to any depth. -/
theorem drawing_unbroken (c : FlowGraph) (g : Arena) :
    ((c.dot? g).isSome ↔ ∀ id ∈ c.nodes, ∀ s, g.stmt id = .ok s →
      ∀ v ∈ s.operands ++ s.labels, g.FiniteText v) ∧
    (∀ d, c.dot? g = some d →
      (lines d).length = c.nodes.length + c.edges.length + 2 ∧
      (lines d).head? = some "digraph \x7b" ∧ (lines d).getLast? = some "\x7d" ∧
      (∀ i id, c.nodes[i]? = some id → ∃ text label, g.stmtText? id = some text ∧
        (lines d)[i + 1]? =
          some ("    " ++ toString i ++ " [ label = \"" ++ label ++ "\"]") ∧
        Text.Shielded label.toList ∧ Text.backslashes label.toList % 2 = 0 ∧
        Text.unescape? label.toList = some (id.text ++ ": " ++ text).toList) ∧
      ∀ i e, c.edges[i]? = some e → ∃ source target : Nat,
        c.nodes[source]? = some e.1 ∧ c.nodes[target]? = some e.2 ∧
        (lines d)[c.nodes.length + 1 + i]? =
          some ("    " ++ toString source ++ " -> " ++ toString target ++ " [ ]")) ∧
    (∀ s s' : String, s ≠ s' → Text.label s ≠ Text.label s') ∧
    (∀ v x, g.value v = .ok x → g.valueText? v = g.valueTextWith? g.valueText? x) ∧
    ∀ t e, g.Element t e → g.typeText? t = (g.typeText? e).map (· ++ "[]") := by
  refine ⟨c.isSome_dot?_iff, fun d hd => ?_, fun s s' hne h => hne (Text.label_injective h),
    fun v x => Arena.valueText?_of_value, fun t e => Arena.typeText?_of_element⟩
  obtain ⟨labels, hlabels, hjoin⟩ := c.dot?_eq_some_iff.mp hd
  have hlength : c.nodes.length = labels.length := by
    simpa using congrArg List.length (Arena.map_eq_of_mapM hlabels)
  have hlines : lines d = c.rows labels := by rw [hjoin, lines_rows]
  refine ⟨?_, by rw [hlines]; rfl, by simp [hlines, rows, List.getLast?_cons], ?_, ?_⟩
  · simp [hlines, rows, hlength]
    omega
  · intro i id hid
    obtain ⟨text, htext, hline⟩ := c.line_of_node hd hid
    exact ⟨text, _, htext, hline, Text.shielded_label _, Text.backslashes_label _,
      Text.unescape?_label _⟩
  · intro i e he
    have hi : i < c.edges.length := (List.getElem?_eq_some_iff.mp he).1
    obtain ⟨hsource, htarget⟩ := c.ends_mem e (List.mem_of_getElem? he)
    refine ⟨c.nodes.idxOf e.1, c.nodes.idxOf e.2, List.getElem?_idxOf hsource,
      List.getElem?_idxOf htarget, ?_⟩
    rw [hlines, hlength, rows, Nat.add_right_comm, List.getElem?_cons_succ, List.append_assoc,
      List.getElem?_append_right (by simp), List.length_mapIdx, Nat.add_sub_cancel_left,
      List.getElem?_append_left (by simpa using hi), List.getElem?_map, he]
    rfl

example : (FlowGraph.empty.insertNode ⟨1⟩).dot?
    ⟨#[.value (.stringConst "a\"b\\"), .stmt (.returnValue ⟨0⟩)]⟩ =
    some "digraph \x7b\n    0 [ label = \"#1: return \\\"a\\\\\\\"b\\\\\\\\\\\"\"]\n\x7d\n" := by
  decide +kernel

end Flow.FlowGraph

end ProgramFacts
