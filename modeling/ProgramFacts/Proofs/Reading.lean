import Std.Data.String.ToInt
import ProgramFacts.Fact.Delta
import ProgramFacts.Proofs.Catalogue
import ProgramFacts.Proofs.Store

/-! A reader of fact files: it takes the columns of a relation from the first line of a text, and
from each later line the values of a row, as the types of the columns tell.  It reads back all that
is written of relations and deltas whose strings have neither tabs nor line feeds. -/

namespace ProgramFacts.Fact

open Extraction (columnType)

/-! ## Pieces of texts -/

/-- The pieces of a text between the occurrences of a separator. -/
def pieces (separator : Char) (s : String) : List String :=
  (s.toList.splitOn separator).map String.ofList

/-- Neither a tab nor a line feed divides the text. -/
def Undivided (s : String) : Prop := '\t' ∉ s.toList ∧ '\n' ∉ s.toList

instance (s : String) : Decidable (Undivided s) := by
  unfold Undivided
  infer_instance

theorem pieces_intercalate {separator : Char} {joint : String} (hjoint : joint.toList = [separator])
    {ls : List String} (hne : ls ≠ []) (h : ∀ l ∈ ls, separator ∉ l.toList) :
    pieces separator (joint.intercalate ls) = ls := by
  have hchars : ∀ l ∈ ls.map String.toList, separator ∉ l := by
    intro l hl
    obtain ⟨s, hs, rfl⟩ := List.mem_map.mp hl
    exact h s hs
  unfold pieces
  rw [String.toList_intercalate, hjoint, List.splitOn_intercalate separator hchars (by simpa)]
  simp [Function.comp_def]

theorem mem_intercalate {α : Type} {a : α} {joint : List α} {ls : List (List α)}
    (h : a ∈ joint.intercalate ls) : a ∈ joint ∨ ∃ l ∈ ls, a ∈ l := by
  induction ls with
  | nil => simp at h
  | cons l ls ih =>
    cases ls with
    | nil => exact .inr ⟨l, .head _, by simpa using h⟩
    | cons l' ls =>
      rw [List.intercalate_cons_cons, List.mem_append, List.mem_append] at h
      rcases h with (h | h) | h
      · exact .inr ⟨l, .head _, h⟩
      · exact .inl h
      · exact (ih h).imp_right fun ⟨l'', hl'', ha⟩ => ⟨l'', .tail _ hl'', ha⟩

theorem mem_intercalate_of_mem {α : Type} {a : α} {joint l : List α} {ls : List (List α)}
    (hl : l ∈ ls) (ha : a ∈ l) : a ∈ joint.intercalate ls := by
  induction ls with
  | nil => contradiction
  | cons l' ls ih =>
    cases ls with
    | nil =>
      obtain rfl := List.mem_singleton.mp hl
      simpa using ha
    | cons l'' ls =>
      rw [List.intercalate_cons_cons, List.mem_append]
      rcases List.mem_cons.mp hl with rfl | hl
      · exact .inl (List.mem_append_left _ ha)
      · exact .inr (ih hl)

theorem not_mem_intercalate {c : Char} {joint : String} {ls : List String}
    (hjoint : c ∉ joint.toList) (h : ∀ l ∈ ls, c ∉ l.toList) :
    c ∉ (joint.intercalate ls).toList := by
  rw [String.toList_intercalate]
  intro hc
  rcases mem_intercalate hc with hc | ⟨l, hl, hc⟩
  · exact hjoint hc
  · obtain ⟨s, hs, rfl⟩ := List.mem_map.mp hl
    exact h s hs hc

/-- What is read of each text that was written is what was written. -/
theorem mapM_map_eq_some {α β : Type} {write : α → β} {read : β → Option α} {l : List α}
    (h : ∀ a ∈ l, read (write a) = some a) : (l.map write).mapM read = some l := by
  induction l with
  | nil => rfl
  | cons a l ih =>
    rw [List.map_cons, List.mapM_cons, h a (.head _), ih fun b hb => h b (.tail _ hb)]
    rfl

/-! ## Columns -/

def ColumnType.read? : String → Option ColumnType
  | "Integer" => some .integer
  | "String" => some .string
  | "Boolean" => some .boolean
  | _ => none

def Column.read? (s : String) : Option Column :=
  match pieces ':' s with
  | [name, type] => (ColumnType.read? type).map fun type => ⟨name, type⟩
  | _ => none

def Schema.read? (s : String) : Option Schema := (pieces '\t' s).mapM Column.read?

/-- There are columns, and their names do not look like anything else. -/
def Schema.Legible (s : Schema) : Prop := s ≠ [] ∧ ∀ c ∈ s, ':' ∉ c.name.toList ∧ Undivided c.name

instance (s : Schema) : Decidable s.Legible := by
  unfold Schema.Legible
  infer_instance

theorem ColumnType.read?_name (type : ColumnType) : read? type.name = some type := by
  cases type <;> rfl

theorem ColumnType.not_mem_name (type : ColumnType) {c : Char}
    (hc : c = ':' ∨ c = '\t' ∨ c = '\n') : c ∉ type.name.toList := by
  rcases hc with rfl | rfl | rfl <;> cases type <;> decide

theorem Column.read?_text {c : Column} (h : ':' ∉ c.name.toList) :
    read? (c.name ++ ":" ++ c.type.name) = some c := by
  have hpieces : pieces ':' (c.name ++ ":" ++ c.type.name) = [c.name, c.type.name] := by
    have htext : c.name ++ ":" ++ c.type.name = ":".intercalate [c.name, c.type.name] := by
      rw [String.intercalate_cons_cons, String.intercalate_singleton]
    rw [htext, pieces_intercalate rfl (by simp)]
    intro l hl
    rcases List.mem_pair.mp hl with rfl | rfl
    · exact h
    · exact c.type.not_mem_name (.inl rfl)
  unfold read?
  rw [hpieces]
  simp only [ColumnType.read?_name]
  rfl

theorem Column.undivided_text {c : Column} (h : Undivided c.name) :
    Undivided (c.name ++ ":" ++ c.type.name) := by
  have htype : Undivided c.type.name :=
    ⟨c.type.not_mem_name (.inr (.inl rfl)), c.type.not_mem_name (.inr (.inr rfl))⟩
  simp only [Undivided, String.toList_append, List.mem_append, not_or]
  exact ⟨⟨⟨h.1, by decide⟩, htype.1⟩, ⟨h.2, by decide⟩, htype.2⟩

namespace Schema.Legible

variable {s : Schema} (h : s.Legible)
include h

theorem read?_text : read? s.text = some s := by
  have hpieces : pieces '\t' s.text = s.map fun c => c.name ++ ":" ++ c.type.name := by
    refine pieces_intercalate rfl (by simpa using h.1) fun l hl => ?_
    obtain ⟨c, hc, rfl⟩ := List.mem_map.mp hl
    exact (Column.undivided_text (h.2 c hc).2).1
  unfold read?
  rw [hpieces, mapM_map_eq_some fun c hc => Column.read?_text (h.2 c hc).1]

theorem not_mem_text : '\n' ∉ s.text.toList := by
  refine not_mem_intercalate (by decide) fun l hl => ?_
  obtain ⟨c, hc, rfl⟩ := List.mem_map.mp hl
  exact (Column.undivided_text (h.2 c hc).2).2

end Schema.Legible

/-! ## Rows -/

def Datum.read? : ColumnType → String → Option Datum
  | .integer, s => s.toInt?.map .int
  | .string, s => some (.str s)
  | .boolean, "true" => some (.bool true)
  | .boolean, "false" => some (.bool false)
  | .boolean, _ => none

def Tuple.read? (schema : Schema) (line : String) : Option Tuple :=
  ((schema.map Column.type).zip (pieces '\t' line)).mapM fun p => Datum.read? p.1 p.2

/-- The value is no string that divides its row. -/
def Datum.Plain (d : Datum) : Prop := ∀ s, d = .str s → Undivided s

/-- The row has a value for each column, of the column's type, and none that divides it. -/
structure Tuple.Legible (schema : Schema) (t : Tuple) : Prop where
  types : t.map columnType = schema.map Column.type
  plain : ∀ d ∈ t, d.Plain

theorem Datum.read?_text (d : Datum) : read? (columnType d) d.text = some d := by
  cases d with
  | int n => exact congrArg (Option.map Datum.int) (Int.toInt?_repr n)
  | str s => rfl
  | bool b => cases b <;> rfl

theorem not_mem_repr {c : Char} (m : Nat) (hc : c.isDigit = false) : c ∉ m.repr.toList := by
  intro hmem
  rw [Nat.toList_repr] at hmem
  rw [Nat.isDigit_of_mem_toDigits (by decide) (by decide) hmem] at hc
  contradiction

theorem undivided_repr (n : Int) : Undivided n.repr := by
  cases n with
  | ofNat m => exact ⟨not_mem_repr m rfl, not_mem_repr m rfl⟩
  | negSucc m =>
    have hsign {c : Char} (hc : c.isDigit = false) (hne : c ∉ "-".toList) :
        c ∉ ("-" ++ m.succ.repr).toList := by
      rw [String.toList_append, List.mem_append, not_or]
      exact ⟨hne, not_mem_repr m.succ hc⟩
    exact ⟨hsign rfl (by decide), hsign rfl (by decide)⟩

theorem Datum.Plain.undivided_text {d : Datum} (h : d.Plain) : Undivided d.text := by
  cases d with
  | int n => exact undivided_repr n
  | str s => exact h s rfl
  | bool b => cases b <;> decide

namespace Tuple.Legible

variable {schema : Schema} {t : Tuple} (h : Tuple.Legible schema t)
include h

theorem read?_text (hschema : schema ≠ []) : read? schema t.text = some t := by
  have hne : t ≠ [] := by
    rintro rfl
    exact hschema (List.map_eq_nil_iff.mp h.types.symm)
  have hpieces : pieces '\t' t.text = t.map Datum.text := by
    refine pieces_intercalate rfl (by simpa using hne) fun l hl => ?_
    obtain ⟨d, hd, rfl⟩ := List.mem_map.mp hl
    exact (h.plain d hd).undivided_text.1
  unfold read?
  rw [hpieces, ← h.types, List.zip_map', mapM_map_eq_some fun d _ => d.read?_text]

theorem not_mem_text : '\n' ∉ t.text.toList := by
  refine not_mem_intercalate (by decide) fun l hl => ?_
  obtain ⟨d, hd, rfl⟩ := List.mem_map.mp hl
  exact (h.plain d hd).undivided_text.2

end Tuple.Legible

theorem mapM_read?_text {schema : Schema} (hschema : schema ≠ []) {ts : TupleSet}
    (h : ∀ t ∈ ts, t.Legible schema) :
    (ts.toList.map Tuple.text).mapM (Tuple.read? schema) = some ts.toList :=
  mapM_map_eq_some fun t ht => (h t (Std.ExtTreeSet.mem_toList.mp ht)).read?_text hschema

theorem ofList_toList (ts : TupleSet) : .ofList ts.toList = ts :=
  Std.ExtTreeSet.ext_mem fun t => by simp [Std.ExtTreeSet.mem_ofList]

/-- The first line of a block has the columns, and each later one a row. -/
theorem pieces_blockText {schema : Schema} (hschema : schema.Legible) {rows : List String}
    (hrows : ∀ row ∈ rows, '\n' ∉ row.toList) :
    pieces '\n' (blockText (some schema) rows) = schema.text :: rows := by
  refine pieces_intercalate rfl (List.cons_ne_nil _ rows) fun l hl => ?_
  rcases List.mem_cons.mp hl with rfl | hl
  · exact hschema.not_mem_text
  · exact hrows l hl

/-! ## Relations and stores -/

def Relation.read? (block : String) : Option Relation :=
  match pieces '\n' block with
  | [] => none
  | header :: lines => do
    let schema ← Schema.read? header
    let rows ← lines.mapM (Tuple.read? schema)
    return ⟨some schema, .ofList rows⟩

/-- The relations that named texts tell. -/
def Store.read? (texts : List (String × String)) : Option Store :=
  (texts.mapM fun e => (Relation.read? e.2).map fun r => (e.1, r)).map fun relations =>
    ⟨.ofList relations⟩

/-- The relation has columns and rows that can be told from its text. -/
structure Relation.Legible (r : Relation) (schema : Schema) : Prop where
  schema_eq : r.schema = some schema
  columns : schema.Legible
  occupied : r.tuples.isEmpty = false
  rows : ∀ t ∈ r.tuples, t.Legible schema

theorem Relation.Legible.read?_text {r : Relation} {schema : Schema} (h : r.Legible schema) :
    read? r.text = some r := by
  have hrows : ∀ row ∈ r.tuples.toList.map Tuple.text, '\n' ∉ row.toList := by
    intro row hrow
    obtain ⟨t, ht, rfl⟩ := List.mem_map.mp hrow
    exact (h.rows t (Std.ExtTreeSet.mem_toList.mp ht)).not_mem_text
  unfold read? text
  rw [h.schema_eq, pieces_blockText h.columns hrows]
  simp only [h.columns.read?_text, mapM_read?_text h.columns.1 h.rows, bind, Option.bind]
  rw [ofList_toList, ← h.schema_eq]
  rfl

/-- A map is given by its entries. -/
theorem map_ofList_toList {β : Type} (m : Std.ExtTreeMap String β) : .ofList m.toList = m := by
  refine Std.ExtTreeMap.ext_getElem? fun name => ?_
  cases hname : m[name]? with
  | some b =>
    exact Std.ExtTreeMap.getElem?_ofList_of_mem Std.ReflCmp.compare_self
      Std.ExtTreeMap.distinct_keys_toList
      (Std.ExtTreeMap.mem_toList_iff_getElem?_eq_some.mpr hname)
  | none =>
    refine Std.ExtTreeMap.getElem?_ofList_of_contains_eq_false ?_
    rw [← Bool.not_eq_true, List.contains_iff_mem]
    intro hmem
    obtain ⟨e, he, rfl⟩ := List.mem_map.mp hmem
    rw [Std.ExtTreeMap.mem_toList_iff_getElem?_eq_some.mp he] at hname
    contradiction

/-- What is read of the texts of named things is the things with their names. -/
theorem mapM_entries_eq_some {β : Type} {write : β → String} {read : String → Option β}
    {m : Std.ExtTreeMap String β}
    (h : ∀ (name : String) (b : β), m[name]? = some b → read (write b) = some b) :
    (m.toList.map fun e => (e.1, write e.2)).mapM
      (fun e => (read e.2).map fun b => (e.1, b)) = some m.toList := by
  refine mapM_map_eq_some fun e he => ?_
  dsimp only
  rw [h e.1 e.2 (Std.ExtTreeMap.mem_toList_iff_getElem?_eq_some.mp he)]
  rfl

/-- Every relation of the store is legible. -/
def Store.Legible (s : Store) : Prop :=
  ∀ name r, s.relation? name = some r → ∃ schema, r.Legible schema

theorem Store.Legible.read?_serialize {s : Store} (h : s.Legible) :
    read? s.serialize = some s := by
  have hprune : s.prune = s := by
    refine ext_relation? fun name => ?_
    rw [relation?_prune]
    cases hr : s.relation? name with
    | none => rfl
    | some r =>
      obtain ⟨schema, hlegible⟩ := h name r hr
      simp [Option.filter, hlegible.occupied]
  unfold read? serialize
  rw [hprune, mapM_entries_eq_some fun name r hr => ?_]
  · simp only [Option.map_some, map_ofList_toList]
  · obtain ⟨schema, hlegible⟩ := h name r hr
    exact hlegible.read?_text

/-! ## Deltas -/

/-- The rest of a line that begins with a mark. -/
def unmark (mark : Char) (line : String) : Option String :=
  match line.toList with
  | [] => none
  | c :: rest => if c = mark then some (String.ofList rest) else none

def RelationDelta.read? (block : String) : Option RelationDelta :=
  match pieces '\n' block with
  | [] => none
  | header :: lines => do
    let schema ← Schema.read? header
    let deleted ← (lines.filterMap (unmark '-')).mapM (Tuple.read? schema)
    let inserted ← (lines.filterMap (unmark '+')).mapM (Tuple.read? schema)
    return ⟨some schema, .ofList deleted, .ofList inserted⟩

/-- The changes that named texts tell. -/
def Delta.read? (texts : List (String × String)) : Option Delta :=
  (texts.mapM fun e => (RelationDelta.read? e.2).map fun d => (e.1, d)).map fun changes =>
    ⟨.ofList changes⟩

/-- The change has columns and rows that can be told from its text. -/
structure RelationDelta.Legible (d : RelationDelta) (schema : Schema) : Prop where
  schema_eq : d.schema = some schema
  columns : schema.Legible
  changed : d.isEmpty = false
  deleted : ∀ t ∈ d.deleted, t.Legible schema
  inserted : ∀ t ∈ d.inserted, t.Legible schema

/-- Every change of the delta is legible. -/
def Delta.Legible (d : Delta) : Prop :=
  ∀ name change, d.get? name = some change → ∃ schema, change.Legible schema

section Marks

variable {joint : String} {mark : Char} (hjoint : joint.toList = [mark])
include hjoint

theorem unmark_append (s : String) : unmark mark (joint ++ s) = some s := by
  simp [unmark, hjoint]

theorem unmark_append_ne {other : Char} (hne : mark ≠ other) (s : String) :
    unmark other (joint ++ s) = none := by
  simp [unmark, hjoint, hne]

theorem filterMap_unmark (ts : List Tuple) :
    (ts.map fun t => joint ++ t.text).filterMap (unmark mark) = ts.map Tuple.text := by
  induction ts with
  | nil => rfl
  | cons t ts ih =>
    rw [List.map_cons, List.filterMap_cons_some (unmark_append hjoint t.text), ih]
    rfl

theorem filterMap_unmark_ne {other : Char} (hne : mark ≠ other) (ts : List Tuple) :
    (ts.map fun t => joint ++ t.text).filterMap (unmark other) = [] := by
  rw [List.filterMap_eq_nil_iff]
  intro line hline
  obtain ⟨t, _, rfl⟩ := List.mem_map.mp hline
  exact unmark_append_ne hjoint hne t.text

end Marks

namespace RelationDelta.Legible

variable {d : RelationDelta} {schema : Schema} (h : d.Legible schema)
include h

/-- The lines of a change: the columns, and one for each row. -/
theorem pieces_text : pieces '\n' d.text = schema.text ::
    (d.deleted.toList.map (fun t => "-" ++ t.text) ++
      d.inserted.toList.map fun t => "+" ++ t.text) := by
  have hline {joint : String} (hjoint : '\n' ∉ joint.toList) {ts : TupleSet}
      (hts : ∀ t ∈ ts, t.Legible schema) :
      ∀ line ∈ ts.toList.map (fun t => joint ++ t.text), '\n' ∉ line.toList := by
    intro line hline
    obtain ⟨t, ht, rfl⟩ := List.mem_map.mp hline
    rw [String.toList_append, List.mem_append, not_or]
    exact ⟨hjoint, (hts t (Std.ExtTreeSet.mem_toList.mp ht)).not_mem_text⟩
  unfold text
  rw [h.schema_eq, pieces_blockText h.columns]
  intro line hmem
  rcases List.mem_append.mp hmem with hmem | hmem
  · exact hline (by decide) h.deleted line hmem
  · exact hline (by decide) h.inserted line hmem

theorem length_pieces_text :
    (pieces '\n' d.text).length = 1 + d.deleted.size + d.inserted.size := by
  rw [h.pieces_text]
  simp [Std.ExtTreeSet.length_toList]
  omega

theorem read?_text : read? d.text = some d := by
  have hminus : "-".toList = ['-'] := rfl
  have hplus : "+".toList = ['+'] := rfl
  have hne : '-' ≠ '+' := by decide
  unfold read?
  rw [h.pieces_text]
  simp only [List.filterMap_append, filterMap_unmark hminus, filterMap_unmark hplus,
    filterMap_unmark_ne hminus hne, filterMap_unmark_ne hplus hne.symm, List.append_nil,
    List.nil_append]
  simp only [h.columns.read?_text, mapM_read?_text h.columns.1 h.deleted,
    mapM_read?_text h.columns.1 h.inserted, bind, Option.bind]
  rw [ofList_toList, ofList_toList, ← h.schema_eq]
  rfl

end RelationDelta.Legible

/-- No change of a legible delta is left out of its texts. -/
theorem Delta.Legible.blocks_eq {d : Delta} (h : d.Legible) :
    d.blocks = d.relations.toList.map fun e => (e.1, e.2.text) := by
  have hfilter : (d.relations.filter fun _ r => !r.isEmpty) = d.relations := by
    refine Std.ExtTreeMap.filter_eq_self_iff.mpr fun name hname => ?_
    obtain ⟨schema, hlegible⟩ :=
      h name d.relations[name] (Std.ExtTreeMap.getElem?_eq_some_getElem _)
    simp [hlegible.changed]
  unfold blocks
  rw [hfilter]

theorem Delta.Legible.read?_blocks {d : Delta} (h : d.Legible) : read? d.blocks = some d := by
  unfold read?
  rw [h.blocks_eq, mapM_entries_eq_some fun name change hchange => ?_]
  · simp only [Option.map_some, map_ofList_toList]
  · obtain ⟨schema, hlegible⟩ := h name change hchange
    exact hlegible.read?_text

end ProgramFacts.Fact
