import ProgramFacts.Proofs.Directories
import ProgramFacts.Proofs.Legibility

/-! What the directory sink leaves below its root: a directory for each iteration, with a file for
each block of the texts that a sink in memory keeps of the same session, and nothing else. -/

namespace ProgramFacts.Session

open Program ProgramFacts.Fact Files Tree Extraction

namespace Directory

/-! ## Renewing and filling a directory -/

/-- `t'` is `t` with an empty directory at a place. -/
structure Renewed (t t' : Tree) (place : Place) : Prop where
  along : ∀ q, q <+: place → t'.entry? q = some .directory
  below : ∀ q, place <+: q → q ≠ place → t'.entry? q = none
  beside : ∀ q, ¬q <+: place → ¬place <+: q → t'.entry? q = t.entry? q

theorem exists_renew {t : Tree} {path : String} {place : Place} (h : Names path place)
    (ht : t.Sited place) :
    ∃ t', renew path t = (.ok (), t') ∧ Renewed t t' place := by
  have hbetween {q : Place} (hq : q <+: place) (hq' : place <+: q) : q = place :=
    hq.eq_of_length (Nat.le_antisymm hq.length_le hq'.length_le)
  unfold renew
  cases hplace : t.entry? place with
  | none =>
    obtain ⟨t', hcreate, hopened⟩ := exists_createAll h.toLeads ht.clear
    refine ⟨t', by simp [exists?_of_none h ht hplace, hcreate], hopened.along, ?_, ?_⟩
    · intro q hq hq'
      rw [hopened.beside q fun hle => hq' (hbetween hle hq), ht.below hplace q hq]
    · exact fun q hq _ => hopened.beside q hq
  | some e =>
    cases e with
    | file content => exact absurd hplace (ht.clear place (List.prefix_refl _) content)
    | directory =>
      obtain ⟨mid, hremove, hentry⟩ := exists_removeAll h ht hplace
      have hclear : mid.Clear place := by
        intro q hq content
        rw [hentry]
        split
        · simp
        · exact ht.clear q hq content
      obtain ⟨t', hcreate, hopened⟩ := exists_createAll h.toLeads hclear
      refine ⟨t', ?_, hopened.along, ?_, ?_⟩
      · simp [exists?_of_directory h ht hplace, hremove, hcreate]
      · intro q hq hq'
        rw [hopened.beside q fun hle => hq' (hbetween hle hq), hentry, if_pos hq]
      · intro q hq hq'
        rw [hopened.beside q hq, hentry, if_neg hq']

/-- `t'` is `t` with a file in a directory for each block. -/
structure Filled (t t' : Tree) (place : Place) (blocks : List (String × String)) : Prop where
  files : ∀ e ∈ blocks, t'.entry? (place ++ [e.1 ++ ".facts"]) = some (.file e.2.toUTF8)
  beside : ∀ q, (∀ e ∈ blocks, q ≠ place ++ [e.1 ++ ".facts"]) → t'.entry? q = t.entry? q

/-- The names of the blocks are distinct, and each leads to a file in the directory. -/
structure Writable (directory : String) (blocks : List (String × String)) : Prop where
  nodup : (blocks.map Prod.fst).Nodup
  plain : ∀ e ∈ blocks, PlainName (e.1 ++ ".facts")
  usable : ∀ e ∈ blocks, Usable (relationPath directory e.1)

theorem writeBlocks_cons {directory name block : String} {t mid : Tree}
    (h : t.write (relationPath directory name) block.toUTF8 = .ok mid)
    (blocks : List (String × String)) :
    (writeBlocks directory ((name, block) :: blocks) t).result =
        (writeBlocks directory blocks mid).result ∧
      (writeBlocks directory ((name, block) :: blocks) t).state =
        (writeBlocks directory blocks mid).state := by
  rw [writeBlocks.eq_def]
  dsimp only
  rw [h]
  exact ⟨rfl, rfl⟩

theorem Filled.cons {t mid t' : Tree} {place : Place} {e : String × String}
    {blocks : List (String × String)}
    (hmid : ∀ q, mid.entry? q =
      if q = place ++ [e.1 ++ ".facts"] then some (.file e.2.toUTF8) else t.entry? q)
    (hnew : e.1 ∉ blocks.map Prod.fst) (h : Filled mid t' place blocks) :
    Filled t t' place (e :: blocks) := by
  have hdistinct : ∀ x ∈ blocks, place ++ [e.1 ++ ".facts"] ≠ place ++ [x.1 ++ ".facts"] := by
    intro x hx heq
    have hname : e.1 = x.1 := by simpa using heq
    exact hnew (List.mem_map.mpr ⟨x, hx, hname.symm⟩)
  constructor
  · rw [List.forall_mem_cons]
    refine ⟨?_, h.files⟩
    rw [h.beside _ hdistinct, hmid, if_pos rfl]
  · intro q hq
    obtain ⟨hq, hrest⟩ := List.forall_mem_cons.mp hq
    rw [h.beside q hrest, hmid, if_neg hq]

theorem filled_writeBlocks {directory : String} {place : Place} (h : Names directory place)
    {blocks : List (String × String)} (hblocks : Writable directory blocks) {t : Tree}
    (hdirs : ∀ q, q <+: place → t.entry? q = some .directory)
    (hfree : ∀ name, t.entry? (place ++ [name]) ≠ some .directory) :
    (writeBlocks directory blocks t).result = .ok () ∧
      Filled t (writeBlocks directory blocks t).state place blocks := by
  induction blocks generalizing t with
  | nil => exact ⟨rfl, by simp, fun _ _ => rfl⟩
  | cons e blocks ih =>
    obtain ⟨name, block⟩ := e
    obtain ⟨hplain, hplains⟩ := List.forall_mem_cons.mp hblocks.plain
    obtain ⟨husable, husables⟩ := List.forall_mem_cons.mp hblocks.usable
    obtain ⟨hnew, hnodup⟩ := List.nodup_cons.mp hblocks.nodup
    have hpath : Names (relationPath directory name) (place ++ [name ++ ".facts"]) :=
      h.join hplain husable
    have hslash := hplain.not_endsWithSlash_join h.components_ne_nil
    obtain ⟨mid, hwrite, hmid⟩ := exists_write hpath hslash hdirs (hfree _) block.toUTF8
    have hdirs' : ∀ q, q <+: place → mid.entry? q = some .directory := by
      intro q hq
      have hother : q ≠ place ++ [name ++ ".facts"] := by
        rintro rfl
        exact not_append_prefix (by simp) hq
      rw [hmid, if_neg hother, hdirs q hq]
    have hfree' : ∀ name', mid.entry? (place ++ [name']) ≠ some .directory := by
      intro name'
      rw [hmid]
      split
      · simp
      · exact hfree name'
    obtain ⟨hresult, hfilled⟩ := ih ⟨hnodup, hplains, husables⟩ hdirs' hfree'
    obtain ⟨hresult', hstate⟩ := writeBlocks_cons hwrite blocks
    rw [hresult', hstate]
    exact ⟨hresult, hfilled.cons hmid hnew⟩

/-- What lies at and below a place once its directory has been renewed and filled. -/
theorem Filled.iff_of_renewed {t mid last : Tree} {place : Place} {blocks : List (String × String)}
    (hr : Renewed t mid place) (hf : Filled mid last place blocks) {q : Place} {e : Entry} :
    last.entry? (place ++ q) = some e ↔ q = [] ∧ e = .directory ∨
      ∃ x ∈ blocks, q = [x.1 ++ ".facts"] ∧ e = .file x.2.toUTF8 := by
  by_cases hfile : ∃ x ∈ blocks, q = [x.1 ++ ".facts"]
  · obtain ⟨x, hx, rfl⟩ := hfile
    have hentry := hf.files x hx
    rw [hentry, Option.some_inj]
    constructor
    · rintro rfl
      exact .inr ⟨x, hx, rfl, rfl⟩
    · rintro (⟨hq, _⟩ | ⟨x', hx', hq, rfl⟩)
      · simp at hq
      · exact Option.some.inj (hentry.symm.trans (hq ▸ hf.files x' hx'))
  · have hbeside : last.entry? (place ++ q) = mid.entry? (place ++ q) :=
      hf.beside _ fun x hx hq => hfile ⟨x, hx, List.append_cancel_left hq⟩
    rw [hbeside]
    constructor
    · intro he
      by_cases hq : q = []
      · rw [hq, List.append_nil, hr.along place (List.prefix_refl _)] at he
        exact .inl ⟨hq, (Option.some.inj he).symm⟩
      · rw [hr.below _ (List.prefix_append place q) (by simpa using hq)] at he
        contradiction
    · rintro (⟨rfl, rfl⟩ | ⟨x, hx, hq, _⟩)
      · rw [List.append_nil, hr.along place (List.prefix_refl _)]
      · exact absurd ⟨x, hx, hq⟩ hfile

/-! ## The layout of batches -/

/-- The last batch of an iteration. -/
def latest (bs : List Batch) (i : Nat) : Option Batch := bs.reverse.find? fun b => b.iteration == i

theorem latest_concat (bs : List Batch) (b : Batch) (i : Nat) :
    latest (bs ++ [b]) i = if b.iteration = i then some b else latest bs i := by
  rw [latest, List.reverse_append, List.reverse_singleton, List.singleton_append, List.find?_cons]
  by_cases h : b.iteration = i
  · simp [h]
  · simp only [beq_eq_false_iff_ne.mpr h, if_neg h, latest]

theorem latest_eq_some {bs : List Batch} (h : (bs.map Batch.iteration).Nodup) {i : Nat}
    {b : Batch} : latest bs i = some b ↔ b ∈ bs ∧ b.iteration = i := by
  constructor
  · intro hb
    exact ⟨List.mem_reverse.mp (List.mem_of_find?_eq_some hb), by simpa using List.find?_some hb⟩
  · rintro ⟨hb, rfl⟩
    cases hlatest : latest bs b.iteration with
    | none => exact absurd (List.find?_eq_none.mp hlatest b (List.mem_reverse.mpr hb)) (by simp)
    | some b' =>
      have hb' : b'.iteration = b.iteration := by simpa using List.find?_some hlatest
      have hmem : b' ∈ bs := List.mem_reverse.mp (List.mem_of_find?_eq_some hlatest)
      rw [List.inj_on_of_nodup_map h hmem hb hb']

/-- The entries that batches leave below the root: a directory for each iteration, with a file for
each block of the last batch of that iteration. -/
inductive Written (bs : List Batch) : Place → Entry → Prop
  | directory {i : Nat} {b : Batch} : latest bs i = some b → Written bs [toString i] .directory
  | file {i : Nat} {b : Batch} {name block : String} :
      latest bs i = some b → (name, block) ∈ b.blocks →
      Written bs [toString i, name ++ ".facts"] (.file block.toUTF8)

theorem written_iff {bs : List Batch} (h : (bs.map Batch.iteration).Nodup) {q : Place} {e : Entry} :
    Written bs q e ↔ ∃ b ∈ bs, q = [toString b.iteration] ∧ e = .directory ∨
      ∃ x ∈ b.blocks, q = [toString b.iteration, x.1 ++ ".facts"] ∧ e = .file x.2.toUTF8 := by
  constructor
  · intro hwritten
    cases hwritten with
    | directory hlatest =>
      obtain ⟨hb, rfl⟩ := (latest_eq_some h).mp hlatest
      exact ⟨_, hb, .inl ⟨rfl, rfl⟩⟩
    | file hlatest hblock =>
      obtain ⟨hb, rfl⟩ := (latest_eq_some h).mp hlatest
      exact ⟨_, hb, .inr ⟨_, hblock, rfl, rfl⟩⟩
  · rintro ⟨b, hb, ⟨rfl, rfl⟩ | ⟨⟨name, block⟩, hblock, rfl, rfl⟩⟩
    · exact .directory ((latest_eq_some h).mpr ⟨hb, rfl⟩)
    · exact .file ((latest_eq_some h).mpr ⟨hb, rfl⟩) hblock

theorem not_written_nil {q : Place} {e : Entry} : ¬Written [] q e := by
  rintro (h | h) <;> contradiction

theorem Written.parent {bs : List Batch} {n : String} {q : Place} {e : Entry}
    (h : Written bs (n :: q) e) : Written bs [n] .directory := by
  cases h with
  | directory h | file h => exact .directory h

theorem Written.ne_file {bs : List Batch} {n : String} {content : ByteArray} :
    ¬Written bs [n] (.file content) := nofun

theorem written_concat_same {bs : List Batch} {b : Batch} {q : Place} {e : Entry} :
    Written (bs ++ [b]) (toString b.iteration :: q) e ↔ q = [] ∧ e = .directory ∨
      ∃ x ∈ b.blocks, q = [x.1 ++ ".facts"] ∧ e = .file x.2.toUTF8 := by
  have hlatest : latest (bs ++ [b]) b.iteration = some b := by rw [latest_concat, if_pos rfl]
  constructor
  · intro h
    generalize hn : toString b.iteration = n at h
    cases h with
    | directory => exact .inl ⟨rfl, rfl⟩
    | file h hblock =>
      obtain rfl := Nat.repr_inj.mp hn
      obtain rfl := Option.some.inj (hlatest.symm.trans h)
      exact .inr ⟨_, hblock, rfl, rfl⟩
  · rintro (⟨rfl, rfl⟩ | ⟨⟨name, block⟩, hblock, rfl, rfl⟩)
    · exact .directory hlatest
    · exact .file hlatest hblock

theorem written_concat_ne {bs : List Batch} {b : Batch} {n : String}
    (hne : n ≠ toString b.iteration) {q : Place} {e : Entry} :
    Written (bs ++ [b]) (n :: q) e ↔ Written bs (n :: q) e := by
  have hlatest {i : Nat} (hi : n = toString i) : latest (bs ++ [b]) i = latest bs i := by
    rw [latest_concat, if_neg fun h => hne (hi.trans (congrArg toString h.symm))]
  constructor
  · intro h
    cases h with
    | directory h => exact .directory (hlatest rfl ▸ h)
    | file h hblock => exact .file (hlatest rfl ▸ h) hblock
  · intro h
    cases h with
    | directory h => exact .directory ((hlatest rfl).trans h)
    | file h hblock => exact .file ((hlatest rfl).trans h) hblock

/-- The tree has directories all along the root, has what the batches leave below it and nothing
else, and is as `t₀` beside it. -/
structure Laid (t₀ t : Tree) (place : Place) (bs : List Batch) : Prop where
  along : ∀ q, q <+: place → t.entry? q = some .directory
  below : ∀ q ≠ [], ∀ e, t.entry? (place ++ q) = some e ↔ Written bs q e
  beside : ∀ q, ¬q <+: place → ¬place <+: q → t.entry? q = t₀.entry? q

theorem Renewed.laid {t t' : Tree} {place : Place} (h : Renewed t t' place) :
    Laid t t' place [] where
  along := h.along
  below q hq e := by
    rw [h.below _ (List.prefix_append place q) (by simpa using hq)]
    simp [not_written_nil]
  beside := h.beside

theorem Laid.sited {t₀ t : Tree} {place : Place} {bs : List Batch} (h : Laid t₀ t place bs)
    (n : String) : t.Sited (place ++ [n]) where
  clear q hq content := by
    rcases List.prefix_concat_iff.mp hq with rfl | hq
    · rw [ne_eq, h.below [n] (by simp)]
      exact Written.ne_file
    · simp [h.along q hq]
  above hn q hq := by
    rcases List.prefix_concat_iff.mp hq with rfl | hq
    · exact hn
    · exact h.along q hq
  below hn q hq := by
    obtain ⟨rest, rfl⟩ := hq
    cases he : t.entry? (place ++ [n] ++ rest) with
    | none => rfl
    | some e =>
      rw [List.append_assoc] at he
      have hparent := ((h.below _ (by simp) e).mp he).parent
      rw [← h.below [n] (by simp), hn] at hparent
      contradiction

theorem Laid.concat {t₀ t mid last : Tree} {place : Place} {bs : List Batch} {b : Batch}
    (h : Laid t₀ t place bs) (hr : Renewed t mid (place ++ [toString b.iteration]))
    (hf : Filled mid last (place ++ [toString b.iteration]) b.blocks) :
    Laid t₀ last place (bs ++ [b]) := by
  -- Nothing changes but at and below the directory of the iteration.
  have hbelow {q : Place} (hq : ¬place ++ [toString b.iteration] <+: q) :
      last.entry? q = mid.entry? q := by
    refine hf.beside q fun x _ heq => hq ?_
    exact heq ▸ List.prefix_append ..
  have hother {q : Place} (hq : ¬place ++ [toString b.iteration] <+: q) (hq' : ¬q <+: place) :
      last.entry? q = t.entry? q := by
    rw [hbelow hq]
    refine hr.beside q (fun hle => ?_) hq
    rcases List.prefix_concat_iff.mp hle with rfl | hle
    · exact hq (List.prefix_refl _)
    · exact hq' hle
  constructor
  case along =>
    intro q hq
    rw [hbelow fun hle => not_append_prefix (by simp) (hle.trans hq)]
    exact hr.along q (hq.trans (List.prefix_append ..))
  case below =>
    intro q hne e
    cases q with
    | nil => contradiction
    | cons n q =>
      by_cases hn : n = toString b.iteration
      · subst hn
        rw [written_concat_same, ← hf.iff_of_renewed hr, List.append_assoc, List.singleton_append]
      · rw [written_concat_ne hn, ← h.below (n :: q) (by simp), hother]
        · rw [List.prefix_append_right_inj, List.cons_prefix_cons]
          exact fun h => hn h.1.symm
        · exact not_append_prefix (by simp)
  case beside =>
    intro q hq hq'
    rw [hother (fun hle => hq' ((List.prefix_append ..).trans hle)) hq, h.beside q hq hq']

/-! ## Operations of the sink -/

section Sink

variable {root : String} {place : Place} (h : Names root place)
include h

/-- A reset leaves an empty directory. -/
theorem laid_reset {t : Tree} (ht : t.Sited place) :
    ((sink root).reset t).result = .ok () ∧ Laid t ((sink root).reset t).state place [] := by
  obtain ⟨t', hrenew, hrenewed⟩ := exists_renew h ht
  simp only [sink, hrenew, true_and]
  exact hrenewed.laid

/-- An iteration that is persisted leaves its batch besides the earlier ones, or in place of an
earlier one of the same number. -/
theorem laid_persist {t₀ t : Tree} {bs : List Batch} (ht : Laid t₀ t place bs) {i : Nat}
    (hi : i < UInt64.size) (husable : Usable (iterationPath root i)) {d : Delta}
    (hblocks : Writable (iterationPath root i) d.blocks) :
    ((sink root).persist i d t).result = .ok () ∧
      Laid t₀ ((sink root).persist i d t).state place (bs ++ [⟨i, d.blocks⟩]) := by
  have hpath : Names (iterationPath root i) (place ++ [toString i]) :=
    h.join (plainName_toString hi) husable
  obtain ⟨mid, hrenew, hrenewed⟩ := exists_renew hpath (ht.sited (toString i))
  have hfree (name : String) : mid.entry? (place ++ [toString i] ++ [name]) ≠ some .directory := by
    rw [hrenewed.below _ (List.prefix_append ..) (by simp)]
    simp
  obtain ⟨hresult, hfilled⟩ := filled_writeBlocks hpath hblocks hrenewed.along hfree
  simp only [sink, hrenew]
  exact ⟨hresult, ht.concat (b := ⟨i, d.blocks⟩) hrenewed hfilled⟩

end Sink

end Directory

end ProgramFacts.Session
