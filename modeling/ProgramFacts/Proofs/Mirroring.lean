import ProgramFacts.Proofs.Calls
import ProgramFacts.Proofs.Layout

/-! The directory sink against the sink in memory.  Two sessions that differ in these sinks only go
on step by step with the same program, facts and mutations, while the one lays out below its root
the batches that the other keeps. -/

namespace ProgramFacts

open Program ProgramFacts.Flow ProgramFacts.Fact Mutation ProgramFacts.Random Files Extraction

namespace Fact

/-! ## Blocks -/

theorem RelationDelta.text_ne_empty {d : RelationDelta} (h : d.isEmpty = false) : d.text ≠ "" := by
  intro hempty
  have hline {line : String} (hmem : line ∈ (d.deleted.toList.map fun t => "-" ++ t.text) ++
      d.inserted.toList.map fun t => "+" ++ t.text) : line = "" := by
    refine String.toList_injective (List.eq_nil_iff_forall_not_mem.mpr fun c hc => ?_)
    have hmem : c ∈ d.text.toList := by
      rw [text, blockText, String.toList_intercalate]
      exact mem_intercalate_of_mem (List.mem_map_of_mem (List.mem_append_right _ hmem)) hc
    simp [hempty] at hmem
  have hdeleted : d.deleted = ∅ := by
    refine Std.ExtTreeSet.eq_empty_iff_forall_not_mem.mpr fun t ht => ?_
    have hminus := hline <|
      List.mem_append_left _ (List.mem_map_of_mem (Std.ExtTreeSet.mem_toList.mpr ht))
    simp at hminus
  have hinserted : d.inserted = ∅ := by
    refine Std.ExtTreeSet.eq_empty_iff_forall_not_mem.mpr fun t ht => ?_
    have hplus := hline <|
      List.mem_append_right _ (List.mem_map_of_mem (Std.ExtTreeSet.mem_toList.mpr ht))
    simp at hplus
  simp [isEmpty, hdeleted, hinserted] at h

theorem Delta.mem_blocks {d : Delta} {x : String × String} :
    x ∈ d.blocks ↔ ∃ change, d.get? x.1 = some change ∧ change.isEmpty = false ∧
      change.text = x.2 := by
  obtain ⟨name, block⟩ := x
  simp [blocks, get?, Std.ExtTreeMap.mem_toList_iff_getElem?_eq_some, and_assoc]

theorem Delta.nodup_blocks (d : Delta) : (d.blocks.map Prod.fst).Nodup := by
  have hnames : Prod.fst ∘ (fun p : String × RelationDelta => (p.1, p.2.text)) = Prod.fst := rfl
  rw [blocks, List.map_map, hnames, Std.ExtTreeMap.map_fst_toList_eq_keys]
  exact Std.ExtTreeMap.nodup_keys

end Fact

namespace Session

/-! ## Names in the layout -/

namespace Directory

/-- The names of the relations are words, and short. -/
theorem word_name (rel : Rel) :
    rel.name.toList.all Char.isAlpha = true ∧ rel.name.utf8ByteSize ≤ 40 := by
  have hall : ∀ rel ∈ Rel.all,
      rel.name.toList.all Char.isAlpha = true ∧ rel.name.utf8ByteSize ≤ 40 := by decide +kernel
  exact hall rel rel.mem_all

theorem not_mem_fileName {c : Char} (hc : c.isAlpha = false) (hc' : c ≠ '.') (rel : Rel) :
    c ∉ (rel.name ++ ".facts").toList := by
  rw [String.toList_append, List.mem_append, not_or]
  constructor
  · intro hmem
    rw [List.all_eq_true.mp (word_name rel).1 c hmem] at hc
    contradiction
  · have hext : ".facts".toList = '.' :: "facts".toList := rfl
    rw [hext, List.mem_cons, not_or]
    refine ⟨hc', fun hmem => ?_⟩
    have hall : "facts".toList.all Char.isAlpha = true := by decide
    rw [List.all_eq_true.mp hall c hmem] at hc
    contradiction

theorem utf8ByteSize_fileName (rel : Rel) :
    (rel.name ++ ".facts").utf8ByteSize = rel.name.utf8ByteSize + 6 := by
  rw [String.utf8ByteSize_append]
  rfl

theorem plainName_fileName (rel : Rel) : PlainName (rel.name ++ ".facts") := by
  have hsize := utf8ByteSize_fileName rel
  obtain ⟨_, hshort⟩ := word_name rel
  have hcomponent : component? (rel.name ++ ".facts") = some (.name (rel.name ++ ".facts")) := by
    have hne {s : String} (hs : s.utf8ByteSize ≤ 2) : rel.name ++ ".facts" ≠ s := by
      rintro rfl
      omega
    unfold component?
    split
    · exact absurd ‹_› (hne (by decide))
    · exact absurd ‹_› (hne (by decide))
    · exact absurd ‹_› (hne (by decide))
    · rfl
  refine ⟨hcomponent, not_mem_fileName rfl (by decide) rel, ?_⟩
  rw [hsize]
  show _ ≤ 255
  omega

/-- No path of the layout is too long below a root of no more than 3900 bytes. -/
theorem usable_relationPath {root : String} (hroot : components root ≠ [])
    (hzero : '\x00' ∉ root.toList) (hsize : root.utf8ByteSize ≤ 3900) {i : Nat}
    (hi : i < UInt64.size) (rel : Rel) :
    Usable (relationPath (iterationPath root i) rel.name) := by
  have hnumber := plainName_toString hi
  have hiteration : components (iterationPath root i) ≠ [] := by
    rw [iterationPath, components_join hroot hnumber]
    simp
  constructor
  · refine not_mem_join (by decide) (not_mem_join (by decide) hzero ?_) ?_
    · exact not_mem_repr i rfl
    · exact not_mem_fileName rfl (by decide) rel
  · have hfile := utf8ByteSize_fileName rel
    obtain ⟨_, hshort⟩ := word_name rel
    have hdigits := utf8ByteSize_toString_le hi
    have houter := utf8ByteSize_join_le hroot hnumber
    have hinner := utf8ByteSize_join_le hiteration (plainName_fileName rel)
    unfold iterationPath relationPath at *
    show _ ≤ 4095
    omega

/-- The blocks of a delta between encoded stores can be written into a directory. -/
theorem writable_between {previous : Option Store} {current : Store}
    (hprevious : Encoded (previous.getD .empty)) (hcurrent : Encoded current) {directory : String}
    (hpaths : ∀ rel : Rel, Usable (relationPath directory rel.name)) :
    Writable directory (Delta.between previous (some current)).blocks := by
  have hrel : ∀ x ∈ (Delta.between previous (some current)).blocks, ∃ rel : Rel,
      rel.name = x.1 := by
    intro x hx
    obtain ⟨change, hchange, _⟩ := Delta.mem_blocks.mp hx
    have hne := Delta.exists_change_iff_tuples_ne.mp ⟨change, hchange⟩
    exact hprevious.exists_rel_of_ne hcurrent hne
  refine ⟨Delta.nodup_blocks _, fun x hx => ?_, fun x hx => ?_⟩
  · obtain ⟨rel, hname⟩ := hrel x hx
    exact hname ▸ plainName_fileName rel
  · obtain ⟨rel, hname⟩ := hrel x hx
    exact hname ▸ hpaths rel

end Directory

/-! ## Two sessions side by side -/

/-- The session that writes to a tree is where the one in memory is, and has laid out what the
other keeps. -/
structure Mirrors (t₀ : Tree) (place : Place) (s : State Tree) (m : State Memory) : Prop where
  arena : s.arena = m.arena
  generator : s.generator = m.generator
  previous : s.previous = m.previous
  mutations : s.mutations = m.mutations
  failures : s.persistenceFailures = 0 ∧ m.persistenceFailures = 0
  encoded : Encoded (m.previous.getD .empty)
  laid : Directory.Laid t₀ s.sink place m.sink.batches

theorem Mirrors.lay {t₀ : Tree} {place : Place} {s : State Tree} {m : State Memory}
    (h : Mirrors t₀ place s m) {sink : Tree} {sink' : Memory}
    (hlaid : Directory.Laid t₀ sink place sink'.batches) (log log' : List Message) :
    Mirrors t₀ place { s with sink, log } { m with sink := sink', log := log' } :=
  ⟨h.arena, h.generator, h.previous, h.mutations, h.failures, h.encoded, hlaid⟩

theorem shares_mirrors (t₀ : Tree) (place : Place) : Shares (Mirrors t₀ place) where
  arena h := h.arena
  generator h := h.generator
  mutations h := h.mutations
  change h _ _ _ _ _ _ harena hgenerator hmutations _ _ _ _ :=
    ⟨harena, hgenerator, h.previous, hmutations, h.failures, h.encoded, h.laid⟩

theorem exec_useSink_of_ok {σ : Type} (policy : FailurePolicy) {operation : σ → SinkStep σ}
    {s : State σ} (h : (operation s.sink).result = .ok ()) :
    exec (useSink policy operation) s =
      (.ok (), { s with
        sink := (operation s.sink).state
        log := (operation s.sink).log.reverse ++ s.log }) := by
  rw [exec_useSink, h]

section Mirrors

variable {root : String} {place : Place} (hroot : Names root place)
  (config : Config) (mutator : Mutator) (flow : FlowGraph)
  (hpaths : ∀ i ≤ config.iterationBudget.toNat, ∀ rel : Rel,
    Usable (Directory.relationPath (Directory.iterationPath root i) rel.name))
include hroot hpaths

theorem couples_mirrored_observe (t₀ : Tree) {i : Nat} (hi : i ≤ config.iterationBudget.toNat) :
    Couples (Mirrors t₀ place) (observe ⟨config, mutator, flow, Directory.sink root⟩ i)
      (observe ⟨config, mutator, flow, Memory.sink⟩ i) := by
  have hR := shares_mirrors t₀ place
  have hsize : i < UInt64.size := Nat.lt_of_le_of_lt hi config.iterationBudget.toNat_lt
  have husable : Usable (Directory.iterationPath root i) := by
    refine Usable.of_join ?_ (Directory.plainName_fileName .stringConst) (hpaths i hi .stringConst)
    rw [Directory.iterationPath,
      components_join hroot.components_ne_nil (plainName_toString hsize)]
    simp
  refine couples_get_bind fun s m hsm => ?_
  rw [hsm.arena]
  refine (couples_say hR _).bind fun _ => couples_lift_bind fun current hcurrent => ?_
  have hencoded : Encoded current := encoded_of_extract hcurrent
  refine couples_get_bind fun s m hsm => ?_
  rw [hsm.previous]
  -- The delta is known before the sink is used: it is between stores of the encoding.
  have hwritable := Directory.writable_between hsm.encoded hencoded (hpaths i hi)
  refine (couples_say hR _).bind fun _ => Couples.bind (fun s' m' hsm' => ?_) fun _ => ?_
  · obtain ⟨hresult, hlaid⟩ := Directory.laid_persist hroot hsm'.laid hsize husable hwritable
    dsimp only
    rw [exec_useSink_of_ok _ hresult, exec_useSink_of_ok _ rfl]
    exact ⟨rfl, hsm'.lay hlaid _ _⟩
  · exact couples_modify fun s m hsm =>
      ⟨hsm.arena, hsm.generator, rfl, hsm.mutations, hsm.failures, hencoded, hsm.laid⟩

theorem mirrored_start (g : Arena) {t : Tree} (ht : t.Sited place) (m : Memory) :
    let left := exec (start ⟨config, mutator, flow, Directory.sink root⟩) (.initial config g t)
    let right := exec (start ⟨config, mutator, flow, Memory.sink⟩) (.initial config g m)
    left.1 = right.1 ∧ Mirrors t place left.2 right.2 := by
  have hiterate : Couples (Mirrors t place)
      (iterate ⟨config, mutator, flow, Directory.sink root⟩ config.iterationBudget.toNat 0)
      (iterate ⟨config, mutator, flow, Memory.sink⟩ config.iterationBudget.toNat 0) :=
    couples_iterate (couples_advance (shares_mirrors t place) rfl rfl) fun j hj =>
      couples_mirrored_observe hroot config mutator flow hpaths t (by omega)
  obtain ⟨hresult, hlaid⟩ := Directory.laid_reset hroot ht
  unfold start
  rw [exec_bind, exec_bind, exec_useSink_of_ok _ hresult, exec_useSink_of_ok _ rfl]
  -- Only the reset makes the sinks alike, so the coupling starts after it.
  exact hiterate _ _ ⟨rfl, rfl, rfl, rfl, ⟨rfl, rfl⟩, encoded_empty, hlaid⟩

/-- The sessions end alike, without a failure of a sink, and the last tree has what the batches in
memory leave. -/
theorem mirrored_run (g : Arena) {t : Tree} (ht : t.Sited place) (m : Memory) :
    let directory := run ⟨config, mutator, flow, Directory.sink root⟩ g t
    let memory := run ⟨config, mutator, flow, Memory.sink⟩ g m
    directory.report = memory.report ∧ directory.arena = memory.arena ∧
      Directory.Laid t directory.sink place memory.sink.batches ∧
      ∀ report, memory.report = .ok report → report.persistenceFailures = 0 := by
  have hstart := mirrored_start hroot config mutator flow hpaths g ht m
  rw [run_eq, run_eq, exec_session, exec_session]
  dsimp only at hstart ⊢
  generalize exec (start ⟨config, mutator, flow, Directory.sink root⟩) _ = left at hstart ⊢
  generalize exec (start ⟨config, mutator, flow, Memory.sink⟩) _ = right at hstart ⊢
  obtain ⟨result, s⟩ := left
  obtain ⟨_, m'⟩ := right
  obtain ⟨rfl, hmirrors⟩ := hstart
  have hmirrors : Mirrors t place s m' := hmirrors
  cases result with
  | error failure => exact ⟨rfl, hmirrors.arena, hmirrors.laid, nofun⟩
  | ok ended =>
    refine ⟨?_, hmirrors.arena, hmirrors.laid, ?_⟩
    · dsimp only
      rw [hmirrors.mutations, hmirrors.failures.1, hmirrors.failures.2]
    · rintro _ ⟨⟩
      exact hmirrors.failures.2

end Mirrors

/-- A tree with what an earlier session of eight iterations or more, or something else, has left
below `out`. -/
def stale : Tree :=
  let out : Tree := ⟨Tree.empty.entries.insert ["out"] .directory⟩
  let iteration : Tree := ⟨out.entries.insert ["out", "7"] .directory⟩
  ⟨iteration.entries.insert ["out", "stale.facts"] (.file "old".toUTF8)⟩

theorem grounded_stale : stale.Grounded := by
  have hout := Tree.grounded_empty.insert [] "out" rfl rfl .directory
  have hiteration := hout.insert ["out"] "7" (by rw [Tree.entry?_insert _ (by simp)]; rfl)
    (by rw [Tree.entry?_insert _ (by simp)]; rfl) .directory
  refine hiteration.insert ["out"] "stale.facts" ?_ ?_ (.file "old".toUTF8)
  · rw [Tree.entry?_insert _ (by simp), if_neg (by simp), Tree.entry?_insert _ (by simp)]
    rfl
  · rw [Tree.entry?_insert _ (by simp), if_neg (by simp), Tree.entry?_insert _ (by simp)]
    rfl

theorem clear_stale : stale.Clear ["out"] := by
  intro q hq content
  rcases List.prefix_concat_iff.mp (show q <+: [] ++ ["out"] from hq) with rfl | hq
  · have hout : stale.entry? ["out"] = some .directory := rfl
    simp [hout]
  · rw [List.prefix_nil.mp hq]
    exact nofun

end Session

end ProgramFacts
