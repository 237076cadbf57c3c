import Mathlib.Data.List.Induction
import ProgramFacts.Files.Tree
import ProgramFacts.Proofs.Reading

/-! What the operations on a tree lead to where nothing is in their way: paths of plain names are
followed to the place that they name, directories are made all along such a path, and a directory is
removed with everything below it. -/

namespace ProgramFacts.Files

open ProgramFacts.Fact (pieces pieces_intercalate not_mem_repr)

/-! ## Paths -/

/-- The path has no zero character and is not too long. -/
def Usable (path : String) : Prop := '\x00' ∉ path.toList ∧ path.utf8ByteSize ≤ maxPathSize

instance (path : String) : Decidable (Usable path) := inferInstanceAs (Decidable (_ ∧ _))

theorem Usable.steps_eq {path : String} (h : Usable path) : steps path = .ok (components path) := by
  simp [steps, h.1, Nat.not_lt.mpr h.2]

theorem Usable.of_append {path rest : String} (h : Usable (path ++ rest)) : Usable path := by
  obtain ⟨hzero, hsize⟩ := h
  rw [String.toList_append, List.mem_append, not_or] at hzero
  rw [String.utf8ByteSize_append] at hsize
  exact ⟨hzero.1, by omega⟩

theorem Usable.of_concat {ls : List String} {s : String}
    (h : Usable ("/".intercalate (ls ++ [s]))) : Usable ("/".intercalate ls) := by
  by_cases hls : ls = []
  · rw [hls]
    decide
  · rw [String.intercalate_append_of_ne_nil hls (by simp), String.append_assoc] at h
    exact h.of_append

theorem components_append (base rest : String) :
    components (base ++ "/" ++ rest) = components base ++ components rest := by
  rw [components, segments_append, List.filterMap_append]
  rfl

theorem components_intercalate {ls : List String} (h : ∀ l ∈ ls, '/' ∉ l.toList) :
    components ("/".intercalate ls) = ls.filterMap component? := by
  by_cases hne : ls = []
  · subst hne
    rfl
  · have hpieces : segments ("/".intercalate ls) = ls := pieces_intercalate rfl hne h
    rw [components, hpieces]

theorem not_mem_of_mem_splitOn {c : Char} {cs l : List Char} (h : l ∈ cs.splitOn c) : c ∉ l := by
  induction cs generalizing l with
  | nil =>
    rw [List.splitOn_nil, List.mem_singleton] at h
    simp [h]
  | cons d cs ih =>
    rw [List.splitOn_cons_eq_if_modifyHead] at h
    split at h
    · rcases List.mem_cons.mp h with rfl | h
      · simp
      · exact ih h
    · rename_i hd
      obtain ⟨first, rest, hsplit⟩ := List.exists_cons_of_ne_nil (List.splitOn_ne_nil c cs)
      rw [hsplit] at h ih
      rcases List.mem_cons.mp h with rfl | h
      · rw [List.mem_cons, not_or]
        exact ⟨fun hc => hd (by simp [hc]), ih (.head _)⟩
      · exact ih (.tail _ h)

theorem not_mem_of_mem_segments {path s : String} (h : s ∈ segments path) : '/' ∉ s.toList := by
  obtain ⟨cs, hcs, rfl⟩ := List.mem_map.mp h
  rw [String.toList_ofList]
  exact not_mem_of_mem_splitOn hcs

/-- A text that is one name, which leads to an entry of its own. -/
structure PlainName (s : String) : Prop where
  component : component? s = some (.name s)
  not_mem : '/' ∉ s.toList
  short : s.utf8ByteSize ≤ Tree.maxNameSize

instance (s : String) : Decidable (PlainName s) :=
  decidable_of_iff
    (component? s = some (.name s) ∧ '/' ∉ s.toList ∧ s.utf8ByteSize ≤ Tree.maxNameSize)
    ⟨fun ⟨h, h', h''⟩ => ⟨h, h', h''⟩, fun h => ⟨h.component, h.not_mem, h.short⟩⟩

theorem component?_of_idle {s : String} (h : isIdle s = true) :
    component? s = none ∨ component? s = some .stay := by
  rw [isIdle, Bool.or_eq_true, beq_iff_eq, beq_iff_eq] at h
  rcases h with rfl | rfl
  · exact .inl rfl
  · exact .inr rfl

theorem component?_of_not_idle {s : String} (h : isIdle s = false) :
    component? s = some .up ∨ component? s = some (.name s) := by
  unfold component?
  split <;> simp_all [isIdle]

theorem utf8ByteSize_le (s : String) : s.utf8ByteSize ≤ 4 * s.length := by
  induction s using String.push_induction with
  | empty => decide
  | push s c ih =>
    have hc := c.utf8Size_le_four
    rw [String.utf8ByteSize_push, String.length_push]
    omega

theorem utf8ByteSize_toString_le {i : Nat} (h : i < UInt64.size) :
    (toString i).utf8ByteSize ≤ 80 := by
  have hlength : i.repr.length ≤ 20 :=
    (Nat.length_repr_le_iff (by decide)).mpr (Nat.lt_trans h (by decide))
  have hsize := utf8ByteSize_le i.repr
  show i.repr.utf8ByteSize ≤ 80
  omega

/-- A number is a name of its own. -/
theorem plainName_toString {i : Nat} (h : i < UInt64.size) : PlainName (toString i) := by
  have hdot : '.' ∉ (toString i).toList := not_mem_repr i rfl
  have hcomponent : component? (toString i) = some (.name (toString i)) := by
    unfold component?
    split
    · rename_i hempty
      exact absurd hempty Nat.repr_ne_empty
    · rename_i hstay
      simp [hstay] at hdot
    · rename_i hup
      simp [hup] at hdot
    · rfl
  exact ⟨hcomponent, not_mem_repr i rfl, Nat.le_trans (utf8ByteSize_toString_le h) (by decide)⟩

theorem PlainName.components_eq {s : String} (h : PlainName s) : components s = [.name s] := by
  have hone : "/".intercalate [s] = s := String.intercalate_singleton
  rw [← hone, components_intercalate (by simpa using h.not_mem)]
  simp [h.component]

theorem endsWithSlash_iff {path : String} : endsWithSlash path = true ↔ ∃ s, path = s ++ "/" := by
  rw [endsWithSlash, beq_iff_eq, List.getLast?_eq_some_iff]
  constructor
  · rintro ⟨cs, hcs⟩
    exact ⟨String.ofList cs, String.toList_injective (by simp [hcs])⟩
  · rintro ⟨s, rfl⟩
    exact ⟨s.toList, by simp⟩

theorem PlainName.not_endsWithSlash {s : String} (h : PlainName s) (base : String) :
    endsWithSlash (base ++ s) = false := by
  have hne : s.toList ≠ [] := by
    intro hnil
    obtain rfl : s = "" := String.toList_injective hnil
    simpa [component?] using h.component
  rw [endsWithSlash, String.toList_append, List.getLast?_append_of_ne_nil _ hne,
    beq_eq_false_iff_ne]
  exact fun hlast => h.not_mem (List.mem_of_getLast? hlast)

/-- A name is joined to a path by one slash. -/
theorem exists_join {base s : String} (hbase : components base ≠ []) (h : PlainName s) :
    ∃ b, (base = b ∨ base = b ++ "/") ∧ join base s = b ++ "/" ++ s := by
  have hrelative : isAbsolute s = false := by
    rw [isAbsolute, beq_eq_false_iff_ne]
    exact fun hhead => h.not_mem (List.mem_of_head? hhead)
  have hne : base.isEmpty = false := by
    by_contra hempty
    obtain rfl : base = "" := by simpa using hempty
    exact hbase rfl
  unfold join
  by_cases hslash : endsWithSlash base = true
  · obtain ⟨b, rfl⟩ := endsWithSlash_iff.mp hslash
    exact ⟨b, .inr rfl, by simp [hrelative, hslash]⟩
  · exact ⟨base, .inl rfl, by simp [hrelative, hne, hslash]⟩

theorem components_join {base s : String} (hbase : components base ≠ []) (h : PlainName s) :
    components (join base s) = components base ++ [.name s] := by
  obtain ⟨b, hb, hjoin⟩ := exists_join hbase h
  rw [hjoin, components_append, h.components_eq]
  rcases hb with rfl | rfl
  · rfl
  · have hslash : components (b ++ "/" ++ "") = components b ++ components "" :=
      components_append b ""
    rw [String.append_empty] at hslash
    rw [hslash]
    exact congrArg (· ++ _) (List.append_nil _).symm

theorem PlainName.not_endsWithSlash_join {base s : String} (h : PlainName s)
    (hbase : components base ≠ []) : endsWithSlash (join base s) = false := by
  obtain ⟨b, _, hjoin⟩ := exists_join hbase h
  rw [hjoin]
  exact h.not_endsWithSlash (b ++ "/")

theorem Usable.of_join {base s : String} (hbase : components base ≠ []) (h : PlainName s)
    (hjoin : Usable (join base s)) : Usable base := by
  obtain ⟨b, rfl | rfl, hb⟩ := exists_join hbase h
  · rw [hb, String.append_assoc] at hjoin
    exact hjoin.of_append
  · rw [hb] at hjoin
    exact hjoin.of_append

theorem utf8ByteSize_join_le {base s : String} (hbase : components base ≠ []) (h : PlainName s) :
    (join base s).utf8ByteSize ≤ base.utf8ByteSize + 1 + s.utf8ByteSize := by
  obtain ⟨b, hb, hjoin⟩ := exists_join hbase h
  have hslash : "/".utf8ByteSize = 1 := by decide
  rw [hjoin, String.utf8ByteSize_append, String.utf8ByteSize_append]
  rcases hb with rfl | rfl
  · omega
  · rw [String.utf8ByteSize_append]
    omega

theorem not_mem_join {c : Char} (hc : c ≠ '/') {base s : String} (hbase : c ∉ base.toList)
    (hs : c ∉ s.toList) : c ∉ (join base s).toList := by
  unfold join
  split
  · exact hs
  · split
    · simp [hbase, hs]
    · simp [hbase, hs, hc]

/-- The components go along the names of a place, and nowhere else. -/
def Along (cs : List Component) (place : Place) : Prop := cs.filter (· ≠ .stay) = place.map .name

instance (cs : List Component) (place : Place) : Decidable (Along cs place) :=
  inferInstanceAs (Decidable (_ = _))

theorem Along.nil {place : Place} (h : Along [] place) : place = [] := List.map_eq_nil_iff.mp h.symm

theorem Along.stay {cs : List Component} {place : Place} (h : Along (.stay :: cs) place) :
    Along cs place := h

theorem Along.not_up {cs : List Component} {place : Place} (h : Along cs place) : .up ∉ cs := by
  intro hup
  have hmem : Component.up ∈ place.map Component.name := h ▸ List.mem_filter.mpr ⟨hup, rfl⟩
  simp at hmem

theorem Along.name {cs : List Component} {n : String} {place : Place}
    (h : Along (.name n :: cs) place) : ∃ rest, place = n :: rest ∧ Along cs rest := by
  have hplace : place.map Component.name = .name n :: cs.filter (· ≠ .stay) := h.symm
  obtain ⟨m, rest, rfl, hm, hrest⟩ := List.map_eq_cons_iff.mp hplace
  exact ⟨rest, by rw [Component.name.inj hm], hrest.symm⟩

theorem along_concat_name {cs : List Component} {n : String} {place : Place} :
    Along (cs ++ [.name n]) place ↔ ∃ rest, place = rest ++ [n] ∧ Along cs rest := by
  have hfilter : (cs ++ [Component.name n]).filter (· ≠ .stay) =
      cs.filter (· ≠ .stay) ++ [.name n] := List.filter_append ..
  unfold Along
  rw [hfilter]
  constructor
  · intro h
    obtain ⟨rest, last, rfl, hrest, hlast⟩ := List.map_eq_append_iff.mp h.symm
    obtain ⟨m, rfl, hm⟩ := List.map_eq_singleton_iff.mp hlast
    exact ⟨rest, by rw [Component.name.inj hm], hrest.symm⟩
  · rintro ⟨rest, rfl, hrest⟩
    rw [hrest, List.map_append]
    rfl

/-- The path can be used, and goes along the names of a place. -/
structure Leads (path : String) (place : Place) : Prop where
  usable : Usable path
  along : Along (components path) place
  short : ∀ n ∈ place, n.utf8ByteSize ≤ Tree.maxNameSize

/-- The path can be used, and goes along the names of a place up to its own. -/
structure Names (path : String) (place : Place) : Prop extends Leads path place where
  last : ∃ cs n, components path = cs ++ [.name n]

theorem Names.ne_nil {path : String} {place : Place} (h : Names path place) : place ≠ [] := by
  obtain ⟨cs, n, hlast⟩ := h.last
  obtain ⟨ns, rfl, _⟩ := along_concat_name.mp (hlast ▸ h.along)
  simp

theorem Names.components_ne_nil {path : String} {place : Place} (h : Names path place) :
    components path ≠ [] := by
  obtain ⟨cs, n, hlast⟩ := h.last
  simp [hlast]

theorem Names.join {base s : String} {place : Place} (h : Names base place) (hs : PlainName s)
    (husable : Usable (join base s)) : Names (join base s) (place ++ [s]) := by
  have hcomponents := components_join h.components_ne_nil hs
  refine ⟨⟨husable, ?_, ?_⟩, ⟨_, _, hcomponents⟩⟩
  · rw [hcomponents, along_concat_name]
    exact ⟨place, rfl, h.along⟩
  · rw [List.forall_mem_append]
    exact ⟨h.short, by simpa using hs.short⟩

namespace Tree

/-! ## Entries -/

theorem not_append_prefix {place rest : Place} (h : rest ≠ []) : ¬place ++ rest <+: place := by
  intro hle
  have hlength := hle.length_le
  have hrest := List.length_pos_iff.mpr h
  rw [List.length_append] at hlength
  omega

theorem entry?_of_ne {t : Tree} {place : Place} (h : place ≠ []) :
    t.entry? place = t.entries[place]? := by
  cases place with
  | nil => contradiction
  | cons name rest => rfl

theorem entry?_insert (t : Tree) {place : Place} (h : place ≠ []) (e : Entry) (q : Place) :
    Tree.entry? ⟨t.entries.insert place e⟩ q = if q = place then some e else t.entry? q := by
  by_cases hq : q = []
  · rw [hq, if_neg (Ne.symm h)]
    rfl
  · rw [entry?_of_ne hq, entry?_of_ne hq, Std.ExtTreeMap.getElem?_insert]
    simp only [Std.compare_eq_iff_eq, eq_comm (a := q)]

theorem entry?_without (t : Tree) {place : Place} (h : place ≠ []) (q : Place) :
    Tree.entry? ⟨t.entries.filter fun p _ => !place.isPrefixOf p⟩ q =
      if place <+: q then none else t.entry? q := by
  by_cases hq : q = []
  · rw [hq, if_neg (fun hle => h (List.prefix_nil.mp hle))]
    rfl
  · rw [entry?_of_ne hq, entry?_of_ne hq, Std.ExtTreeMap.getElem?_filter']
    by_cases hle : place <+: q
    · rw [if_pos hle, List.isPrefixOf_iff_prefix.mpr hle]
      cases t.entries[q]? <;> rfl
    · have hfalse : place.isPrefixOf q = false := by
        rw [← Bool.not_eq_true, List.isPrefixOf_iff_prefix]
        exact hle
      rw [if_neg hle, hfalse]
      cases t.entries[q]? <;> rfl

/-- Every entry lies in a directory. -/
def Grounded (t : Tree) : Prop :=
  ∀ place name, (t.entry? (place ++ [name])).isSome → t.entry? place = some .directory

/-- No file lies at the place or above it. -/
def Clear (t : Tree) (place : Place) : Prop :=
  ∀ q, q <+: place → ∀ content, t.entry? q ≠ some (.file content)

/-! ## Following names -/

section Follow

variable {t : Tree} {place : Place} {cs : List Component} {names : List String}

theorem follow_along (h : Along cs names)
    (hdirs : ∀ q, q <+: names → t.entry? (place ++ q) = some .directory)
    (hshort : ∀ n ∈ names, n.utf8ByteSize ≤ maxNameSize) (rest : List Component) :
    t.follow place (cs ++ rest) = t.follow (place ++ names) rest := by
  induction cs generalizing place names with
  | nil =>
    obtain rfl := h.nil
    simp
  | cons c cs ih =>
    have hplace : t.entry? place = some .directory := by
      simpa using hdirs [] List.nil_prefix
    cases c with
    | stay => simp [follow, hplace, ih h.stay hdirs hshort]
    | up => exact absurd (.head _) h.not_up
    | name n =>
      obtain ⟨ns, rfl, hns⟩ := h.name
      obtain ⟨hn, hshort⟩ := List.forall_mem_cons.mp hshort
      have hrest : ∀ q, q <+: ns → t.entry? (place ++ [n] ++ q) = some .directory := by
        intro q hq
        simpa using hdirs (n :: q) (List.cons_prefix_cons.mpr ⟨rfl, hq⟩)
      simp [follow, hplace, Nat.not_lt.mpr hn, ih hns hrest hshort]

theorem follow_missing (h : Along cs names)
    (hclear : ∀ q, q <+: names → ∀ content, t.entry? (place ++ q) ≠ some (.file content))
    (hmissing : ∃ q, q <+: names ∧ q ≠ names ∧ t.entry? (place ++ q) = none)
    (hshort : ∀ n ∈ names, n.utf8ByteSize ≤ maxNameSize) :
    t.follow place cs = .error .notFound := by
  induction cs generalizing place names with
  | nil =>
    obtain rfl := h.nil
    obtain ⟨q, hq, hne, _⟩ := hmissing
    exact absurd (List.prefix_nil.mp hq) hne
  | cons c cs ih =>
    cases hplace : t.entry? place with
    | none => cases c <;> simp [follow, hplace]
    | some e =>
      cases e with
      | file content => exact absurd hplace (by simpa using hclear [] List.nil_prefix content)
      | directory =>
        cases c with
        | stay => simpa [follow, hplace] using ih h.stay hclear hmissing hshort
        | up => exact absurd (.head _) h.not_up
        | name n =>
          obtain ⟨ns, rfl, hns⟩ := h.name
          obtain ⟨hn, hshort⟩ := List.forall_mem_cons.mp hshort
          simp only [follow, hplace, Nat.not_lt.mpr hn, if_false]
          refine ih hns (fun q hq content => ?_) ?_ hshort
          · simpa using hclear (n :: q) (List.cons_prefix_cons.mpr ⟨rfl, hq⟩) content
          · obtain ⟨q, hq, hne, hnone⟩ := hmissing
            cases q with
            | nil => simp [hplace] at hnone
            | cons m q =>
              obtain ⟨rfl, htail⟩ := List.cons_prefix_cons.mp hq
              exact ⟨q, htail, by simpa using hne, by simpa using hnone⟩

end Follow

/-! ## Making directories -/

/-- `t'` is `t` with directories all along a place. -/
structure Opened (t t' : Tree) (place : Place) : Prop where
  along : ∀ q, q <+: place → t'.entry? q = some .directory
  beside : ∀ q, ¬q <+: place → t'.entry? q = t.entry? q

section Names

variable {t : Tree} {place : Place} {path : String} (h : Names path place)
include h

theorem locate_of_directories
    (hdirs : ∀ q, q <+: place → q ≠ place → t.entry? q = some .directory) :
    t.locate path = .ok place := by
  obtain ⟨cs, n, hlast⟩ := h.last
  obtain ⟨ns, rfl, hns⟩ := along_concat_name.mp (hlast ▸ h.along)
  have habove : ∀ q, q <+: ns → t.entry? ([] ++ q) = some .directory := by
    intro q hq
    refine hdirs q (hq.trans (List.prefix_append ns [n])) fun heq => ?_
    exact not_append_prefix (by simp) (heq ▸ hq)
  obtain ⟨hshort, hn⟩ := List.forall_mem_append.mp h.short
  have hn : n.utf8ByteSize ≤ maxNameSize := by simpa using hn
  have hfollow := follow_along hns habove hshort [.name n]
  have hns : t.entry? ns = some .directory := by simpa using habove ns (List.prefix_refl ns)
  simp [locate, h.usable.steps_eq, hlast, hfollow, follow, hns, Nat.not_lt.mpr hn, bind,
    Except.bind]

theorem locate_of_missing (hclear : t.Clear place)
    (hmissing : ∃ q, q <+: place ∧ q ≠ place ∧ t.entry? q = none) :
    t.locate path = .error .notFound := by
  have hfollow : t.follow [] (components path) = .error .notFound :=
    follow_missing h.along (by simpa [Clear] using hclear) (by simpa using hmissing) h.short
  simp [locate, h.usable.steps_eq, hfollow, bind, Except.bind]

/-- A directory can be made where all directories above it are there. -/
theorem exists_ensureDirectory (hclear : t.Clear place)
    (hdirs : ∀ q, q <+: place → q ≠ place → t.entry? q = some .directory) :
    ∃ t', t.ensureDirectory path = .ok t' ∧ Opened t t' place := by
  have hlocate := locate_of_directories h hdirs
  cases hplace : t.entry? place with
  | none =>
    refine ⟨⟨t.entries.insert place .directory⟩, ?_, fun q hq => ?_, fun q hq => ?_⟩
    · simp [ensureDirectory, createDirectory, hlocate, hplace, bind, Except.bind, pure, Except.pure]
    · rw [entry?_insert t h.ne_nil]
      split
      · rfl
      · rename_i hq'
        exact hdirs q hq hq'
    · have hother : q ≠ place := fun heq => hq (heq ▸ List.prefix_refl _)
      rw [entry?_insert t h.ne_nil, if_neg hother]
  | some e =>
    cases e with
    | file content => exact absurd hplace (hclear place (List.prefix_refl _) content)
    | directory =>
      refine ⟨t, ?_, fun q hq => ?_, fun _ _ => rfl⟩
      · simp [ensureDirectory, createDirectory, leadsToDirectory, isDirectory, hlocate, hplace,
          bind, Except.bind, throw, throwThe, MonadExceptOf.throw]
      · by_cases hq' : q = place
        · rw [hq', hplace]
        · exact hdirs q hq hq'

theorem ensureDirectory_of_missing (hclear : t.Clear place)
    (hmissing : ∃ q, q <+: place ∧ q ≠ place ∧ t.entry? q = none) :
    t.ensureDirectory path = .error .notFound := by
  have hlocate := locate_of_missing h hclear hmissing
  simp [ensureDirectory, createDirectory, leadsToDirectory, hlocate, bind, Except.bind]

end Names

theorem Clear.mono {t : Tree} {place q : Place} (h : t.Clear place) (hq : q <+: place) :
    t.Clear q := fun q' hq' => h q' (hq'.trans hq)

/-- A place above which no file lies has all directories above it, or one of them is missing. -/
theorem Clear.directories_or_missing {t : Tree} {place : Place} (h : t.Clear place) :
    (∀ q, q <+: place → q ≠ place → t.entry? q = some .directory) ∨
      ∃ q, q <+: place ∧ q ≠ place ∧ t.entry? q = none := by
  by_contra hcontra
  rw [not_or] at hcontra
  refine hcontra.1 fun q hq hne => ?_
  cases he : t.entry? q with
  | none => exact absurd ⟨q, hq, hne, he⟩ hcontra.2
  | some e =>
    cases e with
    | directory => rfl
    | file content => exact absurd he (h q hq content)

theorem Opened.clear {t t' : Tree} {place q : Place} (h : Opened t t' place) (hq : t.Clear q) :
    t'.Clear q := by
  intro q' hq' content
  by_cases halong : q' <+: place
  · simp [h.along q' halong]
  · rw [h.beside q' halong]
    exact hq q' hq' content

/-- A directory can be made where no file is in the way, if those that it lies in can. -/
theorem exists_createNested_cons {t : Tree} {path : String} {outer : List String} {ns : Place}
    {s : String} (h : Names path (ns ++ [s])) (hclear : t.Clear (ns ++ [s]))
    (houter : ∃ t', t.createNested outer = (.ok (), t') ∧ Opened t t' ns) :
    ∃ t', t.createNested (path :: outer) = (.ok (), t') ∧ Opened t t' (ns ++ [s]) := by
  rcases hclear.directories_or_missing with hdirs | hmissing
  · obtain ⟨t', hensure, hopened⟩ := exists_ensureDirectory h hclear hdirs
    exact ⟨t', by rw [createNested, hensure], hopened⟩
  · -- The first attempt finds nothing to put the directory in, and the second one succeeds.
    have hfirst := ensureDirectory_of_missing h hclear hmissing
    obtain ⟨mid, hnested, hmid⟩ := houter
    have hdirs : ∀ q, q <+: ns ++ [s] → q ≠ ns ++ [s] → mid.entry? q = some .directory :=
      fun q hq hne => hmid.along q ((List.prefix_concat_iff.mp hq).resolve_left hne)
    obtain ⟨t', hensure, hopened⟩ := exists_ensureDirectory h (hmid.clear hclear) hdirs
    refine ⟨t', by simp only [createNested, hfirst, hnested, hensure], hopened.along, ?_⟩
    intro q hq
    rw [hopened.beside q hq, hmid.beside q fun h => hq (h.trans (List.prefix_append ns [s]))]

/-- Directories can be made along a path with no file in the way.  The texts between the slashes
are given from the last to the first. -/
theorem exists_createNested {t : Tree} {rs : List String} (hslash : ∀ s ∈ rs, '/' ∉ s.toList)
    {place : Place} (h : Leads ("/".intercalate rs.reverse) place) (hclear : t.Clear place) :
    ∃ t', t.createNested (pathsTo rs) = (.ok (), t') ∧ Opened t t' place := by
  have components_eq {rs : List String} (hslash : ∀ s ∈ rs, '/' ∉ s.toList) :
      components ("/".intercalate rs.reverse) = rs.reverse.filterMap component? :=
    components_intercalate fun l hl => hslash l (List.mem_reverse.mp hl)
  induction rs generalizing place with
  | nil =>
    obtain rfl : place = [] := h.along.nil
    refine ⟨t, rfl, fun q hq => ?_, fun _ _ => rfl⟩
    rw [List.prefix_nil.mp hq]
    rfl
  | cons s outer ih =>
    have hcomponents := components_eq hslash
    obtain ⟨_, hslash⟩ := List.forall_mem_cons.mp hslash
    have houter := components_eq hslash
    have halong := h.along
    have husable : Usable ("/".intercalate outer.reverse) :=
      Usable.of_concat (List.reverse_cons ▸ h.usable)
    rw [List.reverse_cons, List.filterMap_append] at hcomponents
    rw [List.reverse_cons, hcomponents] at halong
    rw [pathsTo]
    by_cases hidle : isIdle s = true
    · -- The path without this text goes along the same names.
      rw [if_pos hidle]
      refine ih hslash ⟨husable, ?_, h.short⟩ hclear
      rw [houter]
      rcases component?_of_idle hidle with hs | hs <;> simpa [Along, hs] using halong
    · rw [if_neg hidle]
      rcases component?_of_not_idle (Bool.not_eq_true _ ▸ hidle) with hs | hs
      · exact absurd (by simp [hs]) halong.not_up
      · rw [List.filterMap_cons_some hs, List.filterMap_nil] at hcomponents halong
        obtain ⟨ns, rfl, hns⟩ := along_concat_name.mp halong
        have hnames : Names ("/".intercalate (s :: outer).reverse) (ns ++ [s]) :=
          ⟨h, _, _, List.reverse_cons ▸ hcomponents⟩
        refine exists_createNested_cons hnames hclear (ih hslash ⟨husable, ?_, ?_⟩ ?_)
        · exact houter ▸ hns
        · exact fun n hn => h.short n (List.mem_append_left _ hn)
        · exact hclear.mono (List.prefix_append ns [s])

theorem exists_createAll {t : Tree} {path : String} {place : Place} (h : Leads path place)
    (hclear : t.Clear place) : ∃ t', t.createAll path = (.ok (), t') ∧ Opened t t' place := by
  refine exists_createNested (fun s hs => ?_) (by simpa [intercalate_segments] using h) hclear
  exact not_mem_of_mem_segments (List.mem_reverse.mp hs)

/-! ## Places in grounded trees -/

/-- No file is in the way to a place; there are directories all along the way to a directory there,
and nothing is below the place if nothing is at it. -/
structure Sited (t : Tree) (place : Place) : Prop where
  clear : t.Clear place
  above : t.entry? place = some .directory → ∀ q, q <+: place → t.entry? q = some .directory
  below : t.entry? place = none → ∀ q, place <+: q → t.entry? q = none

theorem Grounded.above {t : Tree} (h : t.Grounded) {place rest : Place} (hrest : rest ≠ [])
    (he : (t.entry? (place ++ rest)).isSome) : t.entry? place = some .directory := by
  induction rest using List.reverseRecOn with
  | nil => contradiction
  | append_singleton rest name ih =>
    rw [← List.append_assoc] at he
    have hlast := h (place ++ rest) name he
    by_cases hnil : rest = []
    · simpa [hnil] using hlast
    · exact ih hnil (by simp [hlast])

theorem Grounded.sited {t : Tree} (h : t.Grounded) {place : Place} (hclear : t.Clear place) :
    t.Sited place where
  clear := hclear
  above hplace q hq := by
    obtain ⟨rest, rfl⟩ := hq
    by_cases hrest : rest = []
    · simpa [hrest] using hplace
    · exact h.above hrest (by simp [hplace])
  below hplace q hq := by
    obtain ⟨rest, rfl⟩ := hq
    by_cases hrest : rest = []
    · simpa [hrest] using hplace
    · by_contra he
      have hdir := h.above hrest (Option.isSome_iff_ne_none.mpr he)
      simp [hplace] at hdir

theorem grounded_empty : Grounded .empty := by
  intro place name he
  rw [entry?_of_ne (by simp)] at he
  simp [empty] at he

/-- What is put into a directory lies in one. -/
theorem Grounded.insert {t : Tree} (h : t.Grounded) (place : Place) (name : String)
    (hplace : t.entry? place = some .directory) (hfree : t.entry? (place ++ [name]) = none)
    (e : Entry) : Grounded ⟨t.entries.insert (place ++ [name]) e⟩ := by
  have hfile : place ++ [name] ≠ [] := by simp
  have hentry := entry?_insert t hfile e
  intro outer last he
  rw [hentry] at he ⊢
  have houter : t.entry? outer = some .directory := by
    split at he
    · rename_i heq
      rw [(List.append_inj' heq rfl).1, hplace]
    · exact h outer last he
  have hne : outer ≠ place ++ [name] := by
    rintro rfl
    simp [hfree] at houter
  rw [if_neg hne, houter]

/-! ## Removing directories and writing files -/

section Operations

variable {t : Tree} {path : String} {place : Place}

theorem exists?_of_directory (h : Names path place) (ht : t.Sited place)
    (hplace : t.entry? place = some .directory) : t.exists? path = true := by
  have hlocate := locate_of_directories h fun q hq _ => ht.above hplace q hq
  simp [exists?, hlocate, hplace]

theorem exists?_of_none (h : Names path place) (ht : t.Sited place)
    (hplace : t.entry? place = none) : t.exists? path = false := by
  rcases ht.clear.directories_or_missing with hdirs | hmissing
  · simp [exists?, locate_of_directories h hdirs, hplace]
  · simp [exists?, locate_of_missing h ht.clear hmissing]

/-- A directory is removed with everything below it. -/
theorem exists_removeAll (h : Names path place) (ht : t.Sited place)
    (hplace : t.entry? place = some .directory) : ∃ t', t.removeAll path = .ok t' ∧
      ∀ q, t'.entry? q = if place <+: q then none else t.entry? q := by
  have hlocate := locate_of_directories h fun q hq _ => ht.above hplace q hq
  refine ⟨⟨t.entries.filter fun p _ => !place.isPrefixOf p⟩, ?_, entry?_without t h.ne_nil⟩
  simp [removeAll, hlocate, hplace, bind, Except.bind, pure, Except.pure]

/-- A file is written into a directory, unless a directory is there. -/
theorem exists_write {name : String} (h : Names path (place ++ [name]))
    (hslash : endsWithSlash path = false) (hdirs : ∀ q, q <+: place → t.entry? q = some .directory)
    (hfree : t.entry? (place ++ [name]) ≠ some .directory) (content : ByteArray) :
    ∃ t', t.write path content = .ok t' ∧
      ∀ q, t'.entry? q = if q = place ++ [name] then some (.file content) else t.entry? q := by
  have hlocate : t.locate path = .ok (place ++ [name]) :=
    locate_of_directories h fun q hq hne =>
      hdirs q ((List.prefix_concat_iff.mp hq).resolve_left hne)
  obtain ⟨cs, n, hlast⟩ := h.last
  have htarget : t.target path = .ok (place ++ [name]) := by
    rw [← hlocate, locate, target, h.usable.steps_eq]
    simp only [bind, Except.bind, hlast, List.getLast?_concat, hslash]
    rfl
  have hdirectory : t.isDirectory (place ++ [name]) = false := by
    unfold isDirectory
    split
    · contradiction
    · rfl
  refine ⟨⟨t.entries.insert (place ++ [name]) (.file content)⟩, ?_, entry?_insert t h.ne_nil _⟩
  simp [write, htarget, hdirectory, bind, Except.bind, pure, Except.pure]

end Operations

end Tree

end ProgramFacts.Files
