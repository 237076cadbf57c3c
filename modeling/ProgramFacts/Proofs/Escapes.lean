import ProgramFacts.Text.Label

/-! The escapes of graph labels can be undone, so different texts have different labels.  Nothing in
a label ends it: every quote stands behind an odd run of backslashes, the end of the label behind an
even one, and there is no line feed. -/

namespace ProgramFacts.Text

/-! ## Reading a label -/

/-- The character that a letter after a backslash stands for. -/
def unescapeLetter? : Char → Option Char
  | '\\' => some '\\'
  | 't' => some '\t'
  | 'b' => some '\x08'
  | 'n' => some '\n'
  | 'r' => some '\r'
  | 'f' => some '\x0c'
  | '\'' => some '\''
  | '"' => some '"'
  | _ => none

/-- Undoes the escapes of a label, unless a backslash stands before no letter of an escape. -/
def unescape? : List Char → Option (List Char)
  | [] => some []
  | c :: rest =>
    if c = '\\' then
      match rest with
      | [] => none
      | letter :: rest => do return (← unescapeLetter? letter) :: (← unescape? rest)
    else (unescape? rest).map (c :: ·)

theorem unescapeLetter?_of_labelEscape? {c letter : Char} (h : labelEscape? c = some letter) :
    unescapeLetter? letter = some c := by
  unfold labelEscape? at h
  split at h <;> simp_all <;> subst h <;> rfl

theorem ne_of_labelEscape?_eq_none {c : Char} (h : labelEscape? c = none) :
    c ≠ '\\' ∧ c ≠ '"' ∧ c ≠ '\n' := by
  refine ⟨?_, ?_, ?_⟩ <;> rintro rfl <;> contradiction

theorem ne_of_labelEscape? {c letter : Char} (h : labelEscape? c = some letter) :
    letter ≠ '\n' := by
  unfold labelEscape? at h
  split at h <;> simp_all <;> subst h <;> decide

theorem unescape?_cons {c : Char} (hc : c ≠ '\\') (rest : List Char) :
    unescape? (c :: rest) = (unescape? rest).map (c :: ·) := by
  rw [unescape?.eq_def]
  simp [hc]

theorem unescape?_flatMap (cs : List Char) : unescape? (cs.flatMap labelChar) = some cs := by
  induction cs with
  | nil => rfl
  | cons c cs ih =>
    rw [List.flatMap_cons, labelChar]
    cases hc : labelEscape? c with
    | some letter => simp [unescape?, unescapeLetter?_of_labelEscape? hc, ih]
    | none =>
      rw [List.singleton_append, unescape?_cons (ne_of_labelEscape?_eq_none hc).1, ih]
      rfl

theorem unescape?_label (s : String) : unescape? (label s).toList = some s.toList := by
  rw [label, String.toList_ofList, unescape?_flatMap]

theorem label_injective {s s' : String} (h : label s = label s') : s = s' := by
  have hread := unescape?_label s
  rw [h, unescape?_label] at hread
  exact String.toList_injective (Option.some.inj hread).symm

theorem not_mem_label (s : String) : '\n' ∉ (label s).toList := by
  rw [label, String.toList_ofList, List.mem_flatMap]
  rintro ⟨c, _, hmem⟩
  unfold labelChar at hmem
  split at hmem
  · rename_i letter hc
    simp only [List.mem_cons, List.not_mem_nil, or_false] at hmem
    rcases hmem with h | h
    · contradiction
    · exact ne_of_labelEscape? hc h.symm
  · rename_i hc
    exact (ne_of_labelEscape?_eq_none hc).2.2 (List.mem_singleton.mp hmem).symm

/-! ## Backslashes -/

/-- The length of the run of backslashes at the end of a text. -/
def backslashes (cs : List Char) : Nat := (cs.reverse.takeWhile (· == '\\')).length

/-- No quote ends the text: each one stands behind an odd run of backslashes. -/
def Shielded (cs : List Char) : Prop :=
  ∀ before after, cs = before ++ '"' :: after → backslashes before % 2 = 1

/-- An even run of backslashes can be left out before a text. -/
theorem backslashes_append {cs : List Char} (h : backslashes cs % 2 = 0) (rest : List Char) :
    backslashes (cs ++ rest) % 2 = backslashes rest % 2 := by
  unfold backslashes at h ⊢
  rw [List.reverse_append, List.takeWhile_append]
  split
  · rename_i hall
    rw [List.length_append, hall]
    omega
  · rfl

theorem backslashes_labelChar (c : Char) : backslashes (labelChar c) % 2 = 0 := by
  unfold labelChar
  cases hc : labelEscape? c with
  | none => simp [backslashes, (ne_of_labelEscape?_eq_none hc).1]
  | some letter => by_cases hletter : letter = '\\' <;> simp [backslashes, hletter]

theorem backslashes_flatMap (cs : List Char) : backslashes (cs.flatMap labelChar) % 2 = 0 := by
  induction cs with
  | nil => rfl
  | cons c cs ih => rw [List.flatMap_cons, backslashes_append (backslashes_labelChar c), ih]

theorem backslashes_label (s : String) : backslashes (label s).toList % 2 = 0 := by
  rw [label, String.toList_ofList, backslashes_flatMap]

theorem Shielded.append {cs cs' : List Char} (h : Shielded cs) (heven : backslashes cs % 2 = 0)
    (h' : Shielded cs') : Shielded (cs ++ cs') := by
  intro before after hsplit
  rcases List.append_eq_append_iff.mp hsplit with ⟨rest, rfl, hrest⟩ | ⟨rest, hcs, hrest⟩
  · rw [backslashes_append heven]
    exact h' rest after hrest
  · cases rest with
    | nil =>
      have hquote := h' [] after hrest.symm
      contradiction
    | cons quote rest =>
      obtain ⟨rfl, _⟩ := List.cons.inj hrest
      exact h before rest hcs

theorem shielded_labelChar (c : Char) : Shielded (labelChar c) := by
  intro before after hsplit
  unfold labelChar at hsplit
  cases hc : labelEscape? c with
  | none =>
    obtain ⟨rfl, hquote⟩ : before = [] ∧ [c] = '"' :: after := by
      cases before <;> simp_all
    exact absurd (List.cons.inj hquote).1 (ne_of_labelEscape?_eq_none hc).2.1
  | some letter =>
    rw [hc] at hsplit
    match before with
    | [] => simp at hsplit
    | [backslash] =>
      obtain ⟨rfl, _⟩ := List.cons.inj hsplit
      rfl
    | _ :: _ :: _ => simp at hsplit

theorem shielded_label (s : String) : Shielded (label s).toList := by
  rw [label, String.toList_ofList]
  induction s.toList with
  | nil => exact fun before after hsplit => by simp at hsplit
  | cons c cs ih => exact (shielded_labelChar c).append (backslashes_labelChar c) ih

end ProgramFacts.Text
