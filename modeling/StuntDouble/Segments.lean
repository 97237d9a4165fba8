import Mathlib.Data.List.Basic
import Mathlib.Logic.Relation

/-!
The non-empty pieces of a text between separators. Separators that stand next to each
other, or at an end of the text, add no piece, so texts that differ in them alone have the
same pieces.
-/
namespace StuntDouble.Segments

variable {A : Type*} [DecidableEq A]

/-- The pieces between the separators that are not empty. -/
def segments (sep : A) (text : List A) : List (List A) :=
  (text.splitOn sep).filter (fun piece => !piece.isEmpty)

@[simp] theorem segments_nil (sep : A) : segments sep [] = [] := rfl

theorem segments_append (sep : A) (front back : List A) :
    segments sep (front ++ sep :: back) = segments sep front ++ segments sep back := by
  unfold segments
  rw [List.splitOn_eq_splitOnP, List.splitOnP_append_cons _ _ (by simp), List.filter_append]
  rfl

@[simp] theorem segments_sep (sep : A) (text : List A) :
    segments sep (sep :: text) = segments sep text := segments_append sep [] text

theorem segments_replicate (sep : A) (n : ℕ) (text : List A) :
    segments sep (List.replicate n sep ++ text) = segments sep text := by
  induction n with
  | zero => rfl
  | succ n ih => rw [List.replicate_succ, List.cons_append, segments_sep, ih]

/-- A text without separators is its only piece. -/
theorem segments_piece (sep : A) (text : List A) (hne : text ≠ []) (h : sep ∉ text) :
    segments sep text = [text] := by
  have hsplit : text.splitOn sep = [text] := by
    rw [List.splitOn_eq_splitOnP]
    apply List.splitOnP_eq_singleton
    intro c hc
    rw [beq_eq_false_iff_ne]
    rintro rfl
    exact h hc
  rw [segments, hsplit]
  simpa using hne

theorem segments_cons (sep : A) (piece rest : List A) (hne : piece ≠ []) (h : sep ∉ piece) :
    segments sep (piece ++ sep :: rest) = piece :: segments sep rest := by
  rw [segments_append, segments_piece sep piece hne h]
  rfl

/-- A piece has a character, no separator, and nothing that is not in the text. -/
theorem mem_segments {sep : A} {text piece : List A} (h : piece ∈ segments sep text) :
    piece ≠ [] ∧ sep ∉ piece ∧ piece ⊆ text := by
  induction hlength : text.length using Nat.strongRecOn generalizing text with
  | _ n ih =>
    by_cases hsep : sep ∈ text
    · obtain ⟨front, back, rfl, -⟩ := List.eq_append_cons_of_mem hsep
      rw [List.length_append, List.length_cons] at hlength
      rw [segments_append, List.mem_append] at h
      rcases h with hfront | hback
      · obtain ⟨hne, hnot, hsub⟩ := ih front.length (by omega) hfront rfl
        exact ⟨hne, hnot, fun c hc => List.mem_append_left _ (hsub hc)⟩
      · obtain ⟨hne, hnot, hsub⟩ := ih back.length (by omega) hback rfl
        exact ⟨hne, hnot, fun c hc => List.mem_append_right _ (List.mem_cons_of_mem _ (hsub hc))⟩
    · by_cases hempty : text = []
      · subst hempty
        rw [segments_nil] at h
        cases h
      · rw [segments_piece sep text hempty hsep, List.mem_singleton] at h
        subst h
        exact ⟨hempty, hsep, fun c hc => hc⟩

/-- Pieces that each end with a separator are the pieces of their concatenation. -/
theorem segments_closed (sep : A) (pieces : List (List A))
    (h : ∀ piece ∈ pieces, piece ≠ [] ∧ sep ∉ piece) :
    segments sep (pieces.flatMap fun piece => piece ++ [sep]) = pieces := by
  induction pieces with
  | nil => rfl
  | cons piece rest ih =>
    rw [List.forall_mem_cons] at h
    obtain ⟨⟨hne, hsep⟩, hrest⟩ := h
    rw [List.flatMap_cons, List.append_assoc, List.singleton_append,
      segments_cons sep piece _ hne hsep, ih hrest]

section Variants

/-- One more separator, at an end of the text or next to another separator. -/
inductive AddsSeparator (sep : A) : List A → List A → Prop
  | insert (front back : List A)
      (h : front = [] ∨ back = [] ∨ front.getLast? = some sep ∨ back.head? = some sep) :
      AddsSeparator sep (front ++ back) (front ++ sep :: back)

/-- Texts that differ in empty pieces. -/
def SamePieces (sep : A) : List A → List A → Prop := Relation.EqvGen (AddsSeparator sep)

theorem AddsSeparator.segments_eq {sep : A} {text more : List A} (h : AddsSeparator sep text more) :
    segments sep text = segments sep more := by
  obtain ⟨front, back, h⟩ := h
  rw [segments_append]
  rcases h with rfl | rfl | hlast | hhead
  · rfl
  · rw [List.append_nil, segments_nil, List.append_nil]
  · obtain ⟨front, rfl⟩ := List.getLast?_eq_some_iff.mp hlast
    rw [List.append_assoc, List.singleton_append, segments_append, segments_append]
    simp
  · obtain ⟨back, rfl⟩ := List.head?_eq_some_iff.mp hhead
    rw [segments_append, segments_sep]

theorem SamePieces.segments_eq {sep : A} {text other : List A} (h : SamePieces sep text other) :
    segments sep text = segments sep other := by
  induction h with
  | rel text other h => exact h.segments_eq
  | refl text => rfl
  | symm text other h ih => exact ih.symm
  | trans text between other h h' ih ih' => exact ih.trans ih'

end Variants

end StuntDouble.Segments
