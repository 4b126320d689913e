import Mathlib.Data.List.Infix
import TypeFlow.Text.Basic
import TypeFlow.Text.Case

/-!
# Pieces of text

A text that does not occur in another one cuts nothing off it, so replacing it changes nothing.
Cutting at a single character and joining again drops that character. Lower-casing keeps every
part that is already in lower case.
-/

namespace TypeFlow.Text

variable {sep cs rest : List Char} {s : String} {part : List Char} (c : Char)

/-- A separator that does not occur leaves one piece. -/
theorem piecesFrom_of_absent (h : ¬ sep <:+: cs) (piece : List Char) :
    piecesFrom sep 0 piece cs = [piece.reverse ++ cs] := by
  induction cs generalizing piece with
  | nil => simp [piecesFrom]
  | cons c rest ih =>
    have hstart : sep.isPrefixOf (c :: rest) = false := by
      rw [← Bool.not_eq_true, List.isPrefixOf_iff_prefix]
      intro hp
      exact h hp.isInfix
    have hrest : ¬ sep <:+: rest := fun hr => h (hr.trans (List.suffix_cons c rest).isInfix)
    rw [piecesFrom, hstart, if_neg (by simp), ih hrest]
    simp

theorem replace_of_absent {old : String} (h : ¬ old.toList <:+: s.toList) (new : String) :
    replace s old new = s := by
  rw [replace, split, piecesFrom_of_absent h]
  simp

theorem flatten_piecesFrom_singleton (piece cs : List Char) :
    (piecesFrom [c] 0 piece cs).flatten = piece.reverse ++ cs.filter (· ≠ c) := by
  induction cs generalizing piece with
  | nil => simp [piecesFrom]
  | cons d rest ih =>
    rw [piecesFrom]
    by_cases hd : c = d
    · subst hd
      simp [ih]
    · have hstart : [c].isPrefixOf (d :: rest) = false := by simp [List.isPrefixOf, hd]
      rw [hstart, if_neg (by simp), ih]
      simp [Ne.symm hd]

theorem intercalate_nil_eq_flatten (l : List (List Char)) : [].intercalate l = l.flatten := by
  induction l with
  | nil => rfl
  | cons a l ih => cases l <;> simp_all [List.intercalate]

theorem toList_replace_singleton (s : String) (c : Char) :
    (replace s (String.singleton c) "").toList = s.toList.filter (· ≠ c) := by
  rw [replace, split, String.toList_intercalate]
  have hmap : ((piecesFrom (String.singleton c).toList 0 [] s.toList).map String.ofList).map
      String.toList = piecesFrom [c] 0 [] s.toList := by
    simp [Function.comp_def]
  calc "".toList.intercalate _ = (piecesFrom [c] 0 [] s.toList).flatten := by
        rw [hmap, String.toList_empty, intercalate_nil_eq_flatten]
    _ = s.toList.filter (· ≠ c) := flatten_piecesFrom_singleton c [] s.toList

/-! ## Lower case -/

/-- Characters that are their own lower-case partners below the first code point without one. -/
def IsFixed (c : Char) : Prop := c.toNat < 128 ∧ c.toLower = c

instance : Decidable (IsFixed c) := inferInstanceAs (Decidable (_ ∧ _))

/-- Texts in lower case. -/
def AllFixed (part : List Char) : Prop := ∀ c ∈ part, IsFixed c

instance (part : List Char) : Decidable (AllFixed part) := List.decidableBAll IsFixed part

theorem lowerFrom_cons_of_fixed {c : Char} (h : IsFixed c) (before rest : List Char) :
    lowerFrom before (c :: rest) = c :: lowerFrom (c :: before) rest := by
  have hsigma : c ≠ 'Σ' := by
    rintro rfl
    exact absurd h.1 (by decide)
  have hdotted : c ≠ 'İ' := by
    rintro rfl
    exact absurd h.1 (by decide)
  have hlower : lowerChar c = c := by rw [lowerChar, if_pos h.1, h.2]
  rw [lowerFrom, if_neg hsigma, if_neg hdotted, hlower]
  rfl

theorem lowerFrom_append_of_fixed (h : AllFixed part) (before rest : List Char) :
    lowerFrom before (part ++ rest) = part ++ lowerFrom (part.reverse ++ before) rest := by
  induction part generalizing before with
  | nil => rfl
  | cons c part ih =>
    obtain ⟨hc, hpart⟩ := List.forall_mem_cons.mp h
    rw [List.cons_append, lowerFrom_cons_of_fixed hc, ih hpart]
    simp

theorem lowerFrom_append (before start rest : List Char) :
    ∃ start', lowerFrom before (start ++ rest) =
      start' ++ lowerFrom (start.reverse ++ before) rest := by
  induction start generalizing before with
  | nil => exact ⟨[], rfl⟩
  | cons c start ih =>
    obtain ⟨start', h⟩ := ih (c :: before)
    rw [List.cons_append, lowerFrom, h, List.reverse_cons, List.append_assoc]
    exact ⟨_, (List.append_assoc _ _ _).symm⟩

theorem infix_lower (h : part <:+: s.toList) (hpart : AllFixed part) :
    part <:+: (lower s).toList := by
  obtain ⟨start, rest, h⟩ := h
  obtain ⟨start', hstart⟩ := lowerFrom_append [] start (part ++ rest)
  rw [lower, String.toList_ofList, ← h, List.append_assoc, hstart, lowerFrom_append_of_fixed hpart,
    ← List.append_assoc]
  exact ⟨start', _, rfl⟩

theorem mem_lower {c : Char} (h : c ∈ s.toList) (hc : IsFixed c) : c ∈ (lower s).toList := by
  rw [← List.singleton_infix_iff] at h ⊢
  exact infix_lower h (by simpa [AllFixed] using hc)

end TypeFlow.Text
