import TypeFlow.Proofs.Expression

/-!
# Names inside of type expressions

An expression with brackets is read as if `typing.` were written wherever `t.` is, also inside of
a longer name. So a name inside of brackets is read as it is written exactly when this leaves it
alone. `Surroundings` is what stands around one argument of an expression, and says where the
argument is found among the types that are read.
-/

namespace TypeFlow

open Text Shape TypeExpr List Vocabulary

namespace Text

variable {sep cs : List Char} {p : Char → Bool}

/-- Cutting a text loses none of the characters that are not in the separator. -/
theorem filter_flatten_piecesFrom (hne : sep ≠ []) (hsep : ∀ c ∈ sep, p c = false) (skip : Nat)
    (piece : List Char) :
    (piecesFrom sep skip piece cs).flatten.filter p =
      piece.reverse.filter p ++ (cs.drop skip).filter p := by
  induction cs generalizing skip piece with
  | nil => cases skip <;> simp [piecesFrom]
  | cons c rest ih =>
    cases skip with
    | succ skip => rw [piecesFrom, ih, drop_succ_cons]
    | zero =>
      rw [piecesFrom]
      split
      · rename_i hstart
        obtain ⟨more, hmore⟩ := isPrefixOf_iff_prefix.mp hstart
        have hnone : sep.filter p = [] := by simpa using hsep
        have hsame : (rest.drop (sep.length - 1)).filter p = (c :: rest).filter p := by
          cases sep with
          | nil => exact absurd rfl hne
          | cons d sep =>
            obtain ⟨rfl, rfl⟩ := cons.inj hmore
            rw [← hmore, filter_append, hnone]
            simp
        rw [flatten_cons, filter_append, ih, hsame]
        simp
      · rw [ih, reverse_cons, filter_append, append_assoc, ← filter_append]
        rfl

theorem filter_intercalate {new : List Char} (hnew : ∀ c ∈ new, p c = false)
    (l : List (List Char)) : (new.intercalate l).filter p = l.flatten.filter p := by
  have hnone : new.filter p = [] := by simpa using hnew
  induction l with
  | nil => rfl
  | cons a l ih => cases l <;> simp_all [intercalate]

theorem filter_replace {old new : String} (hne : old.toList ≠ [])
    (hold : ∀ c ∈ old.toList, p c = false) (hnew : ∀ c ∈ new.toList, p c = false)
    (s : String) : (replace s old new).toList.filter p = s.toList.filter p := by
  rw [replace, split, String.toList_intercalate, filter_intercalate hnew, map_map]
  simpa [Function.comp_def] using filter_flatten_piecesFrom hne hold 0 []

theorem exists_piecesFrom (sep : List Char) (skip : Nat) (piece cs : List Char) :
    ∃ more pieces, piecesFrom sep skip piece cs = (piece.reverse ++ more) :: pieces := by
  induction cs generalizing skip piece with
  | nil => cases skip <;> exact ⟨[], [], by simp [piecesFrom]⟩
  | cons c rest ih =>
    cases skip with
    | succ skip => exact ih skip piece
    | zero =>
      rw [piecesFrom]
      split
      · exact ⟨[], _, by rw [append_nil]⟩
      · obtain ⟨more, pieces, h⟩ := ih 0 (c :: piece)
        exact ⟨c :: more, pieces, by simp [h]⟩

/-- A text begins as before if no replaced text begins there. -/
theorem head?_replace {s old : String} {c : Char} (hs : s.toList.head? = some c)
    (hold : old.toList.head? ≠ some c) (hne : old.toList ≠ []) (new : String) :
    (replace s old new).toList.head? = some c := by
  obtain ⟨rest, hrest⟩ : ∃ rest, s.toList = c :: rest := by
    cases hl : s.toList <;> simp_all
  have hstart : old.toList.isPrefixOf (c :: rest) = false := by
    cases hl : old.toList with
    | nil => exact absurd hl hne
    | cons d l =>
      rw [hl] at hold
      simp only [isPrefixOf, Bool.and_eq_false_iff, beq_eq_false_iff_ne]
      exact .inl fun hd => hold (by rw [hd]; rfl)
  obtain ⟨more, pieces, h⟩ := exists_piecesFrom old.toList 0 [c] rest
  rw [replace, split, hrest, piecesFrom, hstart, if_neg (by simp), h, String.toList_intercalate]
  cases pieces <;> simp [intercalate]

end Text

/-! ## Reading with names written out -/

/-- A text without spaces in which `t.` is written as `typing.`. -/
def writtenOut (text : String) : String := replace (replace text " " "") "t." "typing."

/-- Texts that are left out of names or written differently before brackets are looked at. -/
def shortened : List String := ["builtins.", "typing_extensions."]

/-- A text without its spaces. -/
def unspaced (text : String) : String := replace text " " ""

theorem toList_unspaced (text : String) : (unspaced text).toList = text.toList.filter (· ≠ ' ') :=
  toList_replace_singleton text ' '

theorem brackets_unspaced {text : String} {c : Char} (hc : c = '[' ∨ c = ']') :
    brackets c (unspaced text).toList = brackets c text.toList := by
  have hspace : c ≠ ' ' := by rcases hc with rfl | rfl <;> decide
  rw [toList_unspaced, brackets_filter_space hspace]

namespace TypeExpr

variable {e : TypeExpr} {text : String} {c : Char}

theorem exists_bracketed (h : ∀ n, e ≠ .name n) :
    ∃ head inner, e.text = bracketed head inner ∧ IsHead headWords head := by
  cases e with
  | name n => exact absurd rfl (h n)
  | container head => exact ⟨_, _, by rw [text], head.spells.mono containerWords_subset⟩
  | mapping head => exact ⟨_, _, by rw [text], head.spells.mono mappingWords_subset⟩
  | union head => exact ⟨_, _, by rw [text], head.spells.mono unionWords_subset⟩
  | optional head => exact ⟨_, _, by rw [text], head.spells.mono optionalWords_subset⟩

section

variable (htext : (writtenOut text).toList = e.text)

include htext

theorem brackets_of_writtenOut (hc : c = '[' ∨ c = ']') :
    brackets c (unspaced text).toList = brackets c e.text := by
  have hfilter : (writtenOut text).toList.filter (· == c) =
      (unspaced text).toList.filter (· == c) :=
    filter_replace (by decide) (by rcases hc with rfl | rfl <;> simp)
      (by rcases hc with rfl | rfl <;> simp) (unspaced text)
  rw [brackets, brackets, count_eq_length_filter, count_eq_length_filter, ← htext, hfilter]

variable (hform : ∀ n, e ≠ .name n)

include hform

theorem mem_unspaced (hc : c = '[' ∨ c = ']') : c ∈ (unspaced text).toList := by
  obtain ⟨head, inner, hparts, -⟩ := exists_bracketed hform
  have hone : c ∈ e.text := by
    rw [hparts]
    rcases hc with rfl | rfl <;> simp [bracketed]
  have hcount := brackets_of_writtenOut htext hc
  rw [brackets, brackets] at hcount
  rwa [← count_pos_iff, hcount, count_pos_iff]

/-- The head stands at the beginning, so nothing is taken for brackets around the whole. -/
theorem head?_unspaced_ne : (unspaced text).toList.head? ≠ some '[' := by
  obtain ⟨head, inner, hparts, hhead⟩ := exists_bracketed hform
  intro hopen
  have hwritten : (writtenOut text).toList.head? = some '[' :=
    head?_replace hopen (by decide) (by decide) "typing."
  rw [htext, hparts] at hwritten
  cases head with
  | nil => exact hhead.ne_nil rfl
  | cons c head =>
    obtain rfl : c = '[' := by simpa [bracketed] using hwritten
    exact hhead.isPlain.not_mem (by decide) mem_cons_self

variable (hkept : ∀ p ∈ shortened, ¬ p.toList <:+: text.toList.filter (· ≠ ' '))

include hkept

theorem strip_of_writtenOut : strip text = unspaced text := by
  have habsent (p : String) (hp : p ∈ shortened) (new : String) :
      replace (unspaced text) p new = unspaced text :=
    replace_of_absent (by rw [toList_unspaced]; exact hkept p hp) new
  have hfirst := head?_unspaced_ne htext hform
  unfold strip
  rw [show replace text " " "" = unspaced text from rfl, habsent "builtins." (by simp [shortened]),
    habsent "typing_extensions." (by simp [shortened])]
  dsimp only
  split
  · rename_i rest hrest
    rw [hrest] at hfirst
    exact absurd rfl hfirst
  · rfl

variable (hlen : text.length ≤ 500) (hlen' : e.text.length ≤ 500)

include hlen hlen'

theorem readAny_of_writtenOut : readAny text = e.meaning := by
  obtain ⟨head, inner, hparts, hhead⟩ := exists_bracketed hform
  have hclean := e.isTerm_text.toIsClean
  have hmem (c : Char) (hc : c = '[' ∨ c = ']') := mem_unspaced htext hform hc
  have hcontains (c : Char) (hc : c = '[' ∨ c = ']') : (unspaced text).contains c = true := by
    rw [String.contains_char_eq]
    exact decide_eq_true (hmem c hc)
  have hempty : (unspaced text).isEmpty = false := by
    rw [String.isEmpty_eq_false_iff]
    intro hnil
    exact absurd (hnil ▸ hmem '[' (.inl rfl)) (by simp)
  have hshort : ¬ 500 < (unspaced text).length := by
    have := length_filter_le (· ≠ ' ') text.toList
    rw [← String.length_toList, toList_unspaced]
    rw [← String.length_toList] at hlen
    omega
  have hdenoted : denoted? (lower (unspaced text)) = none :=
    denoted?_of_bracket (hmem '[' (.inl rfl))
  have hbare : (String.ofList e.text).toList.filter (· ≠ ' ') = e.text := by
    rw [String.toList_ofList]
    exact filter_space_of_isClean hclean
  rw [← e.readsBack (String.ofList e.text) (brackets '[' e.text + 1) hbare hlen'
    (Nat.lt_succ_self _), readAny, ← brackets_unspaced (.inl rfl),
    brackets_of_writtenOut htext (.inl rfl), readNested, strip_of_writtenOut htext hform hkept]
  rw [hparts] at hlen' htext hbare hclean ⊢
  rw [readNested_bracketed hbare hclean hhead.isPlain hhead.ne_nil hlen', ← htext,
    String.ofList_toList]
  unfold readStripped
  simp only [hempty, hshort, hcontains _ (.inl rfl), hcontains _ (.inr rfl), hdenoted,
    decide_false, Bool.or_self, Bool.false_eq_true, if_false, Bool.not_true, Bool.and_false,
    Bool.and_self, if_true]
  rfl

theorem read_writtenOut : read text = e.meaning := by
  have hcount (c : Char) (hc : c = '[' ∨ c = ']') : brackets c text.toList = brackets c e.text :=
    (brackets_unspaced hc).symm.trans (brackets_of_writtenOut htext hc)
  rw [Shape.read, hcount _ (.inl rfl), hcount _ (.inr rfl), e.isTerm_text.paired,
    if_neg (not_not_intro rfl), readAny_of_writtenOut htext hform hkept hlen hlen']
  simp only [e.anyBracket_meaning, Bool.false_eq_true, if_false]

end

end TypeExpr

/-! ## Places -/

/-- What stands around one argument of an expression, at any depth. -/
inductive Surroundings where
  | nothing
  | asElement (head : Head containerWords) (before : List TypeExpr) (inner : Surroundings)
      (after : List TypeExpr)
  | asKey (head : Head mappingWords) (inner : Surroundings) (value : TypeExpr)
  | asValue (head : Head mappingWords) (key : TypeExpr) (inner : Surroundings)
  | asMember (head : Head unionWords) (before : List TypeExpr) (inner : Surroundings)
      (after : List TypeExpr)
  | asContent (head : Head optionalWords) (inner : Surroundings)

namespace Surroundings

/-- An argument among others. -/
def among (form : TypeExpr → List TypeExpr → TypeExpr) (before : List TypeExpr) (e : TypeExpr)
    (after : List TypeExpr) : TypeExpr :=
  match before with
  | [] => form e after
  | first :: rest => form first (rest ++ e :: after)

def fill : Surroundings → TypeExpr → TypeExpr
  | .nothing, e => e
  | .asElement head before inner after, e => among (.container head) before (inner.fill e) after
  | .asKey head inner value, e => .mapping head (inner.fill e) value
  | .asValue head key inner, e => .mapping head key (inner.fill e)
  | .asMember head before inner after, e => among (.union head) before (inner.fill e) after
  | .asContent head inner, e => .optional head (inner.fill e)

/-- The types from the place of the argument on, among the types that are read. -/
def place : Surroundings → List Shape → List Shape
  | .nothing, as => as
  | .asElement _ before inner _, .mk _ _ es _ _ :: _ =>
    inner.place (es.drop (meanings before).length)
  | .asKey _ inner _, .mk _ _ _ ks _ :: _ => inner.place ks
  | .asValue _ _ inner, .mk _ _ _ _ vs :: _ => inner.place vs
  | .asMember _ before inner _, as => inner.place (as.drop (meanings before).length)
  | .asContent _ inner, as => inner.place as
  | _, [] => []

theorem meaning_among (form : TypeExpr → List TypeExpr → TypeExpr) (f : List Shape → List Shape)
    (hform : ∀ first rest, (form first rest).meaning = f (meanings (first :: rest)))
    (before after : List TypeExpr) (e : TypeExpr) :
    (among form before e after).meaning =
      f (meanings before ++ (e.meaning ++ meanings after)) := by
  cases before <;> simp [among, hform, meanings_eq_flatMap]

/-- The types of an argument are found at its place. -/
theorem prefix_place (c : Surroundings) (e : TypeExpr) (more : List Shape) :
    e.meaning <+: c.place ((c.fill e).meaning ++ more) := by
  induction c generalizing more with
  | nothing => exact prefix_append _ _
  | asElement head before inner after ih =>
    rw [fill, meaning_among _ (fun es => [.mk (headType head.text) .builtin es [] []])
      (fun _ _ => by rw [meaning, meanings])]
    rw [singleton_append, place, drop_left]
    exact ih _
  | asKey head inner value ih =>
    rw [fill, meaning, singleton_append, place]
    simpa using ih []
  | asValue head key inner ih =>
    rw [fill, meaning, singleton_append, place]
    simpa using ih []
  | asMember head before inner after ih =>
    rw [fill, meaning_among _ (fun es => es) (fun _ _ => by rw [meaning, meanings])]
    rw [append_assoc, append_assoc, place, drop_left]
    exact ih _
  | asContent head inner ih =>
    rw [fill, meaning, append_assoc, place]
    exact ih _

theorem fill_ne_name {c : Surroundings} (hc : c ≠ .nothing) (e : TypeExpr) (n : TypeName) :
    c.fill e ≠ .name n := by
  cases c with
  | nothing => exact absurd rfl hc
  | asElement _ before | asMember _ before => cases before <;> simp [fill, among]
  | asKey | asValue | asContent => simp [fill]

/-- A user type inside of an expression is read under its name: `n` is the name written out, so
the type has the name that was written unless `t.` occurs in it. -/
theorem readTypes_keeps_userName (c : Surroundings) (hc : c ≠ .nothing) (n : TypeName)
    (huser : Vocabulary.denoted? (lower (String.ofList n.text)) = none) (text : String)
    (htext : (writtenOut text).toList = (c.fill (.name n)).text)
    (hkept : ∀ p ∈ shortened, ¬ p.toList <:+: text.toList.filter (· ≠ ' '))
    (hlen : text.length ≤ 400) (hlen' : (c.fill (.name n)).text.length ≤ 500) (s : Store) :
    Eval.Ends (Eval.readTypes text).run s fun es u => ∃ as, Makes as s es u ∧
      (c.place as).head? = some (leaf (String.ofList n.text) .user) := by
  have hread := TypeExpr.read_writtenOut htext (fill_ne_name hc _) hkept (by omega) hlen'
  rw [Eval.readTypes, hread]
  refine (allocAll_ends _ s).imp fun es u hmakes => ⟨_, hmakes, ?_⟩
  obtain ⟨more, hmore⟩ := prefix_place c (.name n) []
  rw [List.append_nil] at hmore
  rw [← hmore, TypeExpr.meaning, named, huser]
  rfl

theorem readTypes_keeps_itemInUnion : ∃ (c : Surroundings) (n : TypeName),
    (c.fill (.name n)).text = "Dict[str,Union[astyping.AST,List[app.Item]]]".toList ∧
      Eval.Ends (Eval.readTypes "Dict[str, Union[ast.AST, List[app.Item]]]").run {} fun es u =>
        ∃ as, Makes as {} es u ∧ (c.place as).head? = some (leaf "app.Item" .user) := by
  let str : TypeName :=
    ⟨"str".toList, by simp, by decide +kernel, by decide +kernel, by decide +kernel⟩
  let ast : TypeName :=
    ⟨"astyping.AST".toList, by simp, by decide +kernel, by decide +kernel, by decide +kernel⟩
  let item : TypeName :=
    ⟨"app.Item".toList, by simp, by decide +kernel, by decide +kernel, by decide +kernel⟩
  let list : Surroundings := .asElement ⟨"List".toList, by decide +kernel⟩ [] .nothing []
  let union : Surroundings := .asMember ⟨"Union".toList, by decide +kernel⟩ [.name ast] list []
  let dict : Surroundings := .asValue ⟨"Dict".toList, by decide +kernel⟩ (.name str) union
  have hname : String.ofList item.text = "app.Item" := String.ofList_toList
  have huser : Vocabulary.denoted? (lower (String.ofList item.text)) = none := by
    rw [hname, Vocabulary.denoted?_eq (by decide +kernel)]
    decide +kernel
  have hread := readTypes_keeps_userName dict (by simp [dict]) item huser
    "Dict[str, Union[ast.AST, List[app.Item]]]" (by decide +kernel) (by decide +kernel)
    (by decide +kernel) (by decide +kernel) {}
  rw [hname] at hread
  exact ⟨dict, item, by decide +kernel, hread⟩

/-- The name of a user type that ends a component in `t` is read as another one inside of
brackets. -/
theorem read_renames_ast :
    (IsPlain "ast.AST".toList ∧ Vocabulary.denoted? (lower "ast.AST") = none ∧
      lower "ast.AST" ∉ unionWords ∧ ∀ p ∈ shortened, ¬ p.toList <:+: "ast.AST".toList) ∧
    read "List[ast.AST]" =
      [.mk (headType "List".toList) .builtin [leaf "astyping.AST" .user] [] []] := by
  refine ⟨⟨by decide +kernel, ?_, by decide +kernel, by decide +kernel⟩, ?_⟩
  · rw [Vocabulary.denoted?_eq (by decide +kernel)]
    decide +kernel
  · let ast : TypeName :=
      ⟨"astyping.AST".toList, by simp, by decide +kernel, by decide +kernel, by decide +kernel⟩
    let list : Head containerWords := ⟨"List".toList, by decide +kernel⟩
    have hname : String.ofList ast.text = "astyping.AST" := String.ofList_toList
    have huser : named "astyping.AST" = leaf "astyping.AST" .user := by
      rw [named, Vocabulary.denoted?_eq (by decide +kernel)]
      rfl
    have hread : read "List[ast.AST]" = (TypeExpr.container list (.name ast) []).meaning :=
      TypeExpr.read_writtenOut (by decide +kernel) (by simp) (by decide +kernel) (by decide +kernel)
        (by decide +kernel)
    rw [hread, TypeExpr.meaning, TypeExpr.meaning, TypeExpr.meanings, hname, huser]
    rfl

end Surroundings
end TypeFlow
