import TypeFlow.Proofs.Cells
import TypeFlow.Proofs.Reading

/-!
# Type expressions and what they denote

Type expressions as a grammar of their own: names, containers, mappings, unions and optional
types, each with a text and with a list of shapes that it denotes. Reading the text of an
expression, with spaces anywhere, gives what the expression denotes. The induction is over the
expression; each form of expression has its own lemma about the text.
-/

namespace TypeFlow

open Text Shape

/-- Names of types: texts without delimiters in which nothing is left out or rewritten. -/
structure TypeName where
  text : List Char
  ne_nil : text ≠ []
  plain : IsPlain text
  kept : ∀ p ∈ rewritten, ¬ p.toList <:+: text
  not_union : lower (String.ofList text) ∉ unionWords

/-- A head out of a list of words, in any letter case. -/
structure Head (words : List String) where
  text : List Char
  spells : IsHead words text

inductive TypeExpr where
  | name (n : TypeName)
  | container (head : Head containerWords) (first : TypeExpr) (rest : List TypeExpr)
  | mapping (head : Head mappingWords) (key value : TypeExpr)
  | union (head : Head unionWords) (first : TypeExpr) (rest : List TypeExpr)
  | optional (head : Head optionalWords) (content : TypeExpr)

namespace TypeExpr

variable (es : List TypeExpr) (e : TypeExpr)

mutual

/-- An expression without spaces. -/
def text : TypeExpr → List Char
  | .name n => n.text
  | .container head first rest => bracketed head.text (joined (first.text :: texts rest))
  | .mapping head key value => bracketed head.text (joined [key.text, value.text])
  | .union head first rest => bracketed head.text (joined (first.text :: texts rest))
  | .optional head content => bracketed head.text (joined [content.text])

def texts : List TypeExpr → List (List Char)
  | [] => []
  | e :: rest => e.text :: texts rest

end

mutual

def meaning : TypeExpr → List Shape
  | .name n => [named (String.ofList n.text)]
  | .container head first rest =>
    [.mk (headType head.text) .builtin (first.meaning ++ meanings rest) [] []]
  | .mapping head key value =>
    [.mk (headType head.text) .builtin [] key.meaning value.meaning]
  | .union _ first rest => first.meaning ++ meanings rest
  | .optional _ content => content.meaning ++ [leaf "None" .builtin]

/-- The types that arguments stand for, in order. -/
def meanings : List TypeExpr → List Shape
  | [] => []
  | e :: rest => e.meaning ++ meanings rest

end

theorem texts_eq_map : texts es = es.map text := by
  induction es with
  | nil => rfl
  | cons e es ih => rw [texts, ih, List.map_cons]

theorem meanings_eq_flatMap : meanings es = es.flatMap meaning := by
  induction es with
  | nil => rfl
  | cons e es ih => rw [meanings, ih, List.flatMap_cons]

/-- Induction over an expression and its arguments. -/
@[elab_as_elim]
theorem induction {P : TypeExpr → Prop} (name : ∀ n, P (.name n))
    (container : ∀ head first rest, (∀ e ∈ first :: rest, P e) → P (.container head first rest))
    (mapping : ∀ head key value, P key → P value → P (.mapping head key value))
    (union : ∀ head first rest, (∀ e ∈ first :: rest, P e) → P (.union head first rest))
    (optional : ∀ head content, P content → P (.optional head content)) (e : TypeExpr) : P e := by
  refine @TypeExpr.rec P (fun es => ∀ e ∈ es, P e) name ?_ mapping ?_ optional ?_ ?_ e
  · intro head first rest hfirst hrest
    exact container head first rest (List.forall_mem_cons.mpr ⟨hfirst, hrest⟩)
  · intro head first rest hfirst hrest
    exact union head first rest (List.forall_mem_cons.mpr ⟨hfirst, hrest⟩)
  · intro e he
    exact absurd he List.not_mem_nil
  · intro first rest hfirst hrest
    exact List.forall_mem_cons.mpr ⟨hfirst, hrest⟩

theorem isTerm_texts {es : List TypeExpr} (h : ∀ e ∈ es, IsTerm e.text) :
    ∀ t ∈ texts es, IsTerm t := by
  rw [texts_eq_map]
  intro t ht
  obtain ⟨e, he, rfl⟩ := List.mem_map.mp ht
  exact h e he

/-- The text of an expression may stand as an argument. -/
theorem isTerm_text : IsTerm e.text := by
  induction e using TypeExpr.induction with
  | name n =>
    rw [text]
    exact ⟨n.plain.isPart, n.plain.not_mem (by decide), n.kept⟩
  | container head first rest ih =>
    rw [text]
    exact isTerm_bracketed (head.spells.mono containerWords_subset) (isTerm_texts ih)
  | mapping head key value hkey hvalue =>
    rw [text]
    exact isTerm_bracketed (head.spells.mono mappingWords_subset) (by simp [hkey, hvalue])
  | union head first rest ih =>
    rw [text]
    exact isTerm_bracketed (head.spells.mono unionWords_subset) (isTerm_texts ih)
  | optional head content ih =>
    rw [text]
    exact isTerm_bracketed (head.spells.mono optionalWords_subset) (by simp [ih])

/-- Reading with a given nesting gives what an expression denotes. -/
def ReadsBack (e : TypeExpr) : Prop :=
  ∀ (s : String) (n : Nat), s.toList.filter (· ≠ ' ') = e.text → e.text.length ≤ 500 →
    brackets '[' e.text < n → readNested n s = e.meaning

section Arguments

variable {args : List TypeExpr} {head : List Char} {n : Nat}

/-- The arguments of an expression are read with one level of nesting less. -/
theorem readNested_argument (ih : ∀ e ∈ args, e.ReadsBack)
    (hlen : (bracketed head (joined (texts args))).length ≤ 500)
    (hn : brackets '[' (bracketed head (joined (texts args))) < n + 1) :
    ∀ e ∈ args, readNested n (String.ofList e.text) = e.meaning := by
  intro e he
  have hmem : e.text ∈ texts args := by
    rw [texts_eq_map]
    exact List.mem_map_of_mem he
  obtain ⟨hshorter, hfewer⟩ := argument_lt hmem head
  refine ih e he (String.ofList e.text) n ?_ (by omega) (by omega)
  rw [String.toList_ofList]
  exact filter_space_of_isClean e.isTerm_text.toIsClean

theorem flatMap_texts (h : ∀ e ∈ args, readNested n (String.ofList e.text) = e.meaning) :
    ((texts args).flatMap fun t => readNested n (String.ofList t)) = meanings args := by
  rw [texts_eq_map, meanings_eq_flatMap, List.flatMap_map]
  exact List.flatMap_congr h

end Arguments

theorem readsBack : e.ReadsBack := by
  induction e using TypeExpr.induction with
  | name m =>
    intro s n hs hlen hn
    obtain ⟨n, rfl⟩ := Nat.exists_eq_add_one_of_ne_zero (Nat.ne_zero_of_lt hn)
    rw [meaning]
    rw [text] at hs hlen
    exact readNested_name hs (name m).isTerm_text.toIsClean m.plain m.ne_nil hlen m.not_union
  | container head first rest ih =>
    intro s n hs hlen hn
    obtain ⟨n, rfl⟩ := Nat.exists_eq_add_one_of_ne_zero (Nat.ne_zero_of_lt hn)
    rw [text] at hs hlen hn
    have hargs := flatMap_texts (readNested_argument ih hlen hn)
    have hts := isTerm_texts fun e (_ : e ∈ first :: rest) => e.isTerm_text
    rw [readNested_container hts hs hlen (by simp [texts]) head.spells, meaning]
    exact congrArg (fun elements => [Shape.mk _ _ elements [] []]) hargs
  | mapping head key value hkey hvalue =>
    intro s n hs hlen hn
    obtain ⟨n, rfl⟩ := Nat.exists_eq_add_one_of_ne_zero (Nat.ne_zero_of_lt hn)
    rw [text] at hs hlen hn
    have hargs : ∀ e ∈ [key, value], readNested n (String.ofList e.text) = e.meaning :=
      readNested_argument (by simp [hkey, hvalue]) hlen hn
    rw [readNested_mapping key.isTerm_text value.isTerm_text hs hlen head.spells, meaning,
      hargs key (by simp), hargs value (by simp)]
  | union head first rest ih =>
    intro s n hs hlen hn
    obtain ⟨n, rfl⟩ := Nat.exists_eq_add_one_of_ne_zero (Nat.ne_zero_of_lt hn)
    rw [text] at hs hlen hn
    have hargs := flatMap_texts (readNested_argument ih hlen hn)
    have hts := isTerm_texts fun e (_ : e ∈ first :: rest) => e.isTerm_text
    rw [readNested_union hts hs hlen (by simp [texts]) head.spells, meaning]
    exact hargs
  | optional head content ih =>
    intro s n hs hlen hn
    obtain ⟨n, rfl⟩ := Nat.exists_eq_add_one_of_ne_zero (Nat.ne_zero_of_lt hn)
    rw [text] at hs hlen hn
    have hargs : ∀ e ∈ [content], readNested n (String.ofList e.text) = e.meaning :=
      readNested_argument (by simp [ih]) hlen hn
    have hts : ∀ t ∈ [content.text], IsTerm t := by simp [content.isTerm_text]
    rw [readNested_optional hts hs hlen head.spells, meaning, joined_singleton,
      hargs content (by simp)]

/-- No type that is denoted has a bracket in its name. -/
theorem anyBracket_meaning : anyBracket e.meaning = false := by
  have hall {args : List TypeExpr} (ih : ∀ e ∈ args, anyBracket e.meaning = false) :
      anyBracket (meanings args) = false := by
    induction args with
    | nil => rfl
    | cons e args ih' =>
      obtain ⟨he, hargs⟩ := List.forall_mem_cons.mp ih
      rw [meanings, anyBracket_append, he, ih' hargs]
      rfl
  induction e using TypeExpr.induction with
  | name m => simp [meaning, anyBracket, hasBracket_named m.plain]
  | container head first rest ih =>
    have := hall ih
    rw [meanings] at this
    simp [meaning, anyBracket, hasBracket_builtin, this]
  | mapping head key value hkey hvalue =>
    simp [meaning, anyBracket, hasBracket_builtin, hkey, hvalue]
  | union head first rest ih => exact hall ih
  | optional head content ih =>
    simp [meaning, anyBracket_append, ih, anyBracket, leaf, hasBracket_builtin]

/-- Reading an expression gives what it denotes. -/
theorem read_text {s : String} (hs : s.toList.filter (· ≠ ' ') = e.text)
    (hlen : e.text.length ≤ 500) : read s = e.meaning := by
  have hopen : brackets '[' s.toList = brackets '[' e.text := by
    rw [← hs, brackets_filter_space (by decide)]
  have hclose : brackets ']' s.toList = brackets ']' e.text := by
    rw [← hs, brackets_filter_space (by decide)]
  have hpaired : brackets '[' s.toList = brackets ']' s.toList := by
    rw [hopen, hclose, e.isTerm_text.paired]
  have hread : readAny s = e.meaning := by
    rw [readAny, hopen]
    exact e.readsBack s _ hs hlen (Nat.lt_succ_self _)
  rw [Shape.read, if_neg (not_not_intro hpaired), hread]
  simp only [e.anyBracket_meaning, Bool.false_eq_true, if_false]

/-- Reading the text of an expression, with spaces anywhere, adds the types that the expression
denotes to any store, and nothing else changes. -/
theorem readTypes_adds_meaning (e : TypeExpr) (text : String)
    (htext : text.toList.filter (· ≠ ' ') = e.text) (hlen : e.text.length ≤ 500) (s : Store) :
    Eval.Ends (Eval.readTypes text).run s (Makes e.meaning s) := by
  rw [Eval.readTypes, e.read_text htext hlen]
  exact allocAll_ends e.meaning s

theorem readTypes_nested_mapping : ∃ e : TypeExpr,
    e.text = "typing.Dict[str,Optional[LIST[int,Foo.Bar]]]".toList ∧
      Eval.Ends (Eval.readTypes "typing.Dict[str, Optional[ LIST[int, Foo.Bar] ]]").run {}
        (Makes e.meaning {}) := by
  let str : TypeName :=
    ⟨"str".toList, by simp, by decide +kernel, by decide +kernel, by decide +kernel⟩
  let int : TypeName :=
    ⟨"int".toList, by simp, by decide +kernel, by decide +kernel, by decide +kernel⟩
  let bar : TypeName :=
    ⟨"Foo.Bar".toList, by simp, by decide +kernel, by decide +kernel, by decide +kernel⟩
  let list : TypeExpr := .container ⟨"LIST".toList, by decide +kernel⟩ (.name int) [.name bar]
  let optional : TypeExpr := .optional ⟨"Optional".toList, by decide +kernel⟩ list
  refine ⟨.mapping ⟨"typing.Dict".toList, by decide +kernel⟩ (.name str) optional, ?_, ?_⟩
  · decide +kernel
  · exact readTypes_adds_meaning _ _ (by decide +kernel) (by decide +kernel) {}

end TypeExpr
end TypeFlow
