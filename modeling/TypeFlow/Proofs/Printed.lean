import TypeFlow.Proofs.Alike
import TypeFlow.Proofs.Expression

/-!
# Printed types are read back

The printed text of a shape, for the kinds of types whose text can be read back: plain standard
types, user types, containers and mappings. Printing and reading use different names for some
types and change the order of an optional type, so what is read back is not the shape that was
printed but one that denotes the same type. The induction is over the shape; rows of contents
have a lemma for each form in which they are printed.
-/

namespace TypeFlow.Shape

open Text Vocabulary List

variable {bs as ks vs es : List Shape} {t : List Char} {e : String × String × String}
  {name : String} {a : Shape} (n : TypeName)

/-- Plain standard types that are printed. -/
def plainNames : List String :=
  ["int", "float", "complex", "bool", "str", "Text", "bytes", "bytearray", "memoryview", "range",
    "None"]

def containerNames : List String := ["List", "Set", "Tuple", "Iterable", "Generator"]

/-- Trees of plain types, user types, containers and mappings. The name of a user type may denote a
standard type of the same short name, but none of another one. -/
inductive Printable : Shape → Prop
  | plain {name : String} (hname : name ∈ plainNames) : Printable (leaf name .builtin)
  | user (n : TypeName) (hname : ∀ name, denoted? (lower (String.ofList n.text)) = some name →
        Ty.sameShortName (String.ofList n.text) name = true) :
      Printable (leaf (String.ofList n.text) .user)
  | container {name : String} {elements : List Shape} (hname : name ∈ containerNames)
      (helements : ∀ a ∈ elements, Printable a) : Printable (.mk name .builtin elements [] [])
  | mapping {keys values : List Shape} (hkeys : ∀ a ∈ keys, Printable a)
      (hvalues : ∀ a ∈ values, Printable a) : Printable (.mk "Dict" .builtin [] keys values)

/-! ## The printed text -/

def form (name : String) : String := (printed? (lower name)).getD ""

def sideText : List String → String
  | [] => ""
  | [t] => t
  | ts => "typing.Union[" ++ join "," ts ++ "]"

/-- The text of the elements of a container, from their names and texts. Two elements of which one
is `None` are an optional. -/
def elementsText : List (String × String) → String
  | [a, b] =>
    if a.1 = "None" ∨ b.1 = "None" then
      "typing.Optional[" ++
        ((if a.1 = "None" then "" else a.2) ++ if b.1 = "None" then "" else b.2) ++ "]"
    else sideText [a.2, b.2]
  | ts => sideText (ts.map Prod.snd)

mutual

def text : Shape → String
  | .mk name category elements keys values =>
    if category ≠ .builtin then name
    else if lower name = "dict" ∧ 0 < keys.length + values.length then
      form name ++ "[" ++ sideText ((texts keys).map Prod.snd) ++ ", " ++
        sideText ((texts values).map Prod.snd) ++ "]"
    else if 0 < elements.length then form name ++ "[" ++ elementsText (texts elements) ++ "]"
    else form name

/-- The names and texts of types. -/
def texts : List Shape → List (String × String)
  | [] => []
  | a :: rest => (a.name, a.text) :: texts rest

end

theorem texts_eq_map (as : List Shape) : texts as = as.map fun a => (a.name, a.text) := by
  induction as with
  | nil => rfl
  | cons a as ih => rw [texts, ih, map_cons]

/-- Elements without an optional are printed like the sides of a mapping. -/
theorem elementsText_texts (h : ∀ a b, as = [a, b] → a.name ≠ "None" ∧ b.name ≠ "None") :
    elementsText (texts as) = sideText (as.map text) := by
  have hmap : (as.map fun a => (a.name, a.text)).map Prod.snd = as.map text := by simp
  rw [texts_eq_map]
  unfold elementsText
  split
  · rename_i x y hpair
    obtain ⟨a, rest, rfl, rfl, hrest⟩ := map_eq_cons_iff.mp hpair
    obtain ⟨b, more, rfl, rfl, hmore⟩ := map_eq_cons_iff.mp hrest
    obtain rfl := map_eq_nil_iff.mp hmore
    rw [if_neg (not_or.mpr (h a b rfl))]
    rfl
  · rw [hmap]

/-! ## Names -/

/-- Standard names that are printed, with their printed forms and the names that these denote. -/
def printedNames : List (String × String × String) :=
  [("int", "int", "int"), ("float", "float", "float"), ("complex", "complex", "complex"),
    ("bool", "bool", "bool"), ("str", "str", "str"), ("Text", "typing.Text", "str"),
    ("bytes", "bytes", "bytes"), ("bytearray", "bytearray", "bytearray"),
    ("memoryview", "memoryview", "memoryview"), ("range", "range", "range"),
    ("None", "None", "None"), ("List", "list", "list"), ("Set", "set", "set"),
    ("Tuple", "tuple", "tuple"), ("Iterable", "typing.Iterable", "Iterable"),
    ("Generator", "typing.Generator", "Generator"), ("Dict", "dict", "dict")]

/-- What the look-ups need to know about a name, its printed form and what the form denotes. -/
structure NameFacts (e : String × String × String) : Prop where
  standard : e.1 ∈ standardNames
  not_optional : lower e.1 ≠ "optional"
  lower_eq : e.1 ≠ "Text" → lower e.2.2 = lower e.1
  printing : (bytes e.1).all (· < 128) ∧
    (byteKeys printings).lookup ((bytes e.1).map lowerByte) = some e.2.1
  denoting : e.1 ≠ "Text" → (bytes e.2.1).all (· < 128) ∧
    (∀ a ∈ byteKeys alternatives, a.1 ≠ (bytes e.2.1).map lowerByte) ∧
    (byteKeys spellings).lookup ((bytes e.2.1).map lowerByte) = some e.2.2
  readable : e.2.1.toList ≠ [] ∧ IsPlain e.2.1.toList ∧
    (∀ p ∈ rewritten, ¬ p.toList <:+: e.2.1.toList) ∧
    lower (String.ofList e.2.1.toList) ∉ unionWords
  headed : e.1 ∈ containerNames → IsHead containerWords e.2.1.toList ∧ lower e.1 ∈ ["set", "tuple",
    "list", "awaitable", "iterable", "sequence", "generator"] ∧ lower e.1 ∉ ["dict", "callable"]

theorem nameFacts (he : e ∈ printedNames) : NameFacts e := by
  -- one evaluation of all tables
  have hall : ∀ e ∈ printedNames, e.1 ∈ standardNames ∧ lower e.1 ≠ "optional" ∧
      (e.1 ≠ "Text" → lower e.2.2 = lower e.1) ∧
      ((bytes e.1).all (· < 128) ∧
        (byteKeys printings).lookup ((bytes e.1).map lowerByte) = some e.2.1) ∧
      (e.1 ≠ "Text" → (bytes e.2.1).all (· < 128) ∧
        (∀ a ∈ byteKeys alternatives, a.1 ≠ (bytes e.2.1).map lowerByte) ∧
        (byteKeys spellings).lookup ((bytes e.2.1).map lowerByte) = some e.2.2) ∧
      (e.2.1.toList ≠ [] ∧ IsPlain e.2.1.toList ∧ (∀ p ∈ rewritten, ¬ p.toList <:+: e.2.1.toList) ∧
        lower (String.ofList e.2.1.toList) ∉ unionWords) ∧
      (e.1 ∈ containerNames → IsHead containerWords e.2.1.toList ∧ lower e.1 ∈ ["set", "tuple",
        "list", "awaitable", "iterable", "sequence", "generator"] ∧
        lower e.1 ∉ ["dict", "callable"]) := by decide +kernel
  obtain ⟨h₁, h₂, h₃, h₄, h₅, h₆, h₇⟩ := hall e he
  exact ⟨h₁, h₂, h₃, h₄, h₅, h₆, h₇⟩

theorem text_mem_tables : ("typing.Text", "str") ∈ alternatives ∧
    ("Text", "typing.Text") ∈ printings ∧ lower "str" = "str" ∧ lower "Text" = "text" ∧
    lower "Dict" = "dict" := by
  decide +kernel

section

variable (he : e ∈ printedNames)

include he

theorem eq_text (htext : e.1 = "Text") :
    e = ("Text", "typing.Text", "str") := by
  simp only [printedNames, mem_cons, not_mem_nil, or_false] at he
  rcases he with rfl | rfl | rfl | rfl | rfl | rfl | rfl | rfl | rfl | rfl | rfl | rfl | rfl | rfl |
    rfl | rfl | rfl
  all_goals first | rfl | simp at htext

theorem printed?_printedNames : printed? (lower e.1) = some e.2.1 := by
  obtain ⟨hascii, hform⟩ := (nameFacts he).printing
  have hascii : IsAscii e.1 := fun b hb => of_decide_eq_true (all_eq_true.mp hascii b hb)
  rw [printed?_eq, hascii.bytes_lower, hform]

theorem denoted?_printedNames : denoted? (lower e.2.1) = some e.2.2 := by
  by_cases htext : e.1 = "Text"
  · obtain ⟨halternative, hprinting, -⟩ := text_mem_tables
    have hform := printed?_printedNames he
    obtain rfl := eq_text he htext
    exact denoted?_of_alternative halternative hprinting hform
  · obtain ⟨hascii, hnone, hname⟩ := (nameFacts he).denoting htext
    have hascii : IsAscii e.2.1 := fun b hb => of_decide_eq_true (all_eq_true.mp hascii b hb)
    rw [denoted?_eq (by rw [hascii.bytes_lower]; exact hnone), hascii.bytes_lower, hname]

theorem rank?_printedNames : rank? (lower e.2.2) = rank? (lower e.1) := by
  by_cases htext : e.1 = "Text"
  · obtain ⟨-, -, hstr, hlower, -⟩ := text_mem_tables
    obtain rfl := eq_text he htext
    rw [hstr, hlower, rank?_of_shared (n := 0) (by decide), rank?_of_shared (n := 0) (by decide)]
  · rw [(nameFacts he).lower_eq htext]

end

theorem exists_plain (h : name ∈ plainNames) : ∃ e ∈ printedNames, e.1 = name := by
  have hall : plainNames ⊆ printedNames.map Prod.fst := by simp [plainNames, printedNames]
  exact mem_map.mp (hall h)

theorem exists_container (h : name ∈ containerNames) : ∃ e ∈ printedNames, e.1 = name := by
  have hall : containerNames ⊆ printedNames.map Prod.fst := by simp [containerNames, printedNames]
  exact mem_map.mp (hall h)

theorem none_mem_printedNames : ("None", "None", "None") ∈ printedNames := by simp [printedNames]

theorem dict_mem_printedNames : ("Dict", "dict", "dict") ∈ printedNames := by simp [printedNames]

theorem lower_dict : lower "Dict" = "dict" := text_mem_tables.2.2.2.2

theorem form_eq (he : e ∈ printedNames) : form e.1 = e.2.1 := by
  rw [form, printed?_printedNames he]
  rfl

theorem text_user (name : String) : (leaf name .user).text = name := by
  rw [leaf, text, if_pos (by decide)]

theorem text_leaf (he : e ∈ printedNames) : (leaf e.1 .builtin).text = e.2.1 := by
  have hcategory : ¬ Category.builtin ≠ Category.builtin := by decide
  simp only [leaf, text, if_neg hcategory, length_nil, Nat.add_zero, Nat.lt_irrefl, and_false,
    if_false, form_eq he]

theorem text_container (he : e ∈ printedNames) (hne : as ≠ []) :
    (Shape.mk e.1 .builtin as [] []).text = e.2.1 ++ "[" ++ elementsText (texts as) ++ "]" := by
  have hcategory : ¬ Category.builtin ≠ Category.builtin := by decide
  simp only [text, if_neg hcategory, length_nil, Nat.add_zero, Nat.lt_irrefl, and_false,
    if_false, if_pos (length_pos_iff.mpr hne), form_eq he]

theorem text_mapping (hne : 0 < ks.length + vs.length) : (Shape.mk "Dict" .builtin [] ks vs).text =
      "dict[" ++ sideText (ks.map text) ++ ", " ++ sideText (vs.map text) ++ "]" := by
  have hcategory : ¬ Category.builtin ≠ Category.builtin := by decide
  have hmap (as : List Shape) : (texts as).map Prod.snd = as.map text := by simp [texts_eq_map]
  simp only [text, if_neg hcategory, lower_dict, hne, and_self, if_true, hmap,
    form_eq dict_mem_printedNames]
  rfl

def formName {e : String × String × String} (he : e ∈ printedNames) : TypeName where
  text := e.2.1.toList
  ne_nil := (nameFacts he).readable.1
  plain := (nameFacts he).readable.2.1
  kept := (nameFacts he).readable.2.2.1
  not_union := (nameFacts he).readable.2.2.2

theorem alike_printed (he : e ∈ printedNames) {es' ks' vs' : List Shape}
    (hl : Usable (.mk e.1 .builtin es ks vs)) (hr : Usable (.mk e.2.2 .builtin es' ks' vs'))
    (hes : AlikeRows es es') (hks : AlikeRows ks ks') (hvs : AlikeRows vs vs') :
    Alike (.mk e.1 .builtin es ks vs) (.mk e.2.2 .builtin es' ks' vs') := by
  obtain ⟨n, hn⟩ := Option.isSome_iff_exists.mp (rank?_standard (nameFacts he).standard)
  have hn' : rank? (lower e.2.2) = some n := (rank?_printedNames he).trans hn
  exact fun discard t u ht hu => ⟨same_of_alikeRows hn hn' hl hr hes hks hvs ht hu,
    same_of_alikeRows hn' hn hr hl hes.symm hks.symm hvs.symm hu ht⟩

/-- Printable types can be compared. -/
theorem Printable.usable (h : a.Printable) : a.Usable := by
  induction h with
  | plain hname =>
    obtain ⟨e, he, rfl⟩ := exists_plain hname
    exact usable_builtin (nameFacts he).standard
  | user n hname =>
    refine .mk (.inr ⟨rfl, ?_, ?_⟩) (fun _ => rfl) (by simp) (by simp) (by simp)
    · rw [String.toList_ofList]
      exact n.plain.not_mem (by decide)
    · rw [String.toList_ofList]
      exact n.plain.not_mem (by decide)
  | container hname _ ih =>
    obtain ⟨e, he, rfl⟩ := exists_container hname
    exact .mk (.inl ⟨rfl, (nameFacts he).standard⟩)
      (fun h => absurd h (nameFacts he).not_optional) ih (by simp) (by simp)
  | mapping _ _ hkeys hvalues =>
    exact .mk (.inl ⟨rfl, (nameFacts dict_mem_printedNames).standard⟩) (fun _ => rfl) (by simp)
      hkeys hvalues

theorem Printable.elements_optional {category : Category}
    (h : (Shape.mk name category es ks vs).Printable) (hname : lower name = "optional") :
    es = [] := by
  have husable := h.usable
  cases husable with
  | mk _ hoptional => exact hoptional hname

/-! ## Texts without spaces -/

/-- The characters of a text other than spaces. -/
def bare (s : String) : List Char := s.toList.filter (· ≠ ' ')

theorem bare_append (s t : String) : bare (s ++ t) = bare s ++ bare t := by
  rw [bare, String.toList_append, filter_append]
  rfl

theorem bare_ofList (ht : IsClean t) : bare (String.ofList t) = t := by
  rw [bare, String.toList_ofList]
  exact filter_space_of_isClean ht

theorem bare_join (ts : List String) : bare (join "," ts) = joined (ts.map bare) := by
  have hcomma : ",".toList = [','] := by decide
  rw [bare, join, String.toList_intercalate, hcomma]
  change (joined (ts.map String.toList)).filter _ = _
  induction ts with
  | nil => rfl
  | cons t ts ih =>
    cases ts with
    | nil => simp [bare]
    | cons u ts =>
      simp only [map_cons] at ih ⊢
      rw [joined_cons_cons, joined_cons_cons, filter_append, filter_cons_of_pos, ih]
      · rfl
      · decide

theorem bare_bracketed (h inner : String) :
    bare (h ++ "[" ++ inner ++ "]") = bracketed (bare h) (bare inner) := by
  have hopen : bare "[" = ['['] := by decide
  have hclose : bare "]" = [']'] := by decide
  rw [bare_append, bare_append, bare_append, hopen, hclose, bracketed]
  simp

/-! ## Reading back -/

/-- A text without spaces is read as given types. -/
def Reads (t : List Char) (bs : List Shape) : Prop :=
  ∀ (n : Nat) (s : String), bare s = t → brackets '[' t < n → readNested n s = bs

/-- A text stands for types: if it is short enough, what is read are their likes. -/
structure Denotes (t : List Char) (as : List Shape) : Prop where
  isTerm : IsTerm t
  reads : t.length ≤ 500 → ∃ bs, Reads t bs ∧ anyBracket bs = false ∧ AlikeRows as bs

/-- The text of a type is read as one type, its like. -/
structure ReadsBack (a : Shape) : Prop where
  isTerm : IsTerm (bare a.text)
  reads : (bare a.text).length ≤ 500 →
    ∃ b, Reads (bare a.text) [b] ∧ hasBracket b = false ∧ Alike a b

theorem Reads.argument (h : Reads t bs) (ht : IsClean t)
    {n : Nat} (hn : brackets '[' t < n) : readNested n (String.ofList t) = bs :=
  h n _ (bare_ofList ht) hn

theorem Reads.usable (h : Reads t bs) (ht : IsClean t) (hbs : anyBracket bs = false) :
    ∀ b ∈ bs, b.Usable := by
  have hread := h.argument ht (Nat.lt_succ_self _)
  intro b hb
  have hbracket := anyBracket_eq_false_iff.mp hbs b hb
  rw [← hread] at hb
  exact usable_readNested _ _ b hb hbracket

theorem isTerm_nil : IsTerm [] :=
  ⟨IsPlain.isPart (by simp [IsPlain]), isClean_nil⟩

theorem readNested_empty {s : String} (hs : bare s = []) (n : Nat) : readNested n s = [] := by
  cases n with
  | zero => rfl
  | succ n =>
    rw [readNested, strip_eq hs isClean_nil (by simp)]
    unfold readStripped
    simp

theorem ReadsBack.denotes (h : ReadsBack a) : Denotes (bare a.text) [a] where
  isTerm := h.isTerm
  reads hlen := by
    obtain ⟨b, hreads, hb, hab⟩ := h.reads hlen
    exact ⟨[b], hreads, by simp [anyBracket, hb], alikeRows_nil.cons hab⟩

/-- Types that are read back one after the other. -/
theorem exists_readings (h : ∀ a ∈ as, ReadsBack a) (hlen : ∀ a ∈ as, (bare a.text).length ≤ 500) :
    ∃ bs, anyBracket bs = false ∧ AlikeRows as bs ∧
      ∀ n, (∀ a ∈ as, brackets '[' (bare a.text) < n) →
        ((as.map fun a => bare a.text).flatMap fun t => readNested n (String.ofList t)) = bs := by
  induction as with
  | nil => exact ⟨[], rfl, alikeRows_nil, fun _ _ => rfl⟩
  | cons a as ih =>
    obtain ⟨ha, has⟩ := forall_mem_cons.mp h
    obtain ⟨hlen, hlens⟩ := forall_mem_cons.mp hlen
    obtain ⟨b, hreads, hb, hab⟩ := ha.reads hlen
    obtain ⟨bs, hbs, halike, hrest⟩ := ih has hlens
    refine ⟨b :: bs, by simp [anyBracket, hb, hbs], halike.cons hab, fun n hn => ?_⟩
    obtain ⟨hn, hns⟩ := forall_mem_cons.mp hn
    rw [map_cons, flatMap_cons, hrest n hns, hreads.argument ha.isTerm.toIsClean hn]
    rfl

theorem printedHeads : IsHead unionWords "typing.Union".toList ∧
    IsHead optionalWords "typing.Optional".toList ∧ IsHead mappingWords "dict".toList := by
  decide +kernel

/-- Several types are printed as a union. -/
theorem denotes_union (h : ∀ a ∈ as, ReadsBack a) (hne : as ≠ []) :
    Denotes (bare ("typing.Union[" ++ join "," (as.map text) ++ "]")) as := by
  have hhead := printedHeads.1
  have htext : bare ("typing.Union[" ++ join "," (as.map text) ++ "]") =
      bracketed "typing.Union".toList (joined (as.map fun a => bare a.text)) := by
    have hsplit : "typing.Union[" = "typing.Union" ++ "[" := by decide
    have hbare : bare "typing.Union" = "typing.Union".toList := by decide
    rw [hsplit, bare_bracketed, hbare, bare_join, map_map]
    rfl
  have hts : ∀ t ∈ as.map fun a => bare a.text, IsTerm t := by
    intro t ht
    obtain ⟨a, ha, rfl⟩ := mem_map.mp ht
    exact (h a ha).isTerm
  rw [htext]
  refine ⟨isTerm_bracketed (hhead.mono unionWords_subset) hts, fun hlen => ?_⟩
  have hlt {a : Shape} (ha : a ∈ as) :=
    argument_lt (mem_map_of_mem (f := fun a => bare a.text) ha) "typing.Union".toList
  obtain ⟨bs, hbs, halike, hreads⟩ := exists_readings h fun a ha => by
    have := (hlt ha).1
    omega
  refine ⟨bs, fun n s hs hn => ?_, hbs, halike⟩
  obtain ⟨n, rfl⟩ := Nat.exists_eq_add_one_of_ne_zero (Nat.ne_zero_of_lt hn)
  rw [readNested_union hts hs hlen (by simpa using hne) hhead]
  refine hreads n fun a ha => ?_
  have := (hlt ha).2
  omega

theorem denotes_side (h : ∀ a ∈ as, ReadsBack a) : Denotes (bare (sideText (as.map text))) as := by
  cases as with
  | nil =>
    exact ⟨isTerm_nil, fun _ => ⟨[], fun n _ hs _ => readNested_empty hs n, rfl, alikeRows_nil⟩⟩
  | cons a rest =>
    cases rest with
    | nil =>
      simp only [map_cons, map_nil, sideText]
      exact (h a (by simp)).denotes
    | cons b rest =>
      have hunion := denotes_union h (by simp)
      simp only [map_cons, sideText] at hunion ⊢
      exact hunion

theorem reads_name (hlen : n.text.length ≤ 500) : Reads n.text [named (String.ofList n.text)] := by
  intro k s hs hk
  obtain ⟨k, rfl⟩ := Nat.exists_eq_add_one_of_ne_zero (Nat.ne_zero_of_lt hk)
  have hclean : IsClean n.text := (TypeExpr.name n).isTerm_text.toIsClean
  exact readNested_name hs hclean n.plain n.ne_nil hlen n.not_union

theorem readsBack_user
    (hname : ∀ name, denoted? (lower (String.ofList n.text)) = some name →
      Ty.sameShortName (String.ofList n.text) name = true) :
    ReadsBack (leaf (String.ofList n.text) .user) := by
  have hterm : IsTerm n.text := (TypeExpr.name n).isTerm_text
  have htext : bare (leaf (String.ofList n.text) .user).text = n.text := by
    rw [text_user]
    exact bare_ofList hterm.toIsClean
  constructor
  · rw [htext]
    exact hterm
  · rw [htext]
    intro hlen
    refine ⟨_, reads_name n hlen, hasBracket_named n.plain, ?_⟩
    unfold named
    split
    · rename_i name hdenoted
      exact alike_shortName (hname name hdenoted)
    · exact alike_user _

theorem readsBack_leaf (he : e ∈ printedNames) : ReadsBack (leaf e.1 .builtin) := by
  have hterm : IsTerm (formName he).text := (TypeExpr.name (formName he)).isTerm_text
  have htext : bare (leaf e.1 .builtin).text = (formName he).text := by
    rw [text_leaf he]
    exact filter_space_of_isClean hterm.toIsClean
  have hnamed : named (String.ofList (formName he).text) = leaf e.2.2 .builtin := by
    rw [named, show String.ofList (formName he).text = e.2.1 from String.ofList_toList,
      denoted?_printedNames he]
  constructor
  · rw [htext]
    exact hterm
  · rw [htext]
    intro hlen
    refine ⟨_, reads_name (formName he) hlen, hasBracket_named (formName he).plain, ?_⟩
    rw [hnamed]
    exact alike_printed he (usable_builtin (nameFacts he).standard)
      (usable_builtin (denoted?_standard (denoted?_printedNames he)))
      alikeRows_nil alikeRows_nil alikeRows_nil

theorem alike_none : Alike (leaf "None" .builtin) (leaf "None" .builtin) := by
  have husable : Usable (leaf "None" .builtin) :=
    usable_builtin (nameFacts none_mem_printedNames).standard
  exact alike_printed none_mem_printedNames husable husable alikeRows_nil alikeRows_nil
    alikeRows_nil

/-- A printable type named `None` is alike to the standard one. -/
theorem Printable.alike_none (h : a.Printable) (hname : a.name = "None") :
    Alike a (leaf "None" .builtin) := by
  cases h with
  | @plain name =>
    obtain rfl : name = "None" := hname
    exact Shape.alike_none
  | user n =>
    rw [show String.ofList n.text = "None" from hname]
    exact alike_shortName (beq_self_eq_true _)
  | @container name elements hcontainer =>
    obtain rfl : name = "None" := hname
    exact absurd hcontainer (by decide)
  | mapping => exact absurd (show "Dict" = "None" from hname) (by decide)

/-- An optional is read as its content and `None`, in this order. -/
theorem denotes_optional (h : Denotes t as)
    (hbs : ∀ cs, AlikeRows as cs → AlikeRows bs (cs ++ [leaf "None" .builtin])) :
    Denotes (bracketed "typing.Optional".toList (joined [t])) bs := by
  have hhead := printedHeads.2.1
  have hts : ∀ u ∈ [t], IsTerm u := by simp [h.isTerm]
  refine ⟨isTerm_bracketed (hhead.mono optionalWords_subset) hts, fun hlen => ?_⟩
  obtain ⟨hshorter, hfewer⟩ := argument_lt (mem_singleton_self t) "typing.Optional".toList
  obtain ⟨cs, hreads, hcs, halike⟩ := h.reads (by omega)
  refine ⟨cs ++ [leaf "None" .builtin], fun n s hs hn => ?_, ?_, hbs cs halike⟩
  · obtain ⟨n, rfl⟩ := Nat.exists_eq_add_one_of_ne_zero (Nat.ne_zero_of_lt hn)
    rw [readNested_optional hts hs hlen hhead, joined_singleton,
      hreads.argument h.isTerm.toIsClean (by omega)]
  · simp [anyBracket_append, hcs, anyBracket, leaf, hasBracket_builtin]

/-- The order of the types and repeated ones do not count. -/
theorem AlikeRows.append_like {cs : List Shape} (h : AlikeRows as cs) (hsub : as ⊆ bs)
    (hbs : ∀ b ∈ bs, b ∈ as ∨ Alike b a) (ha : ∃ b ∈ bs, Alike b a) : AlikeRows bs (cs ++ [a]) := by
  constructor
  · intro b hb
    obtain hb | hba := hbs b hb
    · obtain ⟨c, hc, hbc⟩ := h.1 b hb
      exact ⟨c, mem_append_left _ hc, hbc⟩
    · exact ⟨a, by simp, hba⟩
  · intro c hc
    rw [mem_append, mem_singleton] at hc
    obtain hc | rfl := hc
    · obtain ⟨b, hb, hbc⟩ := h.2 c hc
      exact ⟨b, hsub hb, hbc⟩
    · exact ha

/-- Two elements of which one is `None`. -/
theorem denotes_pair {b : Shape} (ha : ReadsBack a) (hb : ReadsBack b) (hpa : a.Printable)
    (hpb : b.Printable) (hnone : a.name = "None" ∨ b.name = "None") :
    Denotes (bare ("typing.Optional[" ++ ((if a.name = "None" then "" else a.text) ++
      if b.name = "None" then "" else b.text) ++ "]")) [a, b] := by
  have hsplit : "typing.Optional[" = "typing.Optional" ++ "[" := by decide
  have hbare : bare "typing.Optional" = "typing.Optional".toList := by decide
  rw [hsplit, bare_bracketed, hbare, ← joined_singleton (bare _)]
  by_cases hna : a.name = "None"
  · have halike := hpa.alike_none hna
    by_cases hnb : b.name = "None"
    · have hnil : Denotes (bare (sideText ([].map text))) [] := denotes_side (by simp)
      rw [if_pos hna, if_pos hnb]
      refine denotes_optional hnil fun cs hcs => ?_
      exact hcs.append_like (by simp) (by simp [halike, hpb.alike_none hnb]) ⟨a, by simp, halike⟩
    · rw [if_pos hna, if_neg hnb, String.empty_append]
      refine denotes_optional hb.denotes fun cs hcs => ?_
      exact hcs.append_like (by simp) (by simp [halike]) ⟨a, by simp, halike⟩
  · have hnb := hnone.resolve_left hna
    have halike := hpb.alike_none hnb
    rw [if_neg hna, if_pos hnb, String.append_empty]
    refine denotes_optional ha.denotes fun cs hcs => ?_
    exact hcs.append_like (by simp) (by simp [halike]) ⟨b, by simp, halike⟩

theorem denotes_elements (h : ∀ a ∈ as, ReadsBack a) (hp : ∀ a ∈ as, a.Printable) :
    Denotes (bare (elementsText (texts as))) as := by
  by_cases hpair : ∃ a b, as = [a, b] ∧ (a.name = "None" ∨ b.name = "None")
  · obtain ⟨a, b, rfl, hnone⟩ := hpair
    simp only [texts, elementsText, if_pos hnone]
    exact denotes_pair (h a (by simp)) (h b (by simp)) (hp a (by simp)) (hp b (by simp)) hnone
  · rw [elementsText_texts]
    · exact denotes_side h
    · intro a b heq
      rw [← not_or]
      exact fun hnone => hpair ⟨a, b, heq, hnone⟩

theorem bare_text_container (he : e ∈ printedNames) (hname : e.1 ∈ containerNames) (hne : as ≠ []) :
    bare (Shape.mk e.1 .builtin as [] []).text =
      bracketed e.2.1.toList (joined [bare (elementsText (texts as))]) := by
  have hhead := ((nameFacts he).headed hname).1.mono containerWords_subset
  have hform : bare e.2.1 = e.2.1.toList := filter_space_of_isClean hhead.isClean
  rw [text_container he hne, bare_bracketed, hform, joined_singleton]

/-- A container is read back if its elements are. -/
theorem readsBack_container (he : e ∈ printedNames) (hname : e.1 ∈ containerNames)
    (husable : Usable (.mk e.1 .builtin as [] []))
    (htext : bare (Shape.mk e.1 .builtin as [] []).text = bracketed e.2.1.toList (joined [t]))
    (h : Denotes t as) : ReadsBack (.mk e.1 .builtin as [] []) := by
  have hhead := ((nameFacts he).headed hname).1
  have htype : headType e.2.1.toList = e.2.2 := by
    rw [headType, String.ofList_toList, denoted?_printedNames he]
    rfl
  have hts : ∀ u ∈ [t], IsTerm u := by simp [h.isTerm]
  obtain ⟨hshorter, hfewer⟩ := argument_lt (mem_singleton_self t) e.2.1.toList
  have hterm := isTerm_bracketed (hhead.mono containerWords_subset) hts
  constructor
  · rw [htext]
    exact hterm
  · rw [htext]
    intro hlen
    obtain ⟨bs, hreads, hbs, halike⟩ := h.reads (by omega)
    have hb : hasBracket (.mk e.2.2 .builtin bs [] []) = false := by
      rw [hasBracket_builtin, hbs]
      rfl
    have hread : Reads (bracketed e.2.1.toList (joined [t])) [.mk e.2.2 .builtin bs [] []] := by
      intro n s hs hn
      obtain ⟨n, rfl⟩ := Nat.exists_eq_add_one_of_ne_zero (Nat.ne_zero_of_lt hn)
      rw [readNested_container hts hs hlen (by simp) hhead, htype, flatMap_singleton,
        hreads.argument h.isTerm.toIsClean (by omega)]
    have husable' := hread.usable hterm.toIsClean (by simp [anyBracket, hb]) _
      (mem_singleton_self _)
    exact ⟨_, hread, hb, alike_printed he husable husable' halike alikeRows_nil alikeRows_nil⟩

theorem bare_text_mapping (hne : 0 < ks.length + vs.length) :
    bare (Shape.mk "Dict" .builtin [] ks vs).text = bracketed "dict".toList
      (joined [bare (sideText (ks.map text)), bare (sideText (vs.map text))]) := by
  have hopen : bare "dict[" = "dict".toList ++ ['['] := by decide
  have hcomma : bare ", " = [','] := by decide
  have hclose : bare "]" = [']'] := by decide
  rw [text_mapping hne, joined_cons_cons, joined_singleton, bracketed]
  simp only [bare_append, hopen, hcomma, hclose]
  simp

/-- A mapping is read back if its keys and values are. -/
theorem readsBack_mapping {k v : List Char} (husable : Usable (.mk "Dict" .builtin [] ks vs))
    (htext : bare (Shape.mk "Dict" .builtin [] ks vs).text =
      bracketed "dict".toList (joined [k, v])) (hkeys : Denotes k ks) (hvalues : Denotes v vs) :
    ReadsBack (.mk "Dict" .builtin [] ks vs) := by
  have hhead := printedHeads.2.2
  have htype : headType "dict".toList = "dict" := by
    rw [headType, String.ofList_toList, denoted?_printedNames dict_mem_printedNames]
    rfl
  have hts : ∀ u ∈ [k, v], IsTerm u := by simp [hkeys.isTerm, hvalues.isTerm]
  obtain ⟨hkshorter, hkfewer⟩ := argument_lt (show k ∈ [k, v] by simp) "dict".toList
  obtain ⟨hvshorter, hvfewer⟩ := argument_lt (show v ∈ [k, v] by simp) "dict".toList
  have hterm := isTerm_bracketed (hhead.mono mappingWords_subset) hts
  constructor
  · rw [htext]
    exact hterm
  · rw [htext]
    intro hlen
    obtain ⟨ks', hkreads, hks', hkalike⟩ := hkeys.reads (by omega)
    obtain ⟨vs', hvreads, hvs', hvalike⟩ := hvalues.reads (by omega)
    have hb : hasBracket (.mk "dict" .builtin [] ks' vs') = false := by
      rw [hasBracket_builtin, hks', hvs']
      rfl
    have hread :
        Reads (bracketed "dict".toList (joined [k, v])) [.mk "dict" .builtin [] ks' vs'] := by
      intro n s hs hn
      obtain ⟨n, rfl⟩ := Nat.exists_eq_add_one_of_ne_zero (Nat.ne_zero_of_lt hn)
      rw [readNested_mapping hkeys.isTerm hvalues.isTerm hs hlen hhead, htype,
        hkreads.argument hkeys.isTerm.toIsClean (by omega),
        hvreads.argument hvalues.isTerm.toIsClean (by omega)]
    have husable' := hread.usable hterm.toIsClean (by simp [anyBracket, hb]) _
      (mem_singleton_self _)
    exact ⟨_, hread, hb,
      alike_printed dict_mem_printedNames husable husable' alikeRows_nil hkalike hvalike⟩

/-- Every printable type is read back as its like. -/
theorem Printable.readsBack (h : a.Printable) : ReadsBack a := by
  have husable := h.usable
  induction h with
  | plain hname =>
    obtain ⟨e, he, rfl⟩ := exists_plain hname
    exact readsBack_leaf he
  | user n hname => exact readsBack_user n hname
  | @container name elements hname helements ih =>
    obtain ⟨e, he, rfl⟩ := exists_container hname
    have hall : ∀ a ∈ elements, ReadsBack a := fun a ha => ih a ha (helements a ha).usable
    by_cases hne : elements = []
    · rw [hne]
      exact readsBack_leaf he
    · exact readsBack_container he hname husable (bare_text_container he hname hne)
        (denotes_elements hall helements)
  | @mapping keys values hkeys hvalues ihkeys ihvalues =>
    have hks := denotes_side fun a ha => ihkeys a ha (hkeys a ha).usable
    have hvs := denotes_side fun a ha => ihvalues a ha (hvalues a ha).usable
    by_cases hne : 0 < keys.length + values.length
    · exact readsBack_mapping husable (bare_text_mapping hne) hks hvs
    · obtain rfl : keys = [] := eq_nil_of_length_eq_zero (by omega)
      obtain rfl : values = [] := eq_nil_of_length_eq_zero (by omega)
      exact readsBack_leaf dict_mem_printedNames

/-- The text of a printable type is read as one type, its like. -/
theorem Printable.read_text (h : a.Printable) (hlen : a.text.length ≤ 500) :
    ∃ b, Shape.read a.text = [b] ∧ Alike a b := by
  have hback := h.readsBack
  have hbare : (bare a.text).length ≤ 500 :=
    Nat.le_trans (length_filter_le _ _) (by rwa [String.length_toList])
  obtain ⟨b, hreads, hb, halike⟩ := hback.reads hbare
  have hopen : brackets '[' a.text.toList = brackets '[' (bare a.text) := by
    rw [bare, brackets_filter_space (by decide)]
  have hclose : brackets ']' a.text.toList = brackets ']' (bare a.text) := by
    rw [bare, brackets_filter_space (by decide)]
  have hread : readAny a.text = [b] := by
    rw [readAny, hopen]
    exact hreads _ _ rfl (Nat.lt_succ_self _)
  refine ⟨b, ?_, halike⟩
  rw [Shape.read, if_neg (not_not_intro (by rw [hopen, hclose, hback.isTerm.paired])), hread]
  simp [anyBracket, hb]

end TypeFlow.Shape
