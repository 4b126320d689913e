import TypeFlow.Proofs.Names
import TypeFlow.Type.Shape

/-!
# Reading the forms of type expressions

Reading works on text: the arguments between two brackets are found by cutting at every comma and
joining pieces until the brackets counted so far pair up. For a text whose parts each have
brackets that pair up and no comma outside of them, this gives back exactly the parts. From that
follows, for each form of expression, what it is read as in terms of its parts.
-/

namespace TypeFlow.Shape

open Text List Vocabulary

variable {t h inner a b : List Char} {s : String} {ts : List (List Char)} {n : Nat} {c : Char}

/-! ## Arguments -/

/-- The arguments found in one pass over the characters. A comma ends an argument when the
brackets before it pair up. -/
def scan (cur : List Char) (opened closed : Nat) : List Char → List (List Char)
  | [] => if opened = closed then [cur] else []
  | c :: rest =>
    if c = ',' then
      if opened = closed then cur :: scan [] opened closed rest
      else scan (cur ++ [c]) opened closed rest
    else scan (cur ++ [c]) (opened + brackets '[' [c]) (closed + brackets ']' [c]) rest

@[simp] theorem brackets_nil (c : Char) : brackets c [] = 0 := rfl

@[simp] theorem brackets_append (c : Char) (s t : List Char) :
    brackets c (s ++ t) = brackets c s + brackets c t := count_append

theorem brackets_cons (c d : Char) (s : List Char) :
    brackets c (d :: s) = brackets c [d] + brackets c s := by
  rw [← brackets_append, singleton_append]

theorem brackets_eq_zero (h : c ∉ t) : brackets c t = 0 := count_eq_zero.mpr h

/-- Joining the pieces between commas is the same as one pass over the characters. -/
theorem balanced_piecesFrom (cur piece cs : List Char) (opened closed : Nat) :
    balanced cur opened closed (piecesFrom [','] 0 piece cs) =
      scan (cur ++ piece.reverse) (opened + brackets '[' piece.reverse)
        (closed + brackets ']' piece.reverse) cs := by
  induction cs generalizing cur piece opened closed with
  | nil => simp [piecesFrom, balanced, scan]
  | cons c rest ih =>
    rw [piecesFrom]
    by_cases hc : c = ','
    · subst hc
      have hstart : [','].isPrefixOf (',' :: rest) = true := by simp [isPrefixOf]
      rw [hstart, if_pos rfl, balanced, scan, if_pos rfl]
      split
      · rw [length_singleton, ih]
        simp
      · rw [length_singleton, ih]
        simp
    · have hstart : [','].isPrefixOf (c :: rest) = false := by
        simp [isPrefixOf, Ne.symm hc]
      rw [hstart, if_neg (by simp), ih, scan, if_neg hc]
      simp only [reverse_cons, brackets_append, append_assoc, Nat.add_assoc]

theorem arguments_eq_scan (inner : List Char) : arguments inner = scan [] 0 0 inner := by
  rw [arguments, balanced_piecesFrom]
  simp

/-- A text whose brackets pair up and whose commas are all inside of them. A pass over it goes on
behind it with the text appended to what was there. -/
structure IsPart (t : List Char) : Prop where
  paired : brackets '[' t = brackets ']' t
  pass : ∀ cur opened closed rest, closed ≤ opened →
    scan cur opened closed (t ++ rest) =
      scan (cur ++ t) (opened + brackets '[' t) (closed + brackets ']' t) rest

/-- Characters with a meaning of their own in a type expression. -/
def delimiters : List Char := ['[', ']', ',', ' ']

/-- Texts without brackets and commas. -/
def IsPlain (t : List Char) : Prop := ∀ c ∈ t, c ∉ delimiters

instance (t : List Char) : Decidable (IsPlain t) :=
  decidableBAll (· ∉ delimiters) t

theorem IsPlain.not_mem (ht : IsPlain t) (hc : c ∈ delimiters) : c ∉ t :=
  fun hmem => ht c hmem hc

theorem IsPlain.brackets_eq_zero (ht : IsPlain t) (hc : c ∈ delimiters) :
    brackets c t = 0 := Shape.brackets_eq_zero (ht.not_mem hc)

theorem scan_plain (ht : IsPlain t) (cur : List Char) (opened closed : Nat) (rest : List Char) :
    scan cur opened closed (t ++ rest) = scan (cur ++ t) opened closed rest := by
  induction t generalizing cur with
  | nil => simp
  | cons c t ih =>
    obtain ⟨hc, ht⟩ := forall_mem_cons.mp ht
    have hcomma : c ≠ ',' := fun h => hc (h ▸ by decide)
    have hopen : brackets '[' [c] = 0 := Shape.brackets_eq_zero (by
      rw [mem_singleton]
      rintro rfl
      exact hc (by decide))
    have hclose : brackets ']' [c] = 0 := Shape.brackets_eq_zero (by
      rw [mem_singleton]
      rintro rfl
      exact hc (by decide))
    rw [cons_append, scan, if_neg hcomma, hopen, hclose, Nat.add_zero, Nat.add_zero, ih ht,
      append_assoc, singleton_append]

theorem IsPlain.isPart (ht : IsPlain t) : IsPart t where
  paired := by rw [ht.brackets_eq_zero (by decide), ht.brackets_eq_zero (by decide)]
  pass cur opened closed rest _ := by
    rw [scan_plain ht, ht.brackets_eq_zero (by decide), ht.brackets_eq_zero (by decide)]
    rfl

/-- Parts with commas between them. -/
def joined (ts : List (List Char)) : List Char := [','].intercalate ts

theorem joined_cons_cons (t u : List Char) (ts : List (List Char)) :
    joined (t :: u :: ts) = t ++ ',' :: joined (u :: ts) := by
  simp [joined, intercalate]

@[simp] theorem joined_nil : joined [] = [] := rfl

@[simp] theorem joined_singleton (t : List Char) : joined [t] = t := by
  simp [joined, intercalate]

/-- A condition on texts that the empty text meets and that is kept by a comma between two texts
holds of joined parts. -/
theorem joined_induction {P : List Char → Prop} (hnil : P [])
    (hcomma : ∀ t u, P t → P u → P (t ++ ',' :: u)) (hts : ∀ t ∈ ts, P t) : P (joined ts) := by
  induction ts with
  | nil => exact hnil
  | cons t ts ih =>
    obtain ⟨ht, hts⟩ := forall_mem_cons.mp hts
    cases ts with
    | nil => simpa using ht
    | cons u ts =>
      rw [joined_cons_cons]
      exact hcomma t _ ht (ih hts)

/-- Inside of brackets, parts and commas are passed over. -/
theorem scan_joined (hts : ∀ t ∈ ts, IsPart t) :
    brackets '[' (joined ts) = brackets ']' (joined ts) ∧
      ∀ cur opened closed rest, closed < opened → scan cur opened closed (joined ts ++ rest) =
          scan (cur ++ joined ts) (opened + brackets '[' (joined ts))
            (closed + brackets ']' (joined ts)) rest := by
  refine joined_induction (P := fun t => brackets '[' t = brackets ']' t ∧
    ∀ cur opened closed rest, closed < opened → scan cur opened closed (t ++ rest) =
        scan (cur ++ t) (opened + brackets '[' t) (closed + brackets ']' t) rest)
    ⟨rfl, fun _ _ _ _ _ => by simp⟩ ?_ fun t ht =>
      ⟨(hts t ht).paired, fun cur _ _ rest h => (hts t ht).pass cur _ _ rest (Nat.le_of_lt h)⟩
  rintro t u ⟨hteven, ht⟩ ⟨hueven, hu⟩
  have hcomma : ∀ c, c = '[' ∨ c = ']' → brackets c [','] = 0 := by
    rintro c (rfl | rfl) <;> rfl
  constructor
  · rw [brackets_append, brackets_append, brackets_cons, brackets_cons ']', hteven, hueven,
      hcomma _ (.inl rfl), hcomma _ (.inr rfl)]
  · intro cur opened closed rest hlt
    rw [append_assoc, ht cur opened closed _ hlt, cons_append, scan, if_pos rfl,
      if_neg (by omega), hu _ _ _ _ (by omega), brackets_append, brackets_append, brackets_cons,
      brackets_cons ']', hcomma _ (.inl rfl), hcomma _ (.inr rfl)]
    simp only [append_assoc, singleton_append, Nat.zero_add, Nat.add_assoc]

theorem infix_joined (ht : t ∈ ts) : t <:+: joined ts := by
  induction ts with
  | nil => exact absurd ht not_mem_nil
  | cons u ts ih =>
    cases ts with
    | nil =>
      rw [mem_singleton] at ht
      rw [ht, joined_singleton]
    | cons v ts =>
      rw [joined_cons_cons]
      obtain rfl | ht := mem_cons.mp ht
      · exact (prefix_append _ _).isInfix
      · exact (ih ht).trans ((suffix_cons _ _).trans (suffix_append _ _)).isInfix

/-- A head with arguments in brackets. -/
def bracketed (h inner : List Char) : List Char := h ++ '[' :: (inner ++ [']'])

theorem brackets_bracketed (c : Char) (h inner : List Char) : brackets c (bracketed h inner) =
      brackets c h + brackets c ['['] + brackets c inner + brackets c [']'] := by
  rw [bracketed, brackets_append, brackets_cons, brackets_append]
  omega

/-- An argument is shorter than the expression it stands in, and has fewer brackets. -/
theorem argument_lt (ht : t ∈ ts) (h : List Char) : t.length < (bracketed h (joined ts)).length ∧
      brackets '[' t < brackets '[' (bracketed h (joined ts)) := by
  have hsublist := (infix_joined ht).sublist
  constructor
  · have hle := hsublist.length_le
    simp only [bracketed, length_append, length_cons]
    omega
  · have hle : brackets '[' t ≤ brackets '[' (joined ts) := hsublist.count_le _
    have hone : brackets '[' ['['] = 1 := rfl
    rw [brackets_bracketed, hone]
    omega

/-- An expression with arguments that are parts is a part. -/
theorem isPart_bracketed (hh : IsPlain h) (hts : ∀ t ∈ ts, IsPart t) :
    IsPart (bracketed h (joined ts)) := by
  obtain ⟨heven, hpass⟩ := scan_joined hts
  have hopen : brackets '[' (bracketed h (joined ts)) = brackets '[' (joined ts) + 1 := by
    rw [brackets_bracketed, hh.brackets_eq_zero (by decide)]
    change 0 + 1 + _ + 0 = _
    omega
  have hclose : brackets ']' (bracketed h (joined ts)) = brackets ']' (joined ts) + 1 := by
    rw [brackets_bracketed, hh.brackets_eq_zero (by decide)]
    change 0 + 0 + _ + 1 = _
    omega
  refine ⟨by rw [hopen, hclose, heven], fun cur opened closed rest hle => ?_⟩
  rw [hopen, hclose]
  calc scan cur opened closed (bracketed h (joined ts) ++ rest)
      = scan (cur ++ h) opened closed ('[' :: (joined ts ++ ']' :: rest)) := by
        rw [bracketed, append_assoc, scan_plain hh]
        simp
    _ = scan (cur ++ h ++ ['[']) (opened + 1) closed (joined ts ++ ']' :: rest) := by
        rw [scan, if_neg (by decide)]
        rfl
    _ = scan (cur ++ h ++ ['['] ++ joined ts) (opened + 1 + brackets '[' (joined ts))
          (closed + brackets ']' (joined ts)) (']' :: rest) := hpass _ _ _ _ (by omega)
    _ = scan (cur ++ h ++ ['['] ++ joined ts ++ [']']) (opened + 1 + brackets '[' (joined ts))
          (closed + brackets ']' (joined ts) + 1) rest := by
        rw [scan, if_neg (by decide)]
        rfl
    _ = scan (cur ++ bracketed h (joined ts)) (opened + (brackets '[' (joined ts) + 1))
          (closed + (brackets ']' (joined ts) + 1)) rest := by
        congr 1
        · simp [bracketed]
        · omega

theorem arguments_joined (hne : ts ≠ []) (hts : ∀ t ∈ ts, IsPart t) :
    arguments (joined ts) = ts := by
  have hloop (k : Nat) : scan [] k k (joined ts) = ts := by
    induction ts generalizing k with
    | nil => exact absurd rfl hne
    | cons t ts ih =>
      obtain ⟨ht, hts⟩ := forall_mem_cons.mp hts
      cases ts with
      | nil =>
        have hpass := ht.pass [] k k [] (Nat.le_refl k)
        rw [append_nil] at hpass
        rw [joined_singleton, hpass, ht.paired, scan, if_pos rfl]
        rfl
      | cons u ts =>
        rw [joined_cons_cons, ht.pass [] k k _ (Nat.le_refl k), ht.paired, scan, if_pos rfl,
          if_pos rfl, ih (by simp) hts]
        rfl
  rw [arguments_eq_scan, hloop]

/-! ## Texts that reading takes as they are -/

/-- Parts of names that reading leaves out or writes differently. -/
def rewritten : List String := ["t.", "builtins.", "typing_extensions."]

/-- Texts in which nothing is left out or written differently. -/
structure IsClean (t : List Char) : Prop where
  no_space : ' ' ∉ t
  kept : ∀ p ∈ rewritten, ¬ p.toList <:+: t

theorem rewritten_ne_nil : ∀ p ∈ rewritten, p.toList ≠ [] := by decide

theorem rewritten_plain : ∀ p ∈ rewritten, IsPlain p.toList := by decide

theorem rewritten_fixed : ∀ p ∈ rewritten, AllFixed p.toList := by decide

theorem delimiters_fixed : AllFixed delimiters := by decide

theorem isClean_nil : IsClean [] where
  no_space := not_mem_nil
  kept p hp h := rewritten_ne_nil p hp (infix_nil.mp h)

/-- A text without a character occurs on one side of that character. -/
theorem infix_append_cons {p : List Char} (h : p <:+: a ++ c :: b) (hc : c ∉ p) :
    p <:+: a ∨ p <:+: b := by
  induction a with
  | nil =>
    rw [nil_append, infix_cons_iff] at h
    obtain h | h := h
    · cases p with
      | nil => exact .inl nil_infix
      | cons d p =>
        obtain ⟨rfl, -⟩ := cons_prefix_cons.mp h
        exact absurd (mem_cons_self) hc
    · exact .inr h
  | cons d a ih =>
    rw [cons_append, infix_cons_iff] at h
    obtain h | h := h
    · left
      apply IsPrefix.isInfix
      -- the occurrence at the front ends before the character
      obtain ⟨k, hk⟩ := h
      rw [← cons_append, append_eq_append_iff] at hk
      obtain ⟨a', hda, -⟩ | ⟨c', hp, hcb⟩ := hk
      · exact ⟨a', hda.symm⟩
      · cases c' with
        | nil =>
          rw [append_nil] at hp
          exact ⟨[], by rw [hp, append_nil]⟩
        | cons e c' =>
          obtain ⟨rfl, -⟩ := cons.inj hcb
          exact absurd (by rw [hp]; simp) hc
    · obtain h | h := ih h
      · exact .inl (h.trans (suffix_cons d a).isInfix)
      · exact .inr h

/-- Clean texts around a delimiter are a clean text. -/
theorem IsClean.append_cons (ha : IsClean a) (hb : IsClean b) (hc : c ∈ delimiters)
    (hspace : c ≠ ' ') : IsClean (a ++ c :: b) where
  no_space := by
    rw [mem_append, mem_cons]
    rintro (h | h | h)
    · exact ha.no_space h
    · exact hspace h.symm
    · exact hb.no_space h
  kept p hp h := by
    obtain h | h := infix_append_cons h fun hmem => rewritten_plain p hp c hmem hc
    · exact ha.kept p hp h
    · exact hb.kept p hp h

theorem isClean_joined (hts : ∀ t ∈ ts, IsClean t) : IsClean (joined ts) :=
  joined_induction isClean_nil (fun _ _ ht hu => ht.append_cons hu (by decide) (by decide)) hts

theorem isClean_bracketed (hh : IsClean h) (hinner : IsClean inner) : IsClean (bracketed h inner) :=
  hh.append_cons (hinner.append_cons isClean_nil (by decide) (by decide)) (by decide) (by decide)

theorem IsClean.replace_eq (ht : IsClean t) {p : String} (hp : p ∈ rewritten) (new : String) :
    replace (String.ofList t) p new = String.ofList t :=
  replace_of_absent (by rw [String.toList_ofList]; exact ht.kept p hp) new

/-- A text that spells a clean one with spaces in it is stripped to the clean one. -/
theorem strip_eq (hs : s.toList.filter (· ≠ ' ') = t) (ht : IsClean t)
    (hhead : t.head? ≠ some '[') : strip s = String.ofList t := by
  have hblank : " " = String.singleton ' ' := by decide
  have hspace : replace s " " "" = String.ofList t := by
    rw [← String.toList_inj, String.toList_ofList, ← hs, hblank, toList_replace_singleton]
  unfold strip
  rw [hspace, ht.replace_eq (p := "builtins.") (by simp [rewritten]),
    ht.replace_eq (p := "typing_extensions.") (by simp [rewritten])]
  dsimp only
  split
  · rename_i rest hcs
    rw [String.toList_ofList] at hcs
    exact absurd (by rw [hcs]; rfl) hhead
  · rfl

theorem filter_space_of_isClean (ht : IsClean t) : t.filter (· ≠ ' ') = t := by
  rw [filter_eq_self]
  intro c hc
  rw [decide_eq_true_iff]
  rintro rfl
  exact ht.no_space hc

theorem brackets_filter_space (hc : c ≠ ' ') (t : List Char) :
    brackets c (t.filter (· ≠ ' ')) = brackets c t := count_filter (by simpa using hc)

/-! ## The forms -/

/-- The type that a name stands for. -/
def named (name : String) : Shape :=
  match denoted? (lower name) with
  | some denoted => leaf denoted .builtin
  | none => leaf name .user

def withTyping (names : List String) : List String := names ++ names.map ("typing." ++ ·)

def unionWords : List String := withTyping ["union"]

/-- Heads of optional types. -/
def optionalWords : List String := withTyping ["optional"]

def mappingWords : List String := withTyping ["dict"]

/-- Heads of containers that list their elements. -/
def containerWords : List String :=
  withTyping ["list", "set", "tuple", "iterable", "generator"]

/-- All heads of expressions with arguments. -/
def headWords : List String := unionWords ++ optionalWords ++ mappingWords ++ containerWords

theorem unionWords_subset : unionWords ⊆ headWords := fun w hw => by simp [headWords, hw]

theorem optionalWords_subset : optionalWords ⊆ headWords := fun w hw => by simp [headWords, hw]

theorem mappingWords_subset : mappingWords ⊆ headWords := fun w hw => by simp [headWords, hw]

theorem containerWords_subset : containerWords ⊆ headWords := fun w hw => by simp [headWords, hw]

/-- A name is read as the type that it stands for. -/
theorem readNested_name (hs : s.toList.filter (· ≠ ' ') = t) (hclean : IsClean t)
    (hplain : IsPlain t) (hne : t ≠ []) (hlen : t.length ≤ 500)
    (hunion : lower (String.ofList t) ∉ unionWords) :
    readNested (n + 1) s = [named (String.ofList t)] := by
  have hopen : '[' ∉ t := hplain.not_mem (by decide)
  have hstrip : strip s = String.ofList t :=
    strip_eq hs hclean fun h => hopen (mem_of_head? h)
  have hempty : (String.ofList t).isEmpty = false := by
    rw [String.isEmpty_eq_false_iff, Ne, String.ofList_eq_empty_iff]
    exact hne
  have hshort : ¬ 500 < (String.ofList t).length := by rw [String.length_ofList]; omega
  have hcontains : (String.ofList t).contains '[' = false := by
    rw [String.contains_char_eq, String.toList_ofList]
    exact decide_eq_false hopen
  obtain ⟨hu, htu⟩ : lower (String.ofList t) ≠ "union" ∧
      lower (String.ofList t) ≠ "typing.union" := by simpa [unionWords, withTyping] using hunion
  rw [readNested, hstrip]
  unfold readStripped named
  simp only [hempty, hshort, hcontains, beq_eq_false_iff_ne.mpr hu, beq_eq_false_iff_ne.mpr htu,
    decide_false, Bool.or_self, Bool.false_and, Bool.false_eq_true, if_false]
  cases denoted? (lower (String.ofList t)) <;> rfl

theorem takeWhile_bracketed (hh : IsPlain h) (inner : List Char) :
    (bracketed h inner).takeWhile (· != '[') = h := by
  rw [bracketed, takeWhile_append_of_pos, takeWhile_cons_of_neg (by simp), append_nil]
  intro c hc
  rw [bne_iff_ne]
  rintro rfl
  exact hh.not_mem (by decide) hc

/-- The text between the first opening and the last closing bracket. -/
theorem innerText_bracketed (hh : IsPlain h) (inner : List Char) :
    innerText (bracketed h inner) = inner := by
  have htail : ((bracketed h inner).reverse.dropWhile (· != ']')).drop 1 =
      inner.reverse ++ '[' :: h.reverse := by
    simp [bracketed]
  have hlength : (inner.reverse ++ '[' :: h.reverse).length = (h ++ '[' :: inner).length := by
    simp only [length_append, length_cons, length_reverse]
    omega
  have hsplit : bracketed h inner = (h ++ '[' :: inner) ++ [']'] := by simp [bracketed]
  rw [innerText, takeWhile_bracketed hh, htail, hlength, hsplit, take_left]
  simp

/-- An expression with a head and arguments is read by its head. -/
theorem readNested_bracketed (hs : s.toList.filter (· ≠ ' ') = bracketed h inner)
    (hclean : IsClean (bracketed h inner)) (hplain : IsPlain h) (hne : h ≠ [])
    (hlen : (bracketed h inner).length ≤ 500) :
    readNested (n + 1) s = readHeaded (fun part => readNested n (String.ofList part))
      (String.ofList (bracketed h inner)) := by
  have hopen : '[' ∉ h := hplain.not_mem (by decide)
  have hhead : (bracketed h inner).head? ≠ some '[' := by
    cases h with
    | nil => exact absurd rfl hne
    | cons c h =>
      intro hc
      exact hopen (by rw [← Option.some.inj hc]; exact mem_cons_self)
  have hopen' : '[' ∈ bracketed h inner := by simp [bracketed]
  have hclose' : ']' ∈ bracketed h inner := by simp [bracketed]
  have hempty : (String.ofList (bracketed h inner)).isEmpty = false := by
    rw [String.isEmpty_eq_false_iff, Ne, String.ofList_eq_empty_iff]
    exact ne_nil_of_mem hopen'
  have hshort : ¬ 500 < (String.ofList (bracketed h inner)).length := by
    rw [String.length_ofList]
    omega
  have hcontains (c : Char) (hc : c ∈ bracketed h inner) :
      (String.ofList (bracketed h inner)).contains c = true := by
    rw [String.contains_char_eq, String.toList_ofList]
    exact decide_eq_true hc
  have hdenoted : denoted? (lower (String.ofList (bracketed h inner))) = none :=
    denoted?_of_bracket (by rw [String.toList_ofList]; exact hopen')
  have hkept : replace (String.ofList (bracketed h inner)) "t." "typing." =
      String.ofList (bracketed h inner) := hclean.replace_eq (by simp [rewritten]) _
  rw [readNested, strip_eq hs hclean hhead]
  unfold readStripped
  simp only [hempty, hshort, hcontains _ hopen', hcontains _ hclose', hdenoted, hkept,
    decide_false, Bool.or_self, Bool.false_eq_true, if_false, Bool.not_true, Bool.and_false,
    Bool.and_self, if_true]

/-- A head in any letter case. -/
def IsHead (words : List String) (h : List Char) : Prop := lower (String.ofList h) ∈ words

instance (words : List String) (h : List Char) : Decidable (IsHead words h) :=
  inferInstanceAs (Decidable (_ ∈ words))

theorem headWords_plain : ∀ w ∈ headWords, w.toList ≠ [] ∧
    IsPlain w.toList ∧ ∀ p ∈ rewritten, ¬ p.toList <:+: w.toList := by
  decide +kernel

theorem IsHead.ne_nil (hh : IsHead headWords h) : h ≠ [] := by
  rintro rfl
  exact (headWords_plain _ hh).1 rfl

theorem IsHead.isPlain (hh : IsHead headWords h) : IsPlain h := by
  intro c hc hd
  refine (headWords_plain _ hh).2.1 c (mem_lower ?_ (delimiters_fixed c hd)) hd
  rwa [String.toList_ofList]

theorem IsHead.isClean (hh : IsHead headWords h) : IsClean h where
  no_space := hh.isPlain.not_mem (by decide)
  kept p hp hpart := by
    refine (headWords_plain _ hh).2.2 p hp (infix_lower ?_ (rewritten_fixed p hp))
    rwa [String.toList_ofList]

theorem IsHead.mono {words words' : List String} (hh : IsHead words h) (hsub : words ⊆ words') :
    IsHead words' h := hsub hh

/-- Expressions that may stand as arguments. -/
structure IsTerm (t : List Char) : Prop extends IsPart t, IsClean t

theorem isTerm_bracketed (hh : IsHead headWords h) (hts : ∀ t ∈ ts, IsTerm t) :
    IsTerm (bracketed h (joined ts)) :=
  ⟨isPart_bracketed hh.isPlain fun t ht => (hts t ht).toIsPart,
    isClean_bracketed hh.isClean (isClean_joined fun t ht => (hts t ht).toIsClean)⟩

/-- The standard type that a head names. -/
def headType (h : List Char) : String :=
  (denoted? (lower (String.ofList h))).getD ""

theorem IsHead.denoted?_eq (hh : IsHead (mappingWords ++ containerWords) h) :
    Vocabulary.denoted? (lower (String.ofList h)) = some (headType h) := by
  have hwords : ∀ w ∈ mappingWords ++ containerWords, (∀ e ∈ byteKeys alternatives, e.1 ≠ bytes w) ∧
        ((byteKeys spellings).lookup (bytes w)).isSome := by decide +kernel
  obtain ⟨halternatives, hsome⟩ := hwords _ hh
  rw [← Vocabulary.denoted?_eq halternatives] at hsome
  obtain ⟨name, hname⟩ := Option.isSome_iff_exists.mp hsome
  rw [headType, hname, Option.getD_some]

section Forms

variable (hts : ∀ t ∈ ts, IsTerm t) (hs : s.toList.filter (· ≠ ' ') = bracketed h (joined ts))
  (hlen : (bracketed h (joined ts)).length ≤ 500)

include hts hs hlen

theorem readNested_headed (hh : IsHead headWords h) :
    readNested (n + 1) s = readHeaded (fun part => readNested n (String.ofList part))
      (String.ofList (bracketed h (joined ts))) :=
  readNested_bracketed hs (isTerm_bracketed hh hts).toIsClean hh.isPlain hh.ne_nil hlen

/-- An optional type is read as its content and `None`. -/
theorem readNested_optional (hh : IsHead optionalWords h) :
    readNested (n + 1) s = readNested n (String.ofList (joined ts)) ++ [leaf "None" .builtin] := by
  have hwords : ∀ w ∈ optionalWords, has w "union" = false ∧ has w "optional" = true := by
    decide +kernel
  obtain ⟨hunion, hoptional⟩ := hwords _ hh
  have hhead := hh.mono optionalWords_subset
  have hplain := hhead.isPlain
  rw [readNested_headed hts hs hlen hhead]
  unfold readHeaded
  simp only [String.toList_ofList, takeWhile_bracketed hplain, innerText_bracketed hplain, hunion,
    hoptional, if_true, Bool.false_eq_true, if_false]

/-- A union is read as the members of its arguments. -/
theorem readNested_union (hne : ts ≠ []) (hh : IsHead unionWords h) :
    readNested (n + 1) s = ts.flatMap fun t => readNested n (String.ofList t) := by
  have hwords : ∀ w ∈ unionWords, has w "union" = true := by decide +kernel
  have hunion := hwords _ hh
  have hhead := hh.mono unionWords_subset
  have hplain := hhead.isPlain
  rw [readNested_headed hts hs hlen hhead]
  unfold readHeaded
  simp only [String.toList_ofList, takeWhile_bracketed hplain, innerText_bracketed hplain, hunion,
    if_true, arguments_joined hne fun t ht => (hts t ht).toIsPart]

/-- A container is read as one type with the members of its arguments as elements. -/
theorem readNested_container (hne : ts ≠ []) (hh : IsHead containerWords h) : readNested (n + 1) s =
      [.mk (headType h) .builtin (ts.flatMap fun t => readNested n (String.ofList t)) [] []] := by
  have hwords : ∀ w ∈ containerWords, has w "union" = false ∧ has w "optional" = false ∧
      has w "dict" = false ∧ has w "mapping" = false ∧ has w "callable" = false := by
    decide +kernel
  obtain ⟨hunion, hoptional, hdict, hmapping, hcallable⟩ := hwords _ hh
  have hhead := hh.mono containerWords_subset
  have hplain := hhead.isPlain
  rw [readNested_headed hts hs hlen hhead]
  unfold readHeaded
  simp only [String.toList_ofList, takeWhile_bracketed hplain, innerText_bracketed hplain, hunion,
    hoptional, (hh.mono (subset_append_right _ _)).denoted?_eq, hdict, hmapping, hcallable,
    Bool.or_self, Bool.false_eq_true, if_false,
    arguments_joined hne fun t ht => (hts t ht).toIsPart]

end Forms

/-- A mapping is read as one type with the members of its first argument as keys and those of its
second one as values. -/
theorem readNested_mapping {key value : List Char} (hkey : IsTerm key) (hvalue : IsTerm value)
    (hs : s.toList.filter (· ≠ ' ') = bracketed h (joined [key, value]))
    (hlen : (bracketed h (joined [key, value])).length ≤ 500) (hh : IsHead mappingWords h) :
    readNested (n + 1) s = [.mk (headType h) .builtin [] (readNested n (String.ofList key))
      (readNested n (String.ofList value))] := by
  have hts : ∀ t ∈ [key, value], IsTerm t := by simp [hkey, hvalue]
  have hwords : ∀ w ∈ mappingWords, has w "union" = false ∧ has w "optional" = false ∧
      has w "dict" = true := by decide +kernel
  obtain ⟨hunion, hoptional, hdict⟩ := hwords _ hh
  have hhead := hh.mono mappingWords_subset
  have hplain := hhead.isPlain
  have hcomma : (joined [key, value]).contains ',' = true := by simp [joined_cons_cons]
  rw [readNested_headed hts hs hlen hhead]
  unfold readHeaded
  simp only [String.toList_ofList, takeWhile_bracketed hplain, innerText_bracketed hplain, hunion,
    hoptional, (hh.mono (subset_append_left _ _)).denoted?_eq, hdict, hcomma, Bool.true_or,
    Bool.false_eq_true, if_false, if_true,
    arguments_joined (cons_ne_nil _ _) fun t ht => (hts t ht).toIsPart, flatMap_singleton]

/-! ## Brackets in the result -/

theorem anyBracket_append (as bs : List Shape) :
    anyBracket (as ++ bs) = (anyBracket as || anyBracket bs) := by
  induction as with
  | nil => simp [anyBracket]
  | cons a as ih => simp [anyBracket, ih, Bool.or_assoc]

theorem hasBracket_builtin (name : String) (elements keys values : List Shape) :
    hasBracket (.mk name .builtin elements keys values) =
      (anyBracket elements || anyBracket keys || anyBracket values) := by
  have hcategory : (Category.builtin == Category.user) = false := by decide
  rw [hasBracket, hcategory, Bool.false_and, Bool.false_or]

theorem hasBracket_named (ht : IsPlain t) : hasBracket (named (String.ofList t)) = false := by
  unfold named
  have hcontains (c : Char) (hc : c ∈ delimiters) : (String.ofList t).contains c = false := by
    rw [String.contains_char_eq, String.toList_ofList]
    exact decide_eq_false (ht.not_mem hc)
  split
  · rw [leaf, hasBracket_builtin]
    rfl
  · rw [leaf, hasBracket, hcontains _ (by decide), hcontains _ (by decide)]
    rfl

theorem anyBracket_eq_false_iff {as : List Shape} :
    anyBracket as = false ↔ ∀ a ∈ as, hasBracket a = false := by
  induction as with
  | nil => simp [anyBracket]
  | cons a as ih => rw [anyBracket, Bool.or_eq_false_iff, ih, forall_mem_cons]

end TypeFlow.Shape
