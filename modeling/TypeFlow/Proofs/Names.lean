import TypeFlow.Proofs.Pieces
import TypeFlow.Proofs.Run
import TypeFlow.Vocabulary.Standard

/-!
# Names of standard types by their bytes

All standard names are ASCII, and lower-casing an ASCII text acts on each of its bytes. A look-up
by lower-case name is therefore a look-up by bytes, and what a given name denotes or how it is
printed can be computed.
-/

namespace TypeFlow.Text

open List

variable {s t : String} {c : Char}

/-- The encoding of a text. -/
def bytes (s : String) : List UInt8 := s.toByteArray.data.toList

theorem bytes_eq_flatMap (s : String) : bytes s = s.toList.flatMap String.utf8EncodeChar := by
  rw [bytes, ← String.utf8Encode_toList, utf8Encode]
  simp

theorem bytes_inj : bytes s = bytes t ↔ s = t := by
  constructor
  · intro h
    rw [← String.toByteArray_inj]
    apply ByteArray.ext
    rw [← Array.toList_inj]
    exact h
  · exact congrArg bytes

/-- Texts of one-byte characters. -/
def IsAscii (s : String) : Prop := ∀ b ∈ bytes s, b < 128

theorem utf8EncodeChar_of_ascii (h : c.toNat < 128) :
    String.utf8EncodeChar c = [UInt8.ofNat c.toNat] := by
  have h' : c.val.toNat ≤ 127 := Nat.le_of_lt_succ h
  rw [String.utf8EncodeChar, if_pos h']
  rfl

/-- A character of more than one byte starts with a large one. -/
theorem exists_large_byte (h : 128 ≤ c.toNat) : ∃ b ∈ String.utf8EncodeChar c, 128 ≤ b := by
  have h' : ¬ c.val.toNat ≤ 127 := Nat.not_le_of_lt h
  rw [String.utf8EncodeChar, if_neg h']
  have hbyte (n : Nat) (hn : 128 ≤ n) (hn' : n < 256) : (128 : UInt8) ≤ UInt8.ofNat n := by
    rw [UInt8.le_iff_toNat_le, UInt8.toNat_ofNat_of_lt' hn']
    exact hn
  split
  · exact ⟨_, mem_cons_self, hbyte _ (by omega) (by omega)⟩
  · split
    · exact ⟨_, mem_cons_self, hbyte _ (by omega) (by omega)⟩
    · exact ⟨_, mem_cons_self, hbyte _ (by omega) (by omega)⟩

theorem IsAscii.toNat_lt (h : IsAscii s) (hc : c ∈ s.toList) : c.toNat < 128 := by
  by_contra hlarge
  obtain ⟨b, hb, hle⟩ := exists_large_byte (Nat.le_of_not_lt hlarge)
  have hlt := h b (by rw [bytes_eq_flatMap]; exact mem_flatMap.mpr ⟨c, hc, hb⟩)
  rw [UInt8.lt_iff_toNat_lt] at hlt
  rw [UInt8.le_iff_toNat_le] at hle
  omega

theorem byte_mem_bytes (hc : c.toNat < 128) (h : c ∈ s.toList) : UInt8.ofNat c.toNat ∈ bytes s := by
  rw [bytes_eq_flatMap, mem_flatMap]
  exact ⟨c, h, by rw [utf8EncodeChar_of_ascii hc]; exact mem_singleton_self _⟩

/-- The lower-case partner of a byte. -/
def lowerByte (b : UInt8) : UInt8 := if 65 ≤ b ∧ b ≤ 90 then b + 32 else b

theorem utf8EncodeChar_toLower (h : c.toNat < 128) :
    String.utf8EncodeChar c.toLower = [lowerByte (UInt8.ofNat c.toNat)] := by
  have hall : ∀ n < 128, String.utf8EncodeChar (Char.ofNat n).toLower =
      [lowerByte (UInt8.ofNat n)] := by decide +kernel
  have hc := hall c.toNat h
  rwa [Char.ofNat_toNat] at hc

theorem lowerFrom_of_ascii {cs : List Char} (h : ∀ c ∈ cs, c.toNat < 128) (before : List Char) :
    lowerFrom before cs = cs.map Char.toLower := by
  induction cs generalizing before with
  | nil => rfl
  | cons c cs ih =>
    obtain ⟨hc, hcs⟩ := forall_mem_cons.mp h
    have hsigma : c ≠ 'Σ' := by
      rintro rfl
      exact absurd hc (by decide)
    have hdotted : c ≠ 'İ' := by
      rintro rfl
      exact absurd hc (by decide)
    rw [lowerFrom, if_neg hsigma, if_neg hdotted, lowerChar, if_pos hc, ih hcs]
    rfl

theorem IsAscii.bytes_lower (h : IsAscii s) : bytes (lower s) = (bytes s).map lowerByte := by
  have hlt : ∀ c ∈ s.toList, c.toNat < 128 := fun _ hc => h.toNat_lt hc
  rw [bytes_eq_flatMap, bytes_eq_flatMap, lower, String.toList_ofList, lowerFrom_of_ascii hlt]
  rw [flatMap_map, map_flatMap]
  apply flatMap_congr
  intro c hc
  rw [utf8EncodeChar_toLower (hlt c hc), utf8EncodeChar_of_ascii (hlt c hc)]
  rfl

def lowerKeys (table : List (String × String)) : List (String × String) :=
  table.map fun e => (lower e.1, e.2)

/-- A table by the bytes of its lower-case names. -/
def byteKeys (table : List (String × String)) : List (List UInt8 × String) :=
  table.map fun e => ((bytes e.1).map lowerByte, e.2)

/-- A look-up by lower-case name is a look-up by bytes. -/
theorem lookup_lowerKeys {table : List (String × String)} (h : ∀ e ∈ table, IsAscii e.1)
    (key : String) : (lowerKeys table).lookup key = (byteKeys table).lookup (bytes key) := by
  induction table with
  | nil => rfl
  | cons e table ih =>
    obtain ⟨he, htable⟩ := forall_mem_cons.mp h
    have hkey : (bytes key == (bytes e.1).map lowerByte) = (key == lower e.1) := by
      rw [Bool.eq_iff_iff, beq_iff_eq, beq_iff_eq, ← he.bytes_lower, bytes_inj]
    rw [lowerKeys, byteKeys, map_cons, map_cons, lookup_cons, lookup_cons, hkey]
    cases key == lower e.1 with
    | true => rfl
    | false => exact ih htable

end TypeFlow.Text

namespace TypeFlow.Vocabulary

open Text List

variable {key name : String}

def printings : List (String × String) :=
  (builtinNames ++ errorNames ++ warningNames).map (fun n => (n, n)) ++
    typingNames.map (fun n => (n, "typing." ++ n)) ++
    collectionNames.map (fun n => (n, "collections." ++ n)) ++
    abstractNames.map (fun n => (n, "collections.abc." ++ n))

theorem printed_eq : printed = lowerKeys printings := by
  simp [printed, lowerKeys, printings, Function.comp_def]

/-- Names with and without their modules, and what they denote. -/
def spellings : List (String × String) :=
  (builtinNames ++ errorNames ++ warningNames).map (fun n => (n, n)) ++
    typingNames.flatMap (fun n => [("typing." ++ n, n), (n, n)]) ++
    collectionNames.flatMap (fun n => [("collections." ++ n, n), (n, n)]) ++
    abstractNames.flatMap (fun n => [("collections_abc." ++ n, n), (n, n)])

theorem denoted_eq :
    denoted = lowerKeys (alternatives.filter fun e => isPrinted e.1) ++ lowerKeys spellings := by
  simp [denoted, lowerKeys, spellings, withModule, map_flatMap, Function.comp_def]

theorem bytes_names : ∀ e ∈ alternatives ++ spellings, ∀ b ∈ bytes e.1,
    lowerByte b ≠ 91 ∧ b < 128 := by
  have hall : ∀ e ∈ alternatives ++ spellings,
      (bytes e.1).all fun b => lowerByte b != 91 && decide (b < 128) := by decide +kernel
  intro e he b hb
  simpa using all_eq_true.mp (hall e he) b hb

theorem isAscii_spellings : ∀ e ∈ spellings, IsAscii e.1 := fun e he b hb =>
  (bytes_names e (mem_append_right _ he) b hb).2

theorem isAscii_printings : ∀ e ∈ printings, IsAscii e.1 := by
  intro e he
  have hmem : (e.1, e.1) ∈ spellings := by
    simp only [printings, mem_append, mem_map] at he
    simp only [spellings, mem_append, mem_map, mem_flatMap, mem_cons]
    grind
  exact isAscii_spellings (e.1, e.1) hmem

theorem printed?_eq (key : String) : printed? key = (byteKeys printings).lookup (bytes key) := by
  rw [printed?, find?, printed_eq, lookup_lowerKeys isAscii_printings]

/-- What a name denotes can be found by its bytes if no alternative is known for it. -/
theorem denoted?_eq (h : ∀ e ∈ byteKeys alternatives, e.1 ≠ bytes key) :
    denoted? key = (byteKeys spellings).lookup (bytes key) := by
  have hnone : (lowerKeys (alternatives.filter fun e => isPrinted e.1)).lookup key = none := by
    rw [lookup_eq_none_iff]
    intro e he
    obtain ⟨a, ha, rfl⟩ := mem_map.mp he
    have hmem := mem_of_mem_filter ha
    rw [bne_iff_ne]
    intro heq
    refine h _ (mem_map_of_mem hmem) ?_
    have hascii : IsAscii a.1 := fun b hb =>
      (bytes_names a (mem_append_left _ hmem) b hb).2
    rw [heq, hascii.bytes_lower]
  rw [denoted?, find?, denoted_eq, lookup_append, hnone, Option.none_or,
    lookup_lowerKeys isAscii_spellings]

theorem exists_of_mem_denoted {e : String × String} (h : e ∈ denoted) :
    ∃ a ∈ alternatives ++ spellings, e = (lower a.1, a.2) := by
  rw [denoted_eq, lowerKeys, lowerKeys, ← map_append, mem_map] at h
  obtain ⟨a, ha, rfl⟩ := h
  refine ⟨a, ?_, rfl⟩
  rw [mem_append] at ha ⊢
  exact ha.imp_left mem_of_mem_filter

/-- No name of a standard type has a bracket. -/
theorem denoted?_of_bracket {name : String} (h : '[' ∈ name.toList) :
    denoted? (lower name) = none := by
  have hmem : 91 ∈ bytes (lower name) := byte_mem_bytes (by decide) (mem_lower h (by decide))
  rw [denoted?, find?, lookup_eq_none_iff]
  intro e he
  obtain ⟨a, ha, rfl⟩ := exists_of_mem_denoted he
  rw [bne_iff_ne]
  intro heq
  have hascii : IsAscii a.1 := fun b hb => (bytes_names a ha b hb).2
  rw [heq, hascii.bytes_lower, mem_map] at hmem
  obtain ⟨b, hb, hlower⟩ := hmem
  exact (bytes_names a ha b hb).1 hlower

theorem denoted?_standard (h : denoted? key = some name) : name ∈ standardNames := by
  have halternatives : ∀ e ∈ alternatives, e.2 ∈ builtinNames ++ typingNames := by decide +kernel
  obtain ⟨a, ha, hname⟩ := exists_of_mem_denoted (mem_of_lookup h)
  obtain ⟨-, rfl⟩ := Prod.mk.inj hname
  rw [mem_append] at ha
  obtain ha | ha := ha
  · have := halternatives a ha
    rw [standardNames]
    grind
  · simp only [spellings, mem_append, mem_map, mem_flatMap, mem_cons] at ha
    simp only [standardNames, mem_append]
    grind

theorem isAscii_standardNames (h : name ∈ standardNames) : IsAscii name := by
  have hmem : (name, name) ∈ spellings := by
    simp only [standardNames, mem_append] at h
    simp only [spellings, mem_append, mem_map, mem_flatMap, mem_cons]
    grind
  exact isAscii_spellings (name, name) hmem

/-- Only names with the word in them denote the optional type. -/
theorem has_optional_of_denoted? (h : denoted? key = some name) (hname : lower name = "optional") :
    has key "optional" = true := by
  have htable : ∀ e ∈ alternatives ++ spellings,
      (bytes e.2).map lowerByte = bytes "optional" → has (lower e.1) "optional" = true := by
    decide +kernel
  have hbytes := congrArg bytes hname
  rw [(isAscii_standardNames (denoted?_standard h)).bytes_lower] at hbytes
  obtain ⟨a, ha, hentry⟩ := exists_of_mem_denoted (mem_of_lookup h)
  obtain ⟨rfl, rfl⟩ := Prod.mk.inj hentry
  exact htable a ha hbytes

/-- Every standard type has a printed form. -/
theorem printed?_isSome (h : name ∈ standardNames) : (printed? (lower name)).isSome := by
  have hmem : ∃ form, (name, form) ∈ printings := by
    simp only [standardNames, mem_append] at h
    simp only [printings, mem_append, mem_map]
    grind
  obtain ⟨form, hform⟩ := hmem
  have hentry : (lower name, form) ∈ lowerKeys printings := by
    rw [lowerKeys, mem_map]
    exact ⟨(name, form), hform, rfl⟩
  rw [printed?, find?, printed_eq, lookup_isSome_iff]
  exact ⟨(lower name, form), hentry, beq_self_eq_true (lower name)⟩

theorem denoted?_of_alternative {form value : String} (h : (form, value) ∈ alternatives)
    (hmem : (name, form) ∈ printings) (hform : printed? (lower name) = some form) :
    denoted? (lower form) = some value := by
  have hkeys : ((byteKeys alternatives).map Prod.fst).Nodup := by decide +kernel
  have hprinted : isPrinted form = true := by
    rw [isPrinted, any_eq_true]
    refine ⟨(lower name, form), ?_, by simp [hform]⟩
    rw [printed_eq, lowerKeys, mem_map]
    exact ⟨(name, form), hmem, rfl⟩
  obtain ⟨before, after, hsplit⟩ := append_of_mem h
  rw [denoted?, find?, denoted_eq, hsplit, filter_append, filter_cons, if_pos hprinted,
    lookup_eq_some_iff]
  refine ⟨lowerKeys (before.filter fun e => isPrinted e.1),
    lowerKeys (after.filter fun e => isPrinted e.1) ++ lowerKeys spellings, ?_, ?_⟩
  · simp [lowerKeys]
  · intro e he
    obtain ⟨a, ha, rfl⟩ := mem_map.mp he
    have ha := (mem_filter.mp ha).1
    rw [bne_iff_ne]
    intro heq
    have hascii : ∀ e ∈ alternatives, IsAscii e.1 := fun e he b hb =>
      (bytes_names e (mem_append_left _ he) b hb).2
    have hbytes := congrArg bytes heq
    rw [(hascii _ h).bytes_lower, (hascii a (by simp [hsplit, ha])).bytes_lower] at hbytes
    rw [hsplit, byteKeys, map_append, map_append, nodup_append] at hkeys
    refine hkeys.2.2 _ ?_ _ ?_ hbytes.symm
    · exact mem_map_of_mem (mem_map_of_mem ha)
    · simp

theorem rank?_of_shared {n : Nat} (h : sharedRanks.lookup key = some n) : rank? key = some n := by
  rw [rank?, find?, ranks, lookup_append, h]
  rfl

end TypeFlow.Vocabulary
