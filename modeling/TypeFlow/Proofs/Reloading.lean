import TypeFlow.Archive.Graph
import TypeFlow.Proofs.Identity
import TypeFlow.Proofs.Simple

/-! # Graphs that are saved and read back

Reading a module back asks the record of a function for a field that saving does not write, and
accepts no known types. The counter of nodes and the aliases are read over. A module therefore comes
back as it was exactly when there is nothing in it that could get lost. -/

namespace TypeFlow

open List Document

/-- Documents that are the same when the order of fields does not count. -/
inductive Document.Alike : Document → Document → Prop
  | refl (d : Document) : Alike d d
  | list {l l' : List Document} : l.length = l'.length →
      (∀ (i : Nat) d d', l[i]? = some d → l'[i]? = some d' → Alike d d') →
      Alike (.list l) (.list l')
  | record {l l' : List (String × Document)} :
      (∀ key, (l.lookup key).isSome = (l'.lookup key).isSome) →
      (∀ key d d', l.lookup key = some d → l'.lookup key = some d' → Alike d d') →
      Alike (.record l) (.record l')

namespace Document.Alike

variable {l l' : List (String × Document)}

theorem int_eq {n n' : Int} (h : Alike (.int n) (.int n')) : n = n' := by
  cases h
  rfl

theorem length_eq {l l' : List Document} (h : Alike (.list l) (.list l')) :
    l.length = l'.length := by
  cases h with
  | refl => rfl
  | list hlength _ => exact hlength

theorem field {d d' : Document} (h : Alike (.record l) (.record l')) (key : String)
    (hd : l.lookup key = some d) (hd' : l'.lookup key = some d') : Alike d d' := by
  cases h with
  | refl =>
    obtain rfl : d = d' := Option.some.inj (hd.symm.trans hd')
    exact .refl d
  | record _ hfields => exact hfields key d d' hd hd'

theorem of_fields (hkeys : (l.map Prod.fst).Perm (l'.map Prod.fst))
    (h : ∀ key ∈ l.map Prod.fst, ∃ d d', l.lookup key = some d ∧ l'.lookup key = some d' ∧
      Alike d d') :
    Alike (.record l) (.record l') := by
  have hnone {l : List (String × Document)} {key : String} (hkey : key ∉ l.map Prod.fst) :
      l.lookup key = none := by
    refine lookup_eq_none_iff.mpr fun f hf => bne_iff_ne.mpr ?_
    rintro rfl
    exact hkey (mem_map_of_mem hf)
  refine .record (fun key => ?_) fun key d d' hd hd' => ?_ <;> by_cases hkey : key ∈ l.map Prod.fst
  · obtain ⟨d, d', hd, hd', -⟩ := h key hkey
    rw [hd, hd']
    rfl
  · rw [hnone hkey, hnone (mt hkeys.mem_iff.mpr hkey)]
  · obtain ⟨e, e', he, he', halike⟩ := h key hkey
    obtain rfl : e = d := Option.some.inj (he.symm.trans hd)
    obtain rfl : e' = d' := Option.some.inj (he'.symm.trans hd')
    exact halike
  · rw [hnone hkey] at hd
    cases hd

end Document.Alike

/-- The graph of a module that has nothing to restore: no functions and no aliases, no node was
ever numbered, and none is listed, filed or noted. -/
structure Graph.Bare (G : Graph) : Prop where
  functions : G.functions = []
  aliases : G.aliases = {}
  nextIndex : G.nextIndex = 0
  nodes : G.nodes = []
  branches : G.branches = []
  merges : G.merges = []
  symbols : ∀ e ∈ G.symbols.entries, G.symbols.get? e.1 = some []
  operations : ∀ e ∈ G.operations.entries, G.operations.get? e.1 = some []
  knowns : G.knowns.entries = []
  loops : ∀ l ∈ G.loopBuffer, l = []
  bodies : ∀ t ∈ G.tryBuffer, t.entries = []
  handlers : ∀ t ∈ G.exceptBuffer, t.entries = []

/-- Nothing at all was put into the graph of a module. -/
def Graph.isBlank (G : Graph) : Bool :=
  G.functions.isEmpty && G.aliases == {} && G.nextIndex == 0 && G.nodes.isEmpty &&
    G.branches.isEmpty && G.merges.isEmpty && G.symbols.entries.isEmpty &&
    G.operations.entries.isEmpty && G.knowns.entries.isEmpty && G.loopBuffer.isEmpty &&
    G.tryBuffer.isEmpty && G.exceptBuffer.isEmpty

theorem Graph.bare_of_isBlank {G : Graph} (h : G.isBlank = true) : G.Bare := by
  simp only [isBlank, Bool.and_eq_true, List.isEmpty_iff, beq_iff_eq] at h
  obtain ⟨⟨⟨⟨⟨⟨⟨⟨⟨⟨⟨hfunctions, haliases⟩, hindex⟩, hnodes⟩, hbranches⟩, hmerges⟩, hsymbols⟩,
    hoperations⟩, hknowns⟩, hloops⟩, hbodies⟩, hhandlers⟩ := h
  exact ⟨hfunctions, haliases, hindex, hnodes, hbranches, hmerges, by simp [hsymbols],
    by simp [hoperations], hknowns, by simp [hloops], by simp [hbodies], by simp [hhandlers]⟩

namespace Archive

variable {α β : Type} {f : α → Except Fault β} {P : α → Prop} {r : List β} {R : α → β → Prop}
  {l : List (String × Document)} {t : Table String (List NodeId)} {docs : List Document}

theorem bind_eq_ok {x : Except Fault α} {b : β} :
    (x >>= f) = .ok b ↔ ∃ a, x = .ok a ∧ f a = .ok b := by
  cases x with
  | ok a => exact ⟨fun h => ⟨a, rfl, h⟩, by rintro ⟨_, ⟨⟩, h⟩; exact h⟩
  | error e =>
    refine ⟨fun h => ?_, ?_⟩
    · cases h
    · rintro ⟨_, ⟨⟩, _⟩

/-- When a step succeeds under a condition, all of them succeed when all meet it. -/
theorem mapM_eq_ok_iff {p : α → β} {l : List α} (h : ∀ a ∈ l, ∀ b, f a = .ok b ↔ P a ∧ b = p a) :
    l.mapM f = .ok r ↔ (∀ a ∈ l, P a) ∧ r = l.map p := by
  induction l generalizing r with
  | nil =>
    rw [mapM_nil]
    exact ⟨fun h => by cases h; simp, fun h => by rw [h.2]; rfl⟩
  | cons a l ih =>
    have ih (r : List β) := ih (fun a ha => h a (.tail _ ha)) (r := r)
    simp only [mapM_cons, bind_eq_ok, h a (.head _), ih, forall_mem_cons, map_cons]
    constructor
    · rintro ⟨b, ⟨ha, rfl⟩, rest, ⟨hl, rfl⟩, ⟨⟩⟩
      exact ⟨⟨ha, hl⟩, rfl⟩
    · rintro ⟨⟨ha, hl⟩, rfl⟩
      exact ⟨_, ⟨ha, rfl⟩, _, ⟨hl, rfl⟩, rfl⟩

theorem mapM_eq_ok_nil {l : List α} (h : ∀ a ∈ l, ∀ b, f a ≠ .ok b) :
    l.mapM f = .ok r ↔ l = [] ∧ r = [] := by
  cases l with
  | nil =>
    rw [mapM_nil]
    exact ⟨fun h => by cases h; simp, fun h => by rw [h.2]; rfl⟩
  | cons a l =>
    simp only [mapM_cons, bind_eq_ok, h a (.head _), false_and, exists_false, reduceCtorEq]

theorem lookupKey_nil {key : Document} {i : α} : lookupKey [] key ≠ .ok i := by
  unfold lookupKey
  rw [Ne, bind_eq_ok]
  rintro ⟨_, _, h⟩
  cases h

theorem nil_iff_of_forall₂ {l : List α} (h : Forall₂ R l r) : r = [] ↔ l = [] := by
  cases h <;> simp

theorem forall_of_forall₂ {P : β → Prop} {l : List α} (h : Forall₂ R l r)
    (hR : ∀ a b, R a b → P b) : ∀ b ∈ r, P b := by
  induction h with
  | nil => exact fun _ h => absurd h not_mem_nil
  | cons hab _ ih => exact forall_mem_cons.mpr ⟨hR _ _ hab, ih⟩

theorem exists_lookup {f : String × Document} (hf : f ∈ l) :
    ∃ d, l.lookup f.1 = some d ∧ (f.1, d) ∈ l := by
  obtain ⟨d, hd⟩ := Option.isSome_iff_exists.mp
    (lookup_isSome_iff.mpr ⟨f, hf, beq_self_eq_true f.1⟩)
  exact ⟨d, hd, mem_of_lookup hd⟩

namespace GraphRecord

variable {docs : List Document} {l : List (String × Document)}

theorem loadRefs_nil {l : List Nat} : loadRefs [] (.list docs) = .ok l ↔ docs = [] ∧ l = [] := by
  refine mapM_eq_ok_nil fun d _ i => ?_
  rw [Ne, bind_eq_ok]
  rintro ⟨_, _, h⟩
  exact lookupKey_nil h

/-- An index without nodes has an empty list for every key. -/
theorem loadIndex_nil (hl : ∀ f ∈ l, ∃ docs, f.2 = .list docs) {r : List (String × List Nat)} :
    loadIndex [] (.record l) = .ok r ↔
      (∀ f ∈ l, l.lookup f.1 = some (.list [])) ∧ r = l.map fun f => (f.1, []) := by
  have hmap : (l.map fun f => text f.1).mapM (fun key => do
      let name ← key.asText
      return (name, ← loadRefs [] (← (record l).field name))) = .ok r ↔
      (∀ f ∈ l, l.lookup f.1 = some (.list [])) ∧ r = l.map fun f => (f.1, []) := by
    rw [mapM_map]
    refine mapM_eq_ok_iff fun f hf e => ?_
    obtain ⟨d, hd, hmem⟩ := exists_lookup hf
    obtain ⟨docs, rfl⟩ : ∃ docs, d = .list docs := hl _ hmem
    simp only [Function.comp_apply, asText, field, hd, bind_eq_ok,
      Except.ok.injEq, exists_eq_left', loadRefs_nil, Option.some.injEq, list.injEq]
    constructor
    · rintro ⟨_, ⟨rfl, rfl⟩, ⟨⟩⟩
      exact ⟨rfl, rfl⟩
    · rintro ⟨rfl, rfl⟩
      exact ⟨[], ⟨rfl, rfl⟩, rfl⟩
  exact hmap

/-- A buffer without nodes has nothing in its records. -/
theorem loadBuffer_nil (hdocs : ∀ d ∈ docs, ∃ l, d = .record l) {r : List (List (String × Nat))} :
    loadBuffer [] (.list docs) = .ok r ↔
      (∀ d ∈ docs, d = .record []) ∧ r = docs.map fun _ => [] := by
  refine mapM_eq_ok_iff fun d hd e => ?_
  obtain ⟨l, rfl⟩ := hdocs d hd
  refine (mapM_eq_ok_nil fun key _ i => ?_).trans ?_
  · simp only [Ne, bind_eq_ok]
    rintro ⟨_, -, _, -, _, -, _, h, -⟩
    exact lookupKey_nil h
  · rw [map_eq_nil_iff, record.injEq]

/-- Only an index of known types without entries is accepted, when every entry has fields. -/
theorem checkKnowns_eq_ok (hl : ∀ f ∈ l, ∃ fields, f.2 = .record fields ∧ fields ≠ []) :
    checkKnowns (.record l) = .ok () ↔ l = [] := by
  cases l with
  | nil => exact ⟨fun _ => rfl, fun _ => rfl⟩
  | cons f l =>
    obtain ⟨fields, hf, hfields⟩ := hl f (.head _)
    obtain ⟨key, d⟩ := f
    obtain rfl : d = .record fields := hf
    have hpos : 0 < fields.length := length_pos_iff.mpr hfields
    have hthrow : checkKnowns (.record ((key, .record fields) :: l)) = .error .missingKey := by
      simp only [checkKnowns, Document.parts, Document.field, Document.asText, Document.length,
        map_cons, forIn_cons, lookup_cons_self, bind, Except.bind, hpos, if_true]
      rfl
    simp only [hthrow, reduceCtorEq]

end GraphRecord

/-- Nodes are saved as a list of as many documents. -/
def Lists (nodes : List NodeId) (d : Document) : Prop :=
  ∃ docs, d = .list docs ∧ (docs = [] ↔ nodes = [])

/-- A table is saved as a record that has fields when it has entries. -/
def Notes (t : Table String α) (d : Document) : Prop :=
  ∃ l, d = .record l ∧ (l = [] ↔ t.entries = [])

/-- An index is saved as a record with its keys. -/
def Indexes (t : Table String (List NodeId)) (l : List (String × Document)) : Prop :=
  Forall₂ (fun e f => f.1 = e.1 ∧ Lists e.2 f.2) t.entries l

theorem forall_iff_of_forall₂ {Q : β → Prop} {l : List α} (h : Forall₂ R l r)
    (hR : ∀ a b, R a b → (Q b ↔ P a)) : (∀ b ∈ r, Q b) ↔ ∀ a ∈ l, P a := by
  induction h with
  | nil => simp only [not_mem_nil, false_imp_iff, implies_true]
  | cons hab _ ih => rw [forall_mem_cons, forall_mem_cons, hR _ _ hab, ih]

theorem Indexes.lookup_eq {es : List (String × List NodeId)} (h : Indexes ⟨es⟩ l) (key : String) :
    l.lookup key = some (.list []) ↔ Table.lookup key es = some [] := by
  simp only [Indexes] at h
  induction h with
  | nil => simp [Table.lookup]
  | @cons e f es l hef _ ih =>
    obtain ⟨name, nodes⟩ := e
    obtain ⟨name', d⟩ := f
    obtain ⟨rfl, docs, rfl, hdocs⟩ : name' = name ∧ Lists nodes d := hef
    by_cases hkey : name' = key
    · subst hkey
      simp [Table.lookup, hdocs]
    · have hne : (key == name') = false := beq_eq_false_iff_ne.mpr (Ne.symm hkey)
      simp only [lookup_cons, hne, Table.lookup, hkey, if_false]
      exact ih

theorem Indexes.blank_iff (h : Indexes t l) : (∀ f ∈ l, l.lookup f.1 = some (.list [])) ↔
      ∀ e ∈ t.entries, t.get? e.1 = some [] := by
  refine forall_iff_of_forall₂ h fun e f hef => ?_
  rw [hef.1]
  exact h.lookup_eq e.1

theorem forall_list_of_indexes (h : Indexes t l) : ∀ f ∈ l, ∃ docs, f.2 = .list docs := by
  refine forall_of_forall₂ h ?_
  rintro e f ⟨-, docs, hdocs, -⟩
  exact ⟨docs, hdocs⟩

theorem forall_list_of_lists {ls : List (List NodeId)} (h : Forall₂ Lists ls docs) :
    ∀ d ∈ docs, ∃ l, d = .list l := by
  refine forall_of_forall₂ h ?_
  rintro t d ⟨l, hl, -⟩
  exact ⟨l, hl⟩

theorem forall_record_of_notes {ts : List (Table String α)} (h : Forall₂ Notes ts docs) :
    ∀ d ∈ docs, ∃ l, d = .record l := by
  refine forall_of_forall₂ h ?_
  rintro t d ⟨l, hl, -⟩
  exact ⟨l, hl⟩

/-- The documents to which the parts of a module are saved. -/
structure ModuleParts where
  functions : List Document
  symbols : List (String × Document)
  operations : List (String × Document)
  knowns : List (String × Document)
  nodes : List Document
  branches : List Document
  merges : List Document
  classTypes : Document
  loops : List Document
  bodies : List Document
  handlers : List Document

namespace ModuleParts

def document (G : Graph) (p : ModuleParts) : Document :=
  .record [
    ("name", .text G.name), ("tgs", .list p.functions), ("globalsymbols", .record p.symbols),
    ("globaltypegennodes", .record p.operations), ("globaltypenodes", .record p.knowns),
    ("globalnodes", .list p.nodes), ("globalbranchnodes", .list p.branches),
    ("globalmergenodes", .list p.merges), ("usertypes", .list G.userNames),
    ("aliasgraph", G.aliases.save), ("classtypes", p.classTypes), ("nodeindex", .int G.nextIndex),
    ("callgraph", .null), ("inloop", .int G.loopDepth), ("loopbuffer", .list p.loops),
    ("trybuffer", .list p.bodies), ("intry", .int G.tryDepth), ("exceptbuffer", .list p.handlers),
    ("inexcept", .int G.exceptDepth)]

/-- The parts are those of a graph. No record of a function has all fields that it has to have. -/
structure Of (p : ModuleParts) (G : Graph) : Prop where
  functions :
    Forall₂ (fun _ d => hasFields d FunctionRecord.keys = false) G.functions p.functions
  symbols : Indexes G.symbols p.symbols
  operations : Indexes G.operations p.operations
  knowns : p.knowns = [] ↔ G.knowns.entries = []
  known : ∀ f ∈ p.knowns, ∃ fields, f.2 = .record fields ∧ fields ≠ []
  nodes : p.nodes = [] ↔ G.nodes = []
  branches : p.branches = [] ↔ G.branches = []
  merges : p.merges = [] ↔ G.merges = []
  loops : Forall₂ Lists G.loopBuffer p.loops
  bodies : Forall₂ Notes G.tryBuffer p.bodies
  handlers : Forall₂ Notes G.exceptBuffer p.handlers

/-- The parts have no node in them: lists are empty, and indexes and buffers hold empty ones. -/
structure Blank (p : ModuleParts) : Prop where
  functions : p.functions = []
  symbols : ∀ f ∈ p.symbols, p.symbols.lookup f.1 = some (.list [])
  operations : ∀ f ∈ p.operations, p.operations.lookup f.1 = some (.list [])
  knowns : p.knowns = []
  branches : p.branches = []
  merges : p.merges = []
  loops : ∀ d ∈ p.loops, d = .list []
  bodies : ∀ d ∈ p.bodies, d = .record []
  handlers : ∀ d ∈ p.handlers, d = .record []

/-- The module that is read back from parts without nodes. -/
def reloaded (p : ModuleParts) (G : Graph) : ModuleRecord where
  name := .text G.name
  userNames := .list G.userNames
  symbols := p.symbols.map fun f => (f.1, [])
  operations := p.operations.map fun f => (f.1, [])
  loopDepth := .int G.loopDepth
  loopBuffer := p.loops.map fun _ => []
  tryDepth := .int G.tryDepth
  tryBuffer := p.bodies.map fun _ => []
  exceptDepth := .int G.exceptDepth
  exceptBuffer := p.handlers.map fun _ => []
  classTypes := p.classTypes
  callGraph := .null

variable {p : ModuleParts} {G : Graph} {m : ModuleRecord}

/-- A module without nodes is read back when all its parts are blank. -/
theorem loadFields_eq_ok (hp : p.Of G) (hnodes : p.nodes = []) :
    ModuleRecord.loadFields (p.document G) = .ok m ↔ p.Blank ∧ m = p.reloaded G := by
  have hnone (d : Document) (hd : d ∈ p.functions) : FunctionRecord.load d true = none := by
    rw [FunctionRecord.load, forall_of_forall₂ hp.functions (fun _ _ h => h) d hd]
    rfl
  have hsymbols (r : List (String × List Nat)) :=
    GraphRecord.loadIndex_nil (forall_list_of_indexes hp.symbols) (r := r)
  have hoperations (r : List (String × List Nat)) :=
    GraphRecord.loadIndex_nil (forall_list_of_indexes hp.operations) (r := r)
  have hloops (r : List (List Nat)) : p.loops.mapM (GraphRecord.loadRefs []) = .ok r ↔
      (∀ d ∈ p.loops, d = .list []) ∧ r = p.loops.map fun _ => [] := by
    refine mapM_eq_ok_iff fun d hd l => ?_
    obtain ⟨docs, rfl⟩ := forall_list_of_lists hp.loops d hd
    rw [GraphRecord.loadRefs_nil, list.injEq]
  have hbodies (r : List (List (String × Nat))) :=
    GraphRecord.loadBuffer_nil (forall_record_of_notes hp.bodies) (r := r)
  have hhandlers (r : List (List (String × Nat))) :=
    GraphRecord.loadBuffer_nil (forall_record_of_notes hp.handlers) (r := r)
  simp only [ModuleRecord.loadFields, field, document, hnodes, lookup_cons, BEq.rfl,
    GraphRecord.load, String.reduceBEq, GraphRecord.moduleLayout, parts, bind_pure_comp,
    Except.map_ok, bind_assoc, bind_eq_ok, Except.ok.injEq, exists_eq_left', exists_and_right,
    Prod.exists, nil_eq, exists_eq_left, foldlM_nil]
  -- no node is read, so that no reference to one is accepted below
  constructor
  · rintro ⟨_, _, hload, _, hedges, _, hs, _, ho, ⟨_, hk⟩, _, hb, _, hm, _, hl, _, ht, _, he, _, hf,
      rfl⟩
    cases hload
    cases hedges
    rw [hsymbols] at hs
    rw [hoperations] at ho
    rw [GraphRecord.loadRefs_nil] at hb hm
    rw [hloops] at hl
    rw [hbodies] at ht
    rw [hhandlers] at he
    have hnil := (mapM_eq_ok_nil fun d hd f => by simp [hnone d hd]).mp hf
    obtain ⟨hs, rfl⟩ := hs
    obtain ⟨ho, rfl⟩ := ho
    obtain ⟨hb, rfl⟩ := hb
    obtain ⟨hm, rfl⟩ := hm
    obtain ⟨hl, rfl⟩ := hl
    obtain ⟨ht, rfl⟩ := ht
    obtain ⟨he, rfl⟩ := he
    obtain ⟨hnil, rfl⟩ := hnil
    exact ⟨⟨hnil, hs, ho, (GraphRecord.checkKnowns_eq_ok hp.known).mp hk, hb, hm, hl, ht, he⟩, rfl⟩
  · rintro ⟨h, rfl⟩
    refine ⟨#[], [], rfl, #[], rfl, _, (hsymbols _).mpr ⟨h.symbols, rfl⟩, _,
      (hoperations _).mpr ⟨h.operations, rfl⟩,
      ⟨(), (GraphRecord.checkKnowns_eq_ok hp.known).mpr h.knowns⟩, [],
      GraphRecord.loadRefs_nil.mpr ⟨h.branches, rfl⟩, [],
      GraphRecord.loadRefs_nil.mpr ⟨h.merges, rfl⟩, _, (hloops _).mpr ⟨h.loops, rfl⟩, _,
      (hbodies _).mpr ⟨h.bodies, rfl⟩, _, (hhandlers _).mpr ⟨h.handlers, rfl⟩, [], ?_, rfl⟩
    rw [h.functions]
    rfl

theorem load_eq_some : ModuleRecord.load (p.document G) = some m ↔
    ModuleRecord.loadFields (p.document G) = .ok m := by
  have hfields : hasFields (p.document G) ModuleRecord.keys = true := by
    simp [hasFields, document, ModuleRecord.keys]
  rw [ModuleRecord.load, if_pos hfields]
  cases ModuleRecord.loadFields (p.document G) with
  | ok m' => exact ⟨fun h => congrArg Except.ok (Option.some.inj h), fun h => by cases h; rfl⟩
  | error e => simp [Except.toOption]

/-- Fields of a module that reading it back keeps. -/
def kept : List String :=
  ["name", "usertypes", "inloop", "intry", "inexcept", "classtypes", "callgraph"]

/-- A module that is read back had neither functions nor known types. -/
theorem of_load (hp : p.Of G) (h : ModuleRecord.load (p.document G) = some m) :
    p.functions = [] ∧ p.knowns = [] ∧
    ∀ key ∈ kept, m.save.field? key = (p.document G).field? key := by
  rw [load_eq_some] at h
  simp only [ModuleRecord.loadFields, field, document, lookup_cons, BEq.rfl,
    GraphRecord.load, String.reduceBEq, GraphRecord.moduleLayout, parts, bind_pure_comp,
    Except.map_ok, bind_assoc, bind_eq_ok, Except.ok.injEq, exists_eq_left', exists_and_right,
    Prod.exists] at h
  obtain ⟨_, _, _, _, _, _, _, _, _, ⟨_, hknowns⟩, _, _, _, _, _, _, _, _, _, _, _, hfunctions,
    rfl⟩ := h
  refine ⟨((mapM_eq_ok_nil fun d hd f => ?_).mp hfunctions).1,
    (GraphRecord.checkKnowns_eq_ok hp.known).mp hknowns, ?_⟩
  · simp [FunctionRecord.load, forall_of_forall₂ hp.functions (fun _ _ h => h) d hd]
  · simp [kept, ModuleRecord.save, GraphRecord.save, field?, document, lookup_cons,
      GraphRecord.moduleLayout]

/-- A graph that has no nodes is bare when its parts are blank and nothing else is lost. -/
theorem bare_iff (hp : p.Of G) :
    G.Bare ↔ p.Blank ∧ p.nodes = [] ∧ G.nextIndex = 0 ∧ G.aliases = {} := by
  have hfunctions := nil_iff_of_forall₂ hp.functions
  have hloops : (∀ d ∈ p.loops, d = .list []) ↔ ∀ l ∈ G.loopBuffer, l = [] := by
    refine forall_iff_of_forall₂ hp.loops ?_
    rintro l _ ⟨docs, rfl, h⟩
    rw [list.injEq, h]
  have hnotes {β : Type} {ts : List (Table String β)} {docs : List Document}
      (h : Forall₂ Notes ts docs) :
      (∀ d ∈ docs, d = .record []) ↔ ∀ t ∈ ts, t.entries = [] := by
    refine forall_iff_of_forall₂ h ?_
    rintro t _ ⟨l, rfl, h⟩
    rw [record.injEq, h]
  constructor
  · intro h
    exact ⟨⟨hfunctions.mpr h.functions, hp.symbols.blank_iff.mpr h.symbols,
      hp.operations.blank_iff.mpr h.operations, hp.knowns.mpr h.knowns, hp.branches.mpr h.branches,
      hp.merges.mpr h.merges, hloops.mpr h.loops, (hnotes hp.bodies).mpr h.bodies,
      (hnotes hp.handlers).mpr h.handlers⟩, hp.nodes.mpr h.nodes, h.nextIndex, h.aliases⟩
  · rintro ⟨h, hnodes, hindex, haliases⟩
    exact ⟨hfunctions.mp h.functions, haliases, hindex, hp.nodes.mp hnodes,
      hp.branches.mp h.branches, hp.merges.mp h.merges, hp.symbols.blank_iff.mp h.symbols,
      hp.operations.blank_iff.mp h.operations, hp.knowns.mp h.knowns, hloops.mp h.loops,
      (hnotes hp.bodies).mp h.bodies, (hnotes hp.handlers).mp h.handlers⟩

theorem alike_of_lookup {l : List (String × Document)}
    (h : ∀ f ∈ l, l.lookup f.1 = some (.list [])) :
    Alike (.record (l.map fun f => (f.1, .list []))) (.record l) := by
  have hmap (l : List (String × Document)) (key : String) :
      (l.map fun f => (f.1, list [])).lookup key = (l.lookup key).map fun _ => .list [] := by
    induction l with
    | nil => rfl
    | cons f l ih =>
      rw [map_cons, lookup_cons, lookup_cons]
      cases key == f.1 with
      | true => rfl
      | false => exact ih
  have hlookup (key : String) : (l.map fun f => (f.1, list [])).lookup key = l.lookup key := by
    rw [hmap]
    cases hd : l.lookup key with
    | none => rfl
    | some d => exact (h (key, d) (mem_of_lookup hd)).symm.trans hd
  refine .record (fun key => by rw [hlookup]) fun key d d' hd hd' => ?_
  obtain rfl : d = d' := Option.some.inj (hd.symm.trans ((hlookup key).trans hd'))
  exact .refl d

/-- Blank parts come back as they were when nothing else is lost. -/
theorem alike_reloaded (h : p.Blank) (hnodes : p.nodes = []) (hindex : G.nextIndex = 0)
    (haliases : G.aliases = {}) : (p.reloaded G).save.Alike (p.document G) := by
  have hsymbols := alike_of_lookup h.symbols
  have hoperations := alike_of_lookup h.operations
  have hsave : (p.reloaded G).save = .record [
      ("name", .text G.name), ("usertypes", .list G.userNames), ("globalnodes", .list []),
      ("globalsymbols", .record (p.symbols.map fun f => (f.1, .list []))),
      ("globaltypegennodes", .record (p.operations.map fun f => (f.1, .list []))),
      ("globaltypenodes", .record []), ("globalbranchnodes", .list []),
      ("globalmergenodes", .list []), ("inloop", .int G.loopDepth), ("loopbuffer", .list p.loops),
      ("trybuffer", .list p.bodies), ("intry", .int G.tryDepth),
      ("exceptbuffer", .list p.handlers), ("inexcept", .int G.exceptDepth), ("tgs", .list []),
      ("aliasgraph", ({} : Alias.Graph).save), ("classtypes", p.classTypes), ("nodeindex", .int 0),
      ("callgraph", .null)] := by
    simp [ModuleRecord.save, GraphRecord.save, reloaded, GraphRecord.moduleLayout,
      GraphRecord.saveRefs, GraphRecord.saveIndex, GraphRecord.saveBuffer, Function.comp_def]
    exact ⟨(eq_replicate_of_mem h.loops).symm, (eq_replicate_of_mem h.bodies).symm,
      (eq_replicate_of_mem h.handlers).symm⟩
  rw [hsave, document, h.functions, h.knowns, hnodes, h.branches, h.merges, hindex, haliases]
  refine .of_fields (by simp only [map_cons, map_nil]; decide) ?_
  simp [lookup_cons, hsymbols, hoperations, Alike.refl]

/-- A module that comes back as it was had no numbers and no aliases. -/
theorem of_alike (h : m.save.Alike (p.document G)) : G.nextIndex = 0 ∧ G.aliases = {} := by
  have hindex : Alike (.int 0) (.int G.nextIndex) :=
    h.field "nodeindex" (by simp [GraphRecord.save, lookup_cons, GraphRecord.moduleLayout])
      (by simp [lookup_cons])
  have haliases : Alike ({} : Alias.Graph).save G.aliases.save :=
    h.field "aliasgraph" (by simp [GraphRecord.save, lookup_cons, GraphRecord.moduleLayout])
      (by simp [lookup_cons])
  have hsize := (haliases.field "nodes" rfl rfl).length_eq
  have hroots := (haliases.field "rootnodes" rfl rfl).length_eq
  have hempty : G.aliases.nodes = #[] ∧ G.aliases.roots = [] := by
    simpa [eq_comm] using And.intro hsize hroots
  refine ⟨by exact_mod_cast hindex.int_eq.symm, ?_⟩
  rw [show G.aliases = ⟨G.aliases.nodes, G.aliases.roots⟩ from rfl, hempty.1, hempty.2]

end ModuleParts

end Archive

namespace Eval

open Archive

variable {α β : Type} {s t : Store} {d : Document} {index : Table String (List NodeId)}
  {g : GraphId}

theorem lists_of_saveNodes {nodes : List NodeId} (h : saveNodes nodes s = .ok d t) :
    Lists nodes d := by
  obtain ⟨docs, u, hdocs, h⟩ := bind_eq_ok.mp h
  cases h
  have hall : Forall₂ (fun _ _ => True) nodes docs :=
    forall₂_of_mapM (fun _ _ _ _ _ => trivial) hdocs
  exact ⟨docs, rfl, nil_iff_of_forall₂ hall⟩

theorem indexes_of_saveIndex (h : saveIndex index s = .ok d t) :
    ∃ l, d = .record l ∧ Indexes index l := by
  obtain ⟨l, u, hl, h⟩ := bind_eq_ok.mp h
  cases h
  refine ⟨l, rfl, forall₂_of_mapM ?_ hl⟩
  rintro ⟨key, nodes⟩ s f t hf
  obtain ⟨d, u, hd, hf⟩ := bind_eq_ok.mp hf
  cases hf
  exact ⟨rfl, lists_of_saveNodes hd⟩

theorem notes_of_saveIndex (h : saveIndex index s = .ok d t) : Notes index d := by
  obtain ⟨l, rfl, hl⟩ := indexes_of_saveIndex h
  exact ⟨l, rfl, nil_iff_of_forall₂ hl⟩

theorem record_of_saveNode {n : NodeId} (h : saveNode n s = .ok d t) :
    ∃ fields, d = .record fields ∧ fields ≠ [] := by
  unfold saveNode at h
  simp only [bind_eq_ok] at h
  obtain ⟨_, _, -, _, _, -, _, _, -, _, _, -, _, _, -, h⟩ := h
  cases h
  exact ⟨_, rfl, cons_ne_nil _ _⟩

theorem records_of_saveKnowns {knowns : Table TypeId NodeId} (h : saveKnowns knowns s = .ok d t) :
    ∃ l, d = .record l ∧ (l = [] ↔ knowns.entries = []) ∧
      ∀ f ∈ l, ∃ fields, f.2 = .record fields ∧ fields ≠ [] := by
  obtain ⟨saved, u, hsaved, h⟩ := bind_eq_ok.mp h
  cases h
  have hall : Forall₂ (fun _ f => ∃ fields, f.2 = record fields ∧ fields ≠ [])
      knowns.entries saved := by
    refine forall₂_of_mapM ?_ hsaved
    rintro ⟨τ, n⟩ s f t hf
    obtain ⟨τ, u, -, hf⟩ := bind_eq_ok.mp hf
    obtain ⟨d, v, hd, hf⟩ := bind_eq_ok.mp hf
    cases hf
    exact record_of_saveNode hd
  obtain ⟨hvalues, hnil⟩ := Table.forall_ofList
    (P := fun d => ∃ fields, d = record fields ∧ fields ≠ [])
    (forall_of_forall₂ hall fun _ _ h => h)
  exact ⟨_, rfl, hnil.trans (nil_iff_of_forall₂ hall), hvalues⟩

theorem parts_of_saveBuffers {G : Graph} {fields : List (String × Document)}
    (h : saveBuffers G s = .ok fields t) : ∃ loops bodies handlers, fields = [
        ("inloop", .int G.loopDepth), ("loopbuffer", .list loops), ("trybuffer", .list bodies),
        ("intry", .int G.tryDepth), ("exceptbuffer", .list handlers),
        ("inexcept", .int G.exceptDepth)] ∧
      Forall₂ Lists G.loopBuffer loops ∧ Forall₂ Notes G.tryBuffer bodies ∧
      Forall₂ Notes G.exceptBuffer handlers := by
  unfold saveBuffers at h
  simp only [bind_eq_ok] at h
  obtain ⟨handlers, _, hhandlers, loops, _, hloops, bodies, _, hbodies, h⟩ := h
  cases h
  have hloop (l : List NodeId) (s : Store) (d : Document) (t : Store)
      (h : saveNodes l s = .ok d t) : Lists l d := lists_of_saveNodes h
  have hbody (index : Table String (List NodeId)) (s : Store) (d : Document) (t : Store)
      (h : saveIndex index s = .ok d t) : Notes index d := notes_of_saveIndex h
  refine ⟨loops, bodies, handlers, rfl, forall₂_of_mapM hloop hloops, forall₂_of_mapM hbody hbodies,
    forall₂_of_mapM ?_ hhandlers⟩
  intro table s d t hd
  obtain ⟨l, u, hl, hd⟩ := bind_eq_ok.mp hd
  cases hd
  have hall : Forall₂ (fun _ _ => True) table.entries l :=
    forall₂_of_mapM (fun _ _ _ _ _ => trivial) hl
  exact ⟨l, rfl, nil_iff_of_forall₂ hall⟩

theorem hasFields_of_saveFunction (h : saveFunction g s = .ok d t) :
    hasFields d FunctionRecord.keys = false := by
  unfold saveFunction at h
  simp only [bind_eq_ok] at h
  obtain ⟨_, _, -, _, _, -, _, _, -, buffers, _, hbuffers, _, _, -, _, _, -, _, _, -, _, _, -,
    _, _, -, _, _, -, _, _, -, _, _, -, h⟩ := h
  cases h
  obtain ⟨loops, bodies, handlers, rfl, -⟩ := parts_of_saveBuffers hbuffers
  simp [hasFields, FunctionRecord.keys]

theorem parts_of_saveModule (h : saveModule g s = .ok d t) :
    ∃ p : ModuleParts, p.Of (s.graphAt g) ∧ d = p.document (s.graphAt g) := by
  unfold saveModule at h
  simp only [bind_eq_ok] at h
  obtain ⟨G, _, hG, functions, _, hfunctions, buffers, _, hbuffers, symbols, _, hsave₁,
    operations, _, hsave₂, knowns, _, hsave₃, nodes, _, hsave₄, branches, _, hsave₅, merges, _,
    hsave₆, classTypes, _, -, h⟩ := h
  cases h
  obtain rfl : G = s.graphAt g := by
    cases hG
    rfl
  obtain ⟨loops, bodies, handlers, rfl, hloops, hbodies, hhandlers⟩ := parts_of_saveBuffers hbuffers
  obtain ⟨symbols, rfl, hsymbols⟩ := indexes_of_saveIndex hsave₁
  obtain ⟨operations, rfl, hoperations⟩ := indexes_of_saveIndex hsave₂
  obtain ⟨knowns, rfl, hknowns, hknown⟩ := records_of_saveKnowns hsave₃
  obtain ⟨nodes, rfl, hnodes⟩ := lists_of_saveNodes hsave₄
  obtain ⟨branches, rfl, hbranches⟩ := lists_of_saveNodes hsave₅
  obtain ⟨merges, rfl, hmerges⟩ := lists_of_saveNodes hsave₆
  exact ⟨⟨functions, symbols, operations, knowns, nodes, branches, merges, classTypes, loops,
    bodies, handlers⟩, ⟨forall₂_of_mapM (fun _ _ _ _ h => hasFields_of_saveFunction h) hfunctions,
    hsymbols, hoperations, hknowns, hknown, hnodes, hbranches, hmerges, hloops, hbodies, hhandlers⟩,
    rfl⟩

end Eval

namespace Build

open Archive Program

/-- A module that has no functions has no nodes unless its graph has given a number. -/
theorem nodes_eq_nil {o : BuildOptions} {program : Module} {s t : Store} {w : Walk}
    (h : graphsOf o program s = .ok w t) (hfunctions : (t.graphAt w.top).functions = [])
    (hindex : (t.graphAt w.top).nextIndex = 0) : (t.graphAt w.top).nodes = [] := by
  obtain ⟨-, hend, u, hw, hu⟩ := orderly_of_graphsOf h
  refine eq_nil_iff_forall_not_mem.mpr fun n hn => ?_
  obtain ⟨hmade, hnumber⟩ := (made_of_listed hw hu (.head _)).2 n hn
  obtain ⟨k, hk⟩ := Option.ne_none_iff_exists'.mp hnumber
  obtain ⟨hopened, i, hi, -⟩ := hw.numbered.number n k hmade hk
  -- without functions, only the graph of the module itself can have numbered the node
  have hall := hw.framed.all k hopened
  rw [hu.functions] at hfunctions
  obtain rfl : k = w.top := by simpa [hend, hfunctions] using hall
  have hnext : (t.graphAt w.top).nextIndex = (u.graphAt w.top).nextIndex :=
    congrArg (·.1.nextIndex) (hu.graph w.top)
  omega

/-- Saving a module and reading it back. The module comes back as it was, up to the order of fields,
exactly when it is bare. One with functions or known types is not read back at all, and of one that
is read back the name, the types of users and of attributes and the depths stay. -/
theorem graphsOf_reloads_bare {o : BuildOptions} {program : Module} {s t u : Store} {w : Walk}
    {d : Document} (h : graphsOf o program s = .ok w t)
    (hsave : Eval.saveModule w.top t = .ok d u) :
    ((∃ m, ModuleRecord.load d = some m ∧ m.save.Alike d) ↔ (t.graphAt w.top).Bare) ∧
    ((t.graphAt w.top).functions ≠ [] ∨ (t.graphAt w.top).knowns.entries ≠ [] →
      ModuleRecord.load d = none) ∧
    ∀ m, ModuleRecord.load d = some m →
      ∀ key ∈ ModuleParts.kept, m.save.field? key = d.field? key := by
  obtain ⟨p, hp, rfl⟩ := Eval.parts_of_saveModule hsave
  have hfunctions := nil_iff_of_forall₂ hp.functions
  refine ⟨⟨?_, fun hbare => ?_⟩, fun hlost => ?_, fun m hm => (ModuleParts.of_load hp hm).2.2⟩
  · rintro ⟨m, hm, halike⟩
    obtain ⟨hindex, haliases⟩ := ModuleParts.of_alike halike
    have hnone := hfunctions.mp (ModuleParts.of_load hp hm).1
    have hnodes := hp.nodes.mpr (nodes_eq_nil h hnone hindex)
    rw [ModuleParts.load_eq_some, ModuleParts.loadFields_eq_ok hp hnodes] at hm
    exact (ModuleParts.bare_iff hp).mpr ⟨hm.1, hnodes, hindex, haliases⟩
  · obtain ⟨hblank, hnodes, hindex, haliases⟩ := (ModuleParts.bare_iff hp).mp hbare
    refine ⟨p.reloaded (t.graphAt w.top), ?_,
      ModuleParts.alike_reloaded hblank hnodes hindex haliases⟩
    rw [ModuleParts.load_eq_some, ModuleParts.loadFields_eq_ok hp hnodes]
    exact ⟨hblank, rfl⟩
  · refine Option.eq_none_iff_forall_ne_some.mpr fun m hm => ?_
    obtain ⟨hnone, hknowns, -⟩ := ModuleParts.of_load hp hm
    exact hlost.elim (fun hne => hne (hfunctions.mp hnone)) fun hne => hne (hp.knowns.mp hknowns)

def saved? (program : Module) : Option (Graph × Document) :=
  match graphsOf {} program {} with
  | .error _ _ => none
  | .ok w t =>
    match Eval.saveModule w.top t with
    | .ok d _ => some (t.graphAt w.top, d)
    | .error _ _ => none

theorem exists_of_saved? {program : Module} {G : Graph} {d : Document}
    (h : saved? program = some (G, d)) : ∃ w t u, graphsOf {} program {} = .ok w t ∧
      Eval.saveModule w.top t = .ok d u ∧ G = t.graphAt w.top := by
  unfold saved? at h
  split at h
  · cases h
  · rename_i w t hrun
    split at h
    · rename_i d' u hsave
      cases h
      exact ⟨w, t, u, hrun, hsave, rfl⟩
    · cases h

def emptyClass : Module := [.class_ default "C" [] [] [.other] []]

/-- Such a module comes back as it was. -/
theorem graphsOf_reloads_emptyClass : ∃ w t d u m, graphsOf {} emptyClass {} = .ok w t ∧
    Eval.saveModule w.top t = .ok d u ∧ ModuleRecord.load d = some m ∧ m.save.Alike d := by
  have hcheck : (saved? emptyClass).any (fun p => p.1.isBlank) = true := by decide +kernel
  obtain ⟨⟨G, d⟩, hsaved, hcheck⟩ := (Option.any_eq_true _ _).mp hcheck
  obtain ⟨w, t, u, hrun, hsave, rfl⟩ := exists_of_saved? hsaved
  obtain ⟨m, hm, halike⟩ := (graphsOf_reloads_bare hrun hsave).1.mpr (Graph.bare_of_isBlank hcheck)
  exact ⟨w, t, d, u, m, hrun, hsave, hm, halike⟩

/-- A module that is a function that returns its argument. -/
def identityOnly : Module :=
  [.function default "f" (.mk [] [.mk default "x" none] none [] [] none [])
    [.return_ default (some (.name default "x" .load))] [] none]

/-- The record to which such a module is saved is not read back. -/
theorem graphsOf_loses_identityOnly : ∃ w t d u, graphsOf {} identityOnly {} = .ok w t ∧
    Eval.saveModule w.top t = .ok d u ∧ ModuleRecord.load d = none := by
  have hcheck : (saved? identityOnly).any (fun p => (ModuleRecord.load p.2).isNone) = true := by
    decide +kernel
  obtain ⟨⟨G, d⟩, hsaved, hcheck⟩ := (Option.any_eq_true _ _).mp hcheck
  obtain ⟨w, t, u, hrun, hsave, -⟩ := exists_of_saved? hsaved
  exact ⟨w, t, d, u, hrun, hsave, Option.isNone_iff_eq_none.mp hcheck⟩

end Build

end TypeFlow
