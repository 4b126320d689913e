import TypeFlow.Command.World
import TypeFlow.Proofs.Searching

/-!
# Written files

Writing a file changes what stands at its place and nothing else. It makes no directory, so every
path leads to the same place as before, and what can be written once can be written again.
-/

namespace TypeFlow

namespace FileTree

variable {t u v : FileTree} {path : String} {place q : List String} {c c' : Contents}

/-- The second tree has other contents at one place and is the same otherwise. -/
structure Writes (t u : FileTree) (place : List String) (c : Contents) : Prop where
  directories : ∀ q, u.isDirectoryAt q = t.isDirectoryAt q
  file : ∀ q, u.file? q = if q = place then some c else t.file? q

def put (t : FileTree) (place : List String) (c : Contents) : FileTree :=
  ⟨(place, c) :: t.files.filter (·.1 != place)⟩

theorem file?_put (t : FileTree) (place q : List String) (c : Contents) :
    (t.put place c).file? q = if q = place then some c else t.file? q := by
  unfold put file?
  rw [List.lookup_cons]
  by_cases hq : q = place
  · simp [hq]
  · have hne : (q == place) = false := beq_false_of_ne hq
    rw [hne, if_neg hq]
    induction t.files with
    | nil => rfl
    | cons f rest ih =>
      obtain ⟨p, d⟩ := f
      by_cases hp : p = place
      · simp [hp, List.lookup_cons, hne, ih]
      · simp [hp, List.lookup_cons, ih]

theorem isDirectoryAt_iff :
    t.isDirectoryAt q = true ↔ q = [] ∨ ∃ f ∈ t.files, q <+: f.1 ∧ q ≠ f.1 := by
  simp [isDirectoryAt]

theorem isDirectoryAt_of_prefix {r : List String} (h : t.isDirectoryAt r = true) (hq : q <+: r) :
    t.isDirectoryAt q = true := by
  rw [isDirectoryAt_iff] at h ⊢
  rcases h with rfl | ⟨f, hf, hr, hne⟩
  · exact .inl (List.prefix_nil.mp hq)
  · refine .inr ⟨f, hf, hq.trans hr, ?_⟩
    rintro rfl
    exact hne (hr.eq_of_length_le hq.length_le)

/-- A place that a path can lead to: a directory, or a name in one. -/
def InReach (t : FileTree) (place : List String) : Prop :=
  t.isDirectoryAt place = true ∨
    ∃ parent name, place = parent ++ [name] ∧ t.isDirectoryAt parent = true

theorem inReach_of_follow {part : String} (h : t.follow q part = .ok place) : t.InReach place := by
  unfold follow at h
  split at h
  · rename_i hq
    unfold retrace at h
    split at h
    · exact .inl (Except.ok.inj h ▸ hq)
    · exact .inl (Except.ok.inj h ▸ hq)
    · split at h
      · cases h
      · exact .inl (Except.ok.inj h ▸ isDirectoryAt_of_prefix hq (List.dropLast_prefix q))
    · exact .inr ⟨q, part, (Except.ok.inj h).symm, hq⟩
  · split at h <;> cases h

theorem inReach_of_locate (h : t.locate path = .ok place) : t.InReach place := by
  have hsteps (parts : List String) (q : List String) (hq : t.InReach q)
      (h : parts.foldlM t.follow q = .ok place) : t.InReach place := by
    induction parts generalizing q with
    | nil => exact Except.ok.inj h ▸ hq
    | cons part rest ih =>
      rw [List.foldlM_cons] at h
      cases hstep : t.follow q part with
      | error e => rw [hstep] at h; cases h
      | ok r =>
        rw [hstep] at h
        exact ih r (inReach_of_follow hstep) h
  unfold locate at h
  split at h
  · cases h
  · exact hsteps _ [] (.inl rfl) h

/-- A file in a directory makes no other directory. -/
theorem isDirectoryAt_put (h : t.InReach place) (hfree : t.isDirectoryAt place = false)
    (q : List String) : (t.put place c).isDirectoryAt q = t.isDirectoryAt q := by
  obtain hdirectory | ⟨parent, name, rfl, hparent⟩ := h
  · rw [hfree] at hdirectory
    cases hdirectory
  rw [Bool.eq_iff_iff, isDirectoryAt_iff]
  constructor
  · rintro (rfl | ⟨f, hf, hprefix, hne⟩)
    · rfl
    rcases List.mem_cons.mp hf with rfl | hf
    · have hq : q <+: parent := (List.prefix_concat_iff.mp hprefix).resolve_left hne
      exact isDirectoryAt_of_prefix hparent hq
    · exact isDirectoryAt_iff.mpr (.inr ⟨f, (List.mem_filter.mp hf).1, hprefix, hne⟩)
  · intro hq
    rcases isDirectoryAt_iff.mp hq with rfl | ⟨f, hf, hprefix, hne⟩
    · exact .inl rfl
    by_cases hplace : f.1 = parent ++ [name]
    · exact .inr ⟨_, .head _, hplace ▸ hprefix, hplace ▸ hne⟩
    · exact .inr ⟨f, .tail _ (List.mem_filter.mpr ⟨hf, by simpa using hplace⟩), hprefix, hne⟩

namespace Writes

theorem trans (h : t.Writes u place c) (h' : u.Writes v place c') : t.Writes v place c' where
  directories q := (h'.directories q).trans (h.directories q)
  file q := by
    rw [h'.file, h.file]
    split <;> rfl

end Writes

/-- Trees with the same directories have the same places. -/
theorem locate_of_directories (h : ∀ q, u.isDirectoryAt q = t.isDirectoryAt q)
    (hplace : t.locate path = .ok place) : u.locate path = .ok place := by
  have hsteps (parts : List String) (q : List String)
      (hfold : parts.foldlM t.follow q = .ok place) : parts.foldlM u.follow q = .ok place := by
    induction parts generalizing q with
    | nil => exact hfold
    | cons part rest ih =>
      rw [List.foldlM_cons] at hfold ⊢
      cases hstep : t.follow q part with
      | error e => rw [hstep] at hfold; cases hfold
      | ok r =>
        rw [hstep] at hfold
        have hsame : u.follow q part = .ok r := by
          unfold follow at hstep ⊢
          rw [h]
          split at hstep
          · rw [if_pos ‹_›]
            exact hstep
          · split at hstep <;> cases hstep
        rw [hsame]
        exact ih r hfold
  unfold locate at hplace ⊢
  split at hplace
  · cases hplace
  · rw [if_neg ‹_›]
    exact hsteps _ [] hplace

theorem write_of_locate (hplace : t.locate path = .ok place)
    (hfree : t.isDirectoryAt place = false) (c : Contents) :
    t.write path c = .ok (t.put place c) ∧ t.Writes (t.put place c) place c := by
  refine ⟨?_, isDirectoryAt_put (inReach_of_locate hplace) hfree, fun q => file?_put t place q c⟩
  unfold write
  rw [hplace]
  change (if t.isDirectoryAt place = true then _ else _) = _
  rw [hfree]
  rfl

end FileTree

namespace Command.Act

open Fallible

variable {w : World} {path : String} {place : List String} {content : Act Document}
  (hplace : w.tree.locate path = .ok place) (hfree : w.tree.isDirectoryAt place = false)

include hplace hfree

theorem write_run (c : Contents) : write path c w =
    .ok () { w with tree := w.tree.put place c } := by
  unfold write
  rw [bind_of_ok (x := get) rfl,
    bind_ofExcept (FileTree.write_of_locate hplace hfree c).1]
  rfl

/-- Saving what a computation gives that leaves the world alone. -/
theorem save_run {d : Document} (hcontent : ∀ w', content w' = .ok d w') :
    ∃ u, save path content w = .ok () { w with tree := u } ∧ w.tree.Writes u place (.data d) := by
  have hopen := (FileTree.write_of_locate hplace hfree .empty).2
  have hplace' := FileTree.locate_of_directories hopen.directories hplace
  have hfree' := (hopen.directories place).trans hfree
  have hclose := (FileTree.write_of_locate hplace' hfree' (.data d)).2
  refine ⟨_, ?_, hopen.trans hclose⟩
  unfold save
  rw [bind_of_ok (write_run hplace hfree .empty), bind_of_ok (hcontent _)]
  exact write_run hplace' hfree' (.data d)

theorem save_fault {e : Fault} (hcontent : ∀ w', content w' = .error e w') :
    ∃ u, save path content w = .error e { w with tree := u } ∧ w.tree.Writes u place .empty := by
  refine ⟨_, ?_, (FileTree.write_of_locate hplace hfree .empty).2⟩
  unfold save
  rw [bind_of_ok (write_run hplace hfree .empty), bind_of_error (hcontent _)]

end Command.Act

end TypeFlow
