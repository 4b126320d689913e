import TypeFlow.Table

/-!
# Laws of tables

What assigning leaves, by keys, by values and by entries.
-/

namespace TypeFlow.Table

open List

variable {α β : Type} [DecidableEq α] {t : Table α β} {k : α} {v : β} {l : List (α × β)}

theorem mem_values_of_get? (h : t.get? k = some v) : v ∈ t.values := by
  have hlookup (l : List (α × β)) (h : lookup k l = some v) : v ∈ l.map Prod.snd := by
    induction l with
    | nil => simp [lookup] at h
    | cons e rest ih =>
      rw [lookup] at h
      split at h
      · obtain rfl := Option.some.inj h
        exact .head _
      · exact .tail _ (ih h)
  exact hlookup t.entries h

theorem mem_keys_iff : k ∈ t.keys ↔ (t.get? k).isSome := by
  obtain ⟨entries⟩ := t
  change k ∈ entries.map Prod.fst ↔ (lookup k entries).isSome
  induction entries with
  | nil => simp [lookup]
  | cons e rest ih =>
    obtain ⟨j, u⟩ := e
    by_cases hj : j = k
    · simp [lookup, hj]
    · rw [lookup, if_neg hj, ← ih]
      simp [Ne.symm hj]

theorem get?_of_mem (ht : t.keys.Nodup) (h : (k, v) ∈ t.entries) : t.get? k = some v := by
  have hlookup (l : List (α × β)) (hl : (l.map Prod.fst).Nodup) (h : (k, v) ∈ l) :
      lookup k l = some v := by
    induction l with
    | nil => cases h
    | cons e l ih =>
      obtain ⟨hnot, hl⟩ := nodup_cons.mp hl
      rw [lookup]
      rcases mem_cons.mp h with rfl | h
      · exact if_pos rfl
      · rw [if_neg]
        · exact ih hl h
        · rintro rfl
          exact hnot (mem_map.mpr ⟨_, h, rfl⟩)
  exact hlookup t.entries ht h

theorem insert_insert (t : Table α β) (k : α) (u v : β) :
    (t.insert k u).insert k v = t.insert k v := by
  have hassign (l : List (α × β)) : assign k v (assign k u l) = assign k v l := by
    induction l with
    | nil => simp [assign]
    | cons e rest ih =>
      by_cases h : e.1 = k <;> simp [assign, h, ih]
  simp only [insert, hassign]

theorem assign_ne_nil (k : α) (v : β) (l : List (α × β)) : assign k v l ≠ [] := by
  cases l with
  | nil => exact cons_ne_nil _ _
  | cons e l =>
    unfold assign
    split <;> exact cons_ne_nil _ _

theorem eq_or_mem_of_assign {e : α × β} (h : e ∈ assign k v l) : e.2 = v ∨ e ∈ l := by
  induction l with
  | nil =>
    rw [assign, mem_singleton] at h
    exact .inl (h ▸ rfl)
  | cons e' l ih =>
    unfold assign at h
    split at h
    · rcases mem_cons.mp h with rfl | h
      · exact .inl rfl
      · exact .inr (.tail _ h)
    · rcases mem_cons.mp h with rfl | h
      · exact .inr (.head _)
      · exact (ih h).imp_right (.tail _)

theorem mem_values_insert {u : β} (h : u ∈ (t.insert k v).values) : u = v ∨ u ∈ t.values := by
  obtain ⟨e, he, rfl⟩ := mem_map.mp h
  exact (eq_or_mem_of_assign he).imp_right (mem_map_of_mem ·)

theorem forall_ofList {P : β → Prop} (h : ∀ e ∈ l, P e.2) :
    (∀ e ∈ (ofList l).entries, P e.2) ∧ ((ofList l).entries = [] ↔ l = []) := by
  have hfold (t : Table α β) (ht : ∀ e ∈ t.entries, P e.2) :
      (∀ e ∈ (l.foldl (fun t e => t.insert e.1 e.2) t).entries, P e.2) ∧
      ((l.foldl (fun t e => t.insert e.1 e.2) t).entries = [] ↔ t.entries = [] ∧ l = []) := by
    induction l generalizing t with
    | nil => exact ⟨ht, by simp⟩
    | cons e l ih =>
      obtain ⟨hall, hnil⟩ := ih (fun e he => h e (.tail _ he)) (t.insert e.1 e.2) fun e' he' =>
        (eq_or_mem_of_assign he').elim (fun heq => heq ▸ h e (.head _)) (ht e')
      refine ⟨hall, hnil.trans ?_⟩
      simp only [insert, assign_ne_nil, false_and, cons_ne_nil, and_false]
  obtain ⟨hall, hnil⟩ := hfold empty fun _ h => absurd h not_mem_nil
  exact ⟨hall, hnil.trans (by simp [empty])⟩

theorem nodup_insert (h : t.keys.Nodup) (k : α) (v : β) : (t.insert k v).keys.Nodup := by
  rw [keys_insert]
  split
  · exact h
  · rename_i hk
    refine nodup_append.mpr ⟨h, by simp, ?_⟩
    rintro a ha b hb rfl
    exact hk (mem_singleton.mp hb ▸ ha)

theorem assign_of_notMem (h : k ∉ l.map Prod.fst) (v : β) : assign k v l = l ++ [(k, v)] := by
  induction l with
  | nil => rfl
  | cons e l ih =>
    rw [map_cons, mem_cons, not_or] at h
    rw [assign, if_neg (Ne.symm h.1), ih h.2, cons_append]

/-- Pairs with different keys are entered as they are. -/
theorem entries_ofList (h : (l.map Prod.fst).Nodup) : (ofList l).entries = l := by
  have hfold (l : List (α × β)) (t : Table α β) (h : ((t.entries ++ l).map Prod.fst).Nodup) :
      (l.foldl (fun t e => t.insert e.1 e.2) t).entries = t.entries ++ l := by
    induction l generalizing t with
    | nil => exact (append_nil _).symm
    | cons e l ih =>
      have hnew : e.1 ∉ t.entries.map Prod.fst := by
        rw [map_append, nodup_append] at h
        exact fun hmem => h.2.2 _ hmem _ (.head _) rfl
      have hinsert : (t.insert e.1 e.2).entries = t.entries ++ [e] := assign_of_notMem hnew e.2
      rw [append_cons, ← hinsert] at h ⊢
      exact ih _ h
  exact hfold l empty h

end TypeFlow.Table
