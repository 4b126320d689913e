import Mathlib.Data.Set.Lattice

/-!
# Reaching definitions

A piece of program, as far as its variables go, is a sequence of events with forks: a variable is
defined or read, or one of two pieces is passed through. A definition reaches a read if on some way
through the piece it is the last definition of the variable before the read.

The definitions that reach an event can be found by going through the piece once, with the set of
current definitions for each variable. Where the two sides of a fork meet, the sets are joined.
Main statement: `Flow.Traced.reaches_iff`, the sets found so are those of the definition by ways.
-/

namespace TypeFlow

open List

/-- What happens to a variable. -/
inductive Event where
  | define (v : String)
  | read (v : String)
deriving DecidableEq, Repr

/-- Events in order, each with a label, and forks. -/
inductive Flow (ι : Type) where
  | done
  | event (label : ι) (e : Event) (rest : Flow ι)
  | fork (first second rest : Flow ι)
deriving Repr

namespace Flow

variable {ι κ : Type} {a b : Flow ι} {p : List (ι × Event)} {l d : ι} {e : Event} {v : String}
  (f g : Flow ι)

/-- One piece after the other. -/
def append : Flow ι → Flow ι → Flow ι
  | done, f => f
  | event l e rest, f => event l e (rest.append f)
  | fork a b rest, f => fork a b (rest.append f)

instance : Append (Flow ι) := ⟨append⟩

/-- A piece with other labels. -/
def map (h : ι → κ) : Flow ι → Flow κ
  | done => done
  | event l e rest => event (h l) e (rest.map h)
  | fork a b rest => fork (a.map h) (b.map h) (rest.map h)

/-- All events in the order in which they are written. -/
def events : Flow ι → List (ι × Event)
  | done => []
  | event l e rest => (l, e) :: rest.events
  | fork a b rest => a.events ++ b.events ++ rest.events

/-- The ways through a piece: at every fork one side is taken. -/
def ways : Flow ι → List (List (ι × Event))
  | done => [[]]
  | event l e rest => rest.ways.map ((l, e) :: ·)
  | fork a b rest => (a.ways ++ b.ways).flatMap fun p => rest.ways.map (p ++ ·)

/-- There is no definition of a variable on a way. -/
def Silent (p : List (ι × Event)) (v : String) : Prop := ∀ x ∈ p, x.2 ≠ .define v

/-- A definition of a variable is the last one on a way. -/
def IsLast (p : List (ι × Event)) (v : String) (d : ι) : Prop :=
  ∃ before between, p = before ++ (d, .define v) :: between ∧ Silent between v

/-- On some way a definition of a variable is the last one before a read of it. -/
def Reaches (f : Flow ι) (d r : ι) (v : String) : Prop :=
  ∃ before after, before ++ (r, .read v) :: after ∈ f.ways ∧ IsLast before v d

@[simp] theorem done_append : done ++ f = f := rfl

@[simp] theorem event_append (l : ι) (e : Event) (rest f : Flow ι) :
    event l e rest ++ f = event l e (rest ++ f) := rfl

@[simp] theorem fork_append (a b rest f : Flow ι) : fork a b rest ++ f = fork a b (rest ++ f) := rfl

@[simp] theorem append_done : f ++ done = f := by
  induction f with
  | done => rfl
  | event l e rest ih => rw [event_append, ih]
  | fork a b rest _ _ ih => rw [fork_append, ih]

@[simp] theorem map_append (h : ι → κ) (f g : Flow ι) : (f ++ g).map h = f.map h ++ g.map h := by
  induction f with
  | done => rfl
  | event l e rest ih => simp [map, ih]
  | fork a b rest _ _ ih => simp [map, ih]

@[simp] theorem events_append : (f ++ g).events = f.events ++ g.events := by
  induction f with
  | done => rfl
  | event l e rest ih => simp [events, ih]
  | fork a b rest _ _ ih => simp [events, ih]

theorem exists_way : ∃ p, p ∈ f.ways := by
  induction f with
  | done => exact ⟨[], .head _⟩
  | event l e rest ih =>
    obtain ⟨p, hp⟩ := ih
    exact ⟨_, mem_map_of_mem hp⟩
  | fork a b rest iha _ ih =>
    obtain ⟨p, hp⟩ := iha
    obtain ⟨q, hq⟩ := ih
    exact ⟨_, mem_flatMap.mpr ⟨p, mem_append_left _ hp, mem_map_of_mem hq⟩⟩

theorem mem_ways_fork {rest : Flow ι} :
    p ∈ (fork a b rest).ways ↔ ∃ x y, (x ∈ a.ways ∨ x ∈ b.ways) ∧ y ∈ rest.ways ∧ p = x ++ y := by
  simp only [ways, mem_flatMap, mem_append, mem_map]
  constructor
  · rintro ⟨x, hx, y, hy, rfl⟩
    exact ⟨x, y, hx, hy, rfl⟩
  · rintro ⟨x, y, hx, hy, rfl⟩
    exact ⟨x, hx, y, hy, rfl⟩

/-! ## Current definitions -/

/-- The current definitions of each variable. -/
abbrev Current (ι : Type) := String → Set ι

def Current.after (ρ : Current ι) : ι × Event → Current ι
  | (l, .define v) => Function.update ρ v {l}
  | (_, .read _) => ρ

/-- The current definitions at the end of a way. -/
def Current.follow (ρ : Current ι) (p : List (ι × Event)) : Current ι := p.foldl Current.after ρ

/-- The current definitions after a piece. -/
def after : Flow ι → Current ι → Current ι
  | done, ρ => ρ
  | event l e rest, ρ => rest.after (ρ.after (l, e))
  | fork a b rest, ρ => rest.after fun v => a.after ρ v ∪ b.after ρ v

@[simp] theorem after_append (ρ : Current ι) : (f ++ g).after ρ = g.after (f.after ρ) := by
  induction f generalizing ρ with
  | done => rfl
  | event l e rest ih => exact ih _
  | fork a b rest _ _ ih => exact ih _

theorem Current.follow_append (ρ : Current ι) (p q : List (ι × Event)) :
    ρ.follow (p ++ q) = (ρ.follow p).follow q := foldl_append

theorem isLast_cons :
    IsLast ((l, e) :: p) v d ↔ (d = l ∧ e = .define v ∧ Silent p v) ∨ IsLast p v d := by
  constructor
  · rintro ⟨_ | ⟨y, before⟩, between, heq, hb⟩
    · obtain ⟨⟨rfl, rfl⟩, rfl⟩ := by simpa using heq
      exact .inl ⟨rfl, rfl, hb⟩
    · exact .inr ⟨before, between, (cons.inj heq).2, hb⟩
  · rintro (⟨rfl, rfl, hb⟩ | ⟨before, between, rfl, hb⟩)
    · exact ⟨[], p, rfl, hb⟩
    · exact ⟨(l, e) :: before, between, rfl, hb⟩

theorem silent_cons : Silent ((l, e) :: p) v ↔ e ≠ .define v ∧ Silent p v := forall_mem_cons

/-- A definition is current at the end of a way if it is the last one of the way, or if it was
current before and the way has none. -/
theorem Current.mem_follow {ρ : Current ι} :
    d ∈ ρ.follow p v ↔ IsLast p v d ∨ (d ∈ ρ v ∧ Silent p v) := by
  induction p generalizing ρ with
  | nil => simp [follow, IsLast, Silent]
  | cons x p ih =>
    obtain ⟨l, e⟩ := x
    change d ∈ (ρ.after (l, e)).follow p v ↔ _
    rw [ih, isLast_cons, silent_cons]
    cases e with
    | read u => simp [Current.after]
    | define u =>
      by_cases hu : v = u
      · subst hu
        simp [Current.after, or_comm]
      · simp [Current.after, Function.update_of_ne hu, Ne.symm hu]

/-- What is current behind a fork comes from one of its sides. -/
theorem Current.mem_follow_union {ρ A B : Current ι} (hA : d ∈ A v ↔ ∃ x ∈ a.ways, d ∈ ρ.follow x v)
    (hB : d ∈ B v ↔ ∃ x ∈ b.ways, d ∈ ρ.follow x v) (y : List (ι × Event)) :
    d ∈ Current.follow (fun v => A v ∪ B v) y v ↔
      ∃ x, (x ∈ a.ways ∨ x ∈ b.ways) ∧ d ∈ ρ.follow (x ++ y) v := by
  simp only [follow_append, mem_follow (p := y), Set.mem_union, hA, hB]
  constructor
  · rintro (hlast | ⟨⟨x, hx, hd⟩ | ⟨x, hx, hd⟩, hsilent⟩)
    · obtain ⟨x, hx⟩ := a.exists_way
      exact ⟨x, .inl hx, .inl hlast⟩
    · exact ⟨x, .inl hx, .inr ⟨hd, hsilent⟩⟩
    · exact ⟨x, .inr hx, .inr ⟨hd, hsilent⟩⟩
  · rintro ⟨x, hx, hlast | ⟨hd, hsilent⟩⟩
    · exact .inl hlast
    · exact .inr ⟨hx.imp (fun hx => ⟨x, hx, hd⟩) fun hx => ⟨x, hx, hd⟩, hsilent⟩

/-- Going through a piece once finds the definitions that are current at the end of some way. -/
theorem mem_after {f : Flow ι} {ρ : Current ι} :
    d ∈ f.after ρ v ↔ ∃ p ∈ f.ways, d ∈ ρ.follow p v := by
  induction f generalizing ρ with
  | done => simp [after, ways, Current.follow]
  | event l e rest ih =>
    simp only [after, ih, ways, mem_map]
    constructor
    · rintro ⟨p, hp, hd⟩
      exact ⟨_, ⟨p, hp, rfl⟩, hd⟩
    · rintro ⟨_, ⟨p, hp, rfl⟩, hd⟩
      exact ⟨p, hp, hd⟩
  | fork a b rest iha ihb ih =>
    simp only [after, ih, mem_ways_fork, Current.mem_follow_union iha ihb]
    constructor
    · rintro ⟨y, hy, x, hx, hd⟩
      exact ⟨x ++ y, ⟨x, y, hx, hy, rfl⟩, hd⟩
    · rintro ⟨_, ⟨x, y, hx, hy, rfl⟩, hd⟩
      exact ⟨y, hy, x, hx, hd⟩

/-! ## Reads that see the current definitions -/

/-- Every read of a piece sees the definitions that are current where it stands; `D` gives what a
read sees. -/
def Traced (D : ι → Set ι) : Flow ι → Current ι → Prop
  | done, _ => True
  | event l (.read v) rest, ρ => D l = ρ v ∧ rest.Traced D ρ
  | event l (.define v) rest, ρ => rest.Traced D (ρ.after (l, .define v))
  | fork a b rest, ρ =>
    a.Traced D ρ ∧ b.Traced D ρ ∧ rest.Traced D fun v => a.after ρ v ∪ b.after ρ v

namespace Traced

variable {D : ι → Set ι} {f g : Flow ι} {ρ : Current ι} {r d : ι} {v : String}

theorem append : (f ++ g).Traced D ρ ↔ f.Traced D ρ ∧ g.Traced D (f.after ρ) := by
  induction f generalizing ρ with
  | done => simp [Traced, Flow.after]
  | event l e rest ih => cases e <;> simp [Traced, Flow.after, Current.after, ih, and_assoc]
  | fork a b rest _ _ ih => simp [Traced, Flow.after, ih, and_assoc]

/-- Only what the events of the piece see counts. -/
theorem congr {D' : ι → Set ι} (h : f.Traced D ρ) (hD : ∀ l e, (l, e) ∈ f.events → D l = D' l) :
    f.Traced D' ρ := by
  induction f generalizing ρ with
  | done => trivial
  | event l e rest ih =>
    cases e with
    | read v =>
      exact ⟨hD l _ (.head _) ▸ h.1, ih h.2 fun l e hl => hD l e (.tail _ hl)⟩
    | define v => exact ih h fun l e hl => hD l e (.tail _ hl)
  | fork a b rest iha ihb ih =>
    refine ⟨iha h.1 fun l e hl => hD l e ?_, ihb h.2.1 fun l e hl => hD l e ?_,
      ih h.2.2 fun l e hl => hD l e ?_⟩ <;> simp [events, hl]

theorem rest_of_event {l : ι} {e : Event} (h : (event l e f).Traced D ρ) :
    f.Traced D (ρ.after (l, e)) := by
  cases e with
  | read v => exact h.2
  | define v => exact h

/-- A read sees what is current before it on every way. -/
theorem follow_subset (h : f.Traced D ρ) {before after : List (ι × Event)}
    (hp : before ++ (r, .read v) :: after ∈ f.ways) : ρ.follow before v ⊆ D r := by
  induction f generalizing ρ before after with
  | done => simp [ways] at hp
  | event l e rest ih =>
    obtain ⟨p, hp, heq⟩ := mem_map.mp hp
    cases before with
    | nil =>
      obtain ⟨⟨rfl, rfl⟩, rfl⟩ := by simpa using heq
      exact h.1.symm.subset
    | cons x before =>
      obtain ⟨rfl, rfl⟩ := by simpa using heq
      exact ih h.rest_of_event hp
  | fork a b rest iha ihb ih =>
    obtain ⟨ha, hb, hrest⟩ := h
    obtain ⟨x, y, hx, hy, heq⟩ := mem_ways_fork.mp hp
    -- the read stands on one of the sides, or behind the fork
    have hbehind (z : List (ι × Event)) (hbefore : before = x ++ z)
        (hy' : y = z ++ (r, .read v) :: after) : ρ.follow before v ⊆ D r := by
      subst hbefore hy'
      intro d hd
      exact ih hrest hy ((Current.mem_follow_union mem_after mem_after z).mpr ⟨x, hx, hd⟩)
    rcases append_eq_append_iff.mp heq with ⟨z, hz, hy'⟩ | ⟨z, hz, hy'⟩
    · cases z with
      | nil => exact hbehind [] (by simpa using hz.symm) (by simpa using hy'.symm)
      | cons _ z =>
        obtain ⟨rfl, rfl⟩ := by simpa using hy'
        subst hz
        exact hx.elim (iha ha) (ihb hb)
    · exact hbehind z hz hy'

/-- What a read sees is current before it on some way. -/
theorem exists_way (h : f.Traced D ρ) (hr : (r, .read v) ∈ f.events) (hd : d ∈ D r) :
    ∃ before after, before ++ (r, .read v) :: after ∈ f.ways ∧ d ∈ ρ.follow before v := by
  induction f generalizing ρ with
  | done => simp [events] at hr
  | event l e rest ih =>
    rcases mem_cons.mp hr with heq | hr
    · obtain ⟨rfl, rfl⟩ := by simpa using heq
      obtain ⟨p, hp⟩ := rest.exists_way
      exact ⟨[], p, mem_map_of_mem hp, h.1.subset hd⟩
    · obtain ⟨before, after, hp, hd⟩ := ih h.rest_of_event hr
      exact ⟨(l, e) :: before, after, mem_map_of_mem hp, hd⟩
  | fork a b rest iha ihb ih =>
    obtain ⟨ha, hb, hrest⟩ := h
    obtain ⟨y, hy⟩ := rest.exists_way
    simp only [events, mem_append] at hr
    rcases hr with (hr | hr) | hr
    · obtain ⟨before, after, hp, hd⟩ := iha ha hr
      exact ⟨before, after ++ y, mem_ways_fork.mpr ⟨_, y, .inl hp, hy, by simp⟩, hd⟩
    · obtain ⟨before, after, hp, hd⟩ := ihb hb hr
      exact ⟨before, after ++ y, mem_ways_fork.mpr ⟨_, y, .inr hp, hy, by simp⟩, hd⟩
    · obtain ⟨before, after, hp, hd⟩ := ih hrest hr
      obtain ⟨x, hx, hd⟩ := (Current.mem_follow_union mem_after mem_after before).mp hd
      exact ⟨x ++ before, after, mem_ways_fork.mpr ⟨x, _, hx, hp, by simp⟩, hd⟩

theorem reaches_iff (h : f.Traced D fun _ => ∅) (hr : (r, .read v) ∈ f.events) :
    d ∈ D r ↔ f.Reaches d r v := by
  constructor
  · intro hd
    obtain ⟨before, after, hp, hd⟩ := h.exists_way hr hd
    refine ⟨before, after, hp, ?_⟩
    simpa using Current.mem_follow.mp hd
  · rintro ⟨before, after, hp, hlast⟩
    exact h.follow_subset hp (Current.mem_follow.mpr (.inl hlast))

end Traced
end Flow
end TypeFlow
