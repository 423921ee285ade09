/-! Finite maps as lists of entries with strictly increasing keys. Equal contents are equal maps. -/
namespace ExplicitApi

structure OrderedMap (κ ν : Type) [Ord κ] where
  entries : List (κ × ν)
  increasing : entries.Pairwise fun a b => compare a.1 b.1 = .lt

namespace OrderedMap

variable {κ ν : Type} [Ord κ]

def empty : OrderedMap κ ν := ⟨[], .nil⟩

instance : EmptyCollection (OrderedMap κ ν) := ⟨empty⟩

instance : Inhabited (OrderedMap κ ν) := ⟨empty⟩

instance [Repr κ] [Repr ν] : Repr (OrderedMap κ ν) := ⟨fun m => reprPrec m.entries⟩

instance [DecidableEq κ] [DecidableEq ν] : DecidableEq (OrderedMap κ ν) := fun a b =>
  decidable_of_iff (a.entries = b.entries) (by cases a; cases b; simp)

def find? (m : OrderedMap κ ν) (k : κ) : Option ν :=
  (m.entries.find? fun e => compare e.1 k == .eq).map Prod.snd

def contains (m : OrderedMap κ ν) (k : κ) : Bool := (m.find? k).isSome

def keys (m : OrderedMap κ ν) : List κ := m.entries.map Prod.fst

def values (m : OrderedMap κ ν) : List ν := m.entries.map Prod.snd

def size (m : OrderedMap κ ν) : Nat := m.entries.length

def isEmpty (m : OrderedMap κ ν) : Bool := m.entries.isEmpty

def filter (m : OrderedMap κ ν) (keep : κ → ν → Bool) : OrderedMap κ ν :=
  ⟨m.entries.filter fun e => keep e.1 e.2, m.increasing.filter _⟩

def erase (m : OrderedMap κ ν) (k : κ) : OrderedMap κ ν :=
  m.filter fun k' _ => compare k' k != .eq

/-- The entries of `l` with `k` bound to `v` at its place. -/
def insertEntry (k : κ) (v : ν) : List (κ × ν) → List (κ × ν)
  | [] => [(k, v)]
  | e :: l =>
    match compare k e.1 with
    | .lt => (k, v) :: e :: l
    | .eq => (k, v) :: l
    | .gt => e :: insertEntry k v l

theorem mem_insertEntry {k : κ} {v : ν} {l : List (κ × ν)} {e : κ × ν}
    (h : e ∈ insertEntry k v l) : e = (k, v) ∨ e ∈ l := by
  induction l with
  | nil => simpa [insertEntry] using h
  | cons a l ih =>
    unfold insertEntry at h
    split at h <;> simp only [List.mem_cons] at h ⊢
    · exact h
    · exact h.imp_right .inr
    · rcases h with h | h
      · exact .inr (.inl h)
      · exact (ih h).imp_right .inr

variable [Std.TransOrd κ]

theorem pairwise_insertEntry {k : κ} {v : ν} {l : List (κ × ν)}
    (h : l.Pairwise fun a b => compare a.1 b.1 = .lt) :
    (insertEntry k v l).Pairwise fun a b => compare a.1 b.1 = .lt := by
  induction l with
  | nil => simp [insertEntry]
  | cons a l ih =>
    obtain ⟨first, rest⟩ := List.pairwise_cons.1 h
    unfold insertEntry
    split
    · next lt =>
      refine List.pairwise_cons.2 ⟨fun e he => ?_, h⟩
      rcases List.mem_cons.1 he with rfl | he
      · exact lt
      · exact Std.TransCmp.lt_trans lt (first e he)
    · next eq =>
      refine List.pairwise_cons.2 ⟨fun e he => ?_, rest⟩
      exact Std.TransCmp.lt_of_eq_of_lt eq (first e he)
    · next gt =>
      refine List.pairwise_cons.2 ⟨fun e he => ?_, ih rest⟩
      rcases mem_insertEntry he with rfl | he
      · exact Std.OrientedCmp.lt_of_gt gt
      · exact first e he

def insert (m : OrderedMap κ ν) (k : κ) (v : ν) : OrderedMap κ ν :=
  ⟨insertEntry k v m.entries, pairwise_insertEntry m.increasing⟩

section Lawful

variable [Std.LawfulEqOrd κ]

omit [Std.TransOrd κ] in
theorem find?_eq_some_iff {m : OrderedMap κ ν} {k : κ} {v : ν} :
    m.find? k = some v ↔ (k, v) ∈ m.entries := by
  constructor
  · intro h
    obtain ⟨⟨k', v'⟩, found, rfl⟩ := Option.map_eq_some_iff.1 h
    have same : compare k' k = .eq := by simpa using List.find?_some found
    cases Std.LawfulEqOrd.eq_of_compare same
    exact List.mem_of_find?_eq_some found
  · intro h
    obtain ⟨l, increasing⟩ := m
    simp only [find?]
    induction l with
    | nil => cases h
    | cons a l ih =>
      obtain ⟨first, rest⟩ := List.pairwise_cons.1 increasing
      rcases List.mem_cons.1 h with rfl | h
      · simp
      · have lt := first _ h
        rw [List.find?_cons_of_neg (by simp [lt])]
        exact ih rest h

theorem mem_insert_iff {m : OrderedMap κ ν} {k k' : κ} {v v' : ν} :
    (k', v') ∈ (m.insert k v).entries ↔ (k' = k ∧ v' = v) ∨ (k' ≠ k ∧ (k', v') ∈ m.entries) := by
  obtain ⟨l, increasing⟩ := m
  simp only [insert]
  induction l with
  | nil => simp [insertEntry]
  | cons a l ih =>
    obtain ⟨first, rest⟩ := List.pairwise_cons.1 increasing
    have ih := ih rest
    have behind : ∀ e ∈ l, compare a.1 e.1 = .lt := first
    unfold insertEntry
    split
    · next lt =>
      have apart : ∀ e ∈ a :: l, e.1 ≠ k := by
        intro e he eq
        rcases List.mem_cons.1 he with rfl | he
        · simp [eq] at lt
        · have := Std.TransCmp.lt_trans lt (behind e he)
          simp [eq] at this
      constructor
      · intro h
        rcases List.mem_cons.1 h with h | h
        · exact .inl (by simpa using h)
        · exact .inr ⟨apart _ h, h⟩
      · rintro (⟨rfl, rfl⟩ | ⟨_, h⟩)
        · simp
        · exact List.mem_cons_of_mem _ h
    · next eq =>
      have eq := Std.LawfulEqOrd.eq_of_compare eq
      have apart : ∀ e ∈ l, e.1 ≠ k := by
        intro e he same
        have := behind e he
        simp [same, eq] at this
      constructor
      · intro h
        rcases List.mem_cons.1 h with h | h
        · exact .inl (by simpa using h)
        · exact .inr ⟨apart _ h, List.mem_cons_of_mem _ h⟩
      · rintro (⟨rfl, rfl⟩ | ⟨ne, h⟩)
        · simp
        · rcases List.mem_cons.1 h with rfl | h
          · exact absurd eq.symm ne
          · exact List.mem_cons_of_mem _ h
    · next gt =>
      have ne : a.1 ≠ k := fun same => by simp [same] at gt
      simp only [List.mem_cons, ih]
      constructor
      · rintro (rfl | h | ⟨h, h'⟩)
        · exact .inr ⟨ne, .inl rfl⟩
        · exact .inl h
        · exact .inr ⟨h, .inr h'⟩
      · rintro (h | ⟨h, h' | h'⟩)
        · exact .inr (.inl h)
        · exact .inl h'
        · exact .inr (.inr ⟨h, h'⟩)

theorem find?_insert [DecidableEq κ] (m : OrderedMap κ ν) (k : κ) (v : ν) (k' : κ) :
    (m.insert k v).find? k' = if k' = k then some v else m.find? k' := by
  ext w
  rw [find?_eq_some_iff, mem_insert_iff]
  split
  · next hk => simp [hk, eq_comm]
  · next hk => simp [hk, find?_eq_some_iff]

omit [Std.TransOrd κ] in
theorem find?_erase [DecidableEq κ] (m : OrderedMap κ ν) (k k' : κ) :
    (m.erase k).find? k' = if k' = k then none else m.find? k' := by
  ext v
  rw [find?_eq_some_iff, erase, filter, List.mem_filter]
  split
  · next hk => simp [hk]
  · next hk => simp [find?_eq_some_iff, hk]

end Lawful

/-- Binds a key that has no value yet and keeps the others. -/
def insertIfNew (m : OrderedMap κ ν) (k : κ) (v : ν) : OrderedMap κ ν :=
  if m.contains k then m else m.insert k v

end OrderedMap

end ExplicitApi
