/-!
# Looking up keys

The table of versions and the registry of snapshots are association lists with
their keys in ascending order. A lookup passes over the entries of other keys. So
a key that is below the first of them is below all, and has no entry. Keys that
ascend are distinct, and under distinct keys every entry is found, as it is among
the members of an object.
-/

namespace BatchStore.Lookup

variable {α β : Type} {r : α → α → Prop}

/-- A key below the first is below all. -/
theorem lt_of_lt_head [Trans r r r] {key : α} {head : α × β} {rest : List (α × β)}
    (h : (head :: rest).Pairwise fun a b => r a.1 b.1) (hlt : r key head.1) :
    ∀ entry ∈ head :: rest, r key entry.1 := by
  intro entry hmem
  rcases List.mem_cons.mp hmem with rfl | hmem
  · exact hlt
  · exact Trans.trans hlt ((List.pairwise_cons.mp h).1 entry hmem)

theorem ne_of_lt [Std.Irrefl r] {key other : α} (h : r key other) : key ≠ other := by
  rintro rfl
  exact Std.Irrefl.irrefl key h

variable [BEq α] [LawfulBEq α]

theorem lookup_cons_of_ne {key other : α} (h : key ≠ other) (value : β) (rest : List (α × β)) :
    ((other, value) :: rest).lookup key = rest.lookup key := by
  rw [List.lookup_cons, beq_eq_false_iff_ne.mpr h]

theorem lookup_eq_none_of_lt [Std.Irrefl r] {key : α} {entries : List (α × β)}
    (h : ∀ entry ∈ entries, r key entry.1) : entries.lookup key = none := by
  rw [List.lookup_eq_none_iff]
  intro entry hmem
  exact bne_iff_ne.mpr (ne_of_lt (h entry hmem))

/-- Under distinct keys the entry of a key is found. -/
theorem lookup_of_mem {key : α} {value : β} {entries : List (α × β)}
    (hdistinct : entries.Pairwise fun a b => a.1 ≠ b.1) (h : (key, value) ∈ entries) :
    entries.lookup key = some value := by
  induction entries with
  | nil => cases h
  | cons head rest ih =>
    obtain ⟨hhead, hrest⟩ := List.pairwise_cons.mp hdistinct
    rcases List.mem_cons.mp h with rfl | hmem
    · exact List.lookup_cons_self
    · rw [lookup_cons_of_ne (hhead _ hmem).symm]
      exact ih hrest hmem

theorem mem_of_lookup {key : α} {value : β} {entries : List (α × β)}
    (h : entries.lookup key = some value) : (key, value) ∈ entries := by
  obtain ⟨before, after, rfl, -⟩ := List.lookup_eq_some_iff.mp h
  exact List.mem_append_right before List.mem_cons_self

theorem lookup_eq_some_iff [Std.Irrefl r] {key : α} {value : β} {entries : List (α × β)}
    (h : entries.Pairwise fun a b => r a.1 b.1) :
    entries.lookup key = some value ↔ (key, value) ∈ entries :=
  ⟨mem_of_lookup, lookup_of_mem (h.imp ne_of_lt)⟩

end BatchStore.Lookup
