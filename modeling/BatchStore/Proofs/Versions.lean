import BatchStore.VersionTable

/-!
# What readers see of the versions of a key

A list of versions is read at a sequence number. Pruning at a horizon changes
no reading at or above the horizon, whatever the order of the sequence numbers
in the list: it drops what is hidden behind a later version that every such
reader sees, and a tombstone that reads like nothing at all.
-/

namespace BatchStore.Version

/-- The value that a key with these versions has as of a sequence number. -/
def read (versions : List Version) (sequence : Nat) : Option Bytes :=
  (visible? versions sequence).bind (·.value)

@[simp] theorem read_nil (sequence : Nat) : read [] sequence = none := rfl

theorem visible?_cons (version : Version) (newer : List Version) (sequence : Nat) :
    visible? (version :: newer) sequence =
      (visible? newer sequence).or (if version.sequence ≤ sequence then some version else none) := by
  by_cases h : version.sequence ≤ sequence <;>
    simp [visible?, List.find?_append, h]

theorem visible?_append_singleton (versions : List Version) (version : Version)
    (sequence : Nat) :
    visible? (versions ++ [version]) sequence =
      if version.sequence ≤ sequence then some version else visible? versions sequence := by
  by_cases h : version.sequence ≤ sequence <;> simp [visible?, h]

theorem visible?_isSome {versions : List Version} {sequence : Nat}
    (h : ∃ version ∈ versions, version.sequence ≤ sequence) :
    (visible? versions sequence).isSome := by
  simpa [visible?] using h

/-- The newest version is what a reader at or above its number sees. -/
theorem read_append_singleton (versions : List Version) (version : Version)
    (sequence : Nat) :
    read (versions ++ [version]) sequence =
      if version.sequence ≤ sequence then version.value else read versions sequence := by
  unfold read
  rw [visible?_append_singleton]
  split <;> rfl

/-- Readers that see every version read alike. -/
theorem read_eq_of_le {versions : List Version} {low high : Nat}
    (hle : low ≤ high) (hall : ∀ version ∈ versions, version.sequence ≤ low) :
    read versions high = read versions low := by
  have hlow : ∀ version ∈ versions.reverse, decide (version.sequence ≤ low) = true := by
    simpa using hall
  have hhigh : ∀ version ∈ versions.reverse, decide (version.sequence ≤ high) = true := by
    intro version hv
    have := hall version (List.mem_reverse.mp hv)
    simp only [decide_eq_true_eq]
    omega
  unfold read visible?
  cases hr : versions.reverse with
  | nil => rfl
  | cons newest older =>
    rw [hr] at hlow hhigh
    simp only [List.find?_cons, hlow newest List.mem_cons_self, hhigh newest List.mem_cons_self]

theorem prune_suffix (horizon : Nat) (versions : List Version) :
    prune horizon versions <:+ versions := by
  induction versions with
  | nil => exact List.suffix_refl []
  | cons version newer ih =>
    unfold prune
    split
    · exact ih.trans (List.suffix_cons version newer)
    split
    · exact List.suffix_cons version newer
    · exact List.suffix_refl _

/-- Pruning is invisible at and above the horizon. -/
theorem read_prune {horizon sequence : Nat} (hle : horizon ≤ sequence)
    (versions : List Version) : read (prune horizon versions) sequence = read versions sequence := by
  induction versions with
  | nil => rfl
  | cons version newer ih =>
    unfold prune
    split
    · next hany =>
      -- a later version at or below the horizon hides this one
      rw [ih, read, read, visible?_cons]
      have hsome : (visible? newer sequence).isSome := by
        obtain ⟨later, hmem, hlater⟩ := List.any_eq_true.mp hany
        exact visible?_isSome ⟨later, hmem, Nat.le_trans (of_decide_eq_true hlater) hle⟩
      obtain ⟨seen, hseen⟩ := Option.isSome_iff_exists.mp hsome
      rw [hseen, Option.some_or]
    split
    · next htomb =>
      rw [read, read, visible?_cons, if_pos (Nat.le_trans htomb.1 hle)]
      cases visible? newer sequence with
      | none => simp [htomb.2]
      | some seen => rfl
    · rfl

end BatchStore.Version
