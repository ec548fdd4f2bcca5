import BatchStore.Proofs.Lookup
import BatchStore.SnapshotRegistry

/-!
# The registry counts the live snapshots

A registry stands for the list of the sequence numbers that live snapshots
read at, in any order. Taking a snapshot adds a number to the list and giving
one up takes it away; the oldest number of the registry is the least of the
list. A list of held snapshots has such a list of numbers: those of the snapshots
that still have holders.
-/

namespace BatchStore

namespace SnapshotRegistry

open Lookup (lookup_cons_of_ne lookup_eq_none_of_lt lt_of_lt_head)

/-- How many snapshots are counted at a sequence number. -/
def countAt (registry : SnapshotRegistry) (sequence : Nat) : Nat :=
  (registry.counts.lookup sequence).getD 0

/-- The registry counts exactly these live snapshots. -/
structure Counts (registry : SnapshotRegistry) (live : List Nat) : Prop where
  ascending : registry.counts.Pairwise fun a b => a.1 < b.1
  positive : ∀ entry ∈ registry.counts, 0 < entry.2
  count : ∀ sequence, registry.countAt sequence = live.count sequence

theorem counts_empty : empty.Counts [] where
  ascending := .nil
  positive := by simp [empty]
  count := fun _ => rfl

theorem Counts.congr {registry : SnapshotRegistry} {live other : List Nat}
    (h : registry.Counts live) (hcount : ∀ sequence, live.count sequence = other.count sequence) :
    registry.Counts other :=
  ⟨h.ascending, h.positive, fun sequence => (h.count sequence).trans (hcount sequence)⟩

theorem mem_insert {sequence : Nat} {counts : List (Nat × Nat)} {entry : Nat × Nat}
    (h : entry ∈ insert sequence counts) :
    (entry.1 = sequence ∨ ∃ old ∈ counts, old.1 = entry.1) ∧
      (0 < entry.2 ∨ entry ∈ counts) := by
  induction counts with
  | nil => simp_all [insert]
  | cons head rest ih =>
    obtain ⟨other, count⟩ := head
    unfold insert at h
    split at h
    · rcases List.mem_cons.mp h with rfl | h
      · exact ⟨.inl rfl, .inl Nat.one_pos⟩
      · exact ⟨.inr ⟨entry, h, rfl⟩, .inr h⟩
    split at h
    · next heq =>
      rcases List.mem_cons.mp h with rfl | h
      · exact ⟨.inl heq.symm, .inl (Nat.succ_pos _)⟩
      · exact ⟨.inr ⟨entry, List.mem_cons_of_mem _ h, rfl⟩, .inr (List.mem_cons_of_mem _ h)⟩
    · rcases List.mem_cons.mp h with rfl | h
      · exact ⟨.inr ⟨_, List.mem_cons_self, rfl⟩, .inr List.mem_cons_self⟩
      · obtain ⟨hkey, hpos⟩ := ih h
        refine ⟨hkey.imp_right ?_, hpos.imp_right (List.mem_cons_of_mem _)⟩
        rintro ⟨old, hold, he⟩
        exact ⟨old, List.mem_cons_of_mem _ hold, he⟩

theorem ascending_insert (sequence : Nat) {counts : List (Nat × Nat)}
    (h : counts.Pairwise fun a b => a.1 < b.1) :
    (insert sequence counts).Pairwise fun a b => a.1 < b.1 := by
  induction counts with
  | nil => exact List.pairwise_singleton _ _
  | cons head rest ih =>
    obtain ⟨other, count⟩ := head
    obtain ⟨hhead, hrest⟩ := List.pairwise_cons.mp h
    unfold insert
    split
    · next hlt => exact List.pairwise_cons.mpr ⟨lt_of_lt_head h hlt, h⟩
    split
    · exact List.pairwise_cons.mpr ⟨hhead, hrest⟩
    · next hle hne =>
      refine List.pairwise_cons.mpr ⟨fun entry hmem => ?_, ih hrest⟩
      rcases (mem_insert hmem).1 with hkey | ⟨old, hold, hkey⟩
      · show other < entry.1
        omega
      · rw [← hkey]
        exact hhead old hold

theorem lookup_insert {sequence : Nat} {counts : List (Nat × Nat)}
    (h : counts.Pairwise fun a b => a.1 < b.1) (other : Nat) :
    ((insert sequence counts).lookup other).getD 0 =
      (counts.lookup other).getD 0 + if other = sequence then 1 else 0 := by
  induction counts with
  | nil => by_cases ho : other = sequence <;> simp [insert, ho]
  | cons head rest ih =>
    obtain ⟨first, count⟩ := head
    obtain ⟨-, hrest⟩ := List.pairwise_cons.mp h
    unfold insert
    split
    · next hlt =>
      have hfresh := lookup_eq_none_of_lt (lt_of_lt_head h hlt)
      by_cases ho : other = sequence
      · subst ho
        simp [hfresh]
      · rw [lookup_cons_of_ne ho, if_neg ho, Nat.add_zero]
    split
    · next heq =>
      subst heq
      by_cases ho : other = sequence
      · subst ho
        simp
      · rw [lookup_cons_of_ne ho, lookup_cons_of_ne ho, if_neg ho, Nat.add_zero]
    · next hne =>
      by_cases ho : other = first
      · subst ho
        simp [Ne.symm hne]
      · rw [lookup_cons_of_ne ho, lookup_cons_of_ne ho]
        exact ih hrest

/-- Taking a snapshot counts one more. -/
theorem counts_acquire {registry : SnapshotRegistry} {live : List Nat} (h : registry.Counts live)
    (sequence : Nat) : (registry.acquire sequence).Counts (sequence :: live) where
  ascending := ascending_insert sequence h.ascending
  positive := by
    intro entry hmem
    exact (mem_insert hmem).2.elim id (h.positive entry)
  count := by
    intro other
    have hcount := h.count other
    unfold countAt at hcount
    unfold acquire countAt
    rw [lookup_insert h.ascending, hcount, List.count_cons]
    simp only [beq_iff_eq, eq_comm (a := other)]

theorem mem_erase {sequence : Nat} {counts : List (Nat × Nat)} {entry : Nat × Nat}
    (h : entry ∈ erase sequence counts) :
    (∃ old ∈ counts, old.1 = entry.1) ∧ (0 < entry.2 ∨ entry ∈ counts) := by
  induction counts with
  | nil => simp [erase] at h
  | cons head rest ih =>
    obtain ⟨other, count⟩ := head
    unfold erase at h
    split at h
    · split at h
      · exact ⟨⟨entry, List.mem_cons_of_mem _ h, rfl⟩, .inr (List.mem_cons_of_mem _ h)⟩
      · next hcount =>
        rcases List.mem_cons.mp h with rfl | h
        · exact ⟨⟨_, List.mem_cons_self, rfl⟩, .inl (Nat.sub_pos_of_lt (Nat.lt_of_not_le hcount))⟩
        · exact ⟨⟨entry, List.mem_cons_of_mem _ h, rfl⟩, .inr (List.mem_cons_of_mem _ h)⟩
    · rcases List.mem_cons.mp h with rfl | h
      · exact ⟨⟨_, List.mem_cons_self, rfl⟩, .inr List.mem_cons_self⟩
      · obtain ⟨⟨old, hold, he⟩, hpos⟩ := ih h
        exact ⟨⟨old, List.mem_cons_of_mem _ hold, he⟩, hpos.imp_right (List.mem_cons_of_mem _)⟩

theorem ascending_erase (sequence : Nat) {counts : List (Nat × Nat)}
    (h : counts.Pairwise fun a b => a.1 < b.1) :
    (erase sequence counts).Pairwise fun a b => a.1 < b.1 := by
  induction counts with
  | nil => exact .nil
  | cons head rest ih =>
    obtain ⟨other, count⟩ := head
    obtain ⟨hhead, hrest⟩ := List.pairwise_cons.mp h
    unfold erase
    split
    · split
      · exact hrest
      · exact List.pairwise_cons.mpr ⟨hhead, hrest⟩
    · refine List.pairwise_cons.mpr ⟨fun entry hmem => ?_, ih hrest⟩
      obtain ⟨⟨old, hold, hkey⟩, -⟩ := mem_erase hmem
      rw [← hkey]
      exact hhead old hold

theorem lookup_erase {sequence : Nat} {counts : List (Nat × Nat)}
    (h : counts.Pairwise fun a b => a.1 < b.1) (other : Nat) :
    ((erase sequence counts).lookup other).getD 0 =
      (counts.lookup other).getD 0 - if other = sequence then 1 else 0 := by
  induction counts with
  | nil => simp [erase]
  | cons head rest ih =>
    obtain ⟨first, count⟩ := head
    obtain ⟨hhead, hrest⟩ := List.pairwise_cons.mp h
    unfold erase
    split
    · next heq =>
      subst heq
      by_cases ho : other = sequence
      · subst ho
        split
        · rw [lookup_eq_none_of_lt hhead]
          simp
          omega
        · simp
      · rw [lookup_cons_of_ne ho, if_neg ho, Nat.sub_zero]
        split
        · rfl
        · rw [lookup_cons_of_ne ho]
    · next hne =>
      by_cases ho : other = first
      · subst ho
        simp [Ne.symm hne]
      · rw [lookup_cons_of_ne ho, lookup_cons_of_ne ho]
        exact ih hrest

/-- Giving a snapshot up counts one less. -/
theorem counts_release {registry : SnapshotRegistry} {live : List Nat} (h : registry.Counts live)
    (sequence : Nat) : (registry.release sequence).Counts (live.erase sequence) where
  ascending := ascending_erase sequence h.ascending
  positive := by
    intro entry hmem
    exact (mem_erase hmem).2.elim id (h.positive entry)
  count := by
    intro other
    have hcount := h.count other
    unfold countAt at hcount
    unfold release countAt
    rw [lookup_erase h.ascending, hcount, List.count_erase]
    simp only [beq_iff_eq, eq_comm (a := other)]

/-- The numbers of a registry, each as often as it is counted. -/
def expand (counts : List (Nat × Nat)) : List Nat :=
  counts.flatMap fun entry => List.replicate entry.2 entry.1

theorem length_expand (registry : SnapshotRegistry) :
    (expand registry.counts).length = registry.size := by
  obtain ⟨counts⟩ := registry
  induction counts with
  | nil => rfl
  | cons entry rest ih =>
    simp only [expand, size, List.flatMap_cons, List.length_append, List.length_replicate,
      List.foldr_cons] at ih ⊢
    omega

theorem count_expand {counts : List (Nat × Nat)} (h : counts.Pairwise fun a b => a.1 < b.1)
    (sequence : Nat) : (expand counts).count sequence = (counts.lookup sequence).getD 0 := by
  induction counts with
  | nil => rfl
  | cons head rest ih =>
    obtain ⟨first, number⟩ := head
    obtain ⟨hhead, hrest⟩ := List.pairwise_cons.mp h
    have hsplit : (expand ((first, number) :: rest)).count sequence =
        (List.replicate number first).count sequence + (rest.lookup sequence).getD 0 := by
      rw [← ih hrest, expand, List.flatMap_cons, List.count_append, expand]
    rw [hsplit, List.count_replicate]
    by_cases hsame : sequence = first
    · have hfresh := lookup_eq_none_of_lt hhead
      simp [hsame, hfresh]
    · simp [lookup_cons_of_ne hsame, Ne.symm hsame]

/-- The live snapshots read at the numbers of the registry. -/
theorem Counts.perm {registry : SnapshotRegistry} {live : List Nat} (h : registry.Counts live) :
    live.Perm (expand registry.counts) := by
  refine List.perm_iff_count.mpr fun sequence => ?_
  rw [count_expand h.ascending, ← h.count]
  rfl

theorem Counts.size {registry : SnapshotRegistry} {live : List Nat} (h : registry.Counts live) :
    registry.size = live.length := by
  rw [← length_expand, h.perm.length_eq]

/-- The oldest number of a registry is the least one that a live snapshot reads at. -/
theorem Counts.oldest {registry : SnapshotRegistry} {live : List Nat} (h : registry.Counts live) :
    registry.oldest? = live.min? := by
  have hmem : ∀ sequence, sequence ∈ live ↔ ∃ entry ∈ registry.counts, sequence = entry.1 := by
    intro sequence
    simp only [h.perm.mem_iff, expand, List.mem_flatMap, List.mem_replicate]
    refine exists_congr fun entry => and_congr_right fun hentry => and_iff_right ?_
    exact Nat.ne_of_gt (h.positive entry hentry)
  have hascending := h.ascending
  rw [oldest?]
  cases hcounts : registry.counts with
  | nil =>
    have hnone : live = [] := by simp [List.eq_nil_iff_forall_not_mem, hmem, hcounts]
    rw [hnone]
    rfl
  | cons head rest =>
    rw [hcounts] at hmem hascending
    refine (List.min?_eq_some_iff.mpr ⟨(hmem _).mpr ⟨head, List.mem_cons_self, rfl⟩, ?_⟩).symm
    intro sequence hlive
    obtain ⟨entry, hentry, rfl⟩ := (hmem sequence).mp hlive
    rcases List.mem_cons.mp hentry with rfl | hlater
    · exact Nat.le_refl _
    · exact Nat.le_of_lt ((List.pairwise_cons.mp hascending).1 entry hlater)

end SnapshotRegistry

namespace HeldSnapshot

/-- The numbers that the live ones among snapshots read at. -/
def live (held : List HeldSnapshot) : List Nat :=
  (held.filter fun snapshot => snapshot.holders ≠ 0).map fun snapshot => snapshot.snapshot.sequence

theorem live_append (first second : List HeldSnapshot) :
    live (first ++ second) = live first ++ live second := by
  unfold live
  rw [List.filter_append, List.map_append]

theorem mem_live {held : List HeldSnapshot} {number : Nat} {snapshot : HeldSnapshot}
    (h : held[number]? = some snapshot) (hlive : snapshot.holders ≠ 0) :
    snapshot.snapshot.sequence ∈ live held := by
  refine List.mem_map.mpr ⟨snapshot, List.mem_filter.mpr ⟨List.mem_of_getElem? h, ?_⟩, rfl⟩
  exact decide_eq_true hlive

/-- Splits a list at the snapshot that is modified in it. -/
theorem modify_split {held : List HeldSnapshot} {number : Nat} {snapshot : HeldSnapshot}
    (h : held[number]? = some snapshot) (f : HeldSnapshot → HeldSnapshot) :
    ∃ before after, held = before ++ snapshot :: after ∧
      held.modify number f = before ++ f snapshot :: after := by
  obtain ⟨hlt, hget⟩ := List.getElem?_eq_some_iff.mp h
  obtain ⟨before, found, after, hsplit, hlength, hmodify⟩ := List.exists_of_modify f hlt
  have hfound : found = snapshot := by
    rw [← hget]
    simp [hsplit, ← hlength]
  subst hfound
  exact ⟨before, after, hsplit, hmodify⟩

theorem live_singleton_congr {a b : HeldSnapshot} (hzero : a.holders = 0 ↔ b.holders = 0)
    (hsnapshot : a.snapshot = b.snapshot) : live [a] = live [b] := by
  unfold live
  by_cases hb : b.holders = 0
  · have ha : a.holders = 0 := hzero.mpr hb
    simp [ha, hb]
  · have ha : a.holders ≠ 0 := mt hzero.mp hb
    simp [ha, hb, hsnapshot]

theorem live_modify {held : List HeldSnapshot} {number : Nat} {snapshot : HeldSnapshot}
    {f : HeldSnapshot → HeldSnapshot} (h : held[number]? = some snapshot)
    (hsame : live [f snapshot] = live [snapshot]) : live (held.modify number f) = live held := by
  obtain ⟨before, after, hsplit, hmodify⟩ := modify_split h f
  rw [hmodify, hsplit, live_append, live_append, ← List.singleton_append, live_append, hsame,
    ← live_append, List.singleton_append]

/-- A new holder of a snapshot changes nothing for the registry. -/
theorem live_share (held : List HeldSnapshot) (number : Nat) :
    live (held.modify number share) = live held := by
  cases h : held[number]? with
  | none => rw [List.modify_eq_self (List.getElem?_eq_none_iff.mp h)]
  | some snapshot =>
    refine live_modify h ?_
    unfold share
    split
    · rfl
    · next hlive => exact live_singleton_congr (by simp [hlive]) rfl

/-- One of several holders leaves, or a dropped snapshot is dropped again. -/
theorem live_leave_of_ne {held : List HeldSnapshot} {number : Nat} {snapshot : HeldSnapshot}
    (h : held[number]? = some snapshot) (hmore : snapshot.holders ≠ 1) :
    live (held.modify number leave) = live held := by
  refine live_modify h (live_singleton_congr ?_ rfl)
  unfold leave
  simp only
  omega

/-- The last holder leaves. -/
theorem live_leave_last {held : List HeldSnapshot} {number : Nat} {snapshot : HeldSnapshot}
    (h : held[number]? = some snapshot) (hlast : snapshot.holders = 1) :
    (live (held.modify number leave)).Perm ((live held).erase snapshot.snapshot.sequence) := by
  obtain ⟨before, after, hsplit, hmodify⟩ := modify_split h leave
  have hgone : live (snapshot.leave :: after) = live after := by
    simp [live, leave, hlast]
  have hthere : live (snapshot :: after) = snapshot.snapshot.sequence :: live after := by
    simp [live, hlast]
  have hfront : (live held).Perm (snapshot.snapshot.sequence :: (live before ++ live after)) := by
    rw [hsplit, live_append, hthere]
    exact List.perm_middle
  rw [hmodify, live_append, hgone]
  have herase := hfront.erase snapshot.snapshot.sequence
  rw [List.erase_cons_head] at herase
  exact herase.symm

/-- A holder who leaves brings no snapshot back to life. -/
theorem live_leave_subset {held : List HeldSnapshot} {number : Nat} {snapshot : HeldSnapshot}
    (h : held[number]? = some snapshot) : live (held.modify number leave) ⊆ live held := by
  by_cases hlast : snapshot.holders = 1
  · intro sequence hmem
    exact List.mem_of_mem_erase ((live_leave_last h hlast).subset hmem)
  · rw [live_leave_of_ne h hlast]
    exact List.Subset.refl _

/-- Holders come and go, and the snapshots stay the same. -/
theorem map_snapshot_modify {f : HeldSnapshot → HeldSnapshot}
    (hsame : ∀ snapshot, (f snapshot).snapshot = snapshot.snapshot) (held : List HeldSnapshot)
    (number : Nat) : (held.modify number f).map (·.snapshot) = held.map (·.snapshot) := by
  induction held generalizing number with
  | nil => rw [List.modify_nil]
  | cons first rest ih =>
    cases number with
    | zero => rw [List.modify_zero_cons, List.map_cons, List.map_cons, hsame]
    | succ number => rw [List.modify_succ_cons, List.map_cons, List.map_cons, ih]

theorem snapshot_share (held : HeldSnapshot) : held.share.snapshot = held.snapshot := by
  rw [share]
  split
  · rfl
  · rfl

theorem snapshot_leave (held : HeldSnapshot) : held.leave.snapshot = held.snapshot := rfl

end HeldSnapshot

end BatchStore
