import BatchStore.Proofs.LoggedCalls
import BatchStore.Proofs.VersionOrder

/-!
# The numbers of mutations

A successful write gives its mutations the numbers after the latest, one by one
and in their order; log data takes none. A failed write gives none. So the
numbers that are given in a session, call after call, are those after the latest
number that the session began with, without a gap and none of them twice.
-/

namespace BatchStore

namespace Record

/-- The records that change a key, in order. -/
def mutating (records : List Record) : List Record := records.filter (·.mutation?.isSome)

/-- The version that a mutation makes under a number. -/
def version (record : Record) (number : Nat) : Version := ⟨number, record.mutation?.join⟩

end Record

namespace VersionTable

/-- Inserts the version that a mutation makes under its number. -/
def insertNumbered (horizon : Nat) (table : VersionTable) (entry : Record × Nat) : VersionTable :=
  table.insert entry.1.key (entry.1.version entry.2) horizon

/-- Applying records inserts the mutations among them, the first under the number
that is handed in and each of the others under the number after the one before. -/
theorem applyRecords_eq_foldl (horizon : Nat) (records : List Record) (table : VersionTable)
    (sequence : Nat) :
    (applyRecords horizon records (table, sequence)).1 =
      ((Record.mutating records).zipIdx sequence).foldl (insertNumbered horizon) table := by
  unfold Record.mutating
  induction records generalizing table sequence with
  | nil => rfl
  | cons record records ih =>
    unfold applyRecords
    cases hm : record.mutation? with
    | none =>
      rw [List.filter_cons_of_neg (by simp [hm])]
      exact ih table sequence
    | some value =>
      rw [List.filter_cons_of_pos (by simp [hm]), List.zipIdx_cons, List.foldl_cons]
      simp only [ih, insertNumbered, Record.version, hm, Option.join_some]

end VersionTable

namespace Database

end Database

namespace WriteCall

variable {δ : Type} [LogDevice δ]

/-- The mutations of a successful call, each with the number that it takes. A failed
call gives no numbers. -/
def numbered (call : WriteCall δ) : List (Record × Nat) :=
  if call.Succeeds then (Record.mutating call.batch.records).zipIdx (call.database.last + 1) else []

theorem numbered_of_fails {call : WriteCall δ} (h : ¬call.Succeeds) : call.numbered = [] :=
  if_neg h

/-- A successful call has nothing to commit, or it applies what it has decoded. -/
theorem succeeds_cases {call : WriteCall δ} (h : call.Succeeds) :
    (call.batch.body = [] ∧
      call.written = ⟨.ok call.database.last, call.batch, call.database, call.log⟩) ∨
    (call.batch.body ≠ [] ∧ ∃ decoded after,
      DecodedBatch.ofBytes (call.database.number call.batch).data = .ok decoded ∧
      call.written = ⟨.ok (call.database.applyBatch decoded).1, call.database.number call.batch,
        (call.database.applyBatch decoded).2, after⟩) := by
  have houtcome := Database.write_outcome call.database call.log call.settings call.batch
  unfold Succeeds written at h
  unfold written
  generalize call.database.write call.log call.settings call.batch = written at h houtcome ⊢
  obtain ⟨first, hfirst⟩ := h
  cases houtcome with
  | closed hopen => cases hfirst
  | empty hopen hempty => exact .inl ⟨List.isEmpty_iff.mp hempty, rfl⟩
  | refused hopen hempty hdecode => cases hfirst
  | unlogged hopen hempty hdecode hlog => cases hfirst
  | committed hopen hempty hdecode hlog =>
    refine .inr ⟨fun hnil => ?_, _, _, hdecode, rfl⟩
    rw [Batch.isEmpty, hnil] at hempty
    cases hempty

/-- A call inserts its mutations under their numbers, with the horizon that it finds. -/
theorem table_written {call : WriteCall δ} (hfits : call.database.last + 1 < UInt64.size) :
    call.written.database.table =
      call.numbered.foldl (VersionTable.insertNumbered call.database.horizon)
        call.database.table := by
  by_cases h : call.Succeeds
  · rw [numbered, if_pos h]
    rcases succeeds_cases h with ⟨hbody, hwritten⟩ | ⟨hbody, decoded, after, hdecode, hwritten⟩
    · rw [hwritten, Batch.records_eq_nil (List.isEmpty_iff.mpr hbody)]
      rfl
    · obtain ⟨hfollows, hrecords⟩ := Database.follows_of_decoded hfits hdecode
      have hfirst : decoded.first = call.database.last + 1 := hfollows
      rw [hwritten, Database.table_applyBatch, VersionTable.applyRecords_eq_foldl, hrecords, hfirst]
  · rw [numbered_of_fails h]
    cases hresult : call.written.result with
    | ok first => exact absurd ⟨first, hresult⟩ h
    | error error => exact congrArg Database.table (Database.write_error hresult).1

end WriteCall

namespace Session

variable {δ : Type} [LogDevice δ]

/-- The mutations of the successful calls with the numbers they take, in order. -/
def given (events : List (Event δ)) : List (Record × Nat) :=
  (Event.writes events).flatMap WriteCall.numbered

end Session

end BatchStore
