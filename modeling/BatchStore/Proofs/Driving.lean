import BatchStore.Proofs.StrictReading

/-!
# Driving a reader

A reader answers calls of `advance` and of `next`, mixed in any order, and it may be cloned
at any time and the clone driven apart from it. Apart from `reported`, both calls leave the
same reader. So a reader that was driven is the one that `advance` alone has come to, and the
flag says whether the fault was handed out before.
-/

namespace BatchStore.Batch.Reader

theorem filterMap_concat {α β : Type} (f : α → Option β) (items : List α) (item : α) :
    (items ++ [item]).filterMap f = items.filterMap f ++ (f item).toList := by
  rw [List.filterMap_append, List.filterMap_cons]
  cases f item <;> rfl

inductive Call where
  | advance
  | next
  deriving DecidableEq, Repr

/-- What a call answered, and the reader that it left. -/
inductive Event where
  | advanced (more : Bool) (after : Reader)
  | handed (item : Option (Except BatchError Record)) (after : Reader)
  deriving DecidableEq

def call (reader : Reader) : Call → Event
  | .advance => .advanced reader.advance.1 reader.advance.2
  | .next => .handed reader.next.1 reader.next.2

namespace Event

def after : Event → Reader
  | advanced _ after => after
  | handed _ after => after

/-- The record that the call delivered, in the slot or by hand; none when it has failed. -/
def delivered? : Event → Option Record
  | advanced true after => some after.record
  | advanced false _ => none
  | handed (some (.ok record)) _ => some record
  | handed (some (.error _)) _ => none
  | handed none _ => none

/-- What a failed `next` handed out: a fault, or nothing. -/
def refusal? : Event → Option (Option BatchError)
  | advanced _ _ => none
  | handed (some (.ok _)) _ => none
  | handed (some (.error error)) _ => some (some error)
  | handed none _ => some none

end Event

/-- A reader, and what it has answered so far; a clone has answered what its original had. -/
structure Driven where
  reader : Reader
  events : List Event
  deriving DecidableEq

namespace Driven

def call (driven : Driven) (call : Call) : Driven :=
  let event := driven.reader.call call
  { reader := event.after, events := driven.events ++ [event] }

/-- The records delivered, in order. -/
def delivered (driven : Driven) : List Record :=
  driven.events.filterMap Event.delivered?

/-- What the calls of `next` that have failed handed out, in order. -/
def refusals (driven : Driven) : List (Option BatchError) :=
  driven.events.filterMap Event.refusal?

end Driven

/-- What may happen to one of several readers: a call, or a clone that joins them. -/
inductive Act where
  | call (index : Nat) (call : Call)
  | clone (index : Nat)
  deriving DecidableEq, Repr

def Act.on (pool : List Driven) : Act → List Driven
  | .call index made => pool.modify index fun driven => driven.call made
  | .clone index => pool ++ pool[index]?.toList

/-- A reader and all its clones, after the acts. -/
def drive (start : Reader) (acts : List Act) : List Driven :=
  acts.foldl Act.on [⟨start, []⟩]

section Calls

variable {reader after : Reader}

/-- Whether the fault was handed out makes no difference to `advance`. -/
theorem advance_withReported (reader : Reader) (reported : Bool) :
    { reader with reported }.advance =
      (reader.advance.1, { reader.advance.2 with reported }) := by
  unfold advance
  simp only
  split
  · rfl
  · cases reader.remaining with
    | nil => rfl
    | cons tag fields =>
      simp only
      split <;> rfl

/-- Where `advance` fails, the slot is emptied. -/
theorem record_of_advance_false (h : reader.advance = (false, after)) :
    after.record = .deletion [] := by
  cases advance_outcome h <;> rfl

theorem next_of_advance (h : reader.advance = (true, after)) :
    reader.next = (some (.ok after.record), after) := by
  rw [next, h]

/-- Where `advance` fails, `next` hands out the fault, unless it was handed out before. -/
theorem next_of_advance_false (h : reader.advance = (false, after)) :
    reader.next =
      ((if after.reported then none else after.error).map .error,
        { after with reported := after.reported || after.error.isSome }) := by
  rw [next, h]
  obtain ⟨strict, header, remaining, record, error, decoded, reported⟩ := after
  cases reported with
  | true => rfl
  | false => cases error <;> rfl

/-- What a call delivers and leaves is what `advance` does, `reported` apart. -/
theorem call_eq_advance (reader : Reader) (call : Call) :
    (reader.call call).delivered? =
        (if reader.advance.1 then some reader.advance.2.record else none) ∧
      (reader.call call).after =
        { reader.advance.2 with reported := (reader.call call).after.reported } := by
  rcases hadvance : reader.advance with ⟨more, after⟩
  cases call with
  | advance =>
    rw [Reader.call, hadvance]
    cases more <;> exact ⟨rfl, rfl⟩
  | next =>
    cases more with
    | true =>
      rw [Reader.call, next_of_advance hadvance]
      exact ⟨rfl, rfl⟩
    | false =>
      rw [Reader.call, next_of_advance_false hadvance]
      refine ⟨?_, rfl⟩
      cases (if after.reported then none else after.error) <;> rfl

/-- What a call hands out besides records, and what it notes of that: only a `next` that
fails does either. -/
theorem call_refuses (reader : Reader) (call : Call) :
    let event := reader.call call
    (event.refusal? = none ∧ event.after.reported = reader.reported) ∨
    (reader.advance.1 = false ∧
      event.refusal? = some (if reader.reported then none else reader.advance.2.error) ∧
      event.after.reported = (reader.reported || reader.advance.2.error.isSome)) := by
  rcases hadvance : reader.advance with ⟨more, after⟩
  have hreported := (advance_keeps hadvance).2.2
  cases call with
  | advance =>
    rw [Reader.call, hadvance]
    exact .inl ⟨rfl, hreported⟩
  | next =>
    cases more with
    | true =>
      rw [Reader.call, next_of_advance hadvance]
      exact .inl ⟨rfl, hreported⟩
    | false =>
      rw [Reader.call, next_of_advance_false hadvance, ← hreported]
      refine .inr ⟨rfl, ?_, rfl⟩
      cases (if after.reported then none else after.error) <;> rfl

end Calls

theorem after_add (reader : Reader) (calls more : Nat) :
    reader.after (calls + more) = (reader.after calls).after more := by
  induction calls generalizing reader with
  | zero => rw [Nat.zero_add, after]
  | succ calls ih =>
    rw [Nat.add_right_comm, after, ih]
    rfl

theorem after_succ (reader : Reader) (calls : Nat) :
    reader.after (calls + 1) = (reader.after calls).advance.2 :=
  reader.after_add calls 1

/-- The records of a drained reader are those that one call after the other finds. -/
theorem getElem?_drain (reader : Reader) (calls : Nat) :
    reader.drain.1[calls]? =
      if (reader.after calls).advance.1 then some (reader.after (calls + 1)).record else none := by
  induction calls generalizing reader with
  | zero =>
    rcases hadvance : reader.advance with ⟨more, later⟩
    have hafter : reader.after (0 + 1) = later := congrArg Prod.snd hadvance
    rw [hafter, after, hadvance, drain_eq, hadvance]
    cases more <;> rfl
  | succ calls ih =>
    rcases hadvance : reader.advance with ⟨more, later⟩
    have hafter (j : Nat) : reader.after (j + 1) = later.after j := by
      rw [after, hadvance]
    rw [hafter, hafter, ← ih later, drain_eq, hadvance]
    cases more with
    | true => rfl
    | false =>
      -- the call after a failed one finds nothing either
      have hdrain : later.drain = ([], later) := by
        rw [drain_eq, advance_again hadvance]
      rw [hdrain]
      rfl

/-- From its first call without a record on, a reader is as drained. -/
theorem after_of_length_lt {reader : Reader} {calls : Nat} (h : reader.drain.1.length < calls) :
    reader.after calls = reader.drain.2 := by
  obtain ⟨more, rfl⟩ := Nat.exists_eq_add_of_lt h
  rw [Nat.add_right_comm, after_add, ← drain_eq_after, after_drain]

theorem record_drain (reader : Reader) : reader.drain.2.record = .deletion [] := by
  induction reader using drain.induct with
  | case1 reader later hadvance _ _ _ _ ih =>
    rw [drain_eq, hadvance]
    exact ih
  | case2 reader later hadvance =>
    rw [drain_eq, hadvance]
    exact record_of_advance_false hadvance

/-- A reader that was driven is where as many calls of `advance` lead, and `reported` tells
what it has handed out. -/
structure Follows (start : Reader) (driven : Driven) : Prop where
  reader : driven.reader =
    { start.after driven.events.length with reported := driven.reader.reported }
  delivered : driven.delivered = start.drain.1.take driven.events.length
  event : ∀ k event, driven.events[k]? = some event →
    event.delivered? = start.drain.1[k]? ∧
      event.after = { start.after (k + 1) with reported := event.after.reported }
  refusals : driven.refusals = [] ∨
    ∃ later, driven.refusals = start.drain.2.error :: List.replicate later none
  reported : driven.reader.reported =
    (!driven.refusals.isEmpty && start.drain.2.error.isSome)

section Follows

variable {start : Reader} {driven : Driven}

theorem follows_start (h : start.reported = false) : start.Follows ⟨start, []⟩ := by
  refine ⟨?_, ?_, ?_, ?_, ?_⟩
  · rfl
  · exact List.take_zero.symm
  · intro k event hnone
    cases hnone
  · exact .inl rfl
  · rw [h]
    exact (Bool.false_and _).symm

theorem Follows.advance (h : start.Follows driven) :
    driven.reader.advance = ((start.after driven.events.length).advance.1,
      { start.after (driven.events.length + 1) with reported := driven.reader.reported }) := by
  have hsame := advance_withReported (start.after driven.events.length) driven.reader.reported
  rw [← h.reader] at hsame
  rw [hsame, after_succ]

/-- A call of a driven reader does what the next call of `advance` would. -/
theorem Follows.call_event (h : start.Follows driven) (call : Call) :
    let event := driven.reader.call call
    event.delivered? = start.drain.1[driven.events.length]? ∧
      event.after =
        { start.after (driven.events.length + 1) with reported := event.after.reported } := by
  have hcall := call_eq_advance driven.reader call
  rw [h.advance] at hcall
  rw [getElem?_drain]
  exact hcall

/-- A call that fails finds or latches the fault of the drained reader. -/
theorem Follows.error_of_failed (h : start.Follows driven)
    (hfailed : driven.reader.advance.1 = false) :
    driven.reader.advance.2.error = start.drain.2.error := by
  have hnone := getElem?_drain start driven.events.length
  rw [h.advance] at hfailed ⊢
  rw [if_neg (Bool.eq_false_iff.mp hfailed), List.getElem?_eq_none_iff] at hnone
  have hlast := after_of_length_lt (Nat.lt_succ_of_le hnone)
  exact congrArg (fun last => last.error) hlast

theorem delivered_call (driven : Driven) (call : Call) :
    (driven.call call).delivered =
      driven.delivered ++ (driven.reader.call call).delivered?.toList :=
  filterMap_concat _ _ _

theorem refusals_call (driven : Driven) (call : Call) :
    (driven.call call).refusals = driven.refusals ++ (driven.reader.call call).refusal?.toList :=
  filterMap_concat _ _ _

/-- The first `next` that fails hands out the fault, if there is one, and no later one does. -/
theorem Follows.call_refusals (h : start.Follows driven) (call : Call) :
    ((driven.call call).refusals = [] ∨
      ∃ later, (driven.call call).refusals =
        start.drain.2.error :: List.replicate later none) ∧
    (driven.call call).reader.reported =
      (!(driven.call call).refusals.isEmpty && start.drain.2.error.isSome) := by
  have hreported := h.reported
  rw [refusals_call]
  rcases call_refuses driven.reader call with ⟨hsilent, hsame⟩ | ⟨hfailed, hrefuses, hnoted⟩
  · rw [hsilent, Option.toList_none, List.append_nil]
    exact ⟨h.refusals, hsame.trans hreported⟩
  · rw [h.error_of_failed hfailed] at hrefuses hnoted
    rw [hreported] at hrefuses hnoted
    rw [hrefuses, Option.toList_some]
    rcases h.refusals with hnone | ⟨later, hlater⟩
    · rw [hnone] at hnoted ⊢
      exact ⟨.inr ⟨0, rfl⟩, hnoted⟩
    · -- a fault that was there has been handed out, so there is nothing to hand out now
      rw [hlater] at hnoted ⊢
      refine ⟨.inr ⟨later + 1, ?_⟩, hnoted.trans (Bool.or_self _)⟩
      rw [List.replicate_succ', List.cons_append]
      cases start.drain.2.error <;> rfl

theorem Follows.call (h : start.Follows driven) (call : Call) :
    start.Follows (driven.call call) := by
  obtain ⟨hdelivers, hafter⟩ := h.call_event call
  obtain ⟨hrefusals, hreported⟩ := h.call_refusals call
  have hlength : (driven.call call).events.length = driven.events.length + 1 :=
    List.length_append
  refine ⟨?_, ?_, ?_, hrefusals, hreported⟩
  · rw [hlength]
    exact hafter
  · rw [hlength, delivered_call, List.take_add_one, ← hdelivers, ← h.delivered]
  · intro k event hevent
    rcases Nat.lt_or_ge k driven.events.length with hbefore | hlast
    · exact h.event k event (List.getElem?_append_left hbefore ▸ hevent)
    · rw [Driven.call, List.getElem?_append_right hlast, List.getElem?_singleton] at hevent
      split at hevent
      · next hzero =>
        obtain rfl : k = driven.events.length := by omega
        obtain rfl := Option.some.inj hevent
        exact ⟨hdelivers, hafter⟩
      · cases hevent

end Follows

/-- Calls and clones keep every reader on the way of `advance`. -/
theorem follows_on {start : Reader} {pool : List Driven}
    (h : ∀ driven ∈ pool, start.Follows driven) (act : Act) :
    ∀ driven ∈ act.on pool, start.Follows driven := by
  intro driven hdriven
  cases act with
  | call index made =>
    obtain ⟨j, hj⟩ := List.mem_iff_getElem?.mp hdriven
    rw [Act.on, List.getElem?_modify] at hj
    obtain ⟨before, hbefore, rfl⟩ := Option.map_eq_some_iff.mp hj
    have hfollows := h before (List.mem_of_getElem? hbefore)
    split
    · exact hfollows.call made
    · exact hfollows
  | clone index =>
    rcases List.mem_append.mp hdriven with hold | hcopy
    · exact h driven hold
    · exact h driven (List.mem_of_getElem? (Option.mem_toList.mp hcopy))

theorem follows_drive {start : Reader} (hstart : start.reported = false) (acts : List Act) :
    ∀ driven ∈ start.drive acts, start.Follows driven := by
  have hpool : ∀ driven ∈ [(⟨start, []⟩ : Driven)], start.Follows driven :=
    List.forall_mem_singleton.mpr (follows_start hstart)
  unfold drive
  generalize [(⟨start, []⟩ : Driven)] = pool at hpool ⊢
  induction acts generalizing pool with
  | nil => exact hpool
  | cons act acts ih => exact ih (act.on pool) (follows_on hpool act)

/-- The call failed, and left the slot empty and the rest of the reader as it is drained. -/
structure Event.Settled (event : Event) (last : Reader) : Prop where
  failed : event.delivered? = none
  slot : event.after.record = .deletion []
  error : event.after.error = last.error
  decoded : event.after.decoded = last.decoded
  remaining : event.after.remaining = last.remaining

/-- How a reader was driven agrees with draining the one it started from. -/
structure Consistent (start : Reader) (driven : Driven) : Prop where
  /-- The records delivered are, in order, those that `advance` alone delivers. -/
  delivered : driven.delivered = start.drain.1.take driven.events.length
  slot : ∀ event ∈ driven.events, ∀ record ∈ event.delivered?, event.after.record = record
  /-- No call after a failed one succeeds or changes what can be asked of the reader. -/
  settled : ∀ earlier event later, driven.events = earlier ++ event :: later →
    event.delivered? = none → ∀ other ∈ event :: later, other.Settled start.drain.2
  /-- The first `next` that fails hands out the fault, if there is one; no later one does. -/
  refusals : driven.refusals = [] ∨
    ∃ later, driven.refusals = start.drain.2.error :: List.replicate later none

section

variable {start : Reader} {driven : Driven}

theorem Follows.slot (h : start.Follows driven) {k : Nat} {event : Event}
    (hevent : driven.events[k]? = some event) {record : Record}
    (hrecord : record ∈ event.delivered?) : event.after.record = record := by
  obtain ⟨hdelivers, hafter⟩ := h.event k event hevent
  rw [Option.mem_def.mp hrecord, getElem?_drain] at hdelivers
  split at hdelivers
  · rw [hafter]
    exact (Option.some.inj hdelivers).symm
  · cases hdelivers

/-- Behind all the records a call leaves the drained reader. -/
theorem Follows.settled (h : start.Follows driven) {k : Nat} {event : Event}
    (hevent : driven.events[k]? = some event) (hend : start.drain.1.length ≤ k) :
    event.Settled start.drain.2 := by
  obtain ⟨hdelivers, hafter⟩ := h.event k event hevent
  rw [after_of_length_lt (Nat.lt_succ_of_le hend)] at hafter
  rw [List.getElem?_eq_none hend] at hdelivers
  refine ⟨hdelivers, ?_, ?_, ?_, ?_⟩ <;> rw [hafter]
  exact start.record_drain

theorem Follows.consistent (h : start.Follows driven) : start.Consistent driven := by
  refine ⟨h.delivered, fun event hevent record hrecord => ?_, ?_, h.refusals⟩
  · obtain ⟨k, hk⟩ := List.mem_iff_getElem?.mp hevent
    exact h.slot hk hrecord
  · intro earlier event later hevents hfailed other hother
    have hfrom (j : Nat) : driven.events[earlier.length + j]? = (event :: later)[j]? := by
      rw [hevents, List.getElem?_append_right (Nat.le_add_right _ _), Nat.add_sub_cancel_left]
    -- the call that failed was made behind all the records
    have hend : start.drain.1.length ≤ earlier.length := by
      have hdelivers := (h.event earlier.length event (hfrom 0)).1
      rw [hfailed] at hdelivers
      exact List.getElem?_eq_none_iff.mp hdelivers.symm
    obtain ⟨j, hj⟩ := List.mem_iff_getElem?.mp hother
    exact h.settled ((hfrom j).trans hj) (Nat.le_add_right_of_le hend)

end

/-- However a reader of any bytes and its clones are driven, by calls of `advance` and of
`next` in any order, each of them delivers the records that `advance` alone delivers, in
order. After its first call that fails none succeeds, and the slot, the error, the count and
the rest of the body stay as they are then. Of its failing calls of `next` the first hands
out the error, if there is one, and no other does. -/
theorem driving_agrees_with_draining (strict : Bool) (bytes : Bytes) (acts : List Act) :
    let start := ofBytes strict bytes
    ∀ driven ∈ start.drive acts, start.Consistent driven :=
  fun driven hdriven => (follows_drive rfl acts driven hdriven).consistent

/-- The third record is cut off. One reader latches that by `advance` and hands it out by
`next`; its clone does not hand it out again. -/
theorem driving_agrees_with_draining_clones :
    let start := ofBytes true ((⟨7, 3⟩ : Header).encode ++ [0, 1, 98, 1, 1, 97, 1, 49, 1, 5])
    let acts : List Act := [.call 0 .advance, .clone 0, .call 1 .next, .call 0 .next,
      .call 1 .advance, .call 1 .next, .clone 1, .call 2 .advance, .call 2 .next]
    ∃ driven ∈ start.drive acts, driven.delivered = [.deletion [98], .put [97] [49]] ∧
      driven.refusals = [some .shortBuffer, none] ∧ start.Consistent driven := by
  intro start acts
  obtain ⟨driven, hdriven, hdelivered, hrefusals⟩ : ∃ driven ∈ start.drive acts,
      driven.delivered = [.deletion [98], .put [97] [49]] ∧
        driven.refusals = [some .shortBuffer, none] := by decide +kernel
  exact ⟨driven, hdriven, hdelivered, hrefusals,
    driving_agrees_with_draining true _ acts driven hdriven⟩

end BatchStore.Batch.Reader
