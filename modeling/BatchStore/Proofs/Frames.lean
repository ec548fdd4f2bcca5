import BatchStore.Journal.Frame
import BatchStore.Proofs.Bytes

/-!
# Logs as sequences of frames

Every log is a sequence of intact frames followed by a tail that does not begin
with one. The payloads and the tail are read off the bytes alone; what a scan
finds is stated against them. A log without a tail is whole: the next frame
that is appended stands where a scan looks for it.
-/

namespace BatchStore.Frame

/-- The length of the payload has room in a header. -/
def Fits (payload : Bytes) : Prop := payload.length < UInt32.size

/-- What a log begins with: an intact frame, one that has another checksum than
its header says, or less than a frame. -/
inductive Front where
  | intact (payload rest : Bytes)
  | damaged (stored computed : UInt32)
  | torn
  deriving DecidableEq, Repr

def front (bytes : Bytes) : Front :=
  if bytes.length < headerSize then .torn
  else
    let (length, stored) := decodeHeader (bytes.take headerSize)
    let body := bytes.drop headerSize
    if body.length < length then .torn
    else
      let payload := body.take length
      let computed := Checksum.crc32 payload
      if computed = stored then .intact payload (body.drop length) else .damaged stored computed

/-- The header of a frame, in front of whatever its payload is. -/
def header (payload : Bytes) : Bytes :=
  Bytes.ofNat 4 payload.length ++ Bytes.ofWord32 (Checksum.crc32 payload)

theorem length_header (payload : Bytes) : (header payload).length = headerSize := by
  unfold header Bytes.ofWord32
  rw [List.length_append, Bytes.length_ofNat, Bytes.length_ofNat]
  rfl

theorem encode_append (payload rest : Bytes) :
    encode payload ++ rest = header payload ++ (payload ++ rest) :=
  List.append_assoc _ _ _

/-- A header is decoded into its two fields, whatever checksum is in it. -/
theorem decodeHeader_fields {payload checksum : Bytes} (h : Fits payload)
    (hchecksum : checksum.length = 4) :
    decodeHeader (Bytes.ofNat 4 payload.length ++ checksum) =
      (payload.length, UInt32.ofNat (Bytes.toNat checksum)) := by
  unfold decodeHeader
  rw [List.take_left' (Bytes.length_ofNat 4 _), List.drop_left' (Bytes.length_ofNat 4 _),
    List.take_of_length_le (Nat.le_of_eq hchecksum), Bytes.toNat_ofNat, Bytes.range_four,
    Nat.mod_eq_of_lt h]

theorem decodeHeader_header {payload : Bytes} (h : Fits payload) :
    decodeHeader (header payload) = (payload.length, Checksum.crc32 payload) := by
  unfold header
  rw [decodeHeader_fields h (Bytes.length_ofWord32 _), Bytes.ofNat_toNat_ofWord32]

theorem front_encode {payload : Bytes} (h : Fits payload) (rest : Bytes) :
    front (encode payload ++ rest) = .intact payload rest := by
  have hlong : ¬(encode payload ++ rest).length < headerSize := by
    rw [List.length_append, length_encode]
    omega
  have hfull : ¬(payload ++ rest).length < payload.length := by
    rw [List.length_append]
    omega
  unfold front
  rw [if_neg hlong, encode_append, List.take_left' (length_header payload),
    List.drop_left' (length_header payload), decodeHeader_header h]
  simp only [if_neg hfull, List.take_left, List.drop_left, if_true]

/-- A header is determined by what is decoded from it. -/
theorem header_of_decode {bytes payload : Bytes} (hlength : bytes.length = headerSize)
    (h : decodeHeader bytes = (payload.length, Checksum.crc32 payload)) :
    Fits payload ∧ header payload = bytes := by
  have hlow : (bytes.take 4).length = 4 := by
    rw [List.length_take, hlength]
    rfl
  have hhigh : (bytes.drop 4).length = 4 := by
    rw [List.length_drop, hlength]
    rfl
  unfold decodeHeader at h
  obtain ⟨hsize, hsum⟩ := Prod.mk.inj h
  rw [List.take_of_length_le (Nat.le_of_eq hhigh)] at hsum
  constructor
  · unfold Fits
    rw [← hsize]
    exact Bytes.toNat_lt_word32 hlow
  · unfold header
    rw [← hsum, Bytes.ofWord32_ofNat_toNat hhigh, ← hsize]
    have hback := Bytes.ofNat_toNat (bytes.take 4)
    rw [hlow] at hback
    rw [hback, List.take_append_drop]

/-- What is read as an intact frame is the stored form of its payload. -/
theorem front_eq_intact {bytes payload rest : Bytes} (h : front bytes = .intact payload rest) :
    Fits payload ∧ bytes = encode payload ++ rest := by
  unfold front at h
  split at h
  · cases h
  next hlong =>
  cases hheader : decodeHeader (bytes.take headerSize) with
  | mk length stored =>
    simp only [hheader] at h
    split at h
    · cases h
    next hfull =>
    split at h
    · next hsum =>
      obtain ⟨hpayload, hrest⟩ := Front.intact.inj h
      rw [hpayload] at hsum
      have hbody : payload ++ rest = bytes.drop headerSize := by
        rw [← hpayload, ← hrest, List.take_append_drop]
      have hsize : payload.length = length := by
        rw [← hpayload, List.length_take]
        omega
      have htaken : (bytes.take headerSize).length = headerSize := by
        rw [List.length_take]
        omega
      have hdecode : decodeHeader (bytes.take headerSize) =
          (payload.length, Checksum.crc32 payload) := by
        rw [hheader, hsize, hsum]
      obtain ⟨hfits, hfront⟩ := header_of_decode htaken hdecode
      refine ⟨hfits, ?_⟩
      rw [encode_append, hfront, hbody, List.take_append_drop]
    · cases h

theorem length_lt_of_front {bytes payload rest : Bytes} (h : front bytes = .intact payload rest) :
    rest.length < bytes.length := by
  rw [(front_eq_intact h).2, List.length_append, length_encode]
  unfold headerSize
  omega

/-- The payloads of the intact frames and the tail after them. -/
def parse (bytes : Bytes) : List Bytes × Bytes :=
  match h : front bytes with
  | .intact payload rest =>
    have := length_lt_of_front h
    (payload :: (parse rest).1, (parse rest).2)
  | .damaged .. | .torn => ([], bytes)
termination_by bytes.length

def payloads (bytes : Bytes) : List Bytes := (parse bytes).1

def tail (bytes : Bytes) : Bytes := (parse bytes).2

def encodeAll (payloads : List Bytes) : Bytes := payloads.flatMap encode

/-- The log consists of intact frames. -/
def Whole (bytes : Bytes) : Prop := tail bytes = []

instance (bytes : Bytes) : Decidable (Whole bytes) := inferInstanceAs (Decidable (_ = _))

theorem parse_intact {bytes payload rest : Bytes} (h : front bytes = .intact payload rest) :
    payloads bytes = payload :: payloads rest ∧ tail bytes = tail rest := by
  unfold payloads tail
  rw [parse]
  split
  · next found after hfound =>
    rw [h] at hfound
    obtain ⟨rfl, rfl⟩ := Front.intact.inj hfound
    exact ⟨rfl, rfl⟩
  · next hfound =>
    rw [h] at hfound
    cases hfound
  · next hfound =>
    rw [h] at hfound
    cases hfound

theorem parse_of_not_intact {bytes : Bytes}
    (h : ∀ payload rest, front bytes ≠ .intact payload rest) :
    payloads bytes = [] ∧ tail bytes = bytes := by
  unfold payloads tail
  rw [parse]
  split
  · next payload rest hfound => exact absurd hfound (h payload rest)
  · exact ⟨rfl, rfl⟩
  · exact ⟨rfl, rfl⟩

/-- Either a log begins with a frame or it is all tail. -/
theorem front_cases (bytes : Bytes) :
    (∃ payload rest, front bytes = .intact payload rest) ∨
      ∀ payload rest, front bytes ≠ .intact payload rest := by
  cases h : front bytes with
  | intact payload rest => exact .inl ⟨payload, rest, rfl⟩
  | damaged stored computed => exact .inr fun _ _ heq => nomatch heq
  | torn => exact .inr fun _ _ heq => nomatch heq

theorem encodeAll_append (first second : List Bytes) :
    encodeAll (first ++ second) = encodeAll first ++ encodeAll second := by
  unfold encodeAll
  exact List.flatMap_append

theorem encodeAll_cons (payload : Bytes) (payloads : List Bytes) :
    encodeAll (payload :: payloads) = encode payload ++ encodeAll payloads := rfl

theorem encodeAll_singleton (payload : Bytes) : encodeAll [payload] = encode payload :=
  List.append_nil _

/-- A log is its frames and its tail. -/
theorem encodeAll_payloads (bytes : Bytes) : encodeAll (payloads bytes) ++ tail bytes = bytes := by
  induction hn : bytes.length using Nat.strongRecOn generalizing bytes with
  | ind n ih =>
    subst hn
    rcases front_cases bytes with ⟨payload, rest, hfront⟩ | hnone
    · obtain ⟨hpayloads, htail⟩ := parse_intact hfront
      rw [hpayloads, htail, encodeAll_cons, List.append_assoc,
        ih rest.length (length_lt_of_front hfront) rest rfl]
      exact (front_eq_intact hfront).2.symm
    · obtain ⟨hpayloads, htail⟩ := parse_of_not_intact hnone
      rw [hpayloads, htail]
      rfl

theorem fits_of_mem {bytes payload : Bytes} (h : payload ∈ payloads bytes) : Fits payload := by
  induction hn : bytes.length using Nat.strongRecOn generalizing bytes with
  | ind n ih =>
    subst hn
    rcases front_cases bytes with ⟨first, rest, hfront⟩ | hnone
    · rw [(parse_intact hfront).1] at h
      rcases List.mem_cons.mp h with rfl | h
      · exact (front_eq_intact hfront).1
      · exact ih rest.length (length_lt_of_front hfront) h rfl
    · rw [(parse_of_not_intact hnone).1] at h
      cases h

/-- Frames in front of a log are found before its own. -/
theorem parse_encodeAll (first : List Bytes) (hfits : ∀ payload ∈ first, Fits payload)
    (rest : Bytes) :
    payloads (encodeAll first ++ rest) = first ++ payloads rest ∧
      tail (encodeAll first ++ rest) = tail rest := by
  induction first with
  | nil => exact ⟨rfl, rfl⟩
  | cons payload first ih =>
    have hfront : front (encodeAll (payload :: first) ++ rest) =
        .intact payload (encodeAll first ++ rest) := by
      rw [encodeAll_cons, List.append_assoc]
      exact front_encode (hfits payload List.mem_cons_self) _
    obtain ⟨hpayloads, htail⟩ := parse_intact hfront
    obtain ⟨ihpayloads, ihtail⟩ := ih fun p hp => hfits p (List.mem_cons_of_mem _ hp)
    rw [hpayloads, htail, ihpayloads, ihtail]
    exact ⟨rfl, rfl⟩

theorem tail_nil : payloads [] = [] ∧ tail [] = [] :=
  parse_of_not_intact fun _ _ h => nomatch h

theorem Whole.eq {bytes : Bytes} (h : Whole bytes) : bytes = encodeAll (payloads bytes) := by
  have hsplit := encodeAll_payloads bytes
  rw [h, List.append_nil] at hsplit
  exact hsplit.symm

/-- What comes after a whole log is read on its own. -/
theorem Whole.parse_append {bytes : Bytes} (h : Whole bytes) (rest : Bytes) :
    payloads (bytes ++ rest) = payloads bytes ++ payloads rest ∧ tail (bytes ++ rest) = tail rest := by
  have hparse := parse_encodeAll (payloads bytes) (fun _ => fits_of_mem) rest
  rw [← h.eq] at hparse
  exact hparse

theorem whole_encodeAll {payloads : List Bytes} (hfits : ∀ payload ∈ payloads, Fits payload) :
    Whole (encodeAll payloads) := by
  have hparse := parse_encodeAll payloads hfits []
  rw [List.append_nil] at hparse
  exact hparse.2.trans tail_nil.2

/-- A log of frames holds these frames. -/
theorem payloads_encodeAll {first : List Bytes} (hfits : ∀ payload ∈ first, Fits payload) :
    payloads (encodeAll first) = first := by
  have hparse := parse_encodeAll first hfits []
  rw [List.append_nil, tail_nil.1, List.append_nil] at hparse
  exact hparse.1

theorem parse_encode {payload : Bytes} (h : Fits payload) :
    payloads (encode payload) = [payload] ∧ tail (encode payload) = [] := by
  have hfits : ∀ first ∈ [payload], Fits first := fun p hp => List.mem_singleton.mp hp ▸ h
  rw [← encodeAll_singleton]
  exact ⟨payloads_encodeAll hfits, whole_encodeAll hfits⟩

theorem Whole.append_encode {bytes payload : Bytes} (h : Whole bytes) (hfits : Fits payload) :
    Whole (bytes ++ encode payload) := by
  unfold Whole
  rw [(h.parse_append (encode payload)).2]
  exact (parse_encode hfits).2

end BatchStore.Frame
