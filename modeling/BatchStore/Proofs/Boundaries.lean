import BatchStore.Proofs.Durability
import Mathlib.Order.Bounds.Defs

/-!
# Logs cut at any byte

The boundaries of a log are its start and the ends of its frames. When a log of
frames is cut at any byte, the frames that end at or before the cut are left, and
what is behind them is torn and never damaged. So recovery cuts back to the
highest boundary that is not above the cut.
-/

namespace BatchStore.Frame

/-- The places where a frame may begin: the start and the ends of the frames. -/
def boundaries (frames : List Frame) : List Nat := 0 :: frames.map finish

theorem offset_le_of_mem_place {offset : Nat} {payloads : List Bytes} {frame : Frame}
    (h : frame ∈ place offset payloads) : offset ≤ frame.offset := by
  obtain ⟨before, -, -, hoffset⟩ := mem_place_iff.mp h
  omega

theorem offset_lt_finish (frame : Frame) : frame.offset < frame.finish := by
  unfold finish headerSize
  omega

theorem finish_le_of_mem_place {offset : Nat} {payloads : List Bytes} {frame : Frame}
    (h : frame ∈ place offset payloads) :
    frame.finish ≤ offset + (encodeAll payloads).length := by
  obtain ⟨before, after, rfl, hoffset⟩ := mem_place_iff.mp h
  have hfinish : frame.finish = frame.offset + (encode frame.payload).length :=
    finish_mk frame.offset frame.payload
  rw [encodeAll_append, encodeAll_cons, List.length_append, List.length_append]
  omega

/-- Frames from the start on end at a boundary. -/
theorem length_encodeAll_mem_boundaries (payloads : List Bytes) :
    (encodeAll payloads).length ∈ boundaries (place 0 payloads) := by
  rcases List.eq_nil_or_concat' payloads with rfl | ⟨before, last, rfl⟩
  · exact List.mem_cons_self
  · refine List.mem_cons_of_mem _ (List.mem_map.mpr ⟨⟨(encodeAll before).length, last⟩, ?_, ?_⟩)
    · exact mem_place_iff.mpr ⟨before, [], rfl, (Nat.zero_add _).symm⟩
    · rw [finish_mk, encodeAll_append, encodeAll_singleton, List.length_append]

/-- A frame that is cut before its end is torn. -/
theorem front_take_encode {payload : Bytes} (h : Fits payload) (rest : Bytes) {limit : Nat}
    (hlimit : limit < (encode payload).length) :
    front ((encode payload ++ rest).take limit) = .torn := by
  have hcut : (encode payload ++ rest).take limit = (encode payload).take limit :=
    List.take_append_of_le_length (Nat.le_of_lt hlimit)
  have hlength : ((encode payload).take limit).length = limit := by
    rw [List.length_take]
    omega
  rw [hcut]
  unfold front
  by_cases hshort : limit < headerSize
  · rw [hlength, if_pos hshort]
  · have hheader : ((encode payload).take limit).take headerSize = header payload := by
      rw [List.take_take, Nat.min_eq_left (Nat.le_of_not_lt hshort)]
      exact List.take_left' (length_header payload)
    have hbody : (((encode payload).take limit).drop headerSize).length < payload.length := by
      rw [List.length_drop, hlength]
      rw [length_encode] at hlimit
      omega
    rw [hlength, if_neg hshort, hheader, decodeHeader_header h]
    simp only [if_pos hbody]

theorem take_encode_of_le {payload : Bytes} (rest : Bytes) {limit : Nat}
    (hlimit : (encode payload).length ≤ limit) :
    (encode payload ++ rest).take limit =
      encode payload ++ rest.take (limit - (encode payload).length) := by
  rw [List.take_append, List.take_of_length_le hlimit]

/-- Frames are kept when they end at or before the cut, and what is left of the
next one is torn. -/
theorem place_take (payloads : List Bytes) (hfits : ∀ payload ∈ payloads, Fits payload)
    (offset limit : Nat) :
    place offset (Frame.payloads ((encodeAll payloads).take limit)) =
        (place offset payloads).filter (fun frame => frame.finish ≤ offset + limit) ∧
      front (tail ((encodeAll payloads).take limit)) = .torn := by
  induction payloads generalizing offset limit with
  | nil =>
    have hnil : (encodeAll []).take limit = [] := List.take_nil
    rw [hnil, tail_nil.1, tail_nil.2]
    exact ⟨rfl, rfl⟩
  | cons payload payloads ih =>
    have hfirst := hfits payload List.mem_cons_self
    rw [encodeAll_cons]
    by_cases hcut : limit < (encode payload).length
    · -- the cut is in the first frame, and no later frame ends before it
      have htorn := front_take_encode hfirst (encodeAll payloads) hcut
      have hnone : ∀ first rest, front ((encode payload ++ encodeAll payloads).take limit) ≠
          .intact first rest := by
        intro first rest hintact
        rw [htorn] at hintact
        cases hintact
      obtain ⟨hpayloads, htail⟩ := parse_of_not_intact hnone
      rw [hpayloads, htail]
      refine ⟨(List.filter_eq_nil_iff.mpr fun frame hmem => ?_).symm, htorn⟩
      have hbeyond : offset + limit < frame.finish := by
        unfold place at hmem
        rcases List.mem_cons.mp hmem with rfl | hlater
        · rw [finish_mk]
          omega
        · have hoffset := offset_le_of_mem_place hlater
          have hfinish := offset_lt_finish frame
          rw [finish_mk] at hoffset
          omega
      simp only [decide_eq_true_eq]
      omega
    · have hwhole := Nat.le_of_not_lt hcut
      obtain ⟨hplace, htorn⟩ := ih (fun p hp => hfits p (List.mem_cons_of_mem _ hp))
        (finish ⟨offset, payload⟩) (limit - (encode payload).length)
      have hfront := front_encode hfirst
        ((encodeAll payloads).take (limit - (encode payload).length))
      rw [take_encode_of_le _ hwhole]
      obtain ⟨hpayloads, htail⟩ := parse_intact hfront
      have hsum : finish ⟨offset, payload⟩ + (limit - (encode payload).length) = offset + limit := by
        rw [finish_mk]
        omega
      have hend : finish ⟨offset, payload⟩ ≤ offset + limit := by
        rw [finish_mk]
        omega
      have hkept : (place offset (payload :: payloads)).filter
          (fun frame => frame.finish ≤ offset + limit) = ⟨offset, payload⟩ ::
            (place (finish ⟨offset, payload⟩) payloads).filter
              (fun frame => frame.finish ≤ offset + limit) :=
        List.filter_cons_of_pos (decide_eq_true hend)
      rw [hsum] at hplace
      rw [hpayloads, htail, hkept, ← hplace]
      exact ⟨rfl, htorn⟩

/-- Cutting a log of frames keeps those that end at or before the cut. -/
theorem ofLog_take {bytes : Bytes} (h : Whole bytes) (limit : Nat) :
    ofLog (bytes.take limit) = (ofLog bytes).filter (fun frame => frame.finish ≤ limit) ∧
      front (tail (bytes.take limit)) = .torn := by
  have hcut := place_take (payloads bytes) (fun _ => fits_of_mem) 0 limit
  rw [← h.eq, Nat.zero_add] at hcut
  exact hcut

/-- The frames kept of a log that was cut are the beginning of it, and the cut
is behind them by what is left of the next frame. -/
theorem kept_of_take (bytes : Bytes) (limit : Nat) :
    bytes.take (encodeAll (payloads (bytes.take limit))).length =
        encodeAll (payloads (bytes.take limit)) ∧
      (encodeAll (payloads (bytes.take limit))).length + (tail (bytes.take limit)).length =
        min limit bytes.length := by
  have hsplit := encodeAll_payloads (bytes.take limit)
  have hprefix : encodeAll (payloads (bytes.take limit)) <+: bytes :=
    List.IsPrefix.trans ⟨_, hsplit⟩ (List.take_prefix limit bytes)
  have hlength := congrArg List.length hsplit
  rw [List.length_append, List.length_take] at hlength
  exact ⟨(List.prefix_iff_eq_take.mp hprefix).symm, hlength⟩

/-- What recovery keeps of a log that was cut ends at the highest boundary that
is not above the cut. -/
theorem isGreatest_boundary {bytes : Bytes} (h : Whole bytes) (limit : Nat) :
    IsGreatest {boundary | boundary ∈ boundaries (ofLog bytes) ∧ boundary ≤ limit}
      (encodeAll (payloads (bytes.take limit))).length := by
  have hframes := (ofLog_take h limit).1
  have hlength : (encodeAll (payloads (bytes.take limit))).length ≤ limit := by
    have hkept := (kept_of_take bytes limit).2
    omega
  constructor
  · refine ⟨?_, hlength⟩
    have hmem := length_encodeAll_mem_boundaries (payloads (bytes.take limit))
    rcases List.mem_cons.mp hmem with hzero | hend
    · rw [hzero]
      exact List.mem_cons_self
    · have hsubset : place 0 (payloads (bytes.take limit)) ⊆ ofLog bytes := by
        show ofLog (bytes.take limit) ⊆ _
        rw [hframes]
        exact List.filter_subset_self _
      exact List.mem_cons_of_mem _ (List.map_subset _ hsubset hend)
  · rintro boundary ⟨hboundary, hle⟩
    rcases List.mem_cons.mp hboundary with rfl | hend
    · exact Nat.zero_le _
    · obtain ⟨frame, hframe, rfl⟩ := List.mem_map.mp hend
      have hkept : frame ∈ ofLog (bytes.take limit) := by
        rw [hframes]
        exact List.mem_filter.mpr ⟨hframe, decide_eq_true hle⟩
      have hfinish := finish_le_of_mem_place hkept
      rw [Nat.zero_add] at hfinish
      exact hfinish

end BatchStore.Frame
