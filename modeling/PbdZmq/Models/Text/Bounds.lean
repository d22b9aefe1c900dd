import PbdZmq.Models.Text.RoundTrip

/-!
# Lengths in `zmq.recv`

The caller chooses the length of the buffer and the peer that of the message. libzmq
copies as much as fits and returns the size of the message. `mkChar` takes the buffer for
a string that ends in NUL, and `ret$len` takes the size for a number of bytes read.
-/

namespace PbdZmq.Text

/-- `R_zmq_recv`: the buffer and `C_ret` after a receive. Nothing is received on a failure
or from an unavailable socket. -/
def R_zmq_recv (before : Nat → UInt8) (len : Nat) : Option Bytes → Bytes × Int
  | some m => (fillBuffer before len m, m.length)
  | none => (fillBuffer before len [], -1)

/-- The index at which the scan of `mkChar` ends, if it does so in the buffer. -/
def mkCharEnd (buf : Bytes) : Option Nat := buf.findIdx? (· = 0)

/-- The scan of `mkChar` in `R_zmq_recv_char` ends within the `len` bytes of `R_Calloc`. Above
the range of an `int` there are no such bytes, and the call fails before it receives. -/
def ScanInside (len : Nat) (outcome : Option Bytes) : Prop :=
  ∃ i < len, mkCharEnd (R_zmq_recv (fun _ => 0) len outcome).1 = some i

/-- The buffer has a NUL if the message leaves room for one or brings one. -/
theorem zero_mem_fillBuffer (len : Nat) (m : Bytes) :
    0 ∈ fillBuffer (fun _ => 0) len m ↔ m.length < len ∨ 0 ∈ m.take len := by
  have hread : ∀ {i : Nat} (h : i < m.length), m.getD i 0 = m[i] := by
    intro i h
    simp [h]
  simp only [fillBuffer, List.mem_map, List.mem_range]
  constructor
  · rintro ⟨i, hi, hzero⟩
    by_cases him : i < m.length
    · right
      have htake : i < (m.take len).length := by
        rw [List.length_take]
        omega
      refine List.mem_of_getElem (h := htake) ?_
      rw [List.getElem_take, ← hread him, hzero]
    · left
      omega
  · rintro (hroom | hmem)
    · exact ⟨m.length, hroom, by simp⟩
    · obtain ⟨i, hi, hzero⟩ := List.getElem_of_mem hmem
      rw [List.length_take] at hi
      rw [List.getElem_take] at hzero
      have him : i < m.length := by omega
      exact ⟨i, by omega, by rw [hread him, hzero]⟩

/-- The scan ends in a buffer exactly if there is a NUL. -/
theorem mkCharEnd_lt_iff (buf : Bytes) :
    (∃ i < buf.length, mkCharEnd buf = some i) ↔ 0 ∈ buf := by
  constructor
  · rintro ⟨i, -, hend⟩
    obtain ⟨hi, hzero, -⟩ := List.findIdx?_eq_some_iff_getElem.mp hend
    have h0 : buf[i] = 0 := of_decide_eq_true hzero
    exact h0 ▸ List.getElem_mem hi
  · intro hmem
    have hfind := List.findIdx?_eq_some_of_exists (p := (decide <| · = (0 : UInt8)))
      ⟨0, hmem, decide_eq_true rfl⟩
    obtain ⟨hi, -⟩ := List.findIdx?_eq_some_iff_getElem.mp hfind
    exact ⟨_, hi, hfind⟩

theorem length_fillBuffer (before : Nat → UInt8) (len : Nat) (m : Bytes) :
    (fillBuffer before len m).length = len := by
  simp [fillBuffer]

/-- The scan on what a receive leaves. -/
theorem scanInside_getD (len : Nat) (outcome : Option Bytes) :
    ScanInside len outcome ↔ (outcome.getD []).length < len ∨ 0 ∈ (outcome.getD []).take len := by
  have hbuf : (R_zmq_recv (fun _ => 0) len outcome).1 =
      fillBuffer (fun _ => 0) len (outcome.getD []) := by
    cases outcome <;> rfl
  have hend := mkCharEnd_lt_iff (fillBuffer (fun _ => 0) len (outcome.getD []))
  rw [length_fillBuffer] at hend
  rw [ScanInside, hbuf, hend, zero_mem_fillBuffer]

/-- A scan that ends in the buffer gives the string. -/
theorem scanInside_some (len : Nat) (m : Bytes) :
    ScanInside len (some m) ↔ ∃ r, R_zmq_recv_char len m = .ok (some r) := by
  rw [scanInside_getD, Option.getD_some, ← zero_mem_fillBuffer, R_zmq_recv_char,
    if_neg (by omega), Int.toNat_natCast]
  by_cases hzero : 0 ∈ fillBuffer (fun _ => 0) len m
  · simp [hzero]
  · simp [hzero]

/-- The scan ends within the buffer exactly if the buffer is not empty, and a message that
fills it has a NUL among the bytes that are copied. -/
theorem scanInside_iff (len : Nat) (outcome : Option Bytes) :
    ScanInside len outcome ↔
      0 < len ∧ ∀ m, outcome = some m → m.length < len ∨ 0 ∈ m.take len := by
  rw [scanInside_getD]
  cases outcome with
  | none => simp
  | some m =>
    simp only [Option.getD_some, Option.some.injEq, forall_eq']
    constructor
    · intro h
      refine ⟨?_, h⟩
      rcases h with hroom | hmem
      · omega
      · exact List.length_pos_of_mem hmem |>.trans_le (List.length_take_le _ _)
    · exact And.right

/-- A message of ten letters, as it comes to a buffer of ten bytes. -/
theorem scan_past_buffer : ¬ ∀ len outcome, ScanInside len outcome := by
  intro hall
  have hscan := (scanInside_getD _ _).mp (hall 10 (some (List.replicate 10 72)))
  revert hscan
  decide

/-- `ret$len` counts bytes of `ret$buf`, and these are the first bytes of the message. -/
def LengthMeant (len : Nat) (m : Bytes) : Prop :=
  ∀ before ret, zmqRecv before len "raw" m = .ok (some ret) →
    ret.len ≤ len ∧ ret.len.toNat ≤ ret.buf.length ∧
      ret.buf.take ret.len.toNat = m.take ret.len.toNat

/-- The raw receive reports the size of the message, unless the length is no `int`. -/
theorem zmqRecv_raw_eq (before : Nat → UInt8) (len : Nat) (m : Bytes) :
    zmqRecv before len "raw" m = if len ≤ intMax then
      .ok (some ⟨fillBuffer before len m, m.length⟩) else .error .allocation := by
  rw [zmqRecv, if_neg (by decide), if_pos rfl]
  by_cases hfits : len ≤ intMax
  · rw [asInteger_eq (by omega), R_zmq_recv_raw, if_neg (by omega), if_pos hfits]
    rfl
  · have hna : asInteger len = naInteger := by
      rw [asInteger, if_neg (by omega)]
    rw [hna, R_zmq_recv_raw, if_pos (by decide), if_neg hfits]

/-- The reported length means what is documented exactly if the message is no longer than
the buffer, or no buffer can be allocated. -/
theorem lengthMeant_iff (len : Nat) (m : Bytes) :
    LengthMeant len m ↔ m.length ≤ len ∨ intMax < len := by
  by_cases hfits : len ≤ intMax
  · constructor
    · intro hmeant
      have hret := hmeant (fun _ => 0) _ (by rw [zmqRecv_raw_eq, if_pos hfits])
      left
      have hle := hret.1
      simp only at hle
      omega
    · rintro (hlen | hlong) before ret hret
      · rw [zmqRecv_raw_eq, if_pos hfits] at hret
        obtain rfl : _ = ret := by simpa using hret
        simp only [Int.toNat_natCast, length_fillBuffer]
        refine ⟨by omega, hlen, ?_⟩
        rw [fillBuffer_eq before hlen, List.take_left, List.take_length]
      · omega
  · refine iff_of_true ?_ (.inr (by omega))
    intro before ret hret
    rw [zmqRecv_raw_eq, if_neg hfits] at hret
    contradiction

/-- Three bytes into a buffer of two. -/
theorem length_past_buffer : ¬ ∀ len m, LengthMeant len m := by
  intro hall
  have hret := hall 2 [1, 2, 3] (fun _ => 0) ⟨[1, 2], 3⟩ (by rw [zmqRecv_raw_eq]; rfl)
  exact absurd hret.1 (by decide)

end PbdZmq.Text
