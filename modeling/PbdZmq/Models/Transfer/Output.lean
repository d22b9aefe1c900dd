import Mathlib.Data.List.TakeDrop
import PbdZmq.Models.Transfer.Announced

/-!
# Write errors of the buffered stream

`recv_file` checks how many bytes `fwrite` accepted, and these may still wait in the
buffer. A flush that fails later drops them, and nothing looks at the result of `fclose`.
A normal return therefore has the whole file exactly if no failing flush left bytes
behind.
-/

namespace PbdZmq.Transfer

variable {ε : Type}

/-- The bytes of the messages up to the first short one. -/
def received : List Delivery → Bytes
  | [] => []
  | d :: ds =>
    let m := d.message.getD []
    if m.length < BUFLEN then m else m ++ received ds

/-- No flush that fails leaves bytes behind, with `pending` bytes in the buffer at first. -/
def NothingDropped (closing : Option Nat) : Nat → List Delivery → Prop
  | _, [] => True
  | pending, d :: ds =>
    let m := d.message.getD []
    let held := pending + m.length
    (d.flush.fails = true → held ≤ d.flush.bytes) ∧
      if m.length < BUFLEN then ∀ k, closing = some k → held - d.flush.bytes ≤ k
      else NothingDropped closing (held - d.flush.bytes) ds

/-- `R_zmq_recv_file` returns normally only if all received bytes are in the file, whether it
shows its progress or not. -/
def WritesReported (filesize : RObj ε) (opened : Bool) (ds : List Delivery)
    (closing : Option Nat) : Prop :=
  ∀ fuel verbose beyond r,
    R_zmq_recv_file fuel verbose beyond filesize opened ds closing = some r →
    r.outcome = .returned → r.content = received ds

theorem received_of_wholeStream {ds : List Delivery} {ms : List Bytes}
    (h : wholeStream ds = some ms) : received ds = ms.flatten := by
  induction ds generalizing ms with
  | nil => contradiction
  | cons d ds ih =>
    obtain ⟨m, hm, ⟨hfull, rest, hrest, rfl⟩ | ⟨hshort, rfl⟩⟩ := wholeStream_cons h
    · rw [received, hm.1, Option.getD_some, if_neg (by omega), ih hrest, List.flatten_cons]
    · rw [received, hm.1, Option.getD_some, if_pos hshort, List.flatten_singleton]

/-- The buffered bytes reach the file or stay, if the flush does not drop any. -/
theorem OutFile.put_of_kept {f : OutFile} {data : Bytes} {fl : Flush}
    (h : fl.fails = true → f.buffer.length + data.length ≤ fl.bytes) :
    (f.put data fl).reached ++ (f.put data fl).buffer = f.reached ++ f.buffer ++ data ∧
      (f.put data fl).buffer.length = f.buffer.length + data.length - fl.bytes := by
  simp only [put, flush]
  by_cases hfails : fl.fails = true
  · have hle : (f.buffer ++ data).length ≤ fl.bytes := by
      rw [List.length_append]
      exact h hfails
    rw [if_pos hfails, List.take_of_length_le hle]
    rw [List.length_append] at hle
    refine ⟨by simp, ?_⟩
    rw [List.length_nil]
    omega
  · rw [if_neg hfails]
    simp

/-- No flush adds bytes, and one that drops some leaves fewer. -/
theorem OutFile.length_put_le (f : OutFile) (data : Bytes) (fl : Flush) :
    (f.put data fl).reached.length + (f.put data fl).buffer.length ≤
      f.reached.length + f.buffer.length + data.length ∧
    (fl.fails = true → (f.put data fl).reached.length + (f.put data fl).buffer.length ≤
      f.reached.length + fl.bytes) := by
  simp only [put, flush]
  by_cases hfails : fl.fails = true
  · rw [if_pos hfails]
    simp only [List.length_append, List.length_take, List.length_nil]
    omega
  · rw [if_neg hfails]
    simp only [List.length_append, List.length_take, List.length_drop]
    refine ⟨by omega, fun h => absurd h hfails⟩

theorem OutFile.length_fclose_le (f : OutFile) (closing : Option Nat) :
    (f.fclose closing).2.length ≤ f.reached.length + f.buffer.length := by
  cases closing with
  | none => simp [fclose]
  | some k =>
    have hle := List.length_take_le' k f.buffer
    rw [fclose, List.length_append]
    omega

/-- The file holds no more than what the stream held and got. -/
theorem length_content_le {f : OutFile} {ds : List Delivery} {ms : List Bytes}
    (h : wholeStream ds = some ms) (closing : Option Nat) :
    ((recv_file f ds).file.fclose closing).2.length ≤
      f.reached.length + f.buffer.length + ms.flatten.length := by
  induction ds generalizing f ms with
  | nil => contradiction
  | cons d ds ih =>
    obtain ⟨m, hm, hrest⟩ := wholeStream_cons h
    have hput := (f.length_put_le m d.flush).1
    rw [recv_file_of_taken hm]
    rcases hrest with ⟨hfull, rest, hrest, rfl⟩ | ⟨hshort, rfl⟩
    · have hle := ih (f := f.put m d.flush) hrest
      rw [if_pos hfull, List.flatten_cons, List.length_append]
      omega
    · have hle := (f.put m d.flush).length_fclose_le closing
      rw [if_neg (Nat.ne_of_lt hshort), List.flatten_singleton]
      exact hle.trans hput

/-- `fclose` leaves the whole stream in the file exactly if it drops nothing. -/
theorem OutFile.fclose_eq_iff (f : OutFile) (closing : Option Nat) :
    (f.fclose closing).2 = f.reached ++ f.buffer ↔
      ∀ k, closing = some k → f.buffer.length ≤ k := by
  cases closing with
  | none => simp [fclose]
  | some k =>
    simp only [fclose, List.append_cancel_left_eq, Option.some.injEq, forall_eq']
    exact List.take_eq_self_iff f.buffer

/-- A whole stream is in the file exactly if nothing was dropped. -/
theorem content_eq_iff {f : OutFile} {ds : List Delivery} {ms : List Bytes}
    (h : wholeStream ds = some ms) (closing : Option Nat) :
    ((recv_file f ds).file.fclose closing).2 = f.reached ++ f.buffer ++ ms.flatten ↔
      NothingDropped closing f.buffer.length ds := by
  induction ds generalizing f ms with
  | nil => contradiction
  | cons d ds ih =>
    obtain ⟨m, hm, hrest⟩ := wholeStream_cons h
    rw [recv_file_of_taken hm, NothingDropped, hm.1, Option.getD_some]
    by_cases hkept : d.flush.fails = true → f.buffer.length + m.length ≤ d.flush.bytes
    · obtain ⟨hstream, hbuffer⟩ := OutFile.put_of_kept hkept
      rw [and_iff_right hkept, ← hbuffer]
      rcases hrest with ⟨hfull, rest, hrest, rfl⟩ | ⟨hshort, rfl⟩
      · rw [if_pos hfull, if_neg (by omega), ← ih hrest, hstream, List.flatten_cons,
          List.append_assoc _ m]
      · rw [if_neg (Nat.ne_of_lt hshort), if_pos hshort, ← OutFile.fclose_eq_iff, hstream,
          List.flatten_singleton]
    · simp only [Classical.not_imp, not_le] at hkept
      obtain ⟨hfails, hlost⟩ := hkept
      have hput := (f.length_put_le m d.flush).2 hfails
      refine iff_of_false ?_ (fun hall => absurd (hall.1 hfails) (Nat.not_le.mpr hlost))
      intro heq
      have hlength := congrArg List.length heq
      rw [List.length_append, List.length_append] at hlength
      rcases hrest with ⟨hfull, rest, hrest, rfl⟩ | ⟨hshort, rfl⟩
      · have hle := length_content_le (f := f.put m d.flush) hrest closing
        rw [if_pos hfull, List.flatten_cons, List.length_append] at hlength
        omega
      · have hle := (f.put m d.flush).length_fclose_le closing
        rw [if_neg (Nat.ne_of_lt hshort), List.flatten_singleton] at hlength
        change ((f.put m d.flush).fclose closing).2.length = _ at hlength
        omega

/-- Write errors are reported exactly if, whenever the messages make a whole stream, no
failing flush and no failing `fclose` leaves bytes behind. -/
theorem writesReported_iff (filesize : RObj ε) (opened : Bool) (ds : List Delivery)
    (closing : Option Nat) : WritesReported filesize opened ds closing ↔
      (opened = true → (∃ xs, filesize = .real xs) → (wholeStream ds).isSome = true →
        NothingDropped closing 0 ds) := by
  by_cases henters : opened = true ∧ ∃ xs, filesize = .real xs
  · obtain ⟨rfl, xs, rfl⟩ := henters
    obtain ⟨houtcome, -, hcontent⟩ := recvAndClose_spec ds closing
    have hstream := recv_file_wholeStream .fopen ds
    have hloop : WritesReported (.real xs : RObj ε) true ds closing ↔
        ((recvAndClose ds closing).outcome = .returned →
          (recvAndClose ds closing).content = received ds) := by
      constructor
      · intro hreported
        exact hreported 0 0 .nan _ rfl
      · intro hall fuel verbose beyond r hr
        obtain rfl := R_zmq_recv_file_real hr
        exact hall
    rw [hloop, houtcome]
    cases hms : wholeStream ds with
    | none =>
      rw [hms] at hstream
      simp [hstream]
    | some ms =>
      rw [hms] at hstream
      have hdropped := content_eq_iff (f := .fopen) hms closing
      rw [← hcontent hstream.1, ← received_of_wholeStream hms] at hdropped
      simp only [OutFile.fopen, List.nil_append, List.length_nil] at hdropped
      constructor
      · intro hreported _ _ _
        exact hdropped.mp (hreported hstream.1)
      · intro hall _
        exact hdropped.mpr (hall rfl ⟨xs, rfl⟩ rfl)
  · refine iff_of_true ?_ (fun hopened hreal => absurd ⟨hopened, hreal⟩ henters)
    intro fuel verbose beyond r hr hreturned
    rw [R_zmq_recv_file_stop henters, Option.some.injEq] at hr
    rw [← hr] at hreturned
    contradiction

/-- The file is closed with both bytes still in the buffer, and the disk is full. -/
theorem dropped_at_fclose : ¬ ∀ (filesize : RObj Empty) (opened : Bool) (ds : List Delivery)
    (closing : Option Nat), WritesReported filesize opened ds closing := by
  intro hall
  have hreported := hall (.real [.finite 2]) true [⟨some [1, 2], none, ⟨0, false⟩, false⟩] (some 0)
    0 0 .nan _ rfl rfl
  revert hreported
  decide

end PbdZmq.Transfer
