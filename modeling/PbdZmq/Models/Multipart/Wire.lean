import PbdZmq.R.Value

/-!
# Messages of several parts

libzmq carries a message as frames and flags all of them but the last. `RCVMORE` is the
flag of the frame received last, and the sender sets the flag with `SNDMORE`.
-/

namespace PbdZmq.Multipart

/-- One part of a message on the wire. -/
structure Frame where
  body : Bytes
  more : Bool
  deriving DecidableEq, Repr

/-- The frames of one message. -/
def frames : List Bytes → List Frame
  | [] => []
  | [b] => [⟨b, false⟩]
  | b :: c :: bs => ⟨b, true⟩ :: frames (c :: bs)

/-- The last frame closes the message. -/
theorem frames_concat (bs : List Bytes) (b : Bytes) :
    frames (bs ++ [b]) = bs.map (⟨·, true⟩) ++ [⟨b, false⟩] := by
  induction bs with
  | nil => rfl
  | cons c bs ih =>
    cases bs with
    | nil => rfl
    | cons d bs =>
      simp only [List.cons_append, List.map_cons] at ih ⊢
      rw [frames, ih]

/-- The frames of a message are as many as its parts. -/
theorem length_frames (bs : List Bytes) : (frames bs).length = bs.length := by
  rcases List.eq_nil_or_concat bs with rfl | ⟨init, last, rfl⟩
  · rfl
  · simp [frames_concat]

end PbdZmq.Multipart
