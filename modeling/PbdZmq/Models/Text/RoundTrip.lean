import PbdZmq.R.Value

/-!
# Strings and raw vectors as messages

`zmq.send` passes a length along with the bytes: characters for a string, bytes for a raw
vector. `zmq.recv` reads into a buffer of a given length, which is zeroed for a string and
ends there at the first zero byte.
-/

namespace PbdZmq.Text

/-- A character string of R in UTF-8: it has no NUL, and its size is an `int`. -/
structure RString where
  chars : List Char
  ne_nul : ∀ c ∈ chars, c.toNat ≠ 0
  fits : (chars.flatMap String.utf8EncodeChar).length ≤ intMax

/-- The bytes of a string. -/
def RString.bytes (s : RString) : Bytes := s.chars.flatMap String.utf8EncodeChar

/-- `CHAR`: the bytes followed by NUL. -/
def RString.CHAR (s : RString) : Bytes := s.bytes ++ [0]

/-- `nchar`, which counts characters. -/
def RString.nchar (s : RString) : Int := s.chars.length

/-- What `zmq.send` tells apart. -/
inductive Buf
  | character (s : RString)
  | raw (bytes : Bytes)
  | other

/-- R errors of the functions. -/
inductive RError
  | stop (message : String)
  /-- `R_Calloc` or `allocVector` on a negative length. -/
  | allocation
  deriving DecidableEq, Repr

/-- `R_zmq_send`: the message given to `zmq_send`, unless it reaches past the buffer. -/
def R_zmq_send (buf : Bytes) (len : Int) : Option Bytes :=
  if cSize len ≤ buf.length then some (buf.take (cSize len)) else none

/-- `zmq.send.char`. -/
def zmqSendChar (s : RString) (len : Int) : Option Bytes := R_zmq_send s.CHAR (asInteger len)

/-- `zmq.send.raw`. -/
def zmqSendRaw (bytes : Bytes) (len : Int) : Option Bytes := R_zmq_send bytes (asInteger len)

/-- `zmq.send`. -/
def zmqSend : Buf → Except RError (Option Bytes)
  | .character s => .ok (zmqSendChar s s.nchar)
  | .raw bytes => .ok (zmqSendRaw bytes bytes.length)
  | .other => .error (.stop "buf type should be char or raw.")

/-- `ret` of `zmq.recv`. -/
structure Received where
  buf : Bytes
  len : Int
  deriving DecidableEq, Repr

/-- `zmq_recv` into a buffer that held other bytes before. -/
def fillBuffer (before : Nat → UInt8) (len : Nat) (m : Bytes) : Bytes :=
  (List.range len).map fun i => m.getD i (before i)

/-- `R_zmq_recv_char` on a message. Without a zero byte `mkChar` reads past the buffer. -/
def R_zmq_recv_char (len : Int) (m : Bytes) : Except RError (Option Received) :=
  if len < 0 then .error .allocation
  else
    let buf := fillBuffer (fun _ => 0) len.toNat m
    .ok (if 0 ∈ buf then some ⟨buf.takeWhile (· ≠ 0), m.length⟩ else none)

/-- `R_zmq_recv_raw` on a message, into memory that `allocVector` leaves as it is. -/
def R_zmq_recv_raw (before : Nat → UInt8) (len : Int) (m : Bytes) :
    Except RError (Option Received) :=
  if len < 0 then .error .allocation
  else .ok (some ⟨fillBuffer before len.toNat m, m.length⟩)

/-- `zmq.recv` with `buf.type[1]`. -/
def zmqRecv (before : Nat → UInt8) (len : Int) (bufType : String) (m : Bytes) :
    Except RError (Option Received) :=
  if bufType = "char" then R_zmq_recv_char (asInteger len) m
  else if bufType = "raw" then R_zmq_recv_raw before (asInteger len) m
  else .error (.stop "buf type should be char or raw.")

/-- UTF-8 has a zero byte only for NUL. -/
theorem zero_notMem_utf8EncodeChar {c : Char} (h : c.toNat ≠ 0) :
    (0 : UInt8) ∉ String.utf8EncodeChar c := by
  have hpos : 0 < c.val.toNat := Nat.pos_of_ne_zero h
  intro hmem
  have hbyte : ∃ b ∈ String.utf8EncodeChar c, b.toNat = 0 := ⟨0, hmem, rfl⟩
  revert hbyte
  fun_cases String.utf8EncodeChar c <;>
    simp [UInt8.toNat_ofNat, UInt8.toNat_add] <;> omega

theorem RString.zero_notMem_bytes (s : RString) : (0 : UInt8) ∉ s.bytes := by
  intro hmem
  obtain ⟨c, hc, hzero⟩ := List.mem_flatMap.mp hmem
  exact zero_notMem_utf8EncodeChar (s.ne_nul c hc) hzero

/-- A string has no more characters than bytes. -/
theorem length_le_bytes (cs : List Char) :
    cs.length ≤ (cs.flatMap String.utf8EncodeChar).length := by
  induction cs with
  | nil => exact Nat.le_refl 0
  | cons c cs ih =>
    have hpos := c.utf8Size_pos
    rw [List.flatMap_cons, List.length_append, String.length_utf8EncodeChar, List.length_cons]
    omega

/-- It has as many only if all characters are ASCII. -/
theorem bytes_le_length_iff (cs : List Char) :
    (cs.flatMap String.utf8EncodeChar).length ≤ cs.length ↔ ∀ c ∈ cs, c.toNat ≤ 127 := by
  induction cs with
  | nil => simp
  | cons c cs ih =>
    have hpos := c.utf8Size_pos
    have hle := length_le_bytes cs
    have hone : c.utf8Size = 1 ↔ c.toNat ≤ 127 := Char.utf8Size_eq_one_iff
    rw [List.forall_mem_cons, ← ih, ← hone, List.flatMap_cons, List.length_append,
      String.length_utf8EncodeChar, List.length_cons]
    omega

/-- The message is the string cut after as many bytes as it has characters. -/
theorem zmqSend_character (s : RString) :
    zmqSend (.character s) = .ok (some (s.bytes.take s.chars.length)) := by
  have hle : s.chars.length ≤ s.bytes.length := length_le_bytes s.chars
  have hfits : s.bytes.length ≤ intMax := s.fits
  have hsize : cSize (asInteger s.nchar) = s.chars.length := by
    rw [RString.nchar, asInteger_eq (by omega), cSize_natCast (by omega)]
  have hroom : s.chars.length ≤ s.CHAR.length := by
    rw [RString.CHAR, List.length_append]
    omega
  rw [zmqSend, zmqSendChar, R_zmq_send, hsize, if_pos hroom, RString.CHAR,
    List.take_append_of_le_length hle]

/-- A message that fits the buffer stands at its start. -/
theorem fillBuffer_eq (before : Nat → UInt8) {len : Nat} {m : Bytes} (h : m.length ≤ len) :
    fillBuffer before len m = m ++ (List.range' m.length (len - m.length)).map before := by
  apply List.ext_getElem
  · simp [fillBuffer, h]
  · intro i hi _
    simp only [fillBuffer, List.length_map, List.length_range] at hi
    by_cases him : i < m.length
    · simp [fillBuffer, him]
    · have hge : m.length ≤ i := Nat.le_of_not_lt him
      simp [fillBuffer, List.getElem_append_right hge, hge]

/-- A message without zero bytes is read whole into a longer buffer. -/
theorem zmqRecv_char (before : Nat → UInt8) {len : Int} {m : Bytes} (hlen : m.length < len)
    (hfits : len ≤ intMax) (hzero : 0 ∉ m) :
    zmqRecv before len "char" m = .ok (some ⟨m, m.length⟩) := by
  have hmax : intMax = 2147483647 := rfl
  have hbuf : fillBuffer (fun _ => 0) len.toNat m =
      m ++ 0 :: List.replicate (len.toNat - m.length - 1) 0 := by
    have hsucc : len.toNat - m.length = len.toNat - m.length - 1 + 1 := by omega
    rw [fillBuffer_eq _ (by omega), List.map_const', List.length_range', hsucc,
      List.replicate_succ]
    rfl
  have htake : (m ++ 0 :: List.replicate (len.toNat - m.length - 1) 0).takeWhile (· ≠ 0) = m := by
    have hne : ∀ b ∈ m, decide (b ≠ 0) = true := by
      intro b hb
      apply decide_eq_true
      rintro rfl
      exact hzero hb
    rw [List.takeWhile_append_of_pos hne]
    simp
  rw [zmqRecv, if_pos rfl, asInteger_eq (by omega), R_zmq_recv_char, if_neg (by omega), hbuf]
  simp only [List.mem_append, List.mem_cons, true_or, or_true, if_true, htake]

/-- A raw vector goes out whole, its length being counted in bytes. -/
theorem zmqSend_raw {bytes : Bytes} (h : bytes.length ≤ intMax) :
    zmqSend (.raw bytes) = .ok (some bytes) := by
  have hsize : cSize (asInteger bytes.length) = bytes.length := by
    rw [asInteger_eq (by omega), cSize_natCast h]
  rw [zmqSend, zmqSendRaw, R_zmq_send, hsize, if_pos (Nat.le_refl _), List.take_length]

/-- A message is read whole into a raw vector that is long enough, whose other bytes are
left as they were. -/
theorem zmqRecv_raw (before : Nat → UInt8) {len : Int} {m : Bytes} (hlen : m.length ≤ len)
    (hfits : len ≤ intMax) : zmqRecv before len "raw" m =
      .ok (some ⟨m ++ (List.range' m.length (len.toNat - m.length)).map before, m.length⟩) := by
  rw [zmqRecv, if_neg (by decide), if_pos rfl, asInteger_eq (by omega), R_zmq_recv_raw,
    if_neg (by omega), fillBuffer_eq _ (by omega)]

/-- What the peer gets of a string is the number of its bytes and the bytes themselves. -/
def RoundTrip (s : RString) (len : Int) : Prop :=
  ∀ before m, zmqSend (.character s) = .ok (some m) →
    zmqRecv before len "char" m = .ok (some ⟨s.bytes, s.bytes.length⟩)

/-- A length outside the range of `int` is `NA`, and no buffer has it. -/
theorem zmqRecv_char_of_gt (before : Nat → UInt8) {len : Int} (m : Bytes) (h : intMax < len) :
    zmqRecv before len "char" m = .error .allocation := by
  have hna : asInteger len = naInteger := by
    rw [asInteger, if_neg (by omega)]
  rw [zmqRecv, if_pos rfl, hna, R_zmq_recv_char, if_pos (by decide)]

/-- A string makes the round trip exactly if it is ASCII and the length is an `int`. -/
theorem roundTrip_iff (s : RString) {len : Int} (h : s.bytes.length < len) :
    RoundTrip s len ↔ (∀ c ∈ s.chars, c.toNat ≤ 127) ∧ len ≤ intMax := by
  have hle : s.chars.length ≤ s.bytes.length := length_le_bytes s.chars
  have hzero : (0 : UInt8) ∉ s.bytes.take s.chars.length :=
    fun hmem => s.zero_notMem_bytes (List.mem_of_mem_take hmem)
  have htake : (s.bytes.take s.chars.length).length = s.chars.length := by
    rw [List.length_take, Nat.min_eq_left hle]
  constructor
  · intro hround
    have hrecv := hround (fun _ => 0) _ (zmqSend_character s)
    by_cases hfits : len ≤ intMax
    · rw [zmqRecv_char _ (by omega) hfits hzero, htake] at hrecv
      simp only [Except.ok.injEq, Option.some.injEq, Received.mk.injEq] at hrecv
      have hall : s.bytes.length ≤ s.chars.length := by omega
      exact ⟨(bytes_le_length_iff s.chars).mp hall, hfits⟩
    · rw [zmqRecv_char_of_gt _ _ (by omega)] at hrecv
      contradiction
  · rintro ⟨hascii, hfits⟩ before m hsend
    have hlen : s.chars.length = s.bytes.length :=
      Nat.le_antisymm hle ((bytes_le_length_iff s.chars).mpr hascii)
    rw [zmqSend_character, hlen, List.take_length] at hsend
    obtain rfl : s.bytes = m := by simpa using hsend
    exact zmqRecv_char before h hfits s.zero_notMem_bytes

/-- The default length is enough for "ok". -/
theorem roundTrip_iff_ok : ∃ s : RString, s.chars = ['o', 'k'] ∧ RoundTrip s 1024 := by
  refine ⟨⟨['o', 'k'], by simp, by change 2 ≤ 2147483647; omega⟩, rfl,
    (roundTrip_iff _ ?_).mpr ⟨by simp, ?_⟩⟩
  · change (2 : Int) < 1024
    omega
  · change (1024 : Int) ≤ 2147483647
    omega

/-- Of the two bytes of "é" only one is sent. -/
theorem cut_string : ¬ ∀ (s : RString) (len : Int), s.bytes.length < len → RoundTrip s len := by
  intro hall
  have hround := hall ⟨['é'], by simp, by change 2 ≤ 2147483647; omega⟩ 3 (by decide)
  have hrecv := hround (fun _ => 0) _ (zmqSend_character _)
  revert hrecv
  decide

end PbdZmq.Text
