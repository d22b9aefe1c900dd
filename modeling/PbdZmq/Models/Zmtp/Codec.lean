import Mathlib.Data.Nat.Bitwise
import PbdZmq.Core.Reader
import PbdZmq.R.Value

/-!
# The framing of libzmq

A message goes over a byte stream as a header and its body. The header carries flags and a
size of one byte or of eight. The decoders of both versions of the protocol are readers: each
state waits for a fixed number of bytes.
-/

namespace PbdZmq.Zmtp

/-- What the framing transports of a message. -/
structure Msg where
  more : Bool
  command : Bool
  body : Bytes
  deriving DecidableEq, Repr

/-- `put_uint64`. -/
def put_uint64 (value : Nat) : Bytes :=
  [56, 48, 40, 32, 24, 16, 8, 0].map fun shift => UInt8.ofNat ((value >>> shift) &&& 0xff)

/-- `get_uint64`. -/
def get_uint64 (buffer : Bytes) : Nat :=
  let b (i : Nat) : Nat := (buffer.getD i 0).toNat
  (b 0 <<< 56) ||| (b 1 <<< 48) ||| (b 2 <<< 40) ||| (b 3 <<< 32) ||| (b 4 <<< 24) |||
    (b 5 <<< 16) ||| (b 6 <<< 8) ||| b 7

/-- What a decoder is ready to take. -/
structure Limits where
  /-- No limit if negative. -/
  maxmsgsize : Int
  /-- `init_size` finds the memory. -/
  alloc : Nat → Bool

/-- A body of this size is taken. -/
def Limits.admits (limits : Limits) (size : Nat) : Bool :=
  !(0 ≤ limits.maxmsgsize && limits.maxmsgsize < size) && limits.alloc size

/-- A version of the framing. -/
structure Codec extends Framing UInt8 Msg where
  body_eq : body = Msg.body

/-- `v2_protocol_t`. -/
def more_flag : UInt8 := 1

@[inherit_doc more_flag]
def large_flag : UInt8 := 2

@[inherit_doc more_flag]
def command_flag : UInt8 := 4

/-- The first byte that `v2_encoder_t::message_ready` writes. -/
def Msg.protocol_flags (m : Msg) : UInt8 :=
  (if m.more then more_flag else 0) ||| (if m.body.length > 255 then large_flag else 0) |||
    (if m.command then command_flag else 0)

/-- The header that `v2_encoder_t::message_ready` writes. -/
def v2Header (m : Msg) : Bytes :=
  m.protocol_flags ::
    if m.body.length > 255 then put_uint64 m.body.length else [UInt8.ofNat m.body.length]

/-- The header that `v1_encoder_t::message_ready` writes. -/
def v1Header (m : Msg) : Bytes :=
  let size := m.body.length + 1
  let flags : UInt8 := if m.more then 1 else 0
  if size < 255 then [UInt8.ofNat size, flags]
  else 0xff :: (put_uint64 size ++ [flags])

/-- Steps of `v2_decoder_t`, with the flags and the size that were read. -/
inductive V2Step
  | flags_ready
  | one_byte_size_ready (more command : Bool)
  | eight_byte_size_ready (more command : Bool)
  | message_ready (more command : Bool) (size : Nat)
  deriving DecidableEq, Repr

/-- How many bytes a step waits for. -/
def V2Step.size : V2Step → Nat
  | flags_ready => 1
  | one_byte_size_ready _ _ => 1
  | eight_byte_size_ready _ _ => 8
  | message_ready _ _ size => size

/-- `v2_decoder_t::size_ready`. -/
def V2Step.size_ready (limits : Limits) (more command : Bool) (msg_size : Nat) :
    Reader.Reply V2Step Msg :=
  if limits.admits msg_size then .step (.message_ready more command msg_size) else .error

/-- The steps of `v2_decoder_t`. -/
def V2Step.fire (limits : Limits) : V2Step → Bytes → Reader.Reply V2Step Msg
  | flags_ready, tmpbuf =>
    let more := tmpbuf.getD 0 0 &&& more_flag != 0
    let command := tmpbuf.getD 0 0 &&& command_flag != 0
    if tmpbuf.getD 0 0 &&& large_flag != 0 then .step (.eight_byte_size_ready more command)
    else .step (.one_byte_size_ready more command)
  | one_byte_size_ready more command, tmpbuf =>
    size_ready limits more command (tmpbuf.getD 0 0).toNat
  | eight_byte_size_ready more command, tmpbuf =>
    size_ready limits more command (get_uint64 tmpbuf)
  | message_ready more command _, body => .message ⟨more, command, body⟩ .flags_ready

/-- A step that waits for nothing is the last one of its message. -/
def V2Step.rank : V2Step → Nat
  | message_ready _ _ _ => 0
  | flags_ready | one_byte_size_ready _ _ | eight_byte_size_ready _ _ => 1

/-- `v2_decoder_t`. -/
def v2Decoder (limits : Limits) : Reader UInt8 V2Step Msg where
  size := V2Step.size
  fire := V2Step.fire limits
  rank := V2Step.rank
  rank_lt := by
    intro s got t h h0
    cases s with
    | flags_ready =>
      simp only [V2Step.fire] at h
      split at h <;> cases h <;> contradiction
    | one_byte_size_ready more command | eight_byte_size_ready more command =>
      simp only [V2Step.fire, V2Step.size_ready] at h
      split at h
      · cases h
        exact Nat.one_pos
      · contradiction
    | message_ready more command size => cases h
  size_pos := by
    intro s got m t h
    cases s with
    | flags_ready =>
      simp only [V2Step.fire] at h
      split at h <;> cases h
    | one_byte_size_ready more command | eight_byte_size_ready more command =>
      simp only [V2Step.fire, V2Step.size_ready] at h
      split at h <;> cases h
    | message_ready more command size =>
      cases h
      exact Nat.one_pos

/-- Steps of `v1_decoder_t`, with the size and the flag that were read. -/
inductive V1Step
  | one_byte_size_ready
  | eight_byte_size_ready
  | flags_ready (size : Nat)
  | message_ready (more : Bool) (size : Nat)
  deriving DecidableEq, Repr

@[inherit_doc V2Step.size]
def V1Step.size : V1Step → Nat
  | one_byte_size_ready => 1
  | eight_byte_size_ready => 8
  | flags_ready _ => 1
  | message_ready _ size => size

/-- The steps of `v1_decoder_t`. -/
def V1Step.fire (limits : Limits) : V1Step → Bytes → Reader.Reply V1Step Msg
  | one_byte_size_ready, tmpbuf =>
    if tmpbuf.getD 0 0 = 0xff then .step .eight_byte_size_ready
    else if tmpbuf.getD 0 0 = 0 then .error
    else if limits.admits ((tmpbuf.getD 0 0).toNat - 1) then
      .step (.flags_ready ((tmpbuf.getD 0 0).toNat - 1))
    else .error
  | eight_byte_size_ready, tmpbuf =>
    if get_uint64 tmpbuf = 0 then .error
    else if limits.admits (get_uint64 tmpbuf - 1) then
      .step (.flags_ready (get_uint64 tmpbuf - 1))
    else .error
  | flags_ready size, tmpbuf => .step (.message_ready (tmpbuf.getD 0 0 &&& 1 != 0) size)
  | message_ready more _, body => .message ⟨more, false, body⟩ .one_byte_size_ready

@[inherit_doc V2Step.rank]
def V1Step.rank : V1Step → Nat
  | message_ready _ _ => 0
  | one_byte_size_ready | eight_byte_size_ready | flags_ready _ => 1

/-- `v1_decoder_t`. -/
def v1Decoder (limits : Limits) : Reader UInt8 V1Step Msg where
  size := V1Step.size
  fire := V1Step.fire limits
  rank := V1Step.rank
  rank_lt := by
    intro s got t h h0
    cases s with
    | one_byte_size_ready =>
      simp only [V1Step.fire] at h
      split at h
      · cases h
        contradiction
      · split at h
        · contradiction
        · split at h <;> cases h
          contradiction
    | eight_byte_size_ready =>
      simp only [V1Step.fire] at h
      split at h
      · contradiction
      · split at h <;> cases h
        contradiction
    | flags_ready size =>
      cases h
      exact Nat.one_pos
    | message_ready more size => cases h
  size_pos := by
    intro s got m t h
    cases s with
    | one_byte_size_ready =>
      simp only [V1Step.fire] at h
      split at h
      · cases h
      · split at h
        · cases h
        · split at h <;> cases h
    | eight_byte_size_ready =>
      simp only [V1Step.fire] at h
      split at h
      · cases h
      · split at h <;> cases h
    | flags_ready size => cases h
    | message_ready more size =>
      cases h
      exact Nat.one_pos

theorem shiftLeft_or {n a b : Nat} (h : a < 2 ^ n) : b <<< n ||| a = b * 2 ^ n + a := by
  rw [← Nat.shiftLeft_add_eq_or_of_lt h, Nat.shiftLeft_eq]

/-- `get_uint64` reads a number in base 256. -/
theorem get_uint64_eq (buffer : Bytes) :
    get_uint64 buffer = (buffer.getD 0 0).toNat * 2 ^ 56 + ((buffer.getD 1 0).toNat * 2 ^ 48 +
      ((buffer.getD 2 0).toNat * 2 ^ 40 + ((buffer.getD 3 0).toNat * 2 ^ 32 +
      ((buffer.getD 4 0).toNat * 2 ^ 24 + ((buffer.getD 5 0).toNat * 2 ^ 16 +
      ((buffer.getD 6 0).toNat * 2 ^ 8 + (buffer.getD 7 0).toNat)))))) := by
  have hlt : ∀ i, (buffer.getD i 0).toNat < 256 := fun i => UInt8.toNat_lt _
  have h1 := hlt 1
  have h2 := hlt 2
  have h3 := hlt 3
  have h4 := hlt 4
  have h5 := hlt 5
  have h6 := hlt 6
  have h7 := hlt 7
  simp only [get_uint64, Nat.lor_assoc]
  rw [shiftLeft_or (n := 8) (by omega), shiftLeft_or (n := 16) (by omega),
    shiftLeft_or (n := 24) (by omega), shiftLeft_or (n := 32) (by omega),
    shiftLeft_or (n := 40) (by omega), shiftLeft_or (n := 48) (by omega),
    shiftLeft_or (n := 56) (by omega)]

/-- A number of 64 bits is read as it was written. -/
theorem get_uint64_put_uint64 {n : Nat} (h : n < 2 ^ 64) : get_uint64 (put_uint64 n) = n := by
  have hmask : (0xff : Nat) = 2 ^ 8 - 1 := rfl
  have hbyte : ∀ s : Nat, (UInt8.ofNat ((n >>> s) &&& 0xff)).toNat = n / 2 ^ s % 256 := by
    intro s
    rw [hmask, Nat.and_two_pow_sub_one_eq_mod, Nat.shiftRight_eq_div_pow, UInt8.toNat_ofNat']
    omega
  simp only [get_uint64_eq, put_uint64, List.map_cons, List.getD_cons_zero,
    List.getD_cons_succ, hbyte]
  omega

/-- The flags of a message are read as they were written. -/
theorem Msg.flags_ready (limits : Limits) (m : Msg) :
    V2Step.fire limits .flags_ready [m.protocol_flags] =
      if m.body.length > 255 then .step (.eight_byte_size_ready m.more m.command)
      else .step (.one_byte_size_ready m.more m.command) := by
  have hflags : ∀ more large command : Bool,
      let flags := (if more then more_flag else 0) ||| (if large then large_flag else 0) |||
        (if command then command_flag else 0)
      (flags &&& more_flag != 0) = more ∧ (flags &&& large_flag != 0) = large ∧
        (flags &&& command_flag != 0) = command := by decide
  obtain ⟨hmore, hlarge, hcommand⟩ := hflags m.more (m.body.length > 255) m.command
  simp only [decide_eq_true_eq] at hmore hlarge hcommand
  simp only [V2Step.fire, Msg.protocol_flags, List.getD_cons_zero, hmore, hlarge, hcommand,
    decide_eq_true_eq]

/-- A header leads to `size_ready` with the flags and the size. -/
theorem v2_header (limits : Limits) {m : Msg} (h : m.body.length < 2 ^ 64) :
    ∃ (w : (v2Decoder limits).Waiting) (now : Bytes), now.length = w.toRead ∧
      (v2Decoder limits).fire w.step (w.got ++ now) =
        V2Step.size_ready limits m.more m.command m.body.length ∧
      ∀ rest, (v2Decoder limits).decode (.begin .flags_ready Nat.one_pos) (v2Header m ++ rest) =
        (v2Decoder limits).decode w (now ++ rest) := by
  have hflags := m.flags_ready limits
  by_cases hsize : m.body.length > 255
  · rw [if_pos hsize] at hflags
    refine ⟨.begin (.eight_byte_size_ready m.more m.command) (Nat.succ_pos 7),
      put_uint64 m.body.length, rfl, ?_, fun rest => ?_⟩
    · simp only [Reader.Waiting.begin, v2Decoder, V2Step.fire, List.nil_append,
        get_uint64_put_uint64 h]
    · rw [v2Header, if_pos hsize, List.cons_append]
      exact Reader.decode_of_step (M := v2Decoder limits) (w := .begin .flags_ready Nat.one_pos)
        (rfl : [m.protocol_flags].length = 1) hflags _ _
  · rw [if_neg hsize] at hflags
    refine ⟨.begin (.one_byte_size_ready m.more m.command) Nat.one_pos,
      [UInt8.ofNat m.body.length], rfl, ?_, fun rest => ?_⟩
    · have hsmall : (UInt8.ofNat m.body.length).toNat = m.body.length := by
        rw [UInt8.toNat_ofNat', Nat.mod_eq_of_lt (by omega)]
      simp only [Reader.Waiting.begin, v2Decoder, V2Step.fire, List.nil_append,
        List.getD_cons_zero, hsmall]
    · rw [v2Header, if_neg hsize, List.cons_append]
      exact Reader.decode_of_step (M := v2Decoder limits) (w := .begin .flags_ready Nat.one_pos)
        (rfl : [m.protocol_flags].length = 1) hflags _ _

/-- The framing of ZMTP/2.0 and later. -/
def v2Codec (limits : Limits) : Codec where
  reader := v2Decoder limits
  start := .begin .flags_ready Nat.one_pos
  header := v2Header
  body := Msg.body
  body_eq := rfl
  Valid m := m.body.length < 2 ^ 64
  admits m := limits.admits m.body.length
  header_ne_nil m := List.cons_ne_nil _ _
  reads m rest hvalid hadmits := by
    obtain ⟨w, now, hnow, hfire, hdecode⟩ := v2_header limits hvalid
    rw [V2Step.size_ready, if_pos hadmits] at hfire
    rw [hdecode, Reader.decode_of_last hnow hfire rfl rfl]
  rejects m rest hvalid hadmits := by
    obtain ⟨w, now, hnow, hfire, hdecode⟩ := v2_header limits hvalid
    rw [V2Step.size_ready, if_neg (by simp [hadmits])] at hfire
    rw [hdecode, Reader.decode_of_error hnow hfire]

/-- A header leads to the flags, if the size is taken. -/
theorem v1_header (limits : Limits) {m : Msg} (h : m.body.length + 1 < 2 ^ 64) :
    ∃ (w : (v1Decoder limits).Waiting) (now : Bytes), now.length = w.toRead ∧
      (v1Decoder limits).fire w.step (w.got ++ now) =
        (if limits.admits m.body.length then .step (.flags_ready m.body.length) else .error) ∧
      ∀ rest, (v1Decoder limits).decode (.begin .one_byte_size_ready Nat.one_pos)
          (v1Header m ++ rest) =
        (v1Decoder limits).decode w (now ++ ([if m.more then 1 else 0] ++ rest)) := by
  by_cases hsize : m.body.length + 1 < 255
  · refine ⟨.begin .one_byte_size_ready Nat.one_pos, [UInt8.ofNat (m.body.length + 1)], rfl, ?_,
      fun rest => ?_⟩
    · have hsmall : (UInt8.ofNat (m.body.length + 1)).toNat = m.body.length + 1 := by
        rw [UInt8.toNat_ofNat', Nat.mod_eq_of_lt (by omega)]
      have hescape : UInt8.ofNat (m.body.length + 1) ≠ 0xff := by
        intro heq
        rw [heq] at hsmall
        have h255 : (0xff : UInt8).toNat = 255 := rfl
        omega
      have hzero : UInt8.ofNat (m.body.length + 1) ≠ 0 := by
        intro heq
        rw [heq] at hsmall
        have h0 : (0 : UInt8).toNat = 0 := rfl
        omega
      simp only [Reader.Waiting.begin, v1Decoder, V1Step.fire, List.nil_append,
        List.getD_cons_zero, if_neg hescape, if_neg hzero, hsmall, Nat.add_sub_cancel]
    · simp only [v1Header, if_pos hsize, List.cons_append, List.nil_append]
  · refine ⟨.begin .eight_byte_size_ready (Nat.succ_pos 7), put_uint64 (m.body.length + 1), rfl,
      ?_, fun rest => ?_⟩
    · simp only [Reader.Waiting.begin, v1Decoder, V1Step.fire, List.nil_append,
        get_uint64_put_uint64 h, if_neg (Nat.succ_ne_zero _), Nat.add_sub_cancel]
    · have hescape : (v1Decoder limits).fire .one_byte_size_ready [0xff] =
          .step .eight_byte_size_ready := rfl
      simp only [v1Header, if_neg hsize, List.cons_append, List.append_assoc]
      exact Reader.decode_of_step (M := v1Decoder limits)
        (w := .begin .one_byte_size_ready Nat.one_pos) (rfl : [(0xff : UInt8)].length = 1) hescape _
          _

/-- The framing of ZMTP/1.0, which has no commands. -/
def v1Codec (limits : Limits) : Codec where
  reader := v1Decoder limits
  start := .begin .one_byte_size_ready Nat.one_pos
  header := v1Header
  body := Msg.body
  body_eq := rfl
  Valid m := m.body.length + 1 < 2 ^ 64 ∧ m.command = false
  admits m := limits.admits m.body.length
  header_ne_nil m := by
    simp only [v1Header]
    split <;> exact List.cons_ne_nil _ _
  reads m rest hvalid hadmits := by
    obtain ⟨w, now, hnow, hfire, hdecode⟩ := v1_header limits hvalid.1
    have hflag : (v1Decoder limits).fire (.flags_ready m.body.length)
        ([] ++ [if m.more then 1 else 0]) = .step (.message_ready m.more m.body.length) := by
      cases hmore : m.more <;> rfl
    have hmsg : (v1Decoder limits).fire (.message_ready m.more m.body.length) m.body =
        .message m .one_byte_size_ready := by
      simp only [v1Decoder, V1Step.fire, ← hvalid.2]
    have hbody : m.body.length = (v1Decoder limits).size (.message_ready m.more m.body.length) :=
      rfl
    rw [if_pos hadmits] at hfire
    rw [hdecode, Reader.decode_of_step hnow hfire Nat.one_pos]
    exact Reader.decode_of_last (M := v1Decoder limits)
      (w := .begin (.flags_ready m.body.length) Nat.one_pos)
      (rfl : [if m.more then (1 : UInt8) else 0].length = 1) hflag hbody hmsg rest
  rejects m rest hvalid hadmits := by
    obtain ⟨w, now, hnow, hfire, hdecode⟩ := v1_header limits hvalid.1
    rw [if_neg (by simp [hadmits])] at hfire
    rw [hdecode, Reader.decode_of_error hnow hfire]

end PbdZmq.Zmtp
