import Mathlib.Data.List.TakeWhile
import PbdZmq.Models.Options.Store

/-!
# String options

`zmq.setsockopt` passes the bytes of a string up to its NUL. `zmq.getsockopt` has libzmq
write the value over the placeholder, whose length in R stays what it was. libzmq needs
room for the NUL behind the value, so the result is always longer than the value.
-/

namespace PbdZmq.Options

variable {σ : Type}

/-- `R_zmq_setsockopt`: `C_ret` and the socket afterwards. There is no result if memory
outside of the objects is read. -/
def R_zmq_setsockopt (opt : SocketOption σ) (socket : Option σ) (s : Store) (value : Ref)
    (type : Nat) : Option (Except String Int × Option σ) :=
  let set (c : σ) (bytes : Bytes) : Except String Int × Option σ :=
    match opt.set c bytes with
    | none => (.ok (-1), some c)
    | some c' => (.ok 0, some c')
  match socket with
  | none => some (.ok (-1), none)
  | some c =>
    match type with
    | 0 => (s.CHARPT value).map fun buffer => set c (buffer.2.take (strlen buffer.2))
    | 1 => (s.INTEGER value).bind fun buffer =>
      if 4 ≤ buffer.2.length then some (set c (buffer.2.take 4)) else none
    | _ => some (.error "C_option_type: %d is not implemented.\n", some c)

/-- `zmq.setsockopt`. -/
def zmqSetsockopt (opt : SocketOption σ) (mc : MC) (socket : Option σ) (s : Store) (value : Ref) :
    Option (Answer × Option σ) :=
  match s.optionType value with
  | none => some (.stop "Type of option.value is not implemented", socket)
  | some type => (R_zmq_setsockopt opt socket s value type).map fun r =>
    match r.1 with
    | .error message => (.stop message, r.2)
    | .ok ret => (if ret = -1 then mc.failed "zmq.setsockopt fails, " else .code ret, r.2)

/-- A string option: reading needs room for the value and a NUL, and writes both. -/
def SocketOption.IsString (opt : SocketOption σ) : Prop :=
  ∀ c v c', v ≠ [] → opt.set c v = some c' → ∀ size,
    opt.get c' size = if v.length + 1 ≤ size then some (v ++ [0]) else none

/-- `is.character(x)` with the string `bytes` in first place. -/
def Store.IsString (s : Store) (x : Ref) (bytes : Bytes) : Prop :=
  ∃ e, s.CHARPT x = some (e, bytes)

/-- What was set comes back: after a successful `zmq.setsockopt(socket, opt, v)`, a
successful `zmq.getsockopt(socket, opt, p)` returns the string of `v`. -/
def RoundTrips (opt : SocketOption σ) (mc : MC) (s : Store) (c : σ) (v p : Ref) : Prop :=
  ∀ c' r s', zmqSetsockopt opt mc (some c) s v = some (.code 0, some c') →
    zmqGetsockopt opt mc (some c') s p = some (.object r, s') →
      ∀ bytes, s.IsString v bytes → s'.IsString r bytes

/-- A string that is overwritten keeps its place in the character vector. -/
theorem Store.CHARPT_overwrite {s : Store} {x r : Ref} {bytes : Bytes}
    (h : s.CHARPT x = some (r, bytes)) (written : Bytes) :
    (s.overwrite r written).CHARPT x = some (r, written ++ bytes.drop written.length) := by
  obtain ⟨⟨rest, hx⟩, hr⟩ := CHARPT_eq_some.mp h
  have hne : x ≠ r := by
    rintro rfl
    simp [hr] at hx
  refine CHARPT_eq_some.mpr ⟨⟨rest, ?_⟩, ?_⟩
  · rw [s.entry_overwrite_of_ne hne, hx]
  · rw [entry_overwrite, hr]
    rfl

theorem strlen_of_zero_notMem {bytes : Bytes} (h : 0 ∉ bytes) : strlen bytes = bytes.length := by
  have hall : bytes.takeWhile (· ≠ 0) = bytes := by
    rw [List.takeWhile_eq_self_iff]
    intro b hb
    apply decide_eq_true
    rintro rfl
    exact h hb
  rw [strlen, hall]

theorem Store.optionType_of_CHARPT {s : Store} {x r : Ref} {bytes : Bytes}
    (h : s.CHARPT x = some (r, bytes)) : s.optionType x = some 0 := by
  obtain ⟨⟨rest, hx⟩, -⟩ := CHARPT_eq_some.mp h
  rw [optionType, hx]

/-- A string that libzmq accepts is set. -/
theorem zmqSetsockopt_string {opt : SocketOption σ} (mc : MC) {s : Store} {c c' : σ} {v r : Ref}
    {bytes : Bytes} (hv : s.CHARPT v = some (r, bytes)) (hnul : 0 ∉ bytes)
    (hset : opt.set c bytes = some c') :
    zmqSetsockopt opt mc (some c) s v = some (.code 0, some c') := by
  have hbytes : bytes.take (strlen bytes) = bytes := by
    rw [strlen_of_zero_notMem hnul, List.take_length]
  simp only [zmqSetsockopt, Store.optionType_of_CHARPT hv, R_zmq_setsockopt, hv, Option.map_some,
    hbytes, hset]
  rfl

/-- Reading a string option overwrites the placeholder and returns it. -/
theorem zmqGetsockopt_string {opt : SocketOption σ} (mc : MC) {s : Store} {c : σ} {p r : Ref}
    {bytes written : Bytes} (hp : s.CHARPT p = some (r, bytes)) (hnul : 0 ∉ bytes)
    (hget : opt.get c bytes.length = some written) :
    zmqGetsockopt opt mc (some c) s p = some (.object p, s.overwrite r written) := by
  have hbuffer : s.placeholder p = some ((r, bytes), bytes.length) := by
    simp [Store.placeholder, Store.optionType_of_CHARPT hp, hp, strlen_of_zero_notMem hnul]
  rw [zmqGetsockopt_some mc c hbuffer]
  simp only [Store.fill, hget, if_pos (opt.get_le hget), Option.map_some]
  rfl

/-- No string option makes the round trip: the result has the length of the placeholder. -/
theorem never_roundTrips {opt : SocketOption σ} (hstring : opt.IsString) (mc : MC) {s : Store}
    {c c' : σ} {v p : Ref} (value placeholder : Bytes) (hv : s.IsString v value)
    (hne : value ≠ []) (hvalue : 0 ∉ value) (hset : opt.set c value = some c')
    (hp : s.IsString p placeholder) (hplaceholder : 0 ∉ placeholder)
    (hroom : value.length + 1 ≤ placeholder.length) : ¬ RoundTrips opt mc s c v p := by
  obtain ⟨q, hq⟩ := hv
  obtain ⟨r, hr⟩ := hp
  have hget : opt.get c' placeholder.length = some (value ++ [0]) := by
    rw [hstring c value c' hne hset, if_pos hroom]
  intro hround
  obtain ⟨e, he⟩ := hround c' p _ (zmqSetsockopt_string mc hq hvalue hset)
    (zmqGetsockopt_string mc hr hplaceholder hget) value ⟨q, hq⟩
  rw [Store.CHARPT_overwrite hr] at he
  have hbytes := congrArg List.length (Prod.mk.inj (Option.some.inj he)).2
  simp only [List.length_append, List.length_drop, List.length_singleton] at hbytes
  omega

/-- An option that keeps any string. -/
def endpoint : SocketOption Bytes where
  set _ v := some v
  get v size := if v.length + 1 ≤ size then some (v ++ [0]) else none
  get_le := by
    intro v size bytes h
    split at h
    · obtain rfl := Option.some.inj h
      simpa
    · contradiction

/-- The values "ab" and "xxxx". -/
def twoStrings : Store where
  entry r :=
    match r with
    | 0 => some (.characters [1])
    | 1 => some (.string [97, 98])
    | 2 => some (.characters [3])
    | 3 => some (.string [120, 120, 120, 120])
    | _ => none
  strings := by
    intro r elements h
    split at h <;> simp at h
    · obtain rfl := h
      simp
    · obtain rfl := h
      simp

theorem endpoint_isString : endpoint.IsString := by
  intro c v c' _ hset size
  obtain rfl := Option.some.inj hset
  rfl

/-- Four bytes for a value of two. -/
theorem never_roundTrips_endpoint : ¬ RoundTrips endpoint .default twoStrings [] 0 2 :=
  never_roundTrips endpoint_isString .default [97, 98] [120, 120, 120, 120] ⟨1, rfl⟩ (by simp)
    (by simp) rfl ⟨3, rfl⟩ (by simp) (by simp)

/-- "ab" set and read back with the placeholder "xxxx" has four bytes. -/
theorem longer_string : ¬ ∀ (opt : SocketOption Bytes) (mc : MC) (s : Store) (c c' : Bytes)
    (v p : Ref) (value placeholder : Bytes), opt.IsString → s.IsString v value → value ≠ [] →
      0 ∉ value → opt.set c value = some c' → s.IsString p placeholder → 0 ∉ placeholder →
        value.length + 1 ≤ placeholder.length → RoundTrips opt mc s c v p := by
  intro hall
  have hround := hall endpoint .default twoStrings [] [97, 98] 0 2 [97, 98] [120, 120, 120, 120]
    endpoint_isString ⟨1, rfl⟩ (by simp) (by simp) rfl ⟨3, rfl⟩ (by simp) (by simp)
  obtain ⟨e, he⟩ := hround _ 2 (twoStrings.overwrite 3 [97, 98, 0]) rfl rfl [97, 98] ⟨1, rfl⟩
  have hlong : (some (3, [97, 98, 0, 120]) : Option (Ref × Bytes)) = some (e, [97, 98]) := he
  simp at hlong

end PbdZmq.Options
