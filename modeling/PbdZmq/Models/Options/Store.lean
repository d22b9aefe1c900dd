import PbdZmq.R.Value

/-!
# `zmq.getsockopt` on shared objects

R objects are looked up by their identity, so two variables, a constant of a function and
two equal literals may be one entry. The placeholder `option.value` is the buffer that
libzmq writes to: for an integer vector the vector itself, for a string its entry in R's
cache of strings.
-/

namespace PbdZmq.Options

/-- Identity of an R object. -/
abbrev Ref := Nat

/-- What an R object holds. -/
inductive Object
  /-- An integer vector, as its bytes in memory. -/
  | integers (bytes : Bytes)
  /-- A string of the cache, whose length is fixed. -/
  | string (bytes : Bytes)
  /-- A character vector, as the strings it refers to. -/
  | characters (elements : List Ref)
  /-- Any other object. -/
  | other
  deriving DecidableEq, Repr

/-- Overwrite the first bytes of an object. -/
def Object.overwrite (written : Bytes) : Object → Object
  | .integers old => .integers (written ++ old.drop written.length)
  | .string old => .string (written ++ old.drop written.length)
  | .characters elements => .characters elements
  | .other => .other

/-- The objects of a session. -/
structure Store where
  entry : Ref → Option Object
  /-- Character vectors refer to strings. -/
  strings : ∀ {r elements}, entry r = some (.characters elements) →
    ∀ e ∈ elements, ∃ bytes, entry e = some (.string bytes)

/-- Overwrite the first bytes of one entry. -/
def Store.overwrite (s : Store) (r : Ref) (written : Bytes) : Store where
  entry q := if q = r then (s.entry q).map (.overwrite written) else s.entry q
  strings := by
    intro q elements hq e he
    have hold : s.entry q = some (.characters elements) := by
      by_cases hqr : q = r
      · rw [if_pos hqr, Option.map_eq_some_iff] at hq
        obtain ⟨o, ho, heq⟩ := hq
        cases o with
        | characters => exact ho.trans (congrArg some heq)
        | integers | string | other => contradiction
      · rwa [if_neg hqr] at hq
    obtain ⟨bytes, hbytes⟩ := s.strings hold e he
    by_cases her : e = r
    · exact ⟨_, by rw [if_pos her, hbytes]; rfl⟩
    · exact ⟨bytes, by rw [if_neg her, hbytes]⟩

/-- `strlen` of a string that ends in a NUL behind its bytes. -/
def strlen (bytes : Bytes) : Nat := (bytes.takeWhile (· ≠ 0)).length

/-- `CHARPT(x, 0)`: the first string of a character vector. -/
def Store.CHARPT (s : Store) (x : Ref) : Option (Ref × Bytes) :=
  match s.entry x with
  | some (.characters (e :: _)) =>
    match s.entry e with
    | some (.string bytes) => some (e, bytes)
    | _ => none
  | _ => none

/-- `INTEGER(x)`. -/
def Store.INTEGER (s : Store) (x : Ref) : Option (Ref × Bytes) :=
  match s.entry x with
  | some (.integers bytes) => some (x, bytes)
  | _ => none

/-- One option as libzmq keeps it in a socket. -/
structure SocketOption (σ : Type) where
  /-- `zmq_setsockopt` with the bytes of the value; nothing if it returns -1. -/
  set : σ → Bytes → Option σ
  /-- What `zmq_getsockopt` writes into a buffer of some size; nothing if it returns -1. -/
  get : σ → Nat → Option Bytes
  /-- It stays within the buffer. -/
  get_le : ∀ {socket size bytes}, get socket size = some bytes → bytes.length ≤ size

/-- A message control. -/
structure MC where
  warningAtError : Bool
  stopAtError : Bool
  deriving DecidableEq, Repr

/-- `ZMQ.MC()`. -/
def MC.default : MC := ⟨true, false⟩

/-- What a call gives in R. -/
inductive Answer
  /-- The return code. -/
  | code (ret : Int)
  /-- An object. -/
  | object (r : Ref)
  | null
  | stop (message : String)
  deriving DecidableEq, Repr

/-- The end of `zmq.setsockopt` and `zmq.getsockopt` when the C function returned -1. The value
at the end of the message is left out. -/
def MC.failed (mc : MC) (message : String) : Answer :=
  if mc.stopAtError then .stop message else if mc.warningAtError then .code (-1) else .null

/-- `option.type`. -/
def Store.optionType (s : Store) (value : Ref) : Option Nat :=
  match s.entry value with
  | some (.characters _) => some 0
  | some (.integers _) => some 1
  | some (.string _) | some .other | none => none

variable {σ : Type}

/-- `zmq_getsockopt` on a buffer of `size` bytes that starts with the bytes of an entry.
There is no result if it writes past them. -/
def Store.fill (s : Store) (opt : SocketOption σ) (socket : σ) (size : Nat) (buffer : Ref × Bytes) :
    Option (Int × Store) :=
  match opt.get socket size with
  | none => some (-1, s)
  | some written =>
    if written.length ≤ buffer.2.length then some (0, s.overwrite buffer.1 written) else none

/-- `R_zmq_getsockopt`: `C_ret` and the objects afterwards. There is no result if memory
outside of the objects is read or written. -/
def R_zmq_getsockopt (opt : SocketOption σ) (socket : Option σ) (s : Store) (value : Ref)
    (type : Nat) : Option (Except String Int × Store) :=
  match socket with
  | none => some (.ok (-1), s)
  | some c =>
    match type with
    | 0 => (s.CHARPT value).bind fun buffer =>
      (s.fill opt c (strlen buffer.2) buffer).map fun r => (.ok r.1, r.2)
    | 1 => (s.INTEGER value).bind fun buffer =>
      (s.fill opt c 4 buffer).map fun r => (.ok r.1, r.2)
    | _ => some (.error "C_option_type: %d is not implemented.\n", s)

/-- `zmq.getsockopt`. -/
def zmqGetsockopt (opt : SocketOption σ) (mc : MC) (socket : Option σ) (s : Store) (value : Ref) :
    Option (Answer × Store) :=
  match s.optionType value with
  | none => some (.stop "Type of option.value is not implemented", s)
  | some type => (R_zmq_getsockopt opt socket s value type).map fun r =>
    match r.1 with
    | .error message => (.stop message, r.2)
    | .ok ret => (if ret = -1 then mc.failed "zmq.getsockopt fails, " else .object value, r.2)

/-- The bytes that an entry starts with, and how many of them libzmq may write. -/
def Store.placeholder (s : Store) (value : Ref) : Option ((Ref × Bytes) × Nat) :=
  match s.optionType value with
  | some 0 => (s.CHARPT value).map fun buffer => (buffer, strlen buffer.2)
  | some 1 => (s.INTEGER value).map fun buffer => (buffer, 4)
  | _ => none

/-- No entry that existed before the call changes. -/
def ChangesNothing (opt : SocketOption σ) (mc : MC) (socket : Option σ) (s : Store) (value : Ref) :
    Prop :=
  ∃ answer s', zmqGetsockopt opt mc socket s value = some (answer, s') ∧
    ∀ r o, s.entry r = some o → s'.entry r = some o

/-- Every entry but the buffer stays as it is. -/
theorem Store.entry_overwrite_of_ne (s : Store) {q r : Ref} (h : q ≠ r) (written : Bytes) :
    (s.overwrite r written).entry q = s.entry q :=
  if_neg h

theorem Store.entry_overwrite (s : Store) (r : Ref) (written : Bytes) :
    (s.overwrite r written).entry r = (s.entry r).map (.overwrite written) :=
  if_pos rfl

/-- The bytes of an integer vector or of a string. -/
def Object.Holds (o : Object) (bytes : Bytes) : Prop := o = .integers bytes ∨ o = .string bytes

/-- Overwriting changes nothing exactly if the bytes stand there already. -/
theorem Object.overwrite_eq_iff {o : Object} {bytes written : Bytes} (h : o.Holds bytes)
    (hle : written.length ≤ bytes.length) : o.overwrite written = o ↔ written <+: bytes := by
  have hiff : written ++ bytes.drop written.length = bytes ↔ written <+: bytes := by
    constructor
    · intro heq
      exact ⟨_, heq⟩
    · rintro ⟨rest, rfl⟩
      rw [List.drop_left]
  rcases h with rfl | rfl
  · rw [overwrite, Object.integers.injEq, hiff]
  · rw [overwrite, Object.string.injEq, hiff]

/-- The first string of a character vector is an entry of its own. -/
theorem Store.CHARPT_eq_some {s : Store} {x r : Ref} {bytes : Bytes} :
    s.CHARPT x = some (r, bytes) ↔
      (∃ rest, s.entry x = some (.characters (r :: rest))) ∧ s.entry r = some (.string bytes) := by
  constructor
  · intro h
    unfold CHARPT at h
    split at h
    · rename_i hx
      split at h
      · rename_i hr
        obtain ⟨rfl, rfl⟩ : _ = r ∧ _ = bytes := by simpa using h
        exact ⟨⟨_, hx⟩, hr⟩
      · contradiction
    · contradiction
  · rintro ⟨⟨rest, hx⟩, hr⟩
    simp only [CHARPT, hx, hr]

theorem Store.entry_of_INTEGER {s : Store} {x r : Ref} {bytes : Bytes}
    (h : s.INTEGER x = some (r, bytes)) : s.entry r = some (.integers bytes) := by
  unfold INTEGER at h
  split at h
  · rename_i hx
    obtain ⟨rfl, rfl⟩ : x = r ∧ _ = bytes := by simpa using h
    exact hx
  · contradiction

/-- What can be a placeholder. -/
theorem Store.placeholder_cases (s : Store) (value : Ref) :
    s.optionType value = none ∨ s.entry value = some (.characters []) ∨
      (∃ e bytes, s.optionType value = some 0 ∧ s.CHARPT value = some (e, bytes)) ∨
      ∃ bytes, s.optionType value = some 1 ∧ s.INTEGER value = some (value, bytes) := by
  cases hx : s.entry value with
  | none => simp [optionType, hx]
  | some o =>
    cases o with
    | integers bytes => simp [optionType, INTEGER, hx]
    | string | other => simp [optionType, hx]
    | characters elements =>
      cases elements with
      | nil => simp
      | cons e rest =>
        obtain ⟨bytes, hbytes⟩ := s.strings hx e (List.mem_cons_self ..)
        simp [optionType, CHARPT, hx, hbytes]

/-- A call on a buffer changes nothing exactly if what libzmq writes stands there already. -/
theorem Store.fill_changesNothing {s : Store} {opt : SocketOption σ} {c : σ} {size : Nat}
    {r : Ref} {bytes : Bytes} {o : Object} (ho : s.entry r = some o) (hbytes : o.Holds bytes) :
    (∃ ret s', s.fill opt c size (r, bytes) = some (ret, s') ∧
      ∀ q o, s.entry q = some o → s'.entry q = some o) ↔
      ∀ written, opt.get c size = some written → written <+: bytes := by
  cases hget : opt.get c size with
  | none =>
    refine iff_of_true ⟨-1, s, by simp only [fill, hget], fun q o h => h⟩ ?_
    rintro written ⟨⟩
  | some written =>
    simp only [Option.some.injEq, forall_eq']
    by_cases hle : written.length ≤ bytes.length
    · rw [← Object.overwrite_eq_iff hbytes hle]
      have hfill : s.fill opt c size (r, bytes) = some (0, s.overwrite r written) := by
        simp only [fill, hget, if_pos hle]
      constructor
      · rintro ⟨ret, s', hs', hkeep⟩
        obtain ⟨-, rfl⟩ : _ ∧ s.overwrite r written = s' := by simpa [hfill] using hs'
        have hr := hkeep r o ho
        rwa [entry_overwrite, ho, Option.map_some, Option.some.injEq] at hr
      · intro heq
        refine ⟨0, _, hfill, ?_⟩
        intro q p hq
        by_cases hqr : q = r
        · obtain rfl : o = p := by simpa [hqr, ho] using hq
          rw [hqr, entry_overwrite, ho, Option.map_some, heq]
        · rwa [s.entry_overwrite_of_ne hqr]
    · refine iff_of_false ?_ (fun hbegins => hle hbegins.length_le)
      rintro ⟨ret, s', hs', -⟩
      simp only [fill, hget, if_neg hle] at hs'
      contradiction

/-- A placeholder of another type is rejected. -/
theorem zmqGetsockopt_stop (opt : SocketOption σ) (mc : MC) (socket : Option σ) {s : Store}
    {value : Ref} (h : s.optionType value = none) : zmqGetsockopt opt mc socket s value =
      some (.stop "Type of option.value is not implemented", s) := by
  rw [zmqGetsockopt, h]

/-- A call that reaches libzmq. -/
theorem zmqGetsockopt_some {opt : SocketOption σ} (mc : MC) (c : σ) {s : Store} {value : Ref}
    {buffer : Ref × Bytes} {size : Nat} (h : s.placeholder value = some (buffer, size)) :
    zmqGetsockopt opt mc (some c) s value = (s.fill opt c size buffer).map fun r =>
      (if r.1 = -1 then mc.failed "zmq.getsockopt fails, " else .object value, r.2) := by
  rcases s.placeholder_cases value with htype | hempty | ⟨e, bytes, htype, hx⟩ | ⟨bytes, htype, hx⟩
  · simp [Store.placeholder, htype] at h
  · simp [Store.placeholder, Store.optionType, Store.CHARPT, hempty] at h
  · obtain ⟨rfl, rfl⟩ : (e, bytes) = buffer ∧ strlen bytes = size := by
      simpa [Store.placeholder, htype, hx] using h
    simp only [zmqGetsockopt, htype, R_zmq_getsockopt, hx, Option.bind_some, Option.map_map]
    rfl
  · obtain ⟨rfl, rfl⟩ : (value, bytes) = buffer ∧ 4 = size := by
      simpa [Store.placeholder, htype, hx] using h
    simp only [zmqGetsockopt, htype, R_zmq_getsockopt, hx, Option.bind_some, Option.map_map]
    rfl

/-- A placeholder with a buffer. -/
private theorem changesNothing_of_buffer {opt : SocketOption σ} (mc : MC) (c : σ) {s : Store}
    {value r : Ref} {bytes : Bytes} {size : Nat} {o : Object}
    (h : s.placeholder value = some ((r, bytes), size)) (ho : s.entry r = some o)
    (hbytes : o.Holds bytes) : ChangesNothing opt mc (some c) s value ↔
      ∀ written, opt.get c size = some written → written <+: bytes := by
  rw [← s.fill_changesNothing ho hbytes, ChangesNothing, zmqGetsockopt_some mc c h]
  constructor
  · rintro ⟨answer, s', hs', hkeep⟩
    obtain ⟨⟨ret, s''⟩, hfill, heq⟩ := Option.map_eq_some_iff.mp hs'
    obtain ⟨-, rfl⟩ := Prod.mk.inj heq
    exact ⟨ret, s'', hfill, hkeep⟩
  · rintro ⟨ret, s', hfill, hkeep⟩
    exact ⟨_, s', by rw [hfill]; rfl, hkeep⟩

/-- A call changes nothing exactly if the socket is unavailable, the placeholder is of
another type, or it has a first element and libzmq writes only what stands there already. -/
theorem changesNothing_iff (opt : SocketOption σ) (mc : MC) (socket : Option σ) (s : Store)
    (value : Ref) : ChangesNothing opt mc socket s value ↔
      ∀ c, socket = some c → s.entry value ≠ some (.characters []) ∧
        ∀ buffer size, s.placeholder value = some (buffer, size) →
          ∀ written, opt.get c size = some written → written <+: buffer.2 := by
  cases socket with
  | none =>
    refine iff_of_true ?_ (by rintro c ⟨⟩)
    cases htype : s.optionType value with
    | none => exact ⟨_, s, zmqGetsockopt_stop opt mc none htype, fun r o h => h⟩
    | some type =>
      refine ⟨mc.failed "zmq.getsockopt fails, ", s, ?_, fun r o h => h⟩
      simp [zmqGetsockopt, htype, R_zmq_getsockopt]
  | some c =>
    simp only [Option.some.injEq, forall_eq']
    rcases s.placeholder_cases value with
      htype | hempty | ⟨e, bytes, htype, hx⟩ | ⟨bytes, htype, hx⟩
    · refine iff_of_true ?_ ⟨?_, ?_⟩
      · exact ⟨_, s, zmqGetsockopt_stop opt mc (some c) htype, fun r o h => h⟩
      · intro hempty
        simp [Store.optionType, hempty] at htype
      · intro buffer size h
        simp [Store.placeholder, htype] at h
    · refine iff_of_false ?_ (fun h => h.1 hempty)
      rintro ⟨answer, s', hs', -⟩
      simp [zmqGetsockopt, R_zmq_getsockopt, Store.optionType, Store.CHARPT, hempty] at hs'
    · have hentry : s.entry value ≠ some (.characters []) := by
        intro hempty
        simp [Store.CHARPT, hempty] at hx
      have hbuffer : s.placeholder value = some ((e, bytes), strlen bytes) := by
        simp [Store.placeholder, htype, hx]
      rw [changesNothing_of_buffer mc c hbuffer (Store.CHARPT_eq_some.mp hx).2 (.inr rfl),
        and_iff_right hentry, hbuffer]
      simp
    · have hentry : s.entry value ≠ some (.characters []) := by
        intro hempty
        simp [Store.optionType, hempty] at htype
      have hbuffer : s.placeholder value = some ((value, bytes), 4) := by
        simp [Store.placeholder, htype, hx]
      rw [changesNothing_of_buffer mc c hbuffer (Store.entry_of_INTEGER hx) (.inl rfl),
        and_iff_right hentry, hbuffer]
      simp

/-- `ZMQ_RCVMORE` of a socket whose last frame was followed by others. The whole buffer is
filled with zeros, and its first `int` is 1. -/
def rcvmore : SocketOption Unit where
  set _ _ := none
  get _ size := if 4 ≤ size then some ([1, 0, 0, 0] ++ List.replicate (size - 4) 0) else none
  get_le := by
    intro _ size bytes h
    split at h
    · obtain rfl := Option.some.inj h
      simp only [List.length_append, List.length_cons, List.length_nil, List.length_replicate]
      omega
    · contradiction

/-- The constant `0L`. -/
def zeroLiteral : Store where
  entry r := if r = 0 then some (.integers [0, 0, 0, 0]) else none
  strings := by
    intro r elements h
    split at h <;> simp at h

/-- In `zmq.recv.multipart` the constant `0L` becomes `1L`. -/
theorem literal_changed : ¬ ∀ (mc : MC) (socket : Option Unit) (s : Store) (value : Ref),
    ChangesNothing rcvmore mc socket s value := by
  intro hall
  obtain ⟨answer, s', hs', hkeep⟩ := hall .default (some ()) zeroLiteral 0
  have hs : some (Answer.object 0, zeroLiteral.overwrite 0 [1, 0, 0, 0]) = some (answer, s') := hs'
  obtain ⟨-, rfl⟩ := Prod.mk.inj (Option.some.inj hs)
  have hzero := hkeep 0 (.integers [0, 0, 0, 0]) rfl
  revert hzero
  decide

end PbdZmq.Options
