import Mathlib.Data.List.Basic

/-!
# Readers that know how much they need

A reader is a machine whose every step waits for a known number of items. The items arrive
in chunks that know nothing of the steps. What the reader makes of a stream does not depend
on how the stream is cut.
-/

namespace PbdZmq

variable {β σ μ : Type*}

/-- What a step answers to the items that it has waited for. -/
inductive Reader.Reply (σ μ : Type*)
  | step (s : σ)
  | message (m : μ) (s : σ)
  | error

/-- Steps that wait for `size` items. Steps that wait for none come to an end. -/
structure Reader (β σ μ : Type*) where
  size : σ → Nat
  fire : σ → List β → Reader.Reply σ μ
  rank : σ → Nat
  rank_lt : ∀ {s got t}, fire s got = .step t → size t = 0 → rank t < rank s
  size_pos : ∀ {s got m t}, fire s got = .message m t → 0 < size t

/-- A reader in the middle of a step. -/
structure Reader.Waiting (M : Reader β σ μ) where
  step : σ
  got : List β
  lt : got.length < M.size step

/-- A reader after a step. -/
inductive Reader.Settled (M : Reader β σ μ)
  | step (w : M.Waiting)
  | message (m : μ) (w : M.Waiting)
  | error

/-- A reader after a chunk; a message or an error leaves the rest of the chunk. -/
inductive Reader.Outcome (M : Reader β σ μ)
  | more (w : M.Waiting)
  | message (m : μ) (w : M.Waiting) (rest : List β)
  | error

namespace Reader

variable (M : Reader β σ μ)

/-- A reader at the start of a step that needs items. -/
def Waiting.begin {M : Reader β σ μ} (s : σ) (h : 0 < M.size s) : M.Waiting := ⟨s, [], h⟩

/-- How many items the step still needs. -/
def Waiting.toRead {M : Reader β σ μ} (w : M.Waiting) : Nat := M.size w.step - w.got.length

theorem Waiting.toRead_pos {M : Reader β σ μ} (w : M.Waiting) : 0 < w.toRead :=
  Nat.sub_pos_of_lt w.lt

/-- Items that do not end the step. -/
def Waiting.push {M : Reader β σ μ} (w : M.Waiting) (data : List β) (h : data.length < w.toRead) :
    M.Waiting :=
  ⟨w.step, w.got ++ data, by rw [List.length_append]; exact Nat.add_lt_of_lt_sub' h⟩

theorem Waiting.toRead_push {M : Reader β σ μ} (w : M.Waiting) (data : List β)
    (h : data.length < w.toRead) : (w.push data h).toRead = w.toRead - data.length := by
  simp only [toRead, push, List.length_append]
  omega

/-- Run the step, and those after it that need no items. -/
def settle (s : σ) (got : List β) : M.Settled :=
  match h : M.fire s got with
  | .step t =>
    if h0 : M.size t = 0 then settle t []
    else .step (.begin t (Nat.pos_of_ne_zero h0))
  | .message m t => .message m (.begin t (M.size_pos h))
  | .error => .error
termination_by M.rank s
decreasing_by exact M.rank_lt h h0

/-- Read a chunk up to the end of a message. -/
def decode (w : M.Waiting) (data : List β) : M.Outcome :=
  if h : data.length < w.toRead then .more (w.push data h)
  else
    match M.settle w.step (w.got ++ data.take w.toRead) with
    | .step w' => decode w' (data.drop w.toRead)
    | .message m w' => .message m w' (data.drop w.toRead)
    | .error => .error
termination_by data.length
decreasing_by
  have hpos := w.toRead_pos
  rw [List.length_drop]
  omega

/-- More of the stream after a chunk. -/
def Outcome.append {M : Reader β σ μ} : M.Outcome → List β → M.Outcome
  | .more w, data => M.decode w data
  | .message m w rest, data => .message m w (rest ++ data)
  | .error, _ => .error

variable {M}

/-- A chunk that does not end the step. -/
theorem decode_of_lt {w : M.Waiting} {data : List β} (h : data.length < w.toRead) :
    M.decode w data = .more (w.push data h) := by
  rw [decode, dif_pos h]

/-- A chunk that ends the step. -/
theorem decode_append {w : M.Waiting} {now : List β} (h : now.length = w.toRead)
    (rest : List β) : M.decode w (now ++ rest) =
      match M.settle w.step (w.got ++ now) with
      | .step w' => M.decode w' rest
      | .message m w' => .message m w' rest
      | .error => .error := by
  rw [decode, dif_neg (by rw [List.length_append]; omega), ← h, List.take_left, List.drop_left]

/-- A chunk may be cut anywhere. -/
theorem decode_cut (w : M.Waiting) (now later : List β) :
    M.decode w (now ++ later) = (M.decode w now).append later := by
  generalize hn : now.length = n
  induction n using Nat.strongRecOn generalizing w now with
  | _ n ih =>
    by_cases hlt : now.length < w.toRead
    · rw [decode_of_lt hlt, Outcome.append]
      by_cases hall : (now ++ later).length < w.toRead
      · have hlater : later.length < (w.push now hlt).toRead := by
          rw [List.length_append] at hall
          rw [Waiting.toRead_push]
          omega
        rw [decode_of_lt hall, decode_of_lt hlater]
        simp only [Waiting.push, List.append_assoc]
      · rw [List.length_append] at hall
        obtain ⟨here, there, rfl, hhere⟩ : ∃ here there, later = here ++ there ∧
            here.length = (w.push now hlt).toRead :=
          ⟨_, _, (List.take_append_drop (w.push now hlt).toRead later).symm, by
            rw [List.length_take, Waiting.toRead_push]
            omega⟩
        have hwhole : (now ++ here).length = w.toRead := by
          rw [List.length_append, hhere, Waiting.toRead_push]
          omega
        rw [← List.append_assoc, decode_append hwhole, decode_append hhere]
        simp only [Waiting.push, List.append_assoc]
    · obtain ⟨here, there, rfl, hhere⟩ : ∃ here there, now = here ++ there ∧
          here.length = w.toRead :=
        ⟨_, _, (List.take_append_drop w.toRead now).symm, by
          rw [List.length_take]
          omega⟩
      have hpos := w.toRead_pos
      rw [List.length_append] at hn
      rw [List.append_assoc, decode_append hhere, decode_append hhere]
      cases M.settle w.step (w.got ++ here) with
      | step w' => exact ih there.length (by omega) w' there rfl
      | message m w' => rfl
      | error => rfl

/-- A message takes at least one item. -/
theorem length_rest_lt {w w' : M.Waiting} {data rest : List β} {m : μ}
    (h : M.decode w data = .message m w' rest) : rest.length < data.length := by
  generalize hn : data.length = n
  induction n using Nat.strongRecOn generalizing w data with
  | _ n ih =>
    rw [decode] at h
    split at h
    · contradiction
    · have hpos := w.toRead_pos
      have hdrop : (data.drop w.toRead).length < n := by
        rw [List.length_drop]
        omega
      split at h
      · exact Nat.lt_trans (ih _ hdrop h rfl) hdrop
      · cases h
        exact hdrop
      · contradiction

variable (M) in
/-- Read a stream up to its end or to an error: the messages, and the reader then. -/
def feed (w : M.Waiting) (data : List β) : List μ × Option M.Waiting :=
  match _h : M.decode w data with
  | .more w' => ([], some w')
  | .message m w' rest => (m :: (feed w' rest).1, (feed w' rest).2)
  | .error => ([], none)
termination_by data.length
decreasing_by all_goals exact length_rest_lt ‹_›

theorem feed_of_more {w w' : M.Waiting} {data : List β} (h : M.decode w data = .more w') :
    M.feed w data = ([], some w') := by
  rw [feed]
  split <;> simp_all only [reduceCtorEq, Outcome.more.injEq]

theorem feed_of_message {w w' : M.Waiting} {data rest : List β} {m : μ}
    (h : M.decode w data = .message m w' rest) :
    M.feed w data = (m :: (M.feed w' rest).1, (M.feed w' rest).2) := by
  rw [feed]
  split <;> simp_all only [reduceCtorEq, Outcome.message.injEq]

theorem feed_of_error {w : M.Waiting} {data : List β} (h : M.decode w data = .error) :
    M.feed w data = ([], none) := by
  rw [feed]
  split <;> simp_all only [reduceCtorEq]

/-- What is fed depends on what is decoded first. -/
theorem feed_congr {w w' : M.Waiting} {data data' : List β}
    (h : M.decode w data = M.decode w' data') : M.feed w data = M.feed w' data' := by
  cases hdecode : M.decode w data with
  | more v => rw [feed_of_more hdecode, feed_of_more (h.symm.trans hdecode)]
  | message m v rest => rw [feed_of_message hdecode, feed_of_message (h.symm.trans hdecode)]
  | error => rw [feed_of_error hdecode, feed_of_error (h.symm.trans hdecode)]

/-- An empty stream. -/
theorem feed_nil (w : M.Waiting) : M.feed w [] = ([], some w) := by
  rw [feed_of_more (decode_of_lt (show ([] : List β).length < _ from w.toRead_pos))]
  simp [Waiting.push]

/-- Nothing is read after an error. -/
def resume (M : Reader β σ μ) : Option M.Waiting → List β → List μ × Option M.Waiting
  | some w, data => M.feed w data
  | none, _ => ([], none)

/-- A stream may be cut anywhere. -/
theorem feed_append (w : M.Waiting) (now later : List β) :
    M.feed w (now ++ later) = ((M.feed w now).1 ++ (M.resume (M.feed w now).2 later).1,
      (M.resume (M.feed w now).2 later).2) := by
  generalize hn : now.length = n
  induction n using Nat.strongRecOn generalizing w now with
  | _ n ih =>
    have hcut := decode_cut w now later
    cases hdecode : M.decode w now with
    | more w' =>
      rw [hdecode, Outcome.append] at hcut
      rw [feed_of_more hdecode, List.nil_append, resume]
      exact feed_congr hcut
    | message m w' rest =>
      rw [hdecode, Outcome.append] at hcut
      have hshort := length_rest_lt hdecode
      rw [feed_of_message hcut, feed_of_message hdecode, ih rest.length (by omega) w' rest rfl,
        List.cons_append]
    | error =>
      rw [hdecode, Outcome.append] at hcut
      rw [feed_of_error hcut, feed_of_error hdecode, resume, List.append_nil]

section

variable {w : M.Waiting} {now : List β} {s t u : σ} {got : List β} {m : μ}

theorem settle_of_step (hfire : M.fire s got = .step t) : M.settle s got =
    if h0 : M.size t = 0 then M.settle t [] else .step (.begin t (Nat.pos_of_ne_zero h0)) := by
  rw [settle]
  split
  · rename_i v hv
    obtain rfl : v = t := Reply.step.inj (hv.symm.trans hfire)
    rfl
  all_goals simp_all only [reduceCtorEq]

theorem settle_of_message (hfire : M.fire s got = .message m u) :
    M.settle s got = .message m (.begin u (M.size_pos hfire)) := by
  rw [settle]
  split
  case h_2 n v hv =>
    obtain ⟨rfl, rfl⟩ := Reply.message.inj (hv.symm.trans hfire)
    rfl
  all_goals simp_all only [reduceCtorEq]

/-- The step goes on to another that needs items. -/
theorem decode_of_step (hnow : now.length = w.toRead)
    (hfire : M.fire w.step (w.got ++ now) = .step t) (h0 : 0 < M.size t) (rest : List β) :
    M.decode w (now ++ rest) = M.decode (.begin t h0) rest := by
  rw [decode_append hnow, settle_of_step hfire, dif_neg (Nat.ne_of_gt h0)]

/-- The step refuses what it has read. -/
theorem decode_of_error (hnow : now.length = w.toRead)
    (hfire : M.fire w.step (w.got ++ now) = .error) (rest : List β) :
    M.decode w (now ++ rest) = .error := by
  have hsettle : M.settle w.step (w.got ++ now) = .error := by
    rw [settle]
    split <;> simp_all only [reduceCtorEq]
  rw [decode_append hnow, hsettle]

/-- The step goes on to the last one of the message, which may need no items. -/
theorem decode_of_last (hnow : now.length = w.toRead)
    (hfire : M.fire w.step (w.got ++ now) = .step t) {body : List β}
    (hbody : body.length = M.size t) (hlast : M.fire t body = .message m u) (rest : List β) :
    M.decode w (now ++ (body ++ rest)) = .message m (.begin u (M.size_pos hlast)) rest := by
  by_cases h0 : 0 < M.size t
  · have htoRead : body.length = (Waiting.begin t h0).toRead := hbody
    rw [decode_of_step hnow hfire h0, decode_append htoRead]
    simp only [Waiting.begin, List.nil_append, settle_of_message hlast]
  · obtain rfl : body = [] := List.length_eq_zero_iff.mp (by omega)
    rw [decode_append hnow, settle_of_step hfire, dif_pos (by omega), settle_of_message hlast,
      List.nil_append]

end

end Reader

/-- Messages as a header and a body, and a reader for them. -/
structure Framing (β μ : Type*) where
  {σ : Type}
  reader : Reader β σ μ
  start : reader.Waiting
  header : μ → List β
  body : μ → List β
  /-- The messages that the header can describe. -/
  Valid : μ → Prop
  /-- The messages that the reader takes. -/
  admits : μ → Bool
  header_ne_nil : ∀ m, header m ≠ []
  reads : ∀ m rest, Valid m → admits m = true →
    reader.decode start (header m ++ (body m ++ rest)) = .message m start rest
  rejects : ∀ m rest, Valid m → admits m = false →
    reader.decode start (header m ++ rest) = .error

namespace Framing

variable (F : Framing β μ)

/-- A message on the stream. -/
def frame (m : μ) : List β := F.header m ++ F.body m

/-- What is read of messages one after the other are those before the first one that is not
taken, and that one is an error. -/
theorem feed_eq {ms : List μ} (hvalid : ∀ m ∈ ms, F.Valid m) :
    F.reader.feed F.start (ms.flatMap F.frame) =
      (ms.takeWhile F.admits, if ms.all F.admits then some F.start else none) := by
  induction ms with
  | nil =>
    exact Reader.feed_nil F.start
  | cons m ms ih =>
    rw [List.forall_mem_cons] at hvalid
    rw [List.flatMap_cons, frame, List.append_assoc]
    cases hm : F.admits m with
    | true =>
      rw [Reader.feed_of_message (F.reads m _ hvalid.1 hm), ih hvalid.2]
      simp [hm]
    | false =>
      rw [Reader.feed_of_error (F.rejects m _ hvalid.1 hm)]
      simp [hm]

/-- However the stream is cut, nothing is read but a prefix of the messages. -/
theorem feed_prefix {ms : List μ} (hvalid : ∀ m ∈ ms, F.Valid m) {stream : List β}
    (h : stream <+: ms.flatMap F.frame) :
    (F.reader.feed F.start stream).1 <+: ms.takeWhile F.admits := by
  obtain ⟨rest, hrest⟩ := h
  have hall := congrArg Prod.fst (F.feed_eq hvalid)
  rw [← hrest, Reader.feed_append] at hall
  exact ⟨_, hall⟩

end Framing

end PbdZmq
