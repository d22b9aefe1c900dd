import Mathlib.Data.List.Basic

/-!
# An object that serves requests one at a time

A sequential object reacts to one request after another. Its log tells which client
asked what and what it was answered. Whoever claims that some system with concurrent
clients behaves like the object has to name a log that the object can produce and that
every client can take for its own history.
-/

namespace PbdZmq

variable {ι σ α β : Type*}

/-- What an object does with a request: it answers and goes on, answers and stops, or
stops without an answer. -/
inductive Response (σ β : Type*)
  | answer (b : β) (s : σ)
  | last (b : β)
  | fail
  deriving DecidableEq, Repr

/-- What the client is told. -/
def Response.told : Response σ β → Option β
  | .answer b _ | .last b => some b
  | .fail => none

/-- The state of the object afterwards, unless it has stopped. -/
def Response.next : Response σ β → Option σ
  | .answer _ s => some s
  | .last _ | .fail => none

/-- A request that was served. -/
structure Served (ι α β : Type*) where
  client : ι
  request : α
  answer : Option β
  deriving DecidableEq, Repr

/-- The logs of an object, with its state behind them. -/
inductive Serves (react : σ → α → Response σ β) (start : σ) :
    List (Served ι α β) → Option σ → Prop
  | init : Serves react start [] (some start)
  | serve {log s} (i : ι) (a : α) : Serves react start log (some s) →
      Serves react start (log ++ [⟨i, a, (react s a).told⟩]) (react s a).next

/-- As long as the object has not stopped it has answered every request. -/
theorem Serves.isSome_answer {react : σ → α → Response σ β} {start s : σ}
    {log : List (Served ι α β)} {o : Option σ} (h : Serves react start log o) (ho : o = some s) :
    ∀ e ∈ log, e.answer.isSome := by
  induction h generalizing s with
  | init => nofun
  | @serve log t i a _ ih =>
    intro e he
    rcases List.mem_append.mp he with he | he
    · exact ih rfl e he
    · obtain rfl := List.mem_singleton.mp he
      cases hr : react t a with
      | answer => rfl
      | last | fail => simp [hr, Response.next] at ho

variable [DecidableEq ι]

/-- The part of a log that one client knows of. -/
def historyOf (i : ι) (log : List (Served ι α β)) : List (Served ι α β) :=
  log.filter fun e => e.client = i

/-- The requests of one client in a log. -/
def requestsOf (i : ι) (log : List (Served ι α β)) : List α := (historyOf i log).map Served.request

/-- The answers to one client in a log. -/
def answersOf (i : ι) (log : List (Served ι α β)) : List β :=
  (historyOf i log).filterMap Served.answer

theorem requestsOf_concat_self (i : ι) (log : List (Served ι α β)) (a : α) (b : Option β) :
    requestsOf i (log ++ [⟨i, a, b⟩]) = requestsOf i log ++ [a] := by
  simp [requestsOf, historyOf]

theorem requestsOf_concat_of_ne {i j : ι} (h : j ≠ i) (log : List (Served ι α β)) (a : α)
    (b : Option β) : requestsOf i (log ++ [⟨j, a, b⟩]) = requestsOf i log := by
  simp [requestsOf, historyOf, h]

theorem answersOf_concat_self (i : ι) (log : List (Served ι α β)) (a : α) (b : Option β) :
    answersOf i (log ++ [⟨i, a, b⟩]) = answersOf i log ++ b.toList := by
  cases b <;> simp [answersOf, historyOf]

theorem answersOf_concat_of_ne {i j : ι} (h : j ≠ i) (log : List (Served ι α β)) (a : α)
    (b : Option β) : answersOf i (log ++ [⟨j, a, b⟩]) = answersOf i log := by
  simp [answersOf, historyOf, h]

/-- A client of an object that has not stopped is told one answer for each request. -/
theorem Serves.length_answersOf {react : σ → α → Response σ β} {start s : σ}
    {log : List (Served ι α β)} (h : Serves react start log (some s)) (i : ι) :
    (answersOf i log).length = (requestsOf i log).length := by
  rw [answersOf, requestsOf, List.length_map, List.filterMap_length_eq_length]
  intro e he
  exact h.isSome_answer rfl e (List.mem_of_mem_filter he)

/-- The answer that a client is told at some place of its history belongs to the request
at that place. -/
theorem Serves.getElem?_answersOf {react : σ → α → Response σ β} {start : σ}
    {log : List (Served ι α β)} {o : Option σ} (h : Serves react start log o) {i : ι} {n : Nat}
    {b : β} (hn : (answersOf i log)[n]? = some b) :
    ∃ a, (historyOf i log)[n]? = some ⟨i, a, some b⟩ := by
  induction h with
  | init => simp [answersOf, historyOf] at hn
  | @serve log s j a hserves ih =>
    by_cases hj : j = i
    · subst j
      have hlength := hserves.length_answersOf i
      rw [requestsOf, List.length_map] at hlength
      rw [answersOf_concat_self] at hn
      rw [historyOf, List.filter_append, ← historyOf]
      rcases Nat.lt_or_ge n (answersOf i log).length with hlt | hge
      · rw [List.getElem?_append_left hlt] at hn
        rw [List.getElem?_append_left (hlength ▸ hlt)]
        exact ih hn
      · rw [List.getElem?_append_right hge] at hn
        rw [List.getElem?_append_right (hlength ▸ hge), ← hlength]
        cases htold : (react s a).told with
        | none => simp [htold] at hn
        | some b' =>
          rw [htold, Option.toList_some, List.getElem?_singleton] at hn
          split at hn
          · rename_i hzero
            obtain rfl := Option.some.inj hn
            exact ⟨a, by simp [hzero]⟩
          · contradiction
    · rw [answersOf_concat_of_ne hj] at hn
      simpa [historyOf, hj] using ih hn

end PbdZmq
