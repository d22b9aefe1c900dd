import PbdZmq.Models.Tasks.Conservation

/-!
# The end of a batch

While no program is stopped, every string keeps moving towards the sink. A batch comes to
rest after a bounded number of operations, and then the sink has either all confirmations it
waits for or all there are.
-/

namespace PbdZmq.Tasks

variable {ω : Type}

/-- The action is not one that stops a program. -/
def Action.Moves : Action ω → Bool
  | .signal | .hand _ | .take _ | .confirm _ | .collect _ => true
  | .stopVent | .stopWorker _ | .stopSink => false

/-- No program can go on. -/
def Rests [DecidableEq ω] (cap : Nat) (site : Site ω) (count : Nat) (c : Batch ω) : Prop :=
  ∀ a : Action ω, a.Moves = true → step cap site count c a = none

/-- One if the start of the batch is still to be sent. -/
def VentPc.unsent : VentPc → Nat
  | .start => 1
  | .send | .stopped => 0

/-- Weight of the strings between the ventilator and the sink, by where they are. -/
def Batch.pending [Fintype ω] (handed taken confirmed : Nat) (c : Batch ω) : Nat :=
  ∑ w, (handed * (c.tasks w).length + taken * (c.worker w).holding.length +
    confirmed * (c.results w).length)

/-- How many operations are possible at most. -/
def Batch.weight [Fintype ω] (c : Batch ω) : Nat :=
  2 * c.vent.pc.unsent + c.start.length + 4 * c.vent.later.length + c.pending 3 2 1

/-- How many strings there are, those that the sink has included. -/
def Batch.strings [Fintype ω] (c : Batch ω) : Nat :=
  c.vent.pc.unsent + c.start.length + c.vent.later.length + c.pending 1 1 1 + c.sink.got.length

/-- What the sink has received so far, in a loop of `count` rounds. -/
def Sink.Counts (count : Nat) (s : Sink ω) : Prop :=
  match s.pc with
  | .recvStart => s.got.length = 0
  | .recv rounds => s.got.length + rounds = count
  | .finished => s.got.length = count + 1
  | .stopped => False

/-- The sink counts its rounds. -/
theorem Sink.Counts.receive {count : Nat} {s : Sink ω} (h : s.Counts count) {pc : SinkPc}
    (hpc : s.pc = .recvStart ∧ pc = .loop count ∨ ∃ rounds, s.pc = .recv rounds ∧ pc = .loop rounds)
    (e : Option ω × Text) : Sink.Counts count ⟨pc, s.got ++ [e]⟩ := by
  have hloop : ∀ rounds, s.got.length + rounds = count →
      Sink.Counts count ⟨.loop rounds, s.got ++ [e]⟩ := by
    intro rounds hrounds
    cases rounds with
    | zero =>
      simp only [Counts, SinkPc.loop, List.length_append, List.length_singleton]
      omega
    | succ rounds =>
      simp only [Counts, SinkPc.loop, List.length_append, List.length_singleton]
      omega
  rcases hpc with ⟨hs, rfl⟩ | ⟨rounds, hs, rfl⟩
  · simp only [Counts, hs] at h
    exact hloop count (by omega)
  · simp only [Counts, hs] at h
    exact hloop rounds h

/-- A sink in its loop takes whatever comes. -/
theorem Sink.Counts.isSome_receive {count : Nat} {s : Sink ω} (h : s.Counts count)
    (hpc : s.pc ≠ .finished) (peer : Option ω) (string : Text) :
    ∃ t, s.receive count peer string = some t := by
  cases hs : s.pc with
  | recvStart | recv rounds => simp [Sink.receive, hs]
  | finished => exact absurd hs hpc
  | stopped => simp [Counts, hs] at h

/-- A worker that has taken a string holds its confirmation, unless it failed. -/
theorem Worker.length_holding_receive (site : Site ω) (w : ω) (k : Worker) (string : Text) :
    (k.receive site w string).holding.length = if site.sleeps string then 1 else 0 := by
  cases hsleeps : site.sleeps string <;> simp [receive, hsleeps, holding]

variable [DecidableEq ω]

section

variable {cap : Nat} {site : Site ω} {count : Nat} {c : Batch ω} {w : ω}

/-- A sink that waits has emptied the pipes to it. -/
theorem Rests.pipes_empty (hrests : Rests cap site count c) (hsink : c.sink.Counts count)
    (hpc : c.sink.pc ≠ .finished) : c.start = [] ∧ ∀ w, c.results w = [] := by
  constructor
  · cases hstart : c.start with
    | nil => rfl
    | cons string rest =>
      obtain ⟨t, ht⟩ := hsink.isSome_receive hpc none string
      have hnone := hrests (.collect none) rfl
      simp [Tasks.step, hstart, ht] at hnone
  · intro w
    cases hresults : c.results w with
    | nil => rfl
    | cons string rest =>
      obtain ⟨t, ht⟩ := hsink.isSome_receive hpc (some w) string
      have hnone := hrests (.collect (some w)) rfl
      simp [Tasks.step, hresults, ht] at hnone

/-- With the pipe behind it empty, a worker waits for a task that is not there. -/
theorem Rests.worker_empty (hrests : Rests cap site count c) (hcap : 0 < cap)
    (hworker : (c.worker w).Working) (hresults : c.results w = []) :
    (c.worker w).pc = .recv ∧ c.tasks w = [] := by
  rcases hworker with hpc | ⟨string, hpc⟩
  · refine ⟨hpc, ?_⟩
    cases htasks : c.tasks w with
    | nil => rfl
    | cons string rest =>
      have hnone := hrests (.take w) rfl
      simp [Tasks.step, htasks, hpc] at hnone
  · have hnone := hrests (.confirm w) rfl
    simp [Tasks.step, hpc, hresults, hcap] at hnone

/-- With the pipes behind it empty, the ventilator has sent everything. -/
theorem Rests.vent_empty (hrests : Rests cap site count c) (hcap : 0 < cap) (w : ω)
    (hvent : c.vent.pc ≠ .stopped) (hstart : c.start = []) (htasks : c.tasks w = []) :
    c.vent.pc = .send ∧ c.vent.later = [] := by
  cases hpc : c.vent.pc with
  | start =>
    have hnone := hrests .signal rfl
    simp [Tasks.step, hpc, hstart, hcap] at hnone
  | send =>
    refine ⟨rfl, ?_⟩
    cases hlater : c.vent.later with
    | nil => rfl
    | cons workload later =>
      have hnone := hrests (.hand w) rfl
      simp [Tasks.step, hlater, hpc, htasks, hcap] at hnone
  | stopped => exact absurd hpc hvent

end

section

variable [Fintype ω] {cap : Nat} {site : Site ω} {count : Nat} {c d : Batch ω}
  {a : Action ω} {w : ω}

/-- One worker and its pipes change. -/
theorem pending_update (a₁ a₂ a₃ : Nat) (c : Batch ω) (w : ω) (k : Worker)
    (tasks results : List Text) (vent : Vent) (sink : Sink ω) (start : List Text) :
    Batch.pending a₁ a₂ a₃ ⟨vent, Function.update c.worker w k, sink, start,
        Function.update c.tasks w tasks, Function.update c.results w results⟩ +
      (a₁ * (c.tasks w).length + a₂ * (c.worker w).holding.length +
        a₃ * (c.results w).length) =
    c.pending a₁ a₂ a₃ + (a₁ * tasks.length + a₂ * k.holding.length + a₃ * results.length) := by
  have hsum := sum_update_add (fun _ (x : List Text × Worker × List Text) =>
    a₁ * x.1.length + a₂ * x.2.1.holding.length + a₃ * x.2.2.length)
    (fun j => (c.tasks j, c.worker j, c.results j)) w (tasks, k, results)
  rw [Batch.pending, Batch.pending, ← hsum]
  congr 1
  refine Finset.sum_congr rfl fun j _ => ?_
  by_cases hj : j = w
  · subst hj
    simp
  · simp [Function.update_of_ne hj]

/-- What an operation does to the strings between the ventilator and the sink. -/
theorem Stepped.pending (hs : Stepped cap site count c a d) (ha : a.Moves = true)
    (a₁ a₂ a₃ : Nat) :
    match a with
    | .hand _ => d.pending a₁ a₂ a₃ = c.pending a₁ a₂ a₃ + a₁
    | .take w => d.pending a₁ a₂ a₃ + a₁ =
        c.pending a₁ a₂ a₃ + a₂ * (d.worker w).holding.length
    | .confirm _ => d.pending a₁ a₂ a₃ + a₂ = c.pending a₁ a₂ a₃ + a₃
    | .collect (some _) => d.pending a₁ a₂ a₃ + a₃ = c.pending a₁ a₂ a₃
    | _ => d.pending a₁ a₂ a₃ = c.pending a₁ a₂ a₃ := by
  cases hs with
  | signal _ | collectStart _ _ => rfl
  | @hand w workload later _ _ =>
    have hsum := pending_update a₁ a₂ a₃ c w (c.worker w)
      (c.tasks w ++ [taskString workload]) (c.results w) ⟨c.vent.pc, later⟩ c.sink c.start
    simp only [Function.update_eq_self, List.length_append, List.length_singleton,
      Nat.mul_add, Nat.mul_one] at hsum
    simp only
    omega
  | @take w string rest htasks hpc =>
    have hsum := pending_update a₁ a₂ a₃ c w
      ((c.worker w).receive site w string) rest (c.results w) c.vent c.sink c.start
    simp only [Function.update_eq_self, htasks, List.length_cons, Nat.mul_add, Nat.mul_one,
      Worker.holding, hpc, List.length_nil, Nat.mul_zero] at hsum
    simp only [Function.update_self, Worker.holding]
    omega
  | @confirm w string hpc =>
    have hsum := pending_update a₁ a₂ a₃ c w
      { c.worker w with pc := .recv } (c.tasks w) (c.results w ++ [string]) c.vent c.sink c.start
    simp only [Function.update_eq_self, Worker.holding, hpc, List.length_append,
      List.length_singleton, List.length_nil, Nat.mul_add, Nat.mul_one, Nat.mul_zero] at hsum
    simp only
    omega
  | @collect w string rest pc hresults _ =>
    have hsum := pending_update a₁ a₂ a₃ c w (c.worker w) (c.tasks w)
      rest c.vent ⟨pc, c.sink.got ++ [(some w, string)]⟩ c.start
    simp only [Function.update_eq_self, hresults, List.length_cons, Nat.mul_add,
      Nat.mul_one] at hsum
    simp only
    omega
  | stopVent | stopWorker | stopSink => contradiction

/-- Every operation moves a string on. -/
theorem Stepped.weight_lt (hs : Stepped cap site count c a d) (ha : a.Moves = true) :
    d.weight < c.weight := by
  have hpending := hs.pending ha 3 2 1
  cases hs with
  | signal hpc =>
    simp only at hpending
    simp only [Batch.weight, hpending, hpc, VentPc.unsent, List.length_append,
      List.length_singleton]
    omega
  | hand hlater _ =>
    simp only at hpending
    simp only [Batch.weight, hpending, hlater, List.length_cons]
    omega
  | @take w string rest _ _ =>
    simp only [Function.update_self, Worker.length_holding_receive] at hpending
    have hone : (if site.sleeps string then 1 else 0) ≤ 1 := by
      split <;> omega
    simp only [Batch.weight]
    omega
  | confirm _ | collect _ _ =>
    simp only at hpending
    simp only [Batch.weight]
    omega
  | collectStart hstart _ =>
    simp only at hpending
    simp only [Batch.weight, hpending, hstart, List.length_cons]
    omega
  | stopVent | stopWorker | stopSink => contradiction

/-- No string is lost while no worker fails. -/
theorem Stepped.strings_eq (hs : Stepped cap site count c a d) (ha : a.Moves = true)
    (hsleeps : ∀ w, ∀ string ∈ c.tasks w, site.sleeps string = true) :
    d.strings = c.strings := by
  have hpending := hs.pending ha 1 1 1
  cases hs with
  | signal hpc =>
    simp only at hpending
    simp only [Batch.strings, hpending, hpc, VentPc.unsent, List.length_append,
      List.length_singleton]
    omega
  | hand hlater _ =>
    simp only at hpending
    simp only [Batch.strings, hpending, hlater, List.length_cons]
    omega
  | @take w string rest htasks _ =>
    have hsleep := hsleeps w string (htasks ▸ List.mem_cons_self)
    simp only [Function.update_self, Worker.length_holding_receive, hsleep, if_true] at hpending
    simp only [Batch.strings]
    omega
  | confirm _ =>
    simp only at hpending
    simp only [Batch.strings]
    omega
  | collect _ _ =>
    simp only at hpending
    simp only [Batch.strings, List.length_append, List.length_singleton]
    omega
  | collectStart hstart _ =>
    simp only at hpending
    simp only [Batch.strings, hpending, hstart, List.length_cons, List.length_append,
      List.length_nil]
    omega
  | stopVent | stopWorker | stopSink => contradiction

/-- A batch that no failure has touched. -/
structure Moving (count total : Nat) (c : Batch ω) : Prop where
  vent : c.vent.pc ≠ .stopped
  worker : ∀ w, (c.worker w).Working
  sink : c.sink.Counts count
  strings : c.strings = total

/-- Operations without failures. -/
theorem Moving.step {total : Nat} (h : Moving count total c)
    (hs : Stepped cap site count c a d) (ha : a.Moves = true)
    (hsleeps : ∀ w, ∀ string ∈ c.tasks w, site.sleeps string = true) : Moving count total d := by
  have hstrings := (hs.strings_eq ha hsleeps).trans h.strings
  cases hs with
  | signal _ => exact ⟨by simp, h.worker, h.sink, hstrings⟩
  | hand _ _ => exact ⟨h.vent, h.worker, h.sink, hstrings⟩
  | @take w string rest htasks _ =>
    refine ⟨h.vent, ?_, h.sink, hstrings⟩
    refine (Function.forall_update_iff c.worker fun _ k => k.Working).mpr
      ⟨Or.inr ⟨site.confirmation w string, ?_⟩, fun j _ => h.worker j⟩
    rw [Worker.receive, if_pos (hsleeps w string (htasks ▸ List.mem_cons_self))]
  | confirm _ =>
    exact ⟨h.vent, (Function.forall_update_iff c.worker fun _ k => k.Working).mpr
      ⟨Or.inl rfl, fun j _ => h.worker j⟩, h.sink, hstrings⟩
  | collectStart _ hpc | collect _ hpc =>
    exact ⟨h.vent, h.worker, h.sink.receive hpc _, hstrings⟩
  | stopVent | stopWorker | stopSink => contradiction

/-- A batch at rest. -/
theorem Moving.length_got_of_rests [Nonempty ω] {total : Nat} (h : Moving count total c)
    (hcap : 0 < cap) (hrests : Rests cap site count c) :
    c.sink.got.length = min (count + 1) total ∧
      (c.sink.pc = .finished ↔ count < total) := by
  have hstrings := h.strings
  have hsink := h.sink
  by_cases hpc : c.sink.pc = .finished
  · simp only [Sink.Counts, hpc] at hsink
    simp only [Batch.strings, hsink] at hstrings
    exact ⟨by omega, iff_of_true hpc (by omega)⟩
  · obtain ⟨hstart, hresults⟩ := hrests.pipes_empty hsink hpc
    have hworkers := fun w => hrests.worker_empty hcap (h.worker w) (hresults w)
    obtain ⟨w⟩ := ‹Nonempty ω›
    obtain ⟨hvent, hlater⟩ := hrests.vent_empty hcap w h.vent hstart (hworkers w).2
    have hpending : c.pending 1 1 1 = 0 := Finset.sum_eq_zero fun j _ => by
      simp [(hworkers j).1, (hworkers j).2, hresults j, Worker.holding]
    have hgot : c.sink.got.length = total := by
      simpa [Batch.strings, hpending, hstart, hlater, hvent, VentPc.unsent] using hstrings
    have hle : c.sink.got.length ≤ count := by
      cases hs : c.sink.pc with
      | recvStart =>
        simp only [Sink.Counts, hs] at hsink
        omega
      | recv rounds =>
        simp only [Sink.Counts, hs] at hsink
        omega
      | finished => exact absurd hs hpc
      | stopped => simp [Sink.Counts, hs] at hsink
    exact ⟨by omega, iff_of_false hpc (by omega)⟩

/-- All confirmations of a worker that has nothing more to do are with the sink. -/
theorem Moving.from_eq {total : Nat} {workloads : List Nat} (h : Moving count total c)
    (hc : Conserved site workloads c) (hresults : c.results w = [])
    (hpc : (c.worker w).pc = .recv) :
    c.sink.from (some w) = (c.worker w).taken.map (site.confirmation w) := by
  obtain ⟨missing, heq, hworking⟩ := hc.confirms w
  rw [hworking (h.worker w), hresults, Worker.holding, hpc] at heq
  simpa using heq

/-- Runs without failures are failure-free in every state. -/
theorem moving_reach {workloads : List Nat}
    (hsleeps : ∀ x ∈ workloads, site.sleeps (taskString x) = true)
    (h : Reach (Fires (Tasks.step cap site count)) (fun _ a => a.Moves = true)
      (.begin workloads) c) :
    Moving count (workloads.length + 1) c ∧ Conserved site workloads c := by
  refine Reach.invariant (I := fun c => Moving count (workloads.length + 1) c ∧
    Conserved site workloads c) ⟨⟨by simp [Batch.begin], fun _ => Or.inl rfl, ?_, ?_⟩,
      Conserved.begin site workloads⟩ ?_ h
  · rfl
  · simp [Batch.strings, Batch.begin, Batch.pending, VentPc.unsent, Worker.holding, Nat.add_comm]
  · rintro c a d ⟨hmoving, hc⟩ ha hs
    have hstep := stepped_of_step hs
    refine ⟨hmoving.step hstep ha fun w string hmem => ?_, hc.step hstep⟩
    have htask : string ∈ workloads.map taskString := (hc.inOrder w).subset
      (List.mem_append_left _ (List.mem_append_right _ hmem))
    obtain ⟨x, hx, rfl⟩ := List.mem_map.mp htask
    exact hsleeps x hx

/-- A batch in which no program is stopped and no worker fails, with any number of workers.
It comes to rest after a bounded number of operations. The sink then has as many strings as
it waits for, or as there are, and it has finished if there were enough. If there were not,
every worker has done its tasks and all confirmations are collected. -/
theorem batch_completes [Nonempty ω] {workloads : List Nat}
    (hsleeps : ∀ x ∈ workloads, site.sleeps (taskString x) = true) (hcap : 0 < cap)
    {labels : List (Action ω)}
    (hrun : exec (Tasks.step cap site count) (fun _ a => a.Moves) (.begin workloads) labels =
      some c) :
    labels.length ≤ 4 * workloads.length + 2 ∧ (Rests cap site count c →
      c.sink.got.length = min count workloads.length + 1 ∧
      (c.sink.pc = .finished ↔ count ≤ workloads.length) ∧
      (workloads.length < count →
        ∑ w, ((c.worker w).taken : Multiset Text) =
          (workloads.map taskString : Multiset Text) ∧
        ∀ w, c.sink.from (some w) = (c.worker w).taken.map (site.confirmation w))) := by
  obtain ⟨hmoving, hc⟩ := moving_reach hsleeps (reach_of_exec .init hrun)
  constructor
  · have hlength := length_le_of_exec Batch.weight
      (fun _ (a : Action ω) _ (ha : a.Moves = true) hs => (stepped_of_step hs).weight_lt ha) hrun
    have hstart : (Batch.begin workloads : Batch ω).weight = 2 + 4 * workloads.length := by
      simp [Batch.weight, Batch.begin, Batch.pending, VentPc.unsent, Worker.holding]
    omega
  · intro hrests
    obtain ⟨hgot, hfinished⟩ := hmoving.length_got_of_rests hcap hrests
    refine ⟨by omega, by rw [hfinished, Nat.lt_succ_iff], fun hless => ?_⟩
    have hpc : c.sink.pc ≠ .finished := fun hpc => by
      have := hfinished.mp hpc
      omega
    obtain ⟨hstart, hresults⟩ := hrests.pipes_empty hmoving.sink hpc
    have hworkers := fun w => hrests.worker_empty hcap (hmoving.worker w) (hresults w)
    obtain ⟨w⟩ := ‹Nonempty ω›
    obtain ⟨-, hlater⟩ := hrests.vent_empty hcap w hmoving.vent hstart (hworkers w).2
    refine ⟨?_, fun w => hmoving.from_eq hc (hresults w) (hworkers w).1⟩
    have htasks := hc.tasks
    simpa [Batch.share, hlater, fun w => (hworkers w).2] using htasks

end

/-- Two workers share two tasks, and the sink has all it waits for. -/
theorem batch_completes_run : ∃ c : Batch Bool, Rests 1 ⟨fun _ => 7, fun _ => true⟩ 2 c ∧
    c.sink.got.length = 3 ∧ c.sink.pc = .finished := by
  obtain ⟨c, hc, hp⟩ := (Option.any_eq_true _ _).mp (show (exec
    (Tasks.step 1 ⟨fun _ => 7, fun _ => true⟩ 2) (fun _ a => a.Moves)
    (Batch.begin [2, 3] : Batch Bool) [.signal, .hand true, .hand false, .take false,
      .confirm false, .collect (some false), .take true, .collect none, .confirm true,
      .collect (some true)]).any (fun c =>
        [.signal, .hand true, .hand false, .take true, .take false, .confirm true,
          .confirm false, .collect none, .collect (some true), .collect (some false)].all
        fun a => (Tasks.step 1 ⟨fun _ => 7, fun _ => true⟩ 2 c a).isNone) = true by decide)
  have hrests : Rests 1 ⟨fun _ => 7, fun _ => true⟩ 2 c := by
    intro a ha
    refine Option.isNone_iff_eq_none.mp (List.all_eq_true.mp hp a ?_)
    rcases a with _ | (_ | _) | (_ | _) | (_ | _) | (_ | _ | _) | _ | _ | _ <;>
      first | contradiction | decide
  obtain ⟨-, hend⟩ := batch_completes (by decide) Nat.one_pos hc
  obtain ⟨hgot, hfinished, -⟩ := hend hrests
  exact ⟨c, hrests, hgot, hfinished.mpr (Nat.le_refl 2)⟩

end PbdZmq.Tasks
