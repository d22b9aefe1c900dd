import Mathlib.Logic.Function.Basic
import PbdZmq.Core.Decimal
import PbdZmq.Core.System

/-!
# The ventilator, the workers and the sink

The ventilator tells the sink that a batch starts and pushes the tasks to the workers.
A worker pulls a task, sleeps and pushes a confirmation. The sink pulls the start and
then a number of confirmations. A PUSH hands each message to any connected peer that has
room; a PULL takes the next message of any peer. Nothing orders messages of different
peers. Strings stand for the messages that carry them.
-/

namespace PbdZmq.Tasks

/-- What the workers take from their surroundings. -/
structure Site (ω : Type) where
  /-- `Sys.getpid()`. -/
  pid : ω → Nat
  /-- `Sys.sleep(as.integer(string$buf) / 1000)` raises no error. -/
  sleeps : Text → Bool

/-- The string that starts a batch. -/
def startString : Text := ['0']

/-- `sprintf("%d", workload)`. -/
def taskString (workload : Nat) : Text := decimal workload

/-- `paste("sleep", string$buf, "sec at", Sys.getpid())`. -/
def Site.confirmation {ω : Type} (site : Site ω) (w : ω) (buf : Text) : Text :=
  "sleep ".toList ++ buf ++ " sec at ".toList ++ decimal (site.pid w)

/-- Control points of the ventilator. -/
inductive VentPc
  /-- `zmq.send(sink, "0")`. -/
  | start
  /-- `zmq.send(sender, string)`, or the end if no task is left. -/
  | send
  /-- The process was stopped. -/
  | stopped
  deriving DecidableEq, Repr

/-- The ventilator. -/
structure Vent where
  pc : VentPc
  /-- Workloads of the rounds to come. -/
  later : List Nat
  deriving DecidableEq, Repr

/-- Control points of a worker. -/
inductive WorkerPc
  /-- `zmq.recv(receiver)`. -/
  | recv
  /-- `zmq.send(sender, string)`. -/
  | send (string : Text)
  /-- An R error ended the script. -/
  | raised
  /-- The process was stopped. -/
  | stopped
  deriving DecidableEq, Repr

/-- A worker. -/
structure Worker where
  pc : WorkerPc
  /-- History: the strings received. -/
  taken : List Text
  deriving DecidableEq, Repr

/-- Control points of the sink. -/
inductive SinkPc
  /-- `zmq.recv(receiver)` before the loop. -/
  | recvStart
  /-- `zmq.recv(receiver)` in the loop, with this many rounds to come. -/
  | recv (rounds : Nat)
  | finished
  /-- The process was stopped. -/
  | stopped
  deriving DecidableEq, Repr

/-- The top of the loop of the sink. -/
def SinkPc.loop : Nat → SinkPc
  | 0 => .finished
  | rounds + 1 => .recv rounds

/-- The sink. -/
structure Sink (ω : Type) where
  pc : SinkPc
  /-- History: the strings received, with their worker; none for the ventilator. -/
  got : List (Option ω × Text)
  deriving DecidableEq, Repr

/-- The programs and the strings under way. -/
structure Batch (ω : Type) where
  vent : Vent
  worker : ω → Worker
  sink : Sink ω
  /-- From the ventilator to the sink. -/
  start : List Text
  /-- From the ventilator to each worker. -/
  tasks : ω → List Text
  /-- From each worker to the sink. -/
  results : ω → List Text

/-- Who acts, and which peer is concerned. -/
inductive Action (ω : Type)
  | signal
  | hand (w : ω)
  | take (w : ω)
  | confirm (w : ω)
  | collect (peer : Option ω)
  | stopVent
  | stopWorker (w : ω)
  | stopSink
  deriving DecidableEq, Repr

variable {ω : Type}

/-- All programs at their first call. -/
def Batch.begin (workloads : List Nat) : Batch ω where
  vent := ⟨.start, workloads⟩
  worker _ := ⟨.recv, []⟩
  sink := ⟨.recvStart, []⟩
  start := []
  tasks _ := []
  results _ := []

/-- A worker that has received a string. -/
def Worker.receive (site : Site ω) (w : ω) (k : Worker) (string : Text) : Worker :=
  ⟨if site.sleeps string then .send (site.confirmation w string) else .raised,
    k.taken ++ [string]⟩

/-- The sink after a receive, in a loop of `count` rounds. -/
def Sink.receive (count : Nat) (s : Sink ω) (peer : Option ω) (string : Text) :
    Option (Sink ω) :=
  match s.pc with
  | .recvStart => some ⟨.loop count, s.got ++ [(peer, string)]⟩
  | .recv rounds => some ⟨.loop rounds, s.got ++ [(peer, string)]⟩
  | .finished | .stopped => none

/-- One operation, over pipes of capacity `cap`; none if it has to wait. -/
def step [DecidableEq ω] (cap : Nat) (site : Site ω) (count : Nat) (c : Batch ω) :
    Action ω → Option (Batch ω)
  | .signal =>
    if c.vent.pc = .start ∧ c.start.length < cap then
      some { c with vent := { c.vent with pc := .send }, start := c.start ++ [startString] }
    else none
  | .hand w =>
    match c.vent.later with
    | [] => none
    | workload :: later =>
      if c.vent.pc = .send ∧ (c.tasks w).length < cap then
        some { c with
          vent := { c.vent with later := later }
          tasks := Function.update c.tasks w (c.tasks w ++ [taskString workload]) }
      else none
  | .take w =>
    match c.tasks w with
    | [] => none
    | string :: rest =>
      if (c.worker w).pc = .recv then
        some { c with
          worker := Function.update c.worker w ((c.worker w).receive site w string)
          tasks := Function.update c.tasks w rest }
      else none
  | .confirm w =>
    match (c.worker w).pc with
    | .send string =>
      if (c.results w).length < cap then
        some { c with
          worker := Function.update c.worker w { c.worker w with pc := .recv }
          results := Function.update c.results w (c.results w ++ [string]) }
      else none
    | .recv | .raised | .stopped => none
  | .collect none =>
    match c.start with
    | [] => none
    | string :: rest =>
      (c.sink.receive count none string).map fun sink => { c with sink := sink, start := rest }
  | .collect (some w) =>
    match c.results w with
    | [] => none
    | string :: rest =>
      (c.sink.receive count (some w) string).map fun sink =>
        { c with sink := sink, results := Function.update c.results w rest }
  | .stopVent => some { c with vent := { c.vent with pc := .stopped } }
  | .stopWorker w =>
    some { c with worker := Function.update c.worker w { c.worker w with pc := .stopped } }
  | .stopSink => some { c with sink := { c.sink with pc := .stopped } }

/-- Everything that one operation can do. -/
inductive Stepped [DecidableEq ω] (cap : Nat) (site : Site ω) (count : Nat) (c : Batch ω) :
    Action ω → Batch ω → Prop
  | signal : c.vent.pc = .start → Stepped cap site count c .signal
      { c with vent := { c.vent with pc := .send }, start := c.start ++ [startString] }
  | hand {w workload later} : c.vent.later = workload :: later → c.vent.pc = .send →
      Stepped cap site count c (.hand w)
        { c with
          vent := { c.vent with later := later }
          tasks := Function.update c.tasks w (c.tasks w ++ [taskString workload]) }
  | take {w string rest} : c.tasks w = string :: rest → (c.worker w).pc = .recv →
      Stepped cap site count c (.take w)
        { c with
          worker := Function.update c.worker w ((c.worker w).receive site w string)
          tasks := Function.update c.tasks w rest }
  | confirm {w string} : (c.worker w).pc = .send string → Stepped cap site count c (.confirm w)
      { c with
        worker := Function.update c.worker w { c.worker w with pc := .recv }
        results := Function.update c.results w (c.results w ++ [string]) }
  | collectStart {string rest pc} : c.start = string :: rest →
      (c.sink.pc = .recvStart ∧ pc = .loop count ∨
        ∃ rounds, c.sink.pc = .recv rounds ∧ pc = .loop rounds) →
      Stepped cap site count c (.collect none)
        { c with sink := ⟨pc, c.sink.got ++ [(none, string)]⟩, start := rest }
  | collect {w string rest pc} : c.results w = string :: rest →
      (c.sink.pc = .recvStart ∧ pc = .loop count ∨
        ∃ rounds, c.sink.pc = .recv rounds ∧ pc = .loop rounds) →
      Stepped cap site count c (.collect (some w))
        { c with
          sink := ⟨pc, c.sink.got ++ [(some w, string)]⟩
          results := Function.update c.results w rest }
  | stopVent : Stepped cap site count c .stopVent
      { c with vent := { c.vent with pc := .stopped } }
  | stopWorker {w} : Stepped cap site count c (.stopWorker w)
      { c with worker := Function.update c.worker w { c.worker w with pc := .stopped } }
  | stopSink : Stepped cap site count c .stopSink
      { c with sink := { c.sink with pc := .stopped } }

/-- What a receive does to the sink. -/
theorem Sink.receive_eq_some {count : Nat} {s t : Sink ω} {peer : Option ω} {string : Text}
    (h : s.receive count peer string = some t) :
    ∃ pc, t = ⟨pc, s.got ++ [(peer, string)]⟩ ∧
      (s.pc = .recvStart ∧ pc = .loop count ∨
        ∃ rounds, s.pc = .recv rounds ∧ pc = .loop rounds) := by
  cases hpc : s.pc with
  | recvStart =>
    simp only [receive, hpc, Option.some.injEq] at h
    exact ⟨_, h.symm, Or.inl ⟨rfl, rfl⟩⟩
  | recv rounds =>
    simp only [receive, hpc, Option.some.injEq] at h
    exact ⟨_, h.symm, Or.inr ⟨rounds, rfl, rfl⟩⟩
  | finished | stopped => simp [receive, hpc] at h

/-- The executable step does nothing but what is listed. -/
theorem stepped_of_step [DecidableEq ω] {cap : Nat} {site : Site ω} {count : Nat}
    {c d : Batch ω} {a : Action ω} (h : step cap site count c a = some d) :
    Stepped cap site count c a d := by
  cases a with
  | signal =>
    rw [step] at h
    split at h
    · rename_i hpc
      exact Option.some.inj h ▸ .signal hpc.1
    · contradiction
  | hand w =>
    rw [step] at h
    split at h
    · contradiction
    · rename_i workload later hlater
      split at h
      · rename_i hpc
        exact Option.some.inj h ▸ .hand hlater hpc.1
      · contradiction
  | take w =>
    rw [step] at h
    split at h
    · contradiction
    · rename_i string rest htasks
      split at h
      · rename_i hpc
        exact Option.some.inj h ▸ .take htasks hpc
      · contradiction
  | confirm w =>
    rw [step] at h
    split at h
    · rename_i string hpc
      split at h
      · exact Option.some.inj h ▸ .confirm hpc
      · contradiction
    all_goals contradiction
  | collect peer =>
    cases peer with
    | none =>
      rw [step] at h
      split at h
      · contradiction
      · rename_i string rest hstart
        obtain ⟨sink, hsink, rfl⟩ := Option.map_eq_some_iff.mp h
        obtain ⟨pc, rfl, hpc⟩ := Sink.receive_eq_some hsink
        exact .collectStart hstart hpc
    | some w =>
      rw [step] at h
      split at h
      · contradiction
      · rename_i string rest hresults
        obtain ⟨sink, hsink, rfl⟩ := Option.map_eq_some_iff.mp h
        obtain ⟨pc, rfl, hpc⟩ := Sink.receive_eq_some hsink
        exact .collect hresults hpc
  | stopVent => exact Option.some.inj h ▸ .stopVent
  | stopWorker w => exact Option.some.inj h ▸ .stopWorker
  | stopSink => exact Option.some.inj h ▸ .stopSink

end PbdZmq.Tasks
