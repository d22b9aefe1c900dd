import Mathlib.Algebra.Order.Group.Multiset
import Mathlib.Algebra.Order.BigOperators.Group.Finset
import PbdZmq.Core.Family
import PbdZmq.Models.Tasks.Batch
import PbdZmq.Models.Text.RoundTrip

/-!
# No task is lost or done twice

Every task of the batch is still with the ventilator, on its way to one worker, or taken by
one worker. The sink receives the confirmations of each worker in the order of its tasks,
and no others. This holds in every state of every run, whichever programs are stopped.
-/

namespace PbdZmq.Tasks

open Text (RString zmqSend zmqRecv bytes_le_length_iff length_le_bytes zmqSend_character
  zmqRecv_char)

variable {ω : Type}

/-- An ASCII text of bounded length. -/
structure Plain (room : Nat) (cs : Text) : Prop where
  length_le : cs.length ≤ room
  ascii : ∀ c ∈ cs, c.toNat ≠ 0 ∧ c.toNat ≤ 127

/-- `zmq.recv` with its default length gets the string that `zmq.send` was given. -/
def Delivered (cs : Text) : Prop :=
  ∃ s : RString, s.chars = cs ∧ ∀ before, ∃ m, zmqSend (.character s) = .ok (some m) ∧
    zmqRecv before 1024 "char" m = .ok (some ⟨s.bytes, s.bytes.length⟩)

theorem Plain.append {a b : Nat} {cs ds : Text} (hcs : Plain a cs) (hds : Plain b ds) :
    Plain (a + b) (cs ++ ds) := by
  refine ⟨?_, fun c hc => (List.mem_append.mp hc).elim (hcs.ascii c) (hds.ascii c)⟩
  rw [List.length_append]
  exact Nat.add_le_add hcs.length_le hds.length_le

/-- The digits of an integer. -/
theorem plain_decimal {n : Nat} (h : n ≤ intMax) : Plain 10 (decimal n) := by
  have hmax : intMax = 2147483647 := rfl
  refine ⟨(Nat.length_toDigits_le_iff (by decide) (by decide)).mpr (by omega), fun c hc => ?_⟩
  have hdigit := Char.isDigit_iff_toNat.mp (isDigit_of_mem_decimal hc)
  have hzero : '0'.toNat = 48 := rfl
  have hnine : '9'.toNat = 57 := rfl
  omega

/-- ASCII texts that leave room for a NUL are delivered. -/
theorem Plain.delivered {room : Nat} {cs : Text} (h : Plain room cs) (hroom : room < 1024) :
    Delivered cs := by
  have hmax : intMax = 2147483647 := rfl
  have hle : (cs.flatMap String.utf8EncodeChar).length = cs.length :=
    Nat.le_antisymm ((bytes_le_length_iff cs).mpr fun c hc => (h.ascii c hc).2)
      (length_le_bytes cs)
  have hlen := h.length_le
  let s : RString := ⟨cs, fun c hc => (h.ascii c hc).1, by omega⟩
  have hbytes : s.bytes.length = s.chars.length := hle
  refine ⟨s, rfl, fun before => ⟨_, zmqSend_character s, ?_⟩⟩
  rw [List.take_of_length_le (Nat.le_of_eq hbytes)]
  refine zmqRecv_char before ?_ (by omega) s.zero_notMem_bytes
  have hchars : s.chars.length = cs.length := rfl
  omega

/-- The confirmation that a worker is about to send. -/
def Worker.holding (k : Worker) : List Text :=
  match k.pc with
  | .send string => [string]
  | .recv | .raised | .stopped => []

/-- The worker will take another task. -/
def Worker.Working (k : Worker) : Prop := k.pc = .recv ∨ ∃ string, k.pc = .send string

/-- Confirmations of one worker: collected, under way, in its hand, and those it will never
send. -/
def Worker.Confirms (site : Site ω) (w : ω) (k : Worker) (collected results : List Text) : Prop :=
  ∃ missing, collected ++ results ++ k.holding ++ missing = k.taken.map (site.confirmation w) ∧
    (k.Working → missing = [])

section

variable {site : Site ω} {w : ω} {k : Worker} {collected results : List Text}

/-- The worker takes a task. -/
theorem Worker.Confirms.take (h : k.Confirms site w collected results) (hpc : k.pc = .recv)
    (string : Text) : (k.receive site w string).Confirms site w collected results := by
  obtain ⟨missing, heq, hworking⟩ := h
  obtain rfl := hworking (Or.inl hpc)
  simp only [holding, hpc, List.append_nil] at heq
  cases hsleeps : site.sleeps string with
  | true =>
    refine ⟨[], ?_, fun _ => rfl⟩
    simp [receive, hsleeps, holding, ← heq]
  | false =>
    refine ⟨[site.confirmation w string], ?_, ?_⟩
    · simp [receive, hsleeps, holding, ← heq]
    · simp [receive, hsleeps, Working]

/-- The worker sends its confirmation. -/
theorem Worker.Confirms.confirm (h : k.Confirms site w collected results) {string : Text}
    (hpc : k.pc = .send string) :
    Worker.Confirms site w { k with pc := .recv } collected (results ++ [string]) := by
  obtain ⟨missing, heq, hworking⟩ := h
  obtain rfl := hworking (Or.inr ⟨string, hpc⟩)
  simp only [holding, hpc] at heq
  refine ⟨[], ?_, fun _ => rfl⟩
  simpa [holding] using heq

/-- The sink receives a confirmation of the worker. -/
theorem Worker.Confirms.collect {string : Text} {rest : List Text}
    (h : k.Confirms site w collected (string :: rest)) :
    k.Confirms site w (collected ++ [string]) rest := by
  obtain ⟨missing, heq, hworking⟩ := h
  refine ⟨missing, ?_, hworking⟩
  simpa using heq

/-- The worker is stopped. -/
theorem Worker.Confirms.stop (h : k.Confirms site w collected results) :
    Worker.Confirms site w { k with pc := .stopped } collected results := by
  obtain ⟨missing, heq, -⟩ := h
  refine ⟨k.holding ++ missing, ?_, by simp [Working]⟩
  simpa [holding] using heq

end

/-- The confirmation of a task. -/
theorem plain_confirmation {site : Site ω} {w : ω} (hpid : site.pid w ≤ intMax) {x : Nat}
    (hx : x ≤ intMax) : Plain 34 (site.confirmation w (taskString x)) := by
  have hsleep : Plain 6 "sleep ".toList := ⟨by decide, by simp⟩
  have hat : Plain 8 " sec at ".toList := ⟨by decide, by simp⟩
  exact ((hsleep.append (plain_decimal hx)).append hat).append (plain_decimal hpid)

variable [DecidableEq ω]

/-- What the sink has received from one peer. -/
def Sink.from (s : Sink ω) (peer : Option ω) : List Text :=
  (s.got.filter fun e => e.1 = peer).map Prod.snd

theorem Sink.from_concat_self (peer : Option ω) (got : List (Option ω × Text)) (string : Text)
    (pc pc' : SinkPc) : Sink.from ⟨pc, got ++ [(peer, string)]⟩ peer =
      Sink.from ⟨pc', got⟩ peer ++ [string] := by
  simp [Sink.from]

theorem Sink.from_concat_of_ne {peer other : Option ω} (h : other ≠ peer)
    (got : List (Option ω × Text)) (string : Text) (pc pc' : SinkPc) :
    Sink.from ⟨pc, got ++ [(other, string)]⟩ peer = Sink.from ⟨pc', got⟩ peer := by
  simp [Sink.from, h]

/-- The tasks that a worker was handed. -/
def Batch.share (c : Batch ω) (w : ω) : List Text := (c.worker w).taken ++ c.tasks w

/-- Every string of a batch is accounted for. -/
structure Conserved [Fintype ω] (site : Site ω) (workloads : List Nat) (c : Batch ω) : Prop where
  tasks : ∑ w, (c.share w : Multiset Text) + (c.vent.later.map taskString : Multiset Text) =
    (workloads.map taskString : Multiset Text)
  inOrder : ∀ w, (c.share w ++ c.vent.later.map taskString).Sublist (workloads.map taskString)
  confirms : ∀ w, (c.worker w).Confirms site w (c.sink.from (some w)) (c.results w)
  start : c.sink.from none ++ c.start ++ (if c.vent.pc = .start then [startString] else []) <+:
    [startString]

section

variable [Fintype ω] {cap : Nat} {site : Site ω} {count : Nat} {workloads : List Nat}
  {c d : Batch ω} {a : Action ω}

/-- Nothing has moved at the start. -/
theorem Conserved.begin (site : Site ω) (workloads : List Nat) :
    Conserved site workloads (.begin workloads) where
  tasks := by simp [Batch.share, Batch.begin]
  inOrder _ := by simp [Batch.share, Batch.begin]
  confirms _ := ⟨[], rfl, fun _ => rfl⟩
  start := List.prefix_refl _

omit [DecidableEq ω] in
/-- Tasks that change hands stay where they are in the sum. -/
theorem sum_share_congr (h : ∀ w, d.share w = c.share w) :
    ∑ w, (d.share w : Multiset Text) = ∑ w, (c.share w : Multiset Text) :=
  Finset.sum_congr rfl fun w _ => by rw [h w]

/-- A step that hands out no task keeps what is said of the tasks. -/
theorem Conserved.of_share (h : Conserved site workloads c) (hshare : ∀ w, d.share w = c.share w)
    (hlater : d.vent.later = c.vent.later)
    (hconfirms : ∀ w, (d.worker w).Confirms site w (d.sink.from (some w)) (d.results w))
    (hstart : d.sink.from none ++ d.start ++ (if d.vent.pc = .start then [startString] else []) <+:
      [startString]) : Conserved site workloads d where
  tasks := by
    rw [sum_share_congr hshare, hlater]
    exact h.tasks
  inOrder w := by
    rw [hshare, hlater]
    exact h.inOrder w
  confirms := hconfirms
  start := hstart

omit [Fintype ω] in
/-- A worker that is replaced by one with the same tasks. -/
theorem share_update {w : ω} {k : Worker} {tasks : ω → List Text}
    (hw : k.taken ++ tasks w = c.share w) (hothers : ∀ j, j ≠ w → tasks j = c.tasks j) (j : ω) :
    (Function.update c.worker w k j).taken ++ tasks j = c.share j := by
  by_cases hj : j = w
  · subst hj
    rwa [Function.update_self]
  · rw [Function.update_of_ne hj, hothers j hj, Batch.share]

/-- One operation moves strings and loses none. -/
theorem Conserved.step (h : Conserved site workloads c) (hs : Stepped cap site count c a d) :
    Conserved site workloads d := by
  cases hs with
  | signal hpc =>
    have hstart := h.start
    rw [if_pos hpc] at hstart
    exact h.of_share (fun _ => rfl) rfl h.confirms (by simpa using hstart)
  | @hand w workload later hlater hpc =>
    have htasks := h.tasks
    have hstart := h.start
    simp only [hlater, List.map_cons] at htasks
    refine ⟨?_, fun j => ?_, h.confirms, by simpa [hpc] using hstart⟩
    · have hgrown : (((c.worker w).taken ++ (c.tasks w ++ [taskString workload]) : List Text) :
          Multiset Text) =
            ((c.worker w).taken ++ c.tasks w : List Text) + {taskString workload} := by
        rw [← List.append_assoc, ← Multiset.coe_add, Multiset.coe_singleton]
      have hsum := sum_update_of_add
        (w := fun j x => (((c.worker j).taken ++ x : List Text) : Multiset Text)) hgrown
      simp only [Batch.share] at htasks ⊢
      rw [hsum, add_assoc, Multiset.singleton_add, Multiset.cons_coe]
      exact htasks
    · have hj := h.inOrder j
      rw [hlater, List.map_cons] at hj
      by_cases hjw : j = w
      · subst hjw
        simpa [Batch.share] using hj
      · refine List.Sublist.trans ?_ hj
        simp [Batch.share, Function.update_of_ne hjw]
  | @take w string rest htasks hpc =>
    refine h.of_share (share_update ?_ fun j hj => Function.update_of_ne hj _ _) rfl ?_ h.start
    · simp [Batch.share, Worker.receive, htasks]
    · exact (Function.forall_update_iff c.worker fun j k =>
        k.Confirms site j (c.sink.from (some j)) (c.results j)).mpr
          ⟨(h.confirms w).take hpc string, fun j _ => h.confirms j⟩
  | @confirm w string hpc =>
    refine h.of_share (share_update rfl fun _ _ => rfl) rfl (fun j => ?_) h.start
    by_cases hj : j = w
    · subst hj
      simpa using (h.confirms j).confirm hpc
    · simpa [Function.update_of_ne hj] using h.confirms j
  | @collectStart string rest pc hstart _ =>
    have hall := h.start
    refine h.of_share (fun _ => rfl) rfl (fun j => ?_) ?_
    · rw [Sink.from_concat_of_ne (by simp) c.sink.got string pc c.sink.pc]
      exact h.confirms j
    · rw [Sink.from_concat_self none c.sink.got string pc c.sink.pc]
      simpa [hstart] using hall
  | @collect w string rest pc hresults _ =>
    refine h.of_share (fun _ => rfl) rfl (fun j => ?_) ?_
    · by_cases hj : j = w
      · subst hj
        rw [Sink.from_concat_self (some j) c.sink.got string pc c.sink.pc]
        simpa using (hresults ▸ h.confirms j).collect
      · rw [Sink.from_concat_of_ne (by simpa using Ne.symm hj) c.sink.got string pc c.sink.pc]
        simpa [Function.update_of_ne hj] using h.confirms j
    · rw [Sink.from_concat_of_ne (by simp) c.sink.got string pc c.sink.pc]
      exact h.start
  | stopVent =>
    refine h.of_share (fun _ => rfl) rfl h.confirms ?_
    simpa using (List.prefix_append _ _).trans h.start
  | @stopWorker w =>
    refine h.of_share (share_update rfl fun _ _ => rfl) rfl ?_ h.start
    exact (Function.forall_update_iff c.worker fun j k =>
      k.Confirms site j (c.sink.from (some j)) (c.results j)).mpr
        ⟨(h.confirms w).stop, fun j _ => h.confirms j⟩
  | stopSink => exact h.of_share (fun _ => rfl) rfl h.confirms h.start

/-- Every string of every state is accounted for. -/
theorem conserved_reach {guard : Batch ω → Action ω → Prop}
    (h : Reach (Fires (Tasks.step cap site count)) guard (.begin workloads) c) :
    Conserved site workloads c :=
  Reach.invariant (I := Conserved site workloads) (Conserved.begin site workloads)
    (fun _ _ _ hc _ hs => hc.step (stepped_of_step hs)) h

/-- The tasks of a worker, and those of all of them, as numbers. -/
theorem Conserved.exists_given (h : Conserved site workloads c) :
    ∃ given : ω → List Nat, (∀ w, (given w).Sublist workloads) ∧
      ∑ w, (given w : Multiset Nat) + (c.vent.later : Multiset Nat) = workloads ∧
      ∀ w, c.share w = (given w).map taskString := by
  have hshare : ∀ w, ∃ given : List Nat, given.Sublist workloads ∧
      c.share w = given.map taskString := fun w =>
    List.sublist_map_iff.mp ((List.sublist_append_left _ _).trans (h.inOrder w))
  choose given hsub heq using hshare
  refine ⟨given, hsub, ?_, heq⟩
  refine Multiset.map_injective decimal_injective ?_
  have hsum : Multiset.map decimal (∑ w, (given w : Multiset Nat)) =
      ∑ w, (c.share w : Multiset Text) := by
    rw [← Multiset.coe_mapAddMonoidHom, map_sum]
    exact Finset.sum_congr rfl fun w _ => by
      rw [heq w, Multiset.coe_mapAddMonoidHom, Multiset.map_coe]
      rfl
  rw [Multiset.map_add, hsum, Multiset.map_coe, Multiset.map_coe]
  exact h.tasks

/-- Every workload is still to come or given to one worker, whose workloads are in the order
of the batch. The sink gets the confirmations of each worker in the order of its tasks, each
of them at most once, and the start of the batch at most once. -/
theorem tasks_conserved
    (h : Reach (Fires (Tasks.step cap site count)) (fun _ _ => True) (.begin workloads) c) :
    ∃ given : ω → List Nat, (∀ w, (given w).Sublist workloads) ∧
      ∑ w, (given w : Multiset Nat) + (c.vent.later : Multiset Nat) = workloads ∧
      (∀ w, (c.worker w).taken ++ c.tasks w = (given w).map taskString) ∧
      (∀ w, c.sink.from (some w) ++ c.results w <+:
        (c.worker w).taken.map (site.confirmation w)) ∧
      c.sink.from none ++ c.start <+: [startString] := by
  have hc := conserved_reach h
  obtain ⟨given, hsub, hsum, hshare⟩ := hc.exists_given
  refine ⟨given, hsub, hsum, hshare, fun w => ?_, (List.prefix_append _ _).trans hc.start⟩
  obtain ⟨missing, heq, -⟩ := hc.confirms w
  rw [← heq, List.append_assoc]
  exact List.prefix_append _ _

/-- Every string under way is received as it was sent. -/
theorem strings_delivered (hpid : ∀ w, site.pid w ≤ intMax) (hwork : ∀ x ∈ workloads, x ≤ intMax)
    (h : Reach (Fires (Tasks.step cap site count)) (fun _ _ => True) (.begin workloads) c) :
    (∀ string ∈ c.start, Delivered string) ∧ ∀ w, (∀ string ∈ c.tasks w, Delivered string) ∧
      ∀ string ∈ c.results w, Delivered string := by
  have hc := conserved_reach h
  obtain ⟨given, hsub, -, hshare⟩ := hc.exists_given
  have hgiven : ∀ w, ∀ string ∈ c.share w, ∃ x, x ≤ intMax ∧ string = taskString x := by
    intro w string hmem
    rw [hshare, List.mem_map] at hmem
    obtain ⟨x, hx, rfl⟩ := hmem
    exact ⟨x, hwork x ((hsub w).subset hx), rfl⟩
  refine ⟨fun string hmem => ?_, fun w => ⟨fun string hmem => ?_, fun string hmem => ?_⟩⟩
  · have hstart := hc.start.subset (List.mem_append_left _ (List.mem_append_right _ hmem))
    have hplain : Plain 1 startString := ⟨by decide, by simp [startString]⟩
    rw [List.mem_singleton.mp hstart]
    exact hplain.delivered (by decide)
  · obtain ⟨x, hx, rfl⟩ := hgiven w string (List.mem_append_right _ hmem)
    exact (plain_decimal hx).delivered (by decide)
  · obtain ⟨missing, heq, -⟩ := hc.confirms w
    have hmap : string ∈ (c.worker w).taken.map (site.confirmation w) := by
      rw [← heq]
      simp [hmem]
    obtain ⟨buf, hbuf, rfl⟩ := List.mem_map.mp hmap
    obtain ⟨x, hx, rfl⟩ := hgiven w buf (List.mem_append_left _ hbuf)
    exact (plain_confirmation (hpid w) hx).delivered (by decide)

end

/-- A worker is stopped with a task in its hand, and the other one goes on. -/
theorem tasks_conserved_run : ∃ c : Batch Bool,
    c.sink.from (some false) = ["sleep 3 sec at 8".toList] ∧
    ∃ given : Bool → List Nat, (∀ w, (given w).Sublist [2, 3]) ∧
      ∑ w, (given w : Multiset Nat) + (c.vent.later : Multiset Nat) = ([2, 3] : List Nat) := by
  obtain ⟨c, hc, hp⟩ := exists_reach_of_exec
    (Tasks.step 1 ⟨fun w : Bool => bif w then 7 else 8, fun _ => true⟩ 2) (fun _ _ => true)
    (.begin [2, 3]) [.signal, .hand true, .hand false, .take true, .stopWorker true,
      .take false, .confirm false, .collect none, .collect (some false)]
    (fun c => c.sink.from (some false) = ["sleep 3 sec at 8".toList]) (by decide)
  obtain ⟨given, hsub, hsum, -⟩ := tasks_conserved (hc.mono fun _ _ _ => trivial)
  exact ⟨c, of_decide_eq_true hp, given, hsub, hsum⟩

/-- A confirmation with the largest numbers is delivered. -/
theorem strings_delivered_run : ∃ string : Text,
    string = "sleep 2147483647 sec at 2147483647".toList ∧ Delivered string := by
  obtain ⟨c, hc, hp⟩ := exists_reach_of_exec
    (Tasks.step 1 ⟨fun _ : Unit => intMax, fun _ => true⟩ 2) (fun _ _ => true)
    (.begin [intMax]) [.signal, .hand (), .take (), .confirm ()]
    (fun c => c.results () = ["sleep 2147483647 sec at 2147483647".toList]) (by decide)
  obtain ⟨-, hall⟩ := strings_delivered (fun _ => Nat.le_refl intMax) (by simp)
    (hc.mono fun _ _ _ => trivial)
  refine ⟨_, rfl, (hall ()).2 _ ?_⟩
  rw [of_decide_eq_true hp]
  exact List.mem_singleton_self _

end PbdZmq.Tasks
