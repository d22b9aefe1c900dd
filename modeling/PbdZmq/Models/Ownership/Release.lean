import PbdZmq.Models.Ownership.Program

/-!
# What a transfer function has given up when it ends

Between the opening and the closing block nothing happens to contexts and sockets, so a
call that makes a socket ends with one of few logs. On exit everything is given up if
the call had made nothing when it failed, or if nothing failed before the closing block
was through.
-/

namespace PbdZmq.Ownership

/-- What the call made is given up, a socket before its context, and nothing else is. -/
structure Released (log : List Event) : Prop where
  closed : ∀ s c, .newSocket s c ∈ log →
    log.count (.close s) = 1 ∧
      ∃ before after, log = before ++ .close s :: after ∧ .destroy c ∉ before
  destroyed : ∀ c, .newContext c ∈ log → log.count (.destroy c) = 1
  kept : ∀ n, .close (.supplied n) ∉ log ∧ .destroy (.supplied n) ∉ log

theorem released_nil : Released [] :=
  ⟨fun _ _ h => absurd h List.not_mem_nil, fun _ h => absurd h List.not_mem_nil,
    fun _ => ⟨List.not_mem_nil, List.not_mem_nil⟩⟩

/-- A context or a socket that was not given up. -/
theorem not_released {log : List Event} (h : (∃ c, .newContext c ∈ log ∧ .destroy c ∉ log) ∨
    ∃ s c, .newSocket s c ∈ log ∧ .close s ∉ log) : ¬ Released log := by
  intro hreleased
  rcases h with ⟨c, hmade, hlost⟩ | ⟨s, c, hmade, hlost⟩
  · have hcount := hreleased.destroyed c hmade
    rw [List.count_eq_zero_of_not_mem hlost] at hcount
    contradiction
  · have hcount := (hreleased.closed s c hmade).1
    rw [List.count_eq_zero_of_not_mem hlost] at hcount
    contradiction

theorem released_socket (n k : Nat) :
    Released [.newSocket (.created k) (.supplied n), .close (.created k)] := by
  refine ⟨?_, ?_, ?_⟩
  · intro s c h
    obtain ⟨rfl, rfl⟩ : s = .created k ∧ c = .supplied n := by simpa using h
    exact ⟨by simp, [.newSocket (.created k) (.supplied n)], [], rfl, by simp⟩
  · intro c h
    simp at h
  · intro m
    simp

theorem released_context (j k : Nat) :
    Released [.newContext (.created j), .newSocket (.created k) (.created j),
      .close (.created k), .destroy (.created j)] := by
  refine ⟨?_, ?_, ?_⟩
  · intro s c h
    obtain ⟨rfl, rfl⟩ : s = .created k ∧ c = .created j := by simpa using h
    exact ⟨by simp, [.newContext (.created j), .newSocket (.created k) (.created j)],
      [.destroy (.created j)], rfl, by simp⟩
  · intro c h
    obtain rfl : c = .created j := by simpa using h
    simp
  · intro m
    simp

@[simp] theorem World.succeeds_nil {w : World} : w.succeeds [] ↔ True :=
  iff_of_true (fun _ h => absurd h List.not_mem_nil) trivial

@[simp] theorem World.succeeds_cons {w : World} {step : Step} {steps : List Step} :
    w.succeeds (step :: steps) ↔ w.fails step = false ∧ w.succeeds steps :=
  List.forall_mem_cons

theorem silent_check (w : World) (step : Step) :
    Silent (w.check step) (w.fails step = false) () := by
  unfold World.check
  cases h : w.fails step with
  | true => exact (Silent.throw _ ()).congr (by simp)
  | false => exact (Silent.pure ()).congr (by simp)

theorem silent_checkFile (w : World) (filename : String) :
    Silent (w.checkFile filename) (w.isdir filename = some false) () := by
  unfold World.checkFile
  by_cases h : w.isdir filename = some false
  · simp only [h, if_true]
    exact (Silent.pure ()).congr (by simp)
  · rw [if_neg h]
    exact (Silent.throw _ ()).congr (by simp [h])

/-- The test passes on the type that it returns. -/
theorem silent_checkType (types : List Int) (message : String) (socket : Socket) :
    Silent (checkType types message socket) (∃ t ∈ types, socket.type = some t)
      (socket.type.getD 0) := by
  unfold checkType
  cases h : socket.type with
  | none => exact (Silent.throw _ _).congr (by simp)
  | some t =>
    by_cases ht : t ∈ types
    · simp only [ht, if_true]
      exact (Silent.pure t).congr (by simpa using ht)
    · simp only [ht, if_false]
      exact (Silent.throw _ _).congr (by simpa using ht)

/-- A supplied socket is neither opened nor closed, so the function does what its body does. -/
theorem silent_owned {α : Type} {w : World} {type : Int} {ctx : Option Ref} {socket : Socket}
    {body : Option Ref → Socket → RProg α} {P : Prop} {a : α}
    (h : Silent (body ctx socket) P a) : Silent (w.owned type ctx (some socket) body) P a := by
  have hclose : Silent (w.closeSocket ⟨ctx, socket, false, false⟩) True () := by
    intro s
    exact Or.inl ⟨trivial, rfl⟩
  refine ((Silent.pure _).bind (h.bind (hclose.bind (Silent.pure a)))).congr ?_
  simp only [true_and, and_true]

/-- `zmq.sendfile` on a socket of some type returns. -/
def World.Sends (w : World) (filename : String) (type : Option Int) : Prop :=
  (∃ t ∈ [ST.PUSH, ST.REQ, ST.REP], type = some t) ∧ w.fails .fileInfo = false ∧
    w.isdir filename = some false ∧ (type.getD 0 = ST.REP → w.fails .request = false) ∧
    w.fails .header = false ∧ (type.getD 0 = ST.REQ → w.fails .reply = false) ∧
    w.fails .transfer = false

/-- `zmq.recvfile` on a socket of some type returns. -/
def World.Receives (w : World) (type : Option Int) : Prop :=
  (∃ t ∈ [ST.PULL, ST.REP, ST.REQ], type = some t) ∧
    (type.getD 0 = ST.REQ → w.fails .request = false) ∧ w.fails .header = false ∧
    (type.getD 0 = ST.REP → w.fails .reply = false) ∧ w.fails .transfer = false

/-- The function returns, given its type of socket. -/
def Function.Returns (w : World) (function : Function) (type : Option Int) : Prop :=
  match function with
  | .sendfile filename => w.Sends filename type
  | .recvfile => w.Receives type
  | .senddir => w.succeeds [.tempfile, .zip] ∧ w.Sends w.tempfile type
  | .recvdir outfile exdir =>
    (outfile = none → w.fails .tempfile = false) ∧ w.Receives type ∧
      (exdir ≠ none → w.fails .unzip = false)

/-- A new socket ahead of the rest of a program. -/
theorem endState_zmqSocket_bind {α : Type} (w : World) (c : Ref) (type : Int)
    (f : Socket → RProg α) (l : List Event) :
    endState (w.zmqSocket (some c) type >>= f) l =
      if w.fails .zmqSocket = false then
        if w.fails .socketPointer = false then
          endState (f ⟨.created l.length, some type⟩) (l ++ [.newSocket (.created l.length) c])
        else l ++ [.newSocket (.created l.length) c]
      else l := by
  simp only [World.zmqSocket, bind_assoc, (silent_check w .zmqSocket).endState_bind, fresh,
    endState_get_bind, emit, endState_modify_bind, pure_bind,
    (silent_check w .socketPointer).endState_bind]

/-- The closing block for a context and a socket of the call's own. -/
theorem endState_closeSocket_bind {α : Type} (w : World) (c : Ref) (s : Socket) (a : α)
    (l : List Event) :
    endState (w.closeSocket ⟨some c, s, true, true⟩ >>= fun _ => (pure a : RProg α)) l =
      if w.succeeds [.zmqClose, .zmqCtxDestroy] then l ++ [.close s.ref, .destroy c]
      else l ++ [.close s.ref] := by
  have hclose : endState (w.closeSocket ⟨some c, s, true, true⟩ >>= fun _ => (pure a : RProg α)) l =
      if w.fails .zmqClose = false then
        endState (w.zmqCtxDestroy (some c) >>= fun _ => (pure a : RProg α)) (l ++ [.close s.ref])
      else l ++ [.close s.ref] := by
    simp only [World.closeSocket, World.zmqClose, Bool.or_self, if_true, bind_assoc, emit,
      endState_modify_bind, (silent_check w .zmqClose).endState_bind]
  have hdestroy : endState (w.zmqCtxDestroy (some c) >>= fun _ => (pure a : RProg α))
      (l ++ [.close s.ref]) =
      if w.fails .zmqCtxDestroy = false then l ++ [.close s.ref, .destroy c]
      else l ++ [.close s.ref] := by
    unfold World.zmqCtxDestroy
    cases hfails : w.fails .zmqCtxDestroy with
    | true => rfl
    | false =>
      simp only [Bool.false_eq_true, if_false, if_true, emit, endState_modify_bind,
        (Silent.pure a).endState_eq, List.append_assoc, List.singleton_append]
  rw [hclose, hdestroy]
  simp only [World.succeeds_cons, World.succeeds_nil, and_true, ite_and]

/-- What happens to a supplied context and a new socket on it. -/
theorem log_owned_socket {α : Type} {w : World} {type : Int} {n : Nat}
    {body : Option Ref → Socket → RProg α} {P : Prop} [Decidable P] {a : α}
    (h : Silent (body (some (.supplied n)) ⟨.created 0, some type⟩) P a) :
    (w.owned type (some (.supplied n)) none body).log =
      if w.fails .zmqSocket = false then
        if w.succeeds [.socketPointer, .address, .attach] ∧ P then
          [.newSocket (.created 0) (.supplied n), .close (.created 0)]
        else [.newSocket (.created 0) (.supplied n)]
      else [] := by
  have hclose : ∀ l, endState (w.closeSocket ⟨some (.supplied n), ⟨.created 0, some type⟩, false,
      true⟩ >>= fun _ => (pure a : RProg α)) l = l ++ [.close (.created 0)] := by
    intro l
    simp only [World.closeSocket, World.zmqClose, Bool.or_false, if_true, bind_assoc, emit,
      endState_modify_bind, Bool.false_eq_true, if_false, pure_bind,
      (silent_check w .zmqClose).endState_bind, (Silent.pure a).endState_eq, ite_self]
  simp only [RProg.log, World.owned, World.openSocket, World.openContext, bind_assoc, pure_bind,
    endState_zmqSocket_bind, List.length_nil, (silent_check w .address).endState_bind,
    (silent_check w .attach).endState_bind, h.endState_bind, hclose, List.nil_append,
    List.singleton_append, World.succeeds_cons, World.succeeds_nil, and_true, ite_and]

/-- What happens to a new context and a new socket on it. -/
theorem log_owned_context {α : Type} {w : World} {type : Int}
    {body : Option Ref → Socket → RProg α} {P : Prop} [Decidable P] {a : α}
    (h : Silent (body (some (.created 0)) ⟨.created 1, some type⟩) P a) :
    (w.owned type none none body).log =
      if w.fails .zmqCtxNew = false then
        if w.succeeds [.ctxPointer, .zmqSocket] then
          if w.succeeds [.socketPointer, .address, .attach] ∧ P then
            if w.succeeds [.zmqClose, .zmqCtxDestroy] then
              [.newContext (.created 0), .newSocket (.created 1) (.created 0),
                .close (.created 1), .destroy (.created 0)]
            else
              [.newContext (.created 0), .newSocket (.created 1) (.created 0),
                .close (.created 1)]
          else [.newContext (.created 0), .newSocket (.created 1) (.created 0)]
        else [.newContext (.created 0)]
      else [] := by
  cases hnew : w.fails .zmqCtxNew with
  | true =>
    simp only [RProg.log, World.owned, World.openSocket, World.openContext, World.zmqCtxNew, hnew,
      if_true, bind_assoc, pure_bind, World.zmqSocket]
    rfl
  | false =>
    simp only [RProg.log, World.owned, World.openSocket, World.openContext, World.zmqCtxNew, hnew,
      Bool.false_eq_true, if_false, if_true, bind_assoc, pure_bind, fresh, endState_get_bind, emit,
      endState_modify_bind, (silent_check w .ctxPointer).endState_bind, endState_zmqSocket_bind,
      (silent_check w .address).endState_bind, (silent_check w .attach).endState_bind,
      h.endState_bind, endState_closeSocket_bind, List.length_nil, List.nil_append,
      List.length_singleton, List.cons_append, World.succeeds_cons, World.succeeds_nil, and_true,
      ite_and]

/-- A call on a supplied context and a new socket. -/
theorem released_owned_socket {α : Type} {w : World} {type : Int} {n : Nat}
    {body : Option Ref → Socket → RProg α} {P : Prop} [Decidable P] {a : α}
    (h : Silent (body (some (.supplied n)) ⟨.created 0, some type⟩) P a) :
    Released (w.owned type (some (.supplied n)) none body).log ↔ w.fails .zmqSocket = true ∨
      w.succeeds [.zmqSocket, .socketPointer, .address, .attach] ∧ P := by
  have hsplit : w.succeeds [.zmqSocket, .socketPointer, .address, .attach] ↔
      w.fails .zmqSocket = false ∧ w.succeeds [.socketPointer, .address, .attach] :=
    World.succeeds_cons
  rw [log_owned_socket h, hsplit]
  cases hmade : w.fails .zmqSocket with
  | true => simpa using released_nil
  | false =>
    simp only [if_true, Bool.false_eq_true, true_and, false_or]
    split
    · rename_i hdone
      exact iff_of_true (released_socket n 0) hdone
    · rename_i hfailed
      exact iff_of_false (not_released (Or.inr ⟨_, _, List.mem_cons_self, by simp⟩)) hfailed

/-- A call on a new context and a new socket. -/
theorem released_owned_context {α : Type} {w : World} {type : Int}
    {body : Option Ref → Socket → RProg α} {P : Prop} [Decidable P] {a : α}
    (h : Silent (body (some (.created 0)) ⟨.created 1, some type⟩) P a) :
    Released (w.owned type none none body).log ↔ w.fails .zmqCtxNew = true ∨
      w.succeeds [.zmqCtxNew, .ctxPointer, .zmqSocket, .socketPointer, .address, .attach] ∧ P ∧
        w.succeeds [.zmqClose, .zmqCtxDestroy] := by
  rw [log_owned_context h]
  cases hmade : w.fails .zmqCtxNew with
  | true => simpa using released_nil
  | false =>
    have hsplit : w.succeeds [.zmqCtxNew, .ctxPointer, .zmqSocket, .socketPointer, .address,
        .attach] ↔ w.succeeds [.ctxPointer, .zmqSocket] ∧
          w.succeeds [.socketPointer, .address, .attach] := by
      simp only [World.succeeds_cons, World.succeeds_nil, hmade, true_and, and_true, and_assoc]
    rw [hsplit, if_pos rfl]
    simp only [Bool.false_eq_true, false_or]
    split
    · rename_i hsocket
      split
      · rename_i hbody
        split
        · rename_i hclosed
          exact iff_of_true (released_context 0 1) ⟨⟨hsocket, hbody.1⟩, hbody.2, hclosed⟩
        · rename_i hclosed
          exact iff_of_false (not_released (Or.inl ⟨_, List.mem_cons_self, by simp⟩))
            fun hall => hclosed hall.2.2
      · rename_i hbody
        exact iff_of_false (not_released (Or.inl ⟨_, List.mem_cons_self, by simp⟩))
          fun hall => hbody ⟨hall.1.2, hall.2.1⟩
    · rename_i hsocket
      exact iff_of_false (not_released (Or.inl ⟨_, List.mem_cons_self, by simp⟩))
        fun hall => hsocket hall.1.1

/-- A function that makes sockets of the type given, and otherwise only decides whether
to return. -/
def World.Owns {α : Type} (w : World) (type : Int)
    (prog : Option Ref → Option Socket → RProg α) (P : Option Int → Prop) (a : α) : Prop :=
  ∃ body : Option Ref → Socket → RProg α,
    (∀ ctx socket, Silent (body ctx socket) (P socket.type) a) ∧
    ∀ ctx socket, prog ctx socket = w.owned type ctx socket body

/-- On a supplied socket such a function makes and gives up nothing. -/
theorem World.Owns.silent {α : Type} {w : World} {type : Int}
    {prog : Option Ref → Option Socket → RProg α} {P : Option Int → Prop} {a : α}
    (h : w.Owns type prog P a) (ctx : Option Ref) (socket : Socket) :
    Silent (prog ctx (some socket)) (P socket.type) a := by
  obtain ⟨body, hbody, hprog⟩ := h
  rw [hprog]
  exact silent_owned (hbody ctx socket)

theorem owns_zmqSendfile (w : World) (filename : String) :
    w.Owns ST.PUSH (w.zmqSendfile filename) (w.Sends filename) 0 := by
  refine ⟨_, fun _ socket => ?_, fun _ _ => rfl⟩
  refine ((silent_checkType _ _ socket).bind <| (silent_check w .fileInfo).bind <|
    (silent_checkFile w filename).bind <| (silent_check w .request).when_bind <|
      (silent_check w .header).bind <| (silent_check w .reply).when_bind <|
        (silent_check w .transfer).bind_pure _).congr ?_
  rw [World.Sends]

theorem owns_zmqRecvfile (w : World) : w.Owns ST.PULL w.zmqRecvfile w.Receives 0 := by
  refine ⟨_, fun _ socket => ?_, fun _ _ => rfl⟩
  refine ((silent_checkType _ _ socket).bind <| (silent_check w .request).when_bind <|
    (silent_check w .header).bind <| (silent_check w .reply).when_bind <|
      (silent_check w .transfer).bind_pure _).congr ?_
  rw [World.Receives]

theorem owns_zmqSenddir (w : World) :
    w.Owns ST.PUSH w.zmqSenddir (Function.senddir.Returns w) (0, w.tempfile) := by
  refine ⟨_, fun ctx socket => ?_, fun _ _ => rfl⟩
  refine ((silent_checkType _ _ socket).bind <| (silent_check w .tempfile).bind <|
    (silent_check w .zip).bind <|
      ((owns_zmqSendfile w w.tempfile).silent ctx socket).bind_pure _).congr ?_
  simp only [Function.Returns, World.succeeds_cons, World.succeeds_nil, and_true]
  constructor
  · rintro ⟨_, htempfile, hzip, hsends⟩
    exact ⟨⟨htempfile, hzip⟩, hsends⟩
  · rintro ⟨⟨htempfile, hzip⟩, hsends⟩
    exact ⟨hsends.1, htempfile, hzip, hsends⟩

theorem owns_zmqRecvdir (w : World) (outfile exdir : Option String) :
    w.Owns ST.PULL (w.zmqRecvdir outfile exdir) ((Function.recvdir outfile exdir).Returns w)
      (0, outfile.getD w.tempfile) := by
  refine ⟨_, fun ctx socket => ?_, fun _ _ => rfl⟩
  refine ((silent_checkType _ _ socket).bind <| (silent_check w .tempfile).when_bind <|
    ((owns_zmqRecvfile w).silent ctx socket).bind <|
      (silent_check w .unzip).when_bind (f := fun _ => pure _) <| Silent.pure _).congr ?_
  simp only [Function.Returns, and_true]
  constructor
  · rintro ⟨_, hreturns⟩
    exact hreturns
  · rintro ⟨htempfile, hreceives, hunzip⟩
    exact ⟨hreceives.1, htempfile, hreceives, hunzip⟩

/-- The type of the sockets that the function makes. -/
def Function.type : Function → Int
  | .sendfile _ | .senddir => ST.PUSH
  | .recvfile | .recvdir _ _ => ST.PULL

/-- The first statement that makes something, in a call that makes a socket. -/
def Call.first (call : Call) : Step := if call.ctx = none then .zmqCtxNew else .zmqSocket

/-- The statements of the opening block, in a call that makes a socket. -/
def Call.opening (call : Call) : List Step :=
  if call.ctx = none then
    [.zmqCtxNew, .ctxPointer, .zmqSocket, .socketPointer, .address, .attach]
  else [.zmqSocket, .socketPointer, .address, .attach]

/-- The statements that the rest of the closing block waits for. -/
def Call.closing (call : Call) : List Step :=
  if call.ctx = none then [.zmqClose, .zmqCtxDestroy] else []

instance (w : World) (filename : String) (type : Option Int) : Decidable (w.Sends filename type) :=
  inferInstanceAs (Decidable (_ ∧ _))

instance (w : World) (type : Option Int) : Decidable (w.Receives type) :=
  inferInstanceAs (Decidable (_ ∧ _))

instance (w : World) (function : Function) (type : Option Int) :
    Decidable (function.Returns w type) :=
  match function with
  | .sendfile filename => inferInstanceAs (Decidable (w.Sends filename type))
  | .recvfile => inferInstanceAs (Decidable (w.Receives type))
  | .senddir => inferInstanceAs (Decidable (_ ∧ _))
  | .recvdir _ _ => inferInstanceAs (Decidable (_ ∧ _))

/-- A call of any function, as the caller's context and socket decide. -/
private theorem released_of_owns {α : Type} {w : World} {a : α}
    {prog : Option Ref → Option Socket → RProg α} (call : Call)
    (h : w.Owns call.function.type prog (call.function.Returns w) a) :
    Released (prog (call.ctx.map Ref.supplied)
        (call.socket.map fun s => ⟨.supplied s.1, s.2⟩)).log ↔
      call.socket ≠ none ∨ w.fails call.first = true ∨
        w.succeeds call.opening ∧ call.function.Returns w (some call.function.type) ∧
          w.succeeds call.closing := by
  rcases call with ⟨function, ctx, socket⟩
  cases socket with
  | some s =>
    have hquiet := (h.silent (ctx.map Ref.supplied) ⟨.supplied s.1, s.2⟩).endState_eq []
    simp only [RProg.log, Option.map_some, hquiet]
    simpa using released_nil
  | none =>
    obtain ⟨body, hbody, hprog⟩ := h
    simp only [Option.map_none, hprog, ne_eq, not_true, false_or]
    cases ctx with
    | none => exact released_owned_context (hbody _ _)
    | some n =>
      refine (released_owned_socket (hbody _ _)).trans ?_
      simp only [Call.first, Call.opening, Call.closing, reduceCtorEq, if_false,
        World.succeeds_nil, and_true]

/-- On exit a call has given up exactly what it made if it was given a socket, if its
first statement that makes something failed, or if no statement failed before the end
of the closing block. -/
theorem released_iff (w : World) (call : Call) :
    Released (call.log w) ↔ call.socket ≠ none ∨ w.fails call.first = true ∨
      w.succeeds call.opening ∧ call.function.Returns w (some call.function.type) ∧
        w.succeeds call.closing := by
  rcases call with ⟨function, ctx, socket⟩
  cases function with
  | sendfile filename => exact released_of_owns _ (owns_zmqSendfile w filename)
  | recvfile => exact released_of_owns _ (owns_zmqRecvfile w)
  | senddir => exact released_of_owns _ (owns_zmqSenddir w)
  | recvdir outfile exdir => exact released_of_owns _ (owns_zmqRecvdir w outfile exdir)

/-- A missing file leaves the new context and its bound socket behind. -/
theorem unreleased_missing_file : ¬ ∀ (w : World) (call : Call), Released (call.log w) := by
  intro hall
  have hreleased := hall ⟨fun _ => false, fun _ => none, ""⟩ ⟨.sendfile "missing", none, none⟩
  have hlog : Call.log ⟨fun _ => false, fun _ => none, ""⟩ ⟨.sendfile "missing", none, none⟩ =
      [.newContext (.created 0), .newSocket (.created 1) (.created 0)] := by decide
  rw [hlog] at hreleased
  have hcount := hreleased.destroyed (.created 0) List.mem_cons_self
  revert hcount
  decide

end PbdZmq.Ownership
