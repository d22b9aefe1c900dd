import Mathlib.Data.List.Nodup
import PbdZmq.Models.Handle.Session

/-!
# What every session keeps

Whatever the user does and whenever the collector runs, no step makes an old
object reachable again. A finalizer that a collection has marked ready therefore
belongs to an object that the user will never see again, up to the end of the
session.
-/

namespace PbdZmq.Handle

/-- The user's code runs. -/
def Session.Free (s : Session) : Prop := s.frame = none ∧ s.exiting = false

/-- The pointer that a function passes to libzmq. -/
def UserAct.passes : UserAct → Option Nat
  | .socketNew x _ | .initSocket x _ | .use x | .close x | .ctxDestroy x _ => some x
  | _ => none

/-- The function closes or destroys, and is not interrupted. -/
def UserAct.ends : UserAct → Bool
  | .close _ => true
  | .ctxDestroy _ interrupted => !interrupted
  | _ => false

/-- Everything that a step can do. -/
inductive Stepped (s : Session) : Act → Session → Prop
  | graph {u roots edges next} : s.Free → u.passes = none → s.next ≤ next →
      (∀ x ∈ roots, s.heap.Reaches x ∨ (s.next ≤ x ∧ x < next)) →
      (∀ e ∈ edges, e ∈ s.edges ∨ (s.heap.Reaches e.1 ∧ s.heap.Reaches e.2)) →
      Stepped s (.user u) { s with next := next, roots := roots, edges := edges }
  | null {u} : s.Free → Stepped s (.user u) s
  | call {u x c} : s.Free → x ∈ s.roots → u.passes = some x → s.addr x = some c.handle →
      c.origin = .user → (c.ends = true → u.ends = true) → Stepped s (.user u) (s.log c)
  | ctxNew : s.Free → Stepped s (.user .ctxNew) { s.zmqCtxNew with roots := s.next :: s.roots }
  | socketNew {x h ok} : s.Free → x ∈ s.roots → s.addr x = some h → ¬ s.Dead h →
      Stepped s (.user (.socketNew x ok)) { s.zmqSocket h with roots := s.next :: s.roots }
  | initContext : s.Free → Stepped s (.user .initContext)
      { s.zmqCtxNew with frame := some ⟨.context, s.next, [s.next], false⟩ }
  | initSocket {x h ok} : s.Free → x ∈ s.roots → s.addr x = some h → ¬ s.Dead h →
      Stepped s (.user (.initSocket x ok))
        { s.zmqSocket h with frame := some ⟨.socket, s.next, [x, s.next], false⟩ }
  | register {f} : s.frame = some f → Stepped s .register
      { s with frame := none, finalizers := f :: s.finalizers, roots := f.key :: s.roots }
  | collect {live} : s.heap.Marks live → Stepped s (.collect live)
      { s with finalizers := s.finalizers.map (Finalizer.mark live) }
  | finalizeNull {f interrupted} : s.nextReady = some f → s.addr f.key = none →
      Stepped s (.finalize interrupted)
        { s with finalizers := s.finalizers.eraseP Finalizer.ready }
  | finalize {f c interrupted} : s.nextReady = some f → s.addr f.key = some c.handle →
      c.origin = .finalizer →
      (f.kind = .socket → c.handle ∈ s.sockets.map Prod.fst → ¬ s.Dead c.handle →
        c.ends = true) →
      Stepped s (.finalize interrupted)
        ({ s with finalizers := s.finalizers.eraseP Finalizer.ready }.log c)
  | abandon {f} : s.frame = some f → Stepped s .abandon s.leave
  | exit : s.exiting = false → Stepped s .exit { s.leave with
      exiting := true, finalizers := s.finalizers.map fun f => { f with ready := true } }

/-- `zmq_ctx_destroy` passes the handle and changes nothing else. -/
theorem Session.zmqCtxDestroy_cases {s t : Session} {o : Origin} {x : Nat} {interrupted : Bool}
    (h : s.zmqCtxDestroy o x interrupted = some t) :
    (s.addr x = none ∧ t = s) ∨ ∃ c, s.addr x = some c.handle ∧ c.origin = o ∧
      (c.ends = true → interrupted = false) ∧ t = s.log c := by
  unfold zmqCtxDestroy at h
  split at h
  · rename_i hx
    exact Or.inl ⟨hx, (Option.some.inj h).symm⟩
  · rename_i a hx
    right
    split at h
    · exact ⟨⟨o, .destroy, a, false⟩, hx, rfl, by simp [Call.ends], (Option.some.inj h).symm⟩
    · rename_i hi
      have hrun : interrupted = false := by simpa using hi
      split at h
      · split at h
        · contradiction
        · exact ⟨_, hx, rfl, fun _ => hrun, (Option.some.inj h).symm⟩
      · exact ⟨_, hx, rfl, fun _ => hrun, (Option.some.inj h).symm⟩

/-- A socket is made on a live context only, and otherwise at most a call is passed. -/
theorem Session.socketOf_cases {s t : Session} {x : Nat} {ok : Bool} {made : Session → Session}
    (h : s.socketOf x ok made = some t) :
    t = s ∨ (∃ c, s.addr x = some c.handle ∧ c.origin = .user ∧ c.ends = false ∧ t = s.log c) ∨
      ∃ a, s.addr x = some a ∧ ¬ s.Dead a ∧ t = made (s.zmqSocket a) := by
  unfold socketOf at h
  split at h
  · exact Or.inl (Option.some.inj h).symm
  · rename_i a hx
    split at h
    · split at h
      · contradiction
      · rename_i hlive
        exact Or.inr (Or.inr ⟨a, hx, hlive, (Option.some.inj h).symm⟩)
    · exact Or.inr (Or.inl ⟨_, hx, rfl, rfl, (Option.some.inj h).symm⟩)

/-- The user's steps do nothing but what is listed. -/
theorem stepped_of_user {s t : Session} {u : UserAct} (hf : s.Free) (h : s.user u = some t) :
    Stepped s (.user u) t := by
  have hroot : ∀ {x}, x ∈ s.roots → s.heap.Reaches x := fun hx =>
    .root (List.mem_append_left _ hx)
  cases u with
  | alloc =>
    obtain rfl := Option.some.inj h
    refine .graph hf rfl (Nat.le_succ _) ?_ fun e he => Or.inl he
    intro x hx
    rcases List.mem_cons.mp hx with rfl | hx
    · exact Or.inr ⟨Nat.le_refl _, Nat.lt_succ_self _⟩
    · exact Or.inl (hroot hx)
  | store x y =>
    simp only [Session.user] at h
    split at h
    · rename_i hxy
      obtain rfl := Option.some.inj h
      refine .graph hf rfl (Nat.le_refl _) (fun z hz => Or.inl (hroot hz)) ?_
      intro e he
      rcases List.mem_cons.mp he with rfl | he
      · exact Or.inr ⟨hroot hxy.1, hroot hxy.2⟩
      · exact Or.inl he
    · contradiction
  | unlink x y =>
    simp only [Session.user] at h
    split at h
    · obtain rfl := Option.some.inj h
      refine .graph hf rfl (Nat.le_refl _) (fun z hz => Or.inl (hroot hz)) ?_
      intro e he
      exact Or.inl (List.mem_filter.mp he).1
    · contradiction
  | load x y =>
    simp only [Session.user] at h
    split at h
    · rename_i hxy
      obtain rfl := Option.some.inj h
      refine .graph hf rfl (Nat.le_refl _) ?_ fun e he => Or.inl he
      intro z hz
      rcases List.mem_cons.mp hz with rfl | hz
      · exact Or.inl (.edge (hroot hxy.1) hxy.2)
      · exact Or.inl (hroot hz)
    · contradiction
  | drop x =>
    obtain rfl := Option.some.inj h
    refine .graph hf rfl (Nat.le_refl _) ?_ fun e he => Or.inl he
    intro z hz
    exact Or.inl (hroot (List.mem_filter.mp hz).1)
  | ctxNew =>
    obtain rfl := Option.some.inj h
    exact .ctxNew hf
  | socketNew x ok =>
    simp only [Session.user] at h
    split at h
    · rename_i hx
      rcases Session.socketOf_cases h with rfl | ⟨c, ha, ho, he, rfl⟩ | ⟨a, ha, hd, rfl⟩
      · exact .null hf
      · exact .call hf hx rfl ha ho (by simp [he])
      · exact .socketNew hf hx ha hd
    · contradiction
  | initContext =>
    obtain rfl := Option.some.inj h
    exact .initContext hf
  | initSocket x ok =>
    simp only [Session.user] at h
    split at h
    · rename_i hx
      rcases Session.socketOf_cases h with rfl | ⟨c, ha, ho, he, rfl⟩ | ⟨a, ha, hd, rfl⟩
      · exact .null hf
      · exact .call hf hx rfl ha ho (by simp [he])
      · exact .initSocket hf hx ha hd
    · contradiction
  | use x =>
    simp only [Session.user] at h
    split at h
    · rename_i hx
      obtain rfl := Option.some.inj h
      unfold Session.zmqUse
      split
      · exact .null hf
      · rename_i a ha
        exact .call hf hx rfl ha rfl (by simp [Call.ends])
    · contradiction
  | close x =>
    simp only [Session.user] at h
    split at h
    · rename_i hx
      obtain rfl := Option.some.inj h
      unfold Session.zmqClose
      split
      · exact .null hf
      · rename_i a ha
        exact .call hf hx rfl ha rfl fun _ => rfl
    · contradiction
  | ctxDestroy x interrupted =>
    simp only [Session.user] at h
    split at h
    · rename_i hx
      rcases Session.zmqCtxDestroy_cases h with ⟨_, rfl⟩ | ⟨c, ha, ho, hi, rfl⟩
      · exact .null hf
      · exact .call hf hx rfl ha ho fun he => by simp [UserAct.ends, hi he]
    · contradiction

/-- The steps of a session do nothing but what is listed. -/
theorem stepped_of_step {s t : Session} {a : Act} (h : step s a = some t) : Stepped s a t := by
  cases a with
  | user u =>
    simp only [step] at h
    split at h
    · rename_i hf
      exact stepped_of_user hf h
    · contradiction
  | register =>
    simp only [step] at h
    split at h
    · contradiction
    · rename_i f hf
      obtain rfl := Option.some.inj h
      exact .register hf
  | collect live =>
    simp only [step] at h
    split at h
    · rename_i hm
      obtain rfl := Option.some.inj h
      exact .collect hm
    · contradiction
  | finalize interrupted =>
    simp only [step] at h
    split at h
    · contradiction
    · rename_i f hf
      unfold Session.runFinalizer at h
      cases hk : f.kind with
      | context =>
        simp only [hk] at h
        rcases Session.zmqCtxDestroy_cases h with ⟨ha, rfl⟩ | ⟨c, ha, ho, _, rfl⟩
        · exact .finalizeNull hf ha
        · exact .finalize hf ha ho (by simp [hk])
      | socket =>
        simp only [hk] at h
        obtain rfl := Option.some.inj h
        unfold Session.zmqClose
        split
        · rename_i ha
          exact .finalizeNull hf ha
        · rename_i a ha
          refine .finalize hf ha rfl fun _ hs hd => ?_
          have hok : a ∈ s.sockets.map Prod.fst ∧ ¬ s.Dead a := ⟨hs, hd⟩
          simp only [Call.ends, Bool.and_eq_true, decide_eq_true_eq]
          exact ⟨hok, rfl⟩
  | abandon =>
    simp only [step] at h
    split at h
    · contradiction
    · rename_i f hf
      obtain rfl := Option.some.inj h
      exact .abandon hf
  | exit =>
    simp only [step] at h
    split at h
    · rename_i hexit
      obtain rfl := Option.some.inj h
      exact .exit hexit
    · contradiction

/-- The finalizer that runs next stands behind finalizers that are not ready. -/
theorem Session.nextReady_split {s : Session} {f : Finalizer} (h : s.nextReady = some f) :
    ∃ newer older, s.finalizers = newer ++ f :: older ∧
      s.finalizers.eraseP Finalizer.ready = newer ++ older ∧ ∀ g ∈ newer, g.ready = false := by
  obtain ⟨hready, newer, older, hsplit, hnewer⟩ := List.find?_eq_some_iff_append.mp h
  have hfalse : ∀ g ∈ newer, g.ready = false := by
    intro g hg
    simpa using hnewer g hg
  refine ⟨newer, older, hsplit, ?_, hfalse⟩
  rw [hsplit, List.eraseP_append_right _ (by simpa using hfalse), List.eraseP_cons_of_pos hready]

theorem Session.mem_pending {s : Session} {f : Finalizer} :
    f ∈ s.pending ↔ s.frame = some f ∨ f ∈ s.finalizers := by
  rw [pending, List.mem_append, Option.mem_toList]

/-- The collector starts from the variables of the user and of a wrapper's frame. -/
theorem Session.mem_roots {s : Session} {x : Nat} :
    x ∈ s.heap.roots ↔ x ∈ s.roots ∨ ∃ f, s.frame = some f ∧ x ∈ f.captures := by
  simp only [heap, List.mem_append, List.mem_flatMap, Option.mem_toList]

theorem Session.mem_ephemerons {s : Session} {e : Nat × List Nat} :
    e ∈ s.heap.ephemerons ↔
      ∃ f, (s.frame = some f ∨ f ∈ s.finalizers) ∧ (f.key, f.captures) = e := by
  simp only [heap, List.mem_map, mem_pending]

/-- The collector's marks move no object. -/
theorem Session.heap_collect (s : Session) (live : List Nat) :
    ({ s with finalizers := s.finalizers.map (Finalizer.mark live) } : Session).heap = s.heap := by
  simp only [heap, pending, List.map_append, List.map_map]
  rfl

/-- Nor does the end of the session. -/
theorem Session.heap_exit (s : Session) :
    ({ s with
        exiting := true
        finalizers := s.finalizers.map fun f => { f with ready := true } } : Session).heap =
      s.heap := by
  simp only [heap, pending, List.map_append, List.map_map]
  rfl

/-- Leaving a frame makes nothing reachable. -/
theorem Session.reaches_of_leave {s : Session} {x : Nat} (h : s.leave.heap.Reaches x) :
    s.heap.Reaches x := by
  refine h.of_step trivial (P := fun _ => True)
    ⟨fun _ _ => trivial, fun _ _ => ⟨trivial, trivial⟩,
    fun _ _ => ⟨trivial, fun _ _ => trivial⟩⟩ ?_ (fun e he => Or.inl he) ?_
  · intro z hz _
    rcases mem_roots.mp hz with hz | ⟨f, hf, _⟩
    · exact .root (mem_roots.mpr (Or.inl hz))
    · contradiction
  · intro e he
    obtain ⟨f, hf | hf, rfl⟩ := mem_ephemerons.mp he
    · contradiction
    · exact Or.inl (mem_ephemerons.mpr ⟨f, Or.inr hf, rfl⟩)

/-- Leaving a frame drops a finalizer that was about to be registered. -/
theorem Session.pending_leave (s : Session) : s.leave.pending.Sublist s.pending :=
  List.sublist_append_right _ _

/-- The invariant of every session. -/
structure Session.Sound (s : Session) : Prop where
  /-- Names in use are below the next one. -/
  heap : s.heap.All (· < s.next)
  addr : ∀ x h, s.addr x = some h → h = x ∧ x < s.next
  calls : ∀ c ∈ s.calls, c.handle < s.next
  /-- The address of an object to be finalized is never cleared. -/
  keys : ∀ f ∈ s.pending, s.addr f.key = some f.key
  /-- An object has one finalizer at most. -/
  nodup : (s.pending.map Finalizer.key).Nodup
  quiet : s.exiting = true → s.frame = none
  frame : ∀ f, s.frame = some f → f.ready = false ∧ f.key ∈ f.captures
  /-- Before the end of the session an object whose finalizer is ready is unreachable. -/
  unreached : s.exiting = false → ∀ f ∈ s.finalizers, f.ready = true → ¬ s.heap.Reaches f.key

theorem Session.sound_start : Session.start.Sound := by
  refine ⟨⟨?_, ?_, ?_⟩, ?_, ?_, ?_, List.nodup_nil, fun _ => rfl, nofun, ?_⟩ <;>
    simp [Session.start, Session.heap, Session.pending]

/-- A pending finalizer's object is an old one. -/
theorem Session.Sound.key_lt {s : Session} (h : s.Sound) {f : Finalizer} (hf : f ∈ s.pending) :
    f.key < s.next :=
  (h.addr _ _ (h.keys f hf)).2

/-- The finalizer that runs is registered and ready. -/
theorem Session.nextReady_spec {s : Session} {f : Finalizer} (h : s.nextReady = some f) :
    f ∈ s.finalizers ∧ f.ready = true :=
  ⟨List.mem_of_find?_eq_some h, List.find?_some h⟩

/-- No step makes an old object reachable again. -/
theorem Session.Sound.reaches {s t : Session} {a : Act} (h : s.Sound) (hs : Stepped s a t) {x : Nat}
    (hr : t.heap.Reaches x) (hx : x < s.next) : s.heap.Reaches x := by
  have hroot : ∀ {z}, z ∈ s.roots → s.heap.Reaches z := fun hz =>
    .root (mem_roots.mpr (Or.inl hz))
  have hframe : ∀ {z f}, s.frame = some f → z ∈ f.captures → s.heap.Reaches z := fun hf hz =>
    .root (mem_roots.mpr (Or.inr ⟨_, hf, hz⟩))
  cases hs with
  | graph _ _ _ hroots hedges =>
    refine hr.of_step hx h.heap ?_ ?_ (fun e he => Or.inl he)
    · intro z hz hlt
      rcases mem_roots.mp hz with hz | ⟨f, hf, hz⟩
      · rcases hroots z hz with hold | ⟨hnew, _⟩
        · exact hold
        · omega
      · exact hframe hf hz
    · intro e he
      rcases hedges e he with hold | ⟨_, hto⟩
      · exact Or.inl hold
      · exact Or.inr hto
  | null => exact hr
  | call => exact hr
  | ctxNew | socketNew =>
    refine hr.of_step hx h.heap ?_ (fun e he => Or.inl he) (fun e he => Or.inl he)
    intro z hz hlt
    rcases mem_roots.mp hz with hz | ⟨f, hf, hz⟩
    · rcases List.mem_cons.mp hz with rfl | hz
      · omega
      · exact hroot hz
    · exact hframe hf hz
  | initContext =>
    refine hr.of_step hx h.heap ?_ (fun e he => Or.inl he) ?_
    · intro z hz hlt
      rcases mem_roots.mp hz with hz | ⟨f, hf, hz⟩
      · exact hroot hz
      · obtain rfl := Option.some.inj hf
        rw [List.mem_singleton] at hz
        omega
    · intro e he
      obtain ⟨f, hf | hf, rfl⟩ := mem_ephemerons.mp he
      · obtain rfl := Option.some.inj hf
        refine Or.inr fun y hy hlt => ?_
        rw [List.mem_singleton] at hy
        omega
      · exact Or.inl (mem_ephemerons.mpr ⟨f, Or.inr hf, rfl⟩)
  | @initSocket c _ _ _ hc =>
    have hcaptures : ∀ y ∈ [c, s.next], y < s.next → s.heap.Reaches y := by
      intro y hy hlt
      rcases List.mem_cons.mp hy with rfl | hy
      · exact hroot hc
      · rw [List.mem_singleton] at hy
        omega
    refine hr.of_step hx h.heap ?_ (fun e he => Or.inl he) ?_
    · intro z hz hlt
      rcases mem_roots.mp hz with hz | ⟨f, hf, hz⟩
      · exact hroot hz
      · obtain rfl := Option.some.inj hf
        exact hcaptures z hz hlt
    · intro e he
      obtain ⟨f, hf | hf, rfl⟩ := mem_ephemerons.mp he
      · obtain rfl := Option.some.inj hf
        exact Or.inr hcaptures
      · exact Or.inl (mem_ephemerons.mpr ⟨f, Or.inr hf, rfl⟩)
  | @register f hf =>
    refine hr.of_step hx h.heap ?_ (fun e he => Or.inl he) ?_
    · intro z hz _
      rcases mem_roots.mp hz with hz | ⟨g, hg, _⟩
      · rcases List.mem_cons.mp hz with rfl | hz
        · exact hframe hf (h.frame f hf).2
        · exact hroot hz
      · contradiction
    · intro e he
      obtain ⟨g, hg | hg, rfl⟩ := mem_ephemerons.mp he
      · contradiction
      · rcases List.mem_cons.mp hg with rfl | hg
        · exact Or.inl (mem_ephemerons.mpr ⟨g, Or.inl hf, rfl⟩)
        · exact Or.inl (mem_ephemerons.mpr ⟨g, Or.inr hg, rfl⟩)
  | collect => rwa [heap_collect] at hr
  | finalizeNull | finalize =>
    refine hr.of_step hx h.heap (fun z hz _ => .root hz) (fun e he => Or.inl he) ?_
    intro e he
    obtain ⟨f, hf | hf, rfl⟩ := mem_ephemerons.mp he
    · exact Or.inl (mem_ephemerons.mpr ⟨f, Or.inl hf, rfl⟩)
    · exact Or.inl (mem_ephemerons.mpr ⟨f, Or.inr (List.mem_of_mem_eraseP hf), rfl⟩)
  | abandon => exact reaches_of_leave hr
  | exit =>
    have hheap := s.leave.heap_exit
    exact reaches_of_leave (hheap ▸ hr)

/-- The names in a session are those of its variables, references and finalizers. -/
theorem Session.heap_all {s : Session} {P : Nat → Prop} :
    s.heap.All P ↔ (∀ x ∈ s.roots, P x) ∧ (∀ e ∈ s.edges, P e.1 ∧ P e.2) ∧
      ∀ f ∈ s.pending, P f.key ∧ ∀ y ∈ f.captures, P y := by
  constructor
  · intro h
    refine ⟨fun x hx => h.roots x (mem_roots.mpr (Or.inl hx)), h.edges, fun f hf => ?_⟩
    exact h.ephemerons (f.key, f.captures) (mem_ephemerons.mpr ⟨f, mem_pending.mp hf, rfl⟩)
  · rintro ⟨hroots, hedges, hpending⟩
    refine ⟨fun x hx => ?_, hedges, fun e he => ?_⟩
    · rcases mem_roots.mp hx with hx | ⟨f, hf, hx⟩
      · exact hroots x hx
      · exact (hpending f (mem_pending.mpr (Or.inl hf))).2 x hx
    · obtain ⟨f, hf, rfl⟩ := mem_ephemerons.mp he
      exact hpending f (mem_pending.mpr hf)

/-- A new pointer has its own name for an address. -/
theorem Session.Sound.addr_makePtr {s : Session} (h : s.Sound) {x a : Nat}
    (ha : s.makePtr.addr x = some a) : a = x ∧ x < s.next + 1 := by
  simp only [makePtr, Function.update_apply] at ha
  split at ha
  · rename_i hx
    have he := Option.some.inj ha
    omega
  · have hold := h.addr x a ha
    omega

/-- Old addresses stay. -/
theorem Session.Sound.keys_makePtr {s : Session} (h : s.Sound) {f : Finalizer}
    (hf : f ∈ s.pending) : s.makePtr.addr f.key = some f.key := by
  have hlt := h.key_lt hf
  simp only [makePtr, Function.update_apply]
  rw [if_neg (by omega)]
  exact h.keys f hf

theorem Session.addr_next_makePtr (s : Session) : s.makePtr.addr s.next = some s.next := by
  simp only [makePtr, Function.update_self]

/-- A ready finalizer keeps its unreachable object. -/
theorem Session.Sound.unreached_step {s t : Session} {a : Act} (h : s.Sound) (hs : Stepped s a t)
    (hexit : s.exiting = false) {f : Finalizer} (hf : f ∈ s.finalizers) (hready : f.ready = true) :
    ¬ t.heap.Reaches f.key := by
  intro hr
  have hlt := h.key_lt (mem_pending.mpr (Or.inr hf))
  exact h.unreached hexit f hf hready (h.reaches hs hr hlt)

/-- A wrapper's frame is the only change to the pending finalizers of a creation. -/
theorem Session.pending_frame {s : Session} (hf : s.frame = none) (g : Finalizer) {t : Session}
    (ht : t.frame = some g) (he : t.finalizers = s.finalizers) : t.pending = g :: s.pending := by
  simp only [pending, hf, ht, he, Option.toList_some, Option.toList_none, List.nil_append,
    List.singleton_append]

/-- A new pointer with a frame that holds old reachable objects and itself. -/
private theorem sound_frame {s t : Session} {a : Act} {g : Finalizer} (h : s.Sound)
    (hs : Stepped s a t) (hfree : s.Free) (hnext : t.next = s.next + 1) (hroots : t.roots = s.roots)
    (hedges : t.edges = s.edges) (hframe : t.frame = some g) (hfin : t.finalizers = s.finalizers)
    (hexit : t.exiting = s.exiting) (haddr : t.addr = s.makePtr.addr)
    (hcalls : ∀ c ∈ t.calls, c.handle < t.next) (hkey : g.key = s.next) (hready : g.ready = false)
    (hown : s.next ∈ g.captures) (hcaptures : ∀ y ∈ g.captures, y ≤ s.next) : t.Sound := by
  obtain ⟨hr, he, hp⟩ := Session.heap_all.mp h.heap
  have hpending := Session.pending_frame hfree.1 g hframe hfin
  refine ⟨Session.heap_all.mpr ⟨?_, ?_, ?_⟩, ?_, hcalls, ?_, ?_, ?_, ?_, ?_⟩
  · intro x hx
    rw [hroots] at hx
    have hlt := hr x hx
    omega
  · intro e hx
    rw [hedges] at hx
    have hlt := he e hx
    omega
  · rw [hpending]
    intro f hf
    rcases List.mem_cons.mp hf with rfl | hf
    · refine ⟨by omega, fun y hy => ?_⟩
      have hle := hcaptures y hy
      omega
    · obtain ⟨hlt, hall⟩ := hp f hf
      refine ⟨by omega, fun y hy => ?_⟩
      have hly := hall y hy
      omega
  · intro x b hb
    rw [haddr] at hb
    rw [hnext]
    exact h.addr_makePtr hb
  · rw [hpending, haddr]
    intro f hf
    rcases List.mem_cons.mp hf with rfl | hf
    · rw [hkey]
      exact s.addr_next_makePtr
    · exact h.keys_makePtr hf
  · rw [hpending, List.map_cons, List.nodup_cons]
    refine ⟨?_, h.nodup⟩
    intro hmem
    obtain ⟨f, hf, hkeys⟩ := List.mem_map.mp hmem
    have hlt := h.key_lt hf
    omega
  · intro hx
    rw [hexit, hfree.2] at hx
    contradiction
  · intro f hf
    rw [hframe] at hf
    obtain rfl := Option.some.inj hf
    exact ⟨hready, hkey ▸ hown⟩
  · intro _ f hf hrdy
    rw [hfin] at hf
    exact h.unreached_step hs hfree.2 hf hrdy

/-- A new pointer bound to a variable of the user. -/
private theorem sound_bound {s t : Session} {a : Act} (h : s.Sound) (hs : Stepped s a t)
    (hfree : s.Free) (hnext : t.next = s.next + 1) (hroots : t.roots = s.next :: s.roots)
    (hedges : t.edges = s.edges) (hframe : t.frame = s.frame)
    (hfin : t.finalizers = s.finalizers) (hexit : t.exiting = s.exiting)
    (haddr : t.addr = s.makePtr.addr) (hcalls : ∀ c ∈ t.calls, c.handle < t.next) : t.Sound := by
  obtain ⟨hr, he, hp⟩ := Session.heap_all.mp h.heap
  have hpending : t.pending = s.pending := by simp only [Session.pending, hframe, hfin]
  refine ⟨Session.heap_all.mpr ⟨?_, ?_, ?_⟩, ?_, hcalls, ?_, ?_, ?_, ?_, ?_⟩
  · intro x hx
    rw [hroots] at hx
    rcases List.mem_cons.mp hx with rfl | hx
    · omega
    · have hlt := hr x hx
      omega
  · intro e hx
    rw [hedges] at hx
    have hlt := he e hx
    omega
  · rw [hpending]
    intro f hf
    obtain ⟨hlt, hall⟩ := hp f hf
    refine ⟨by omega, fun y hy => ?_⟩
    have hly := hall y hy
    omega
  · intro x b hb
    rw [haddr] at hb
    rw [hnext]
    exact h.addr_makePtr hb
  · rw [hpending, haddr]
    intro f hf
    exact h.keys_makePtr hf
  · rw [hpending]
    exact h.nodup
  · rw [hexit, hframe]
    exact h.quiet
  · rw [hframe]
    exact h.frame
  · intro _ f hf hrdy
    rw [hfin] at hf
    exact h.unreached_step hs hfree.2 hf hrdy

/-- The handle of a call is the address of an old pointer. -/
theorem Session.Sound.calls_log {s : Session} (h : s.Sound) {x : Nat} {c : Call}
    (hx : s.addr x = some c.handle) : ∀ d ∈ c :: s.calls, d.handle < s.next := by
  intro d hd
  rcases List.mem_cons.mp hd with rfl | hd
  · have ha := h.addr _ _ hx
    omega
  · exact h.calls d hd

/-- A finalizer that runs leaves the list. -/
theorem Session.Sound.erase {s : Session} (h : s.Sound) :
    ({ s with finalizers := s.finalizers.eraseP Finalizer.ready } : Session).Sound := by
  obtain ⟨hr, he, hp⟩ := heap_all.mp h.heap
  have hsub : List.Sublist
      ({ s with finalizers := s.finalizers.eraseP Finalizer.ready } : Session).pending s.pending :=
    List.eraseP_sublist.append_left _
  refine ⟨heap_all.mpr ⟨hr, he, fun f hf => hp f (hsub.subset hf)⟩, h.addr, h.calls,
    fun f hf => h.keys f (hsub.subset hf), h.nodup.sublist (hsub.map _), h.quiet, h.frame, ?_⟩
  intro hexit f hf hready hreach
  have hold : s.heap.Reaches f.key := by
    refine hreach.of_step trivial (P := fun _ => True)
      ⟨fun _ _ => trivial, fun _ _ => ⟨trivial, trivial⟩,
      fun _ _ => ⟨trivial, fun _ _ => trivial⟩⟩ (fun z hz _ => .root hz) (fun e he => Or.inl he) ?_
    intro e hmem
    obtain ⟨g, hg | hg, rfl⟩ := mem_ephemerons.mp hmem
    · exact Or.inl (mem_ephemerons.mpr ⟨g, Or.inl hg, rfl⟩)
    · exact Or.inl (mem_ephemerons.mpr ⟨g, Or.inr (List.mem_of_mem_eraseP hg), rfl⟩)
  exact h.unreached hexit f (List.mem_of_mem_eraseP hf) hready hold

/-- A frame that is left takes no registered finalizer with it. -/
theorem Session.Sound.leave {s : Session} (h : s.Sound) : s.leave.Sound := by
  obtain ⟨hr, he, hp⟩ := heap_all.mp h.heap
  have hsub := s.pending_leave
  refine ⟨heap_all.mpr ⟨hr, he, fun f hf => hp f (hsub.subset hf)⟩, h.addr, h.calls,
    fun f hf => h.keys f (hsub.subset hf), h.nodup.sublist (hsub.map _), fun _ => rfl, nofun, ?_⟩
  intro hexit f hf hready hreach
  exact h.unreached hexit f hf hready (reaches_of_leave hreach)

/-- A call of libzmq touches neither objects nor finalizers. -/
theorem Session.Sound.log {s : Session} (h : s.Sound) {x : Nat} {c : Call}
    (hx : s.addr x = some c.handle) : (s.log c).Sound :=
  ⟨h.heap, h.addr, h.calls_log hx, h.keys, h.nodup, h.quiet, h.frame, h.unreached⟩

/-- Every step keeps the invariant. -/
theorem Session.Sound.step {s t : Session} {a : Act} (h : s.Sound) (hs : Stepped s a t) :
    t.Sound := by
  obtain ⟨hr, he, hp⟩ := heap_all.mp h.heap
  have hs' := hs
  cases hs with
  | @graph u roots edges next hfree _ hnext hroots hedges =>
    have hlt : ∀ {x}, s.heap.Reaches x → x < s.next := fun hx => h.heap.reaches hx
    refine ⟨heap_all.mpr ⟨?_, ?_, ?_⟩, ?_, ?_, h.keys, h.nodup, h.quiet, h.frame, ?_⟩
    · intro x hx
      rcases hroots x hx with hold | ⟨_, hnew⟩
      · exact Nat.lt_of_lt_of_le (hlt hold) hnext
      · exact hnew
    · intro e hx
      rcases hedges e hx with hold | ⟨hfrom, hto⟩
      · have hold' := he e hold
        exact ⟨Nat.lt_of_lt_of_le hold'.1 hnext, Nat.lt_of_lt_of_le hold'.2 hnext⟩
      · exact ⟨Nat.lt_of_lt_of_le (hlt hfrom) hnext, Nat.lt_of_lt_of_le (hlt hto) hnext⟩
    · intro f hf
      obtain ⟨hkey, hall⟩ := hp f hf
      exact ⟨Nat.lt_of_lt_of_le hkey hnext, fun y hy => Nat.lt_of_lt_of_le (hall y hy) hnext⟩
    · intro x b hb
      obtain ⟨hname, hold⟩ := h.addr x b hb
      exact ⟨hname, Nat.lt_of_lt_of_le hold hnext⟩
    · intro c hc
      exact Nat.lt_of_lt_of_le (h.calls c hc) hnext
    · intro _ f hf hready
      exact h.unreached_step hs' hfree.2 hf hready
  | null => exact h
  | call _ _ _ hx => exact h.log hx
  | ctxNew hfree =>
    refine sound_bound h hs' hfree rfl rfl rfl rfl rfl rfl rfl ?_
    intro c hc
    exact Nat.lt_succ_of_lt (h.calls c hc)
  | socketNew hfree _ hx =>
    refine sound_bound h hs' hfree rfl rfl rfl rfl rfl rfl rfl ?_
    intro c hc
    exact Nat.lt_succ_of_lt (h.calls_log (c := ⟨.user, .socket, _, true⟩) hx c hc)
  | initContext hfree =>
    refine sound_frame h hs' hfree rfl rfl rfl rfl rfl rfl rfl ?_ rfl rfl ?_ ?_
    · intro c hc
      exact Nat.lt_succ_of_lt (h.calls c hc)
    · exact List.mem_singleton_self _
    · intro y hy
      exact Nat.le_of_eq (List.mem_singleton.mp hy)
  | @initSocket x _ _ hfree hroot hx =>
    refine sound_frame h hs' hfree rfl rfl rfl rfl rfl rfl rfl ?_ rfl rfl ?_ ?_
    · intro c hc
      exact Nat.lt_succ_of_lt (h.calls_log (c := ⟨.user, .socket, _, true⟩) hx c hc)
    · exact List.mem_cons_of_mem _ (List.mem_singleton_self _)
    · intro y hy
      rcases List.mem_cons.mp hy with rfl | hy
      · exact Nat.le_of_lt (hr _ hroot)
      · exact Nat.le_of_eq (List.mem_singleton.mp hy)
  | @register f hf =>
    have hpending : ({ s with
        frame := none, finalizers := f :: s.finalizers, roots := f.key :: s.roots }
        : Session).pending = s.pending := by
      simp only [pending, hf, Option.toList_none, Option.toList_some, List.nil_append,
        List.singleton_append]
    have hmem : f ∈ s.pending := mem_pending.mpr (Or.inl hf)
    refine ⟨heap_all.mpr ⟨?_, he, ?_⟩, h.addr, h.calls, ?_, ?_, fun _ => rfl, nofun, ?_⟩
    · intro x hx
      rcases List.mem_cons.mp hx with rfl | hx
      · exact h.key_lt hmem
      · exact hr x hx
    · rw [hpending]
      exact hp
    · rw [hpending]
      exact h.keys
    · rw [hpending]
      exact h.nodup
    · intro hexit g hg hready
      rcases List.mem_cons.mp hg with rfl | hg
      · rw [(h.frame g hf).1] at hready
        contradiction
      · exact h.unreached_step hs' hexit hg hready
  | @collect live hmarks =>
    have hheap := s.heap_collect live
    refine ⟨hheap ▸ h.heap, h.addr, h.calls, ?_, ?_, h.quiet, h.frame, ?_⟩
    · intro f hf
      rcases mem_pending.mp hf with hf | hf
      · exact h.keys f (mem_pending.mpr (Or.inl hf))
      · obtain ⟨g, hg, rfl⟩ := List.mem_map.mp hf
        exact h.keys g (mem_pending.mpr (Or.inr hg))
    · have hnodup := h.nodup
      simpa [pending, Function.comp_def, Finalizer.mark] using hnodup
    · intro hexit f hf hready hreach
      rw [hheap] at hreach
      obtain ⟨g, hg, rfl⟩ := List.mem_map.mp hf
      simp only [Finalizer.mark, Bool.or_eq_true, decide_eq_true_eq] at hready
      rcases hready with hready | hdead
      · exact h.unreached hexit g hg hready hreach
      · exact hdead (hmarks.mem_of_reaches hreach)
  | finalizeNull => exact h.erase
  | finalize hf hx => exact h.erase.log hx
  | abandon => exact h.leave
  | exit =>
    have hleft := h.leave
    have hheap := s.leave.heap_exit
    have hkeys : ∀ f ∈ s.finalizers.map (fun f : Finalizer => { f with ready := true }),
        ∃ g ∈ s.finalizers, g.key = f.key := by
      intro f hf
      obtain ⟨g, hg, rfl⟩ := List.mem_map.mp hf
      exact ⟨g, hg, rfl⟩
    refine ⟨hheap ▸ hleft.heap, h.addr, h.calls, ?_, ?_, fun _ => rfl, nofun, nofun⟩
    · intro f hf
      rcases mem_pending.mp hf with hf | hf
      · contradiction
      · obtain ⟨g, hg, hkey⟩ := hkeys f hf
        rw [← hkey]
        exact h.keys g (mem_pending.mpr (Or.inr hg))
    · have hnodup := hleft.nodup
      simpa [pending, Session.leave, Function.comp_def] using hnodup

end PbdZmq.Handle
