import PbdZmq.Models.Handle.Collected

/-!
# Contexts are finalized after their sockets

Nothing in a socket's pointer refers to its context. The finalizer that
`init.socket` registers does: its closure holds the frame, and the frame holds
the context. A context that a collection leaves out therefore takes all its
sockets with it, and their finalizers, registered later, run first. A socket that is
made but not registered when the session ends, or when `init.socket` is broken off, has
no finalizer, and its context is finalized before it is closed.
-/

namespace PbdZmq.Handle

/-- Contexts come from `init.context` and sockets from `init.socket` only. -/
def InitOnly (_ : Session) : Act → Prop
  | .user .ctxNew | .user (.socketNew _ _) => False
  | _ => True

/-- The session does not end and no call is broken off between `zmq.socket` and
`reg.finalizer` of `init.socket`. -/
def Unbroken (s : Session) : Act → Prop
  | .exit | .abandon => ∀ f, s.frame = some f → f.kind = .context
  | _ => True

/-- The finalizer of a socket holds the context of the socket. -/
def Finalizer.Owns (g : Finalizer) (p : Nat × Nat) : Prop :=
  g.kind = .socket ∧ g.key = p.1 ∧ p.2 ∈ g.captures

/-- The invariant of sessions that use `init.context` and `init.socket`. -/
structure Session.Ordered (s : Session) : Prop where
  sound : s.Sound
  sockets : ∀ p ∈ s.sockets, p.1 < s.next
  /-- Every socket has its finalizer pending, or is closed and out of reach. -/
  owned : ∀ p ∈ s.sockets, (∃ g ∈ s.pending, g.Owns p) ∨
    (s.Dead p.1 ∧ (s.exiting = false → ¬ s.heap.Reaches p.1))
  /-- No socket's finalizer is older than its context's. -/
  order : s.pending.Pairwise fun newer older =>
    newer.kind = .context → older.kind = .socket → newer.key ∉ older.captures
  /-- A context is ready together with its sockets. -/
  together : ∀ f ∈ s.finalizers, f.kind = .context → f.ready = true →
    ∀ g ∈ s.pending, g.kind = .socket → f.key ∈ g.captures → g.ready = true

theorem Session.ordered_start : Session.start.Ordered := by
  refine ⟨sound_start, ?_, ?_, ?_, ?_⟩ <;> simp [start, pending]

/-- Calls never bring a handle back. -/
theorem Session.Dead.log {s : Session} {h : Nat} (hd : s.Dead h) (c : Call) : (s.log c).Dead h := by
  obtain ⟨d, hmem, hends, hh⟩ := hd
  exact ⟨d, List.mem_cons_of_mem _ hmem, hends, hh⟩

/-- A step that keeps sockets, finalizers and closed handles keeps the order. -/
private theorem ordered_keep {s t : Session} {a : Act} (h : s.Ordered) (hs : Stepped s a t)
    (hnext : s.next ≤ t.next) (hsockets : t.sockets = s.sockets) (hpending : t.pending = s.pending)
    (hfin : t.finalizers = s.finalizers) (hexit : t.exiting = s.exiting)
    (hdead : ∀ x, s.Dead x → t.Dead x) : t.Ordered := by
  refine ⟨h.sound.step hs, ?_, ?_, hpending ▸ h.order, ?_⟩
  · intro p hp
    rw [hsockets] at hp
    exact Nat.lt_of_lt_of_le (h.sockets p hp) hnext
  · intro p hp
    rw [hsockets] at hp
    rcases h.owned p hp with ⟨g, hg, howns⟩ | ⟨hd, hgone⟩
    · exact Or.inl ⟨g, hpending ▸ hg, howns⟩
    · refine Or.inr ⟨hdead _ hd, fun hx hr => ?_⟩
      exact hgone (hexit ▸ hx) (h.sound.reaches hs hr (h.sockets p hp))
  · rw [hfin, hpending]
    exact h.together

/-- A new wrapper's frame comes before all finalizers. -/
private theorem ordered_frame {s t : Session} {a : Act} {g : Finalizer} (h : s.Ordered)
    (hs : Stepped s a t) (hfree : s.Free) (hnext : t.next = s.next + 1)
    (hframe : t.frame = some g) (hfin : t.finalizers = s.finalizers)
    (hexit : t.exiting = s.exiting) (hdead : ∀ x, s.Dead x → t.Dead x)
    (hsockets : ∀ p ∈ t.sockets, p ∈ s.sockets ∨ (p.1 = s.next ∧ g.Owns p))
    (hfresh : g.kind = .context → g.key = s.next)
    (hreach : ∀ y ∈ g.captures, y < s.next → s.heap.Reaches y) : t.Ordered := by
  obtain ⟨_, _, hp⟩ := Session.heap_all.mp h.sound.heap
  have hpending := Session.pending_frame hfree.1 g hframe hfin
  refine ⟨h.sound.step hs, ?_, ?_, ?_, ?_⟩
  · intro p hmem
    rcases hsockets p hmem with hold | ⟨hnew, _⟩
    · have hlt := h.sockets p hold
      omega
    · omega
  · rw [hpending]
    intro p hmem
    rcases hsockets p hmem with hold | ⟨_, howns⟩
    · rcases h.owned p hold with ⟨f, hf, howns⟩ | ⟨hd, hgone⟩
      · exact Or.inl ⟨f, List.mem_cons_of_mem _ hf, howns⟩
      · refine Or.inr ⟨hdead _ hd, fun hx hr => ?_⟩
        exact hgone (hexit ▸ hx) (h.sound.reaches hs hr (h.sockets p hold))
    · exact Or.inl ⟨g, List.mem_cons_self, howns⟩
  · rw [hpending, List.pairwise_cons]
    refine ⟨?_, h.order⟩
    intro f hf hkind _ hmem
    have hlt := (hp f hf).2 _ hmem
    have hkey := hfresh hkind
    omega
  · rw [hfin, hpending]
    intro f hf hkind hready f' hf' hsocket hmem
    rcases List.mem_cons.mp hf' with rfl | hf'
    · have hlt := h.sound.key_lt (Session.mem_pending.mpr (Or.inr hf))
      exact absurd (hreach _ hmem hlt) (h.sound.unreached hfree.2 f hf hready)
    · exact h.together f hf hkind hready f' hf' hsocket hmem

/-- Marking ready finalizers keeps the order if contexts are marked with their sockets. -/
private theorem ordered_mark {s t : Session} {a : Act} {m : Finalizer → Finalizer} (h : s.Ordered)
    (hs : Stepped s a t) (hnext : t.next = s.next) (hsockets : t.sockets = s.sockets)
    (hframe : t.frame = s.frame) (hfin : t.finalizers = s.finalizers.map m)
    (hexit : t.exiting = false → s.exiting = false) (hdead : ∀ x, s.Dead x → t.Dead x)
    (hm : ∀ f, (m f).kind = f.kind ∧ (m f).key = f.key ∧ (m f).captures = f.captures)
    (hready : ∀ f ∈ s.finalizers, f.kind = .context → (m f).ready = true →
      (∀ g, s.frame = some g → g.kind = .socket → f.key ∉ g.captures) ∧
      ∀ g ∈ s.finalizers, g.kind = .socket → f.key ∈ g.captures → (m g).ready = true) :
    t.Ordered := by
  have hpending : ∀ g, g ∈ t.pending →
      s.frame = some g ∨ ∃ f ∈ s.finalizers, m f = g := by
    intro g hg
    rcases Session.mem_pending.mp hg with hg | hg
    · exact Or.inl (hframe ▸ hg)
    · rw [hfin] at hg
      exact Or.inr (List.mem_map.mp hg)
  refine ⟨h.sound.step hs, ?_, ?_, ?_, ?_⟩
  · rw [hsockets, hnext]
    exact h.sockets
  · intro p hp
    rw [hsockets] at hp
    rcases h.owned p hp with ⟨g, hg, hkind, hkey, hcapt⟩ | ⟨hd, hgone⟩
    · rcases Session.mem_pending.mp hg with hg | hg
      · exact Or.inl ⟨g, Session.mem_pending.mpr (Or.inl (hframe ▸ hg)), hkind, hkey, hcapt⟩
      · refine Or.inl ⟨m g, Session.mem_pending.mpr (Or.inr ?_), ?_⟩
        · rw [hfin]
          exact List.mem_map_of_mem hg
        · obtain ⟨h1, h2, h3⟩ := hm g
          exact ⟨h1.trans hkind, h2.trans hkey, h3 ▸ hcapt⟩
    · refine Or.inr ⟨hdead _ hd, fun hx hr => ?_⟩
      exact hgone (hexit hx) (h.sound.reaches hs hr (h.sockets p hp))
  · have hold := List.pairwise_append.mp h.order
    have hnew : (t.frame.toList ++ t.finalizers).Pairwise fun newer older =>
        newer.kind = .context → older.kind = .socket → newer.key ∉ older.captures := by
      rw [hframe, hfin, List.pairwise_append, List.pairwise_map]
      refine ⟨hold.1, hold.2.1.imp ?_, ?_⟩
      · intro f g hfg
        rw [(hm f).1, (hm f).2.1, (hm g).1, (hm g).2.2]
        exact hfg
      · intro f hf g hg
        obtain ⟨g, hmem, rfl⟩ := List.mem_map.mp hg
        rw [(hm g).1, (hm g).2.2]
        exact hold.2.2 f hf g hmem
    exact hnew
  · rw [hfin]
    intro f' hf' hkind hrdy g' hg' hsocket hmem
    obtain ⟨f, hf, rfl⟩ := List.mem_map.mp hf'
    rw [(hm f).1] at hkind
    rw [(hm f).2.1] at hmem
    obtain ⟨hnone, hall⟩ := hready f hf hkind hrdy
    rcases hpending g' hg' with hg | ⟨g, hg, rfl⟩
    · exact absurd hmem (hnone g' hg hsocket)
    · rw [(hm g).1] at hsocket
      rw [(hm g).2.2] at hmem
      exact hall g hg hsocket hmem

/-- The frame of `init.context` may be left: no socket is in it. -/
theorem Session.Ordered.leave {s : Session} (h : s.Ordered)
    (hkind : ∀ f, s.frame = some f → f.kind = .context) : s.leave.Ordered := by
  have hsub := s.pending_leave
  refine ⟨h.sound.leave, h.sockets, ?_, h.order.sublist hsub, ?_⟩
  · intro p hp
    rcases h.owned p hp with ⟨g, hg, howns⟩ | ⟨hd, hgone⟩
    · rcases mem_pending.mp hg with hframe | hg
      · have hcontext := hkind g hframe
        rw [howns.1] at hcontext
        contradiction
      · exact Or.inl ⟨g, mem_pending.mpr (Or.inr hg), howns⟩
    · exact Or.inr ⟨hd, fun hx hr => hgone hx (reaches_of_leave hr)⟩
  · intro f hf hcontext hready g hg
    exact h.together f hf hcontext hready g (hsub.subset hg)

/-- The finalizer of a socket leaves it closed. -/
theorem Session.Ordered.finalized {s : Session} (h : s.Ordered) {f : Finalizer} {c : Call}
    {p : Nat × Nat} (hp : p ∈ s.sockets) (howns : f.Owns p)
    (hx : s.addr f.key = some c.handle)
    (hc : f.kind = .socket → c.handle ∈ s.sockets.map Prod.fst → ¬ s.Dead c.handle →
      c.ends = true) : (s.log c).Dead p.1 := by
  have hhandle : c.handle = p.1 := by
    rw [(h.sound.addr _ _ hx).1, howns.2.1]
  by_cases hd : s.Dead p.1
  · exact hd.log c
  · have hends := hc howns.1 (hhandle ▸ List.mem_map_of_mem hp) (hhandle ▸ hd)
    exact ⟨c, List.mem_cons_self, hends, hhandle⟩

/-- Every step of such a session keeps the order. -/
theorem Session.Ordered.step {s t : Session} {a : Act} (h : s.Ordered) (hg : InitOnly s a)
    (hu : Unbroken s a) (hs : Stepped s a t) : t.Ordered := by
  have hs' := hs
  cases hs with
  | graph _ _ hnext => exact ordered_keep h hs' hnext rfl rfl rfl rfl fun _ hd => hd
  | null => exact h
  | call => exact ordered_keep h hs' (Nat.le_refl _) rfl rfl rfl rfl fun _ hd => hd.log _
  | ctxNew => exact hg.elim
  | socketNew => exact hg.elim
  | initContext hfree =>
    refine ordered_frame h hs' hfree rfl rfl rfl rfl (fun _ hd => hd) (fun p hp => Or.inl hp)
      (fun _ => rfl) ?_
    intro y hy hlt
    rw [List.mem_singleton] at hy
    omega
  | @initSocket x b _ hfree hroot hx _ =>
    have hname := (h.sound.addr x b hx).1
    refine ordered_frame h hs' hfree rfl rfl rfl rfl (fun _ hd => hd.log _) ?_ nofun ?_
    · intro p hp
      rcases List.mem_cons.mp hp with rfl | hp
      · exact Or.inr ⟨rfl, rfl, rfl, hname ▸ List.mem_cons_self⟩
      · exact Or.inl hp
    · intro y hy hlt
      rcases List.mem_cons.mp hy with rfl | hy
      · exact .root (mem_roots.mpr (Or.inl hroot))
      · rw [List.mem_singleton] at hy
        omega
  | @register f hf =>
    have hpending : ({ s with
        frame := none, finalizers := f :: s.finalizers, roots := f.key :: s.roots }
        : Session).pending = s.pending := by
      simp only [pending, hf, Option.toList_none, Option.toList_some, List.nil_append,
        List.singleton_append]
    refine ⟨h.sound.step hs', h.sockets, ?_, ?_, ?_⟩
    · rw [hpending]
      intro p hp
      rcases h.owned p hp with hown | ⟨hd, hgone⟩
      · exact Or.inl hown
      · refine Or.inr ⟨hd, fun hx hr => ?_⟩
        exact hgone hx (h.sound.reaches hs' hr (h.sockets p hp))
    · rw [hpending]
      exact h.order
    · rw [hpending]
      intro g hg hkind hready
      rcases List.mem_cons.mp hg with rfl | hg
      · rw [(h.sound.frame g hf).1] at hready
        contradiction
      · exact h.together g hg hkind hready
  | @collect live hmarks =>
    refine ordered_mark h hs' rfl rfl rfl rfl (fun hx => hx) (fun _ hd => hd)
      (fun _ => ⟨rfl, rfl, rfl⟩) ?_
    intro f hf hkind hready
    simp only [Finalizer.mark, Bool.or_eq_true, decide_eq_true_eq] at hready
    rcases hready with hready | hdead
    · constructor
      · intro g hg hsocket hmem
        have hrdy := h.together f hf hkind hready g (mem_pending.mpr (Or.inl hg)) hsocket hmem
        rw [(h.sound.frame g hg).1] at hrdy
        contradiction
      · intro g hg hsocket hmem
        have hrdy := h.together f hf hkind hready g (mem_pending.mpr (Or.inr hg)) hsocket hmem
        simp only [Finalizer.mark, hrdy, Bool.true_or]
    · constructor
      · intro g hg _ hmem
        exact hdead (hmarks.1 _ (mem_roots.mpr (Or.inr ⟨g, hg, hmem⟩)))
      · intro g hg _ hmem
        have hgone : g.key ∉ live := by
          intro hlive
          have hephemeron : (g.key, g.captures) ∈ s.heap.ephemerons :=
            mem_ephemerons.mpr ⟨g, Or.inr hg, rfl⟩
          exact hdead (hmarks.2.2 _ hephemeron hlive _ hmem)
        simp only [Finalizer.mark, Bool.or_eq_true, decide_eq_true_eq]
        exact Or.inr hgone
  | @finalizeNull f _ hf hx =>
    have hmem := (nextReady_spec hf).1
    rw [h.sound.keys f (mem_pending.mpr (Or.inr hmem))] at hx
    contradiction
  | @finalize f c _ hf hx _ hc =>
    obtain ⟨newer, older, hsplit, herase, _⟩ := nextReady_split hf
    have hsub : List.Sublist (s.finalizers.eraseP Finalizer.ready) s.finalizers :=
      List.eraseP_sublist
    refine ⟨h.sound.step hs', h.sockets, ?_, h.order.sublist (hsub.append_left _), ?_⟩
    · intro p hp
      rcases h.owned p hp with ⟨g, hmem, howns⟩ | ⟨hd, hgone⟩
      · rcases mem_pending.mp hmem with hg | hg
        · exact Or.inl ⟨g, mem_pending.mpr (Or.inl hg), howns⟩
        · by_cases hfg : g = f
          · subst hfg
            refine Or.inr ⟨h.finalized hp howns hx hc, fun hexit hr => ?_⟩
            rw [← howns.2.1] at hr
            exact h.sound.unreached_step hs' hexit hg (nextReady_spec hf).2 hr
          · refine Or.inl ⟨g, mem_pending.mpr (Or.inr ?_), howns⟩
            rw [hsplit] at hg
            show g ∈ s.finalizers.eraseP Finalizer.ready
            rw [herase]
            rcases List.mem_append.mp hg with hg | hg
            · exact List.mem_append_left _ hg
            · rcases List.mem_cons.mp hg with he | hg
              · exact absurd he hfg
              · exact List.mem_append_right _ hg
      · refine Or.inr ⟨hd.log c, fun hexit hr => ?_⟩
        exact hgone hexit (h.sound.reaches hs' hr (h.sockets p hp))
    · intro f' hf' hkind hready g hmem hsocket hcapt
      refine h.together f' (hsub.subset hf') hkind hready g ?_ hsocket hcapt
      exact (hsub.append_left _).subset hmem
  | abandon => exact h.leave hu
  | exit hexit =>
    have hleft := h.leave hu
    refine ordered_mark hleft (.exit hexit) rfl rfl rfl rfl (by rintro ⟨⟩) (fun _ hd => hd)
      (fun _ => ⟨rfl, rfl, rfl⟩) ?_
    intro f _ _ _
    refine ⟨fun g hg => ?_, fun _ _ _ _ => rfl⟩
    contradiction

/-- In a session that makes contexts with `init.context` and sockets with
`init.socket`, and that neither ends nor breaks off a call between the creation of a socket
and its registration, a context's finalizer runs only when all sockets of the context are
closed, and before the end of the session only when they are out of reach. -/
theorem sockets_closed_before_context {s : Session}
    (h : Reach (Fires step) (fun s a => InitOnly s a ∧ Unbroken s a) .start s)
    {f : Finalizer} (hf : s.nextReady = some f) (hk : f.kind = .context) {c : Nat}
    (hc : s.addr f.key = some c) :
    ∀ k, (k, c) ∈ s.sockets →
      s.Dead k ∧ (s.exiting = false → ∀ x, s.addr x = some k → ¬ s.heap.Reaches x) := by
  have hi : s.Ordered := h.invariant Session.ordered_start
    fun _ _ _ hi hg hs => hi.step hg.1 hg.2 (stepped_of_step hs)
  have hname := (hi.sound.addr _ _ hc).1
  obtain ⟨hmem, hready⟩ := Session.nextReady_spec hf
  obtain ⟨newer, older, hsplit, _, hnewer⟩ := Session.nextReady_split hf
  intro k hp
  have hdone : s.Dead k ∧ (s.exiting = false → ¬ s.heap.Reaches k) := by
    rcases hi.owned _ hp with ⟨g, hg, hsocket, _, hcapt⟩ | hdone
    · exfalso
      rw [hname] at hcapt
      have hrdy := hi.together f hmem hk hready g hg hsocket hcapt
      rcases Session.mem_pending.mp hg with hframe | hg
      · rw [(hi.sound.frame g hframe).1] at hrdy
        contradiction
      · rw [hsplit] at hg
        rcases List.mem_append.mp hg with hg | hg
        · rw [hnewer g hg] at hrdy
          contradiction
        · rcases List.mem_cons.mp hg with rfl | hg
          · rw [hk] at hsocket
            contradiction
          · have horder := (List.pairwise_append.mp hi.order).2.1
            rw [hsplit] at horder
            have hafter := (List.pairwise_cons.mp (List.pairwise_append.mp horder).2.1).1
            exact hafter g hg hk hsocket hcapt
    · exact hdone
  refine ⟨hdone.1, fun hexit x hx => ?_⟩
  rw [← (hi.sound.addr _ _ hx).1]
  exact hdone.2 hexit

/-- The user keeps only the socket, then drops it: the socket goes first. -/
theorem sockets_closed_before_context_run :
    ∃ s, Reach (Fires step) (fun s a => InitOnly s a ∧ Unbroken s a) .start s ∧
      s.nextReady = some ⟨.context, 0, [0], true⟩ ∧ s.sockets = [(1, 0)] ∧ s.Dead 1 ∧
      ∀ x, s.addr x = some 1 → ¬ s.heap.Reaches x := by
  obtain ⟨s, hs, hp⟩ := exists_reach_of_exec step
    (fun _ a => match a with
      | .user .ctxNew | .user (.socketNew _ _) | .exit | .abandon => false
      | _ => true) .start
    [.user .initContext, .register, .user (.initSocket 0 true), .register, .user (.drop 0),
      .collect [1, 0], .user (.drop 1), .collect [], .finalize false]
    (fun s => s.nextReady = some ⟨.context, 0, [0], true⟩ ∧ s.sockets = [(1, 0)] ∧
      s.exiting = false ∧ s.addr 0 = some 0) (by decide)
  have hr : Reach (Fires step) (fun s a => InitOnly s a ∧ Unbroken s a) .start s := by
    apply hs.mono
    intro s a ha
    cases a with
    | user u => cases u <;> trivial
    | register | collect | finalize => trivial
    | abandon | exit => contradiction
  obtain ⟨hnext, hsockets, hexit, haddr⟩ : s.nextReady = some ⟨.context, 0, [0], true⟩ ∧
    s.sockets = [(1, 0)] ∧ s.exiting = false ∧ s.addr 0 = some 0 := by simpa using hp
  have hmem : (1, 0) ∈ s.sockets := by
    rw [hsockets]
    exact List.mem_singleton_self _
  obtain ⟨hdead, hgone⟩ := sockets_closed_before_context hr hnext rfl haddr 1 hmem
  exact ⟨s, hr, hnext, hsockets, hdead, hgone hexit⟩

/-- The session ends when a socket is made and not registered: the finalizer of its context
runs while it is open. -/
theorem finalized_before_socket :
    ¬ ∀ s, Reach (Fires step) InitOnly .start s → ∀ f, s.nextReady = some f →
      f.kind = .context → ∀ c, s.addr f.key = some c → ∀ k, (k, c) ∈ s.sockets → s.Dead k := by
  intro hall
  obtain ⟨s, hs, hp⟩ := exists_reach_of_exec step
    (fun _ a => match a with
      | .user .ctxNew | .user (.socketNew _ _) => false
      | _ => true) .start
    [.user .initContext, .register, .user (.initSocket 0 true), .exit]
    (fun s => s.nextReady = some ⟨.context, 0, [0], true⟩ ∧ s.sockets = [(1, 0)] ∧
      s.addr 0 = some 0 ∧ ¬ s.Dead 1) (by decide)
  have hr : Reach (Fires step) InitOnly .start s := by
    apply hs.mono
    intro s a ha
    cases a with
    | user u => cases u <;> trivial
    | register | collect | finalize | abandon | exit => trivial
  obtain ⟨hnext, hsockets, haddr, hopen⟩ : s.nextReady = some ⟨.context, 0, [0], true⟩ ∧
    s.sockets = [(1, 0)] ∧ s.addr 0 = some 0 ∧ ¬ s.Dead 1 := by simpa using hp
  have hmem : (1, 0) ∈ s.sockets := by
    rw [hsockets]
    exact List.mem_singleton_self _
  exact hopen (hall s hr _ hnext rfl 0 haddr 1 hmem)

end PbdZmq.Handle
