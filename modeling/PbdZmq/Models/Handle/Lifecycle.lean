import PbdZmq.Models.Handle.Collected

/-!
# The lifecycle of a handle

The wrappers guard against a `NULL` address only, and nothing makes an address
`NULL` after `zmq_close` or `zmq_ctx_destroy`. A handle that was closed is passed
to libzmq again whenever its pointer is used again, by the user or by a finalizer
that is still registered. Users who leave registered objects to the finalizers and
never use an object that they have closed see no such call.
-/

namespace PbdZmq.Handle

/-- No call passes a handle that an earlier call closed or destroyed. -/
def Session.EndsLast (s : Session) : Prop :=
  s.calls.Pairwise fun later earlier => ¬ (earlier.ends = true ∧ earlier.handle = later.handle)

instance (s : Session) : Decidable s.EndsLast := inferInstanceAs (Decidable (List.Pairwise _ _))

/-- The user has closed or destroyed this handle himself. -/
def Session.EndedByUser (s : Session) (h : Nat) : Prop :=
  ∃ c ∈ s.calls, c.origin = .user ∧ c.ends = true ∧ c.handle = h

/-- The user passes no object that he has closed or destroyed himself, and closes or
destroys no object that has a finalizer. -/
def Disciplined (s : Session) : Act → Prop
  | .user u => ∀ x, u.passes = some x →
      (∀ h, s.addr x = some h → ¬ s.EndedByUser h) ∧
        (u.ends = true → ∀ f ∈ s.finalizers, f.key ≠ x)
  | _ => True

instance (s : Session) (h : Nat) : Decidable (s.EndedByUser h) :=
  inferInstanceAs (Decidable (∃ c ∈ s.calls, _))

instance (s : Session) (a : Act) : Decidable (Disciplined s a) :=
  match a with
  | .user u => inferInstanceAs (Decidable (∀ x ∈ u.passes, (∀ h ∈ s.addr x, ¬ s.EndedByUser h) ∧
      (u.ends = true → ∀ f ∈ s.finalizers, f.key ≠ x)))
  | .register | .collect _ | .finalize _ | .abandon | .exit => isTrue trivial

/-- The invariant of disciplined sessions. -/
structure Session.Clean (s : Session) : Prop where
  sound : s.Sound
  calls : s.EndsLast
  /-- What is still to be finalized is alive. -/
  alive : ∀ f ∈ s.pending, ¬ s.Dead f.key
  /-- The user reaches no dead handle but those he has closed himself. -/
  gone : ∀ h, s.Dead h → s.EndedByUser h ∨ s.exiting = true ∨ ¬ s.heap.Reaches h

theorem Session.clean_start : Session.start.Clean := by
  refine ⟨sound_start, List.Pairwise.nil, ?_, ?_⟩
  · simp [start, pending]
  · rintro h ⟨c, hc, _⟩
    simp [start] at hc

/-- A dead handle is an old name. -/
theorem Session.Sound.dead_lt {s : Session} (h : s.Sound) {x : Nat} (hd : s.Dead x) :
    x < s.next := by
  obtain ⟨c, hc, _, rfl⟩ := hd
  exact h.calls c hc

/-- A handle that a call leaves dead was dead before or is the one it ended. -/
theorem Session.dead_log {s : Session} {c : Call} {h : Nat} (hd : (s.log c).Dead h) :
    s.Dead h ∨ (c.ends = true ∧ c.handle = h) := by
  obtain ⟨d, hmem, hends, hh⟩ := hd
  rcases List.mem_cons.mp hmem with rfl | hmem
  · exact Or.inr ⟨hends, hh⟩
  · exact Or.inl ⟨d, hmem, hends, hh⟩

/-- A call on a live handle may follow any calls. -/
theorem Session.EndsLast.log {s : Session} (h : s.EndsLast) {c : Call} (hlive : ¬ s.Dead c.handle) :
    (s.log c).EndsLast := by
  refine List.pairwise_cons.mpr ⟨?_, h⟩
  rintro d hd ⟨hends, hh⟩
  exact hlive ⟨d, hd, hends, hh⟩

theorem Session.EndedByUser.log {s : Session} {h : Nat} (he : s.EndedByUser h) (c : Call) :
    (s.log c).EndedByUser h := by
  obtain ⟨d, hd, hrest⟩ := he
  exact ⟨d, List.mem_cons_of_mem _ hd, hrest⟩

/-- What the user passes to libzmq is alive. -/
theorem Session.Clean.alive_of_passes {s : Session} (h : s.Clean) {u : UserAct} {x a : Nat}
    (hfree : s.Free) (hroot : x ∈ s.roots) (hpass : u.passes = some x) (hx : s.addr x = some a)
    (hg : Disciplined s (.user u)) : ¬ s.Dead a := by
  intro hd
  have hname := (h.sound.addr x a hx).1
  have hreach : s.heap.Reaches a := by
    rw [hname]
    exact .root (mem_roots.mpr (Or.inl hroot))
  rcases h.gone a hd with huser | hexit | hgone
  · exact (hg x hpass).1 a hx huser
  · rw [hfree.2] at hexit
    contradiction
  · exact hgone hreach

/-- A step that makes no call, or one that ends nothing on a live handle, with at most
a new object to be finalized. -/
private theorem clean_keep {s t : Session} {a : Act} (h : s.Clean) (hs : Stepped s a t)
    (hcalls : t.calls = s.calls ∨
      ∃ c, t.calls = c :: s.calls ∧ c.ends = false ∧ ¬ s.Dead c.handle)
    (hpending : ∀ f ∈ t.pending, (∃ g ∈ s.pending, g.key = f.key) ∨ f.key = s.next)
    (hexit : s.exiting = true → t.exiting = true) : t.Clean := by
  have hdead : ∀ x, t.Dead x → s.Dead x := by
    rintro x ⟨d, hd, hends, hh⟩
    rcases hcalls with hc | ⟨c, hc, hquiet, _⟩
    · exact ⟨d, hc ▸ hd, hends, hh⟩
    · rw [hc] at hd
      rcases List.mem_cons.mp hd with rfl | hd
      · rw [hquiet] at hends
        contradiction
      · exact ⟨d, hd, hends, hh⟩
  have huser : ∀ x, s.EndedByUser x → t.EndedByUser x := by
    rintro x ⟨d, hd, hrest⟩
    rcases hcalls with hc | ⟨c, hc, _⟩
    · exact ⟨d, hc ▸ hd, hrest⟩
    · exact ⟨d, hc ▸ List.mem_cons_of_mem _ hd, hrest⟩
  refine ⟨h.sound.step hs, ?_, ?_, ?_⟩
  · rcases hcalls with hc | ⟨c, hc, _, hlive⟩
    · unfold Session.EndsLast
      rw [hc]
      exact h.calls
    · unfold Session.EndsLast
      rw [hc]
      exact h.calls.log hlive
  · intro f hf hd
    rcases hpending f hf with ⟨g, hg, hkey⟩ | hnew
    · exact h.alive g hg (hkey ▸ hdead _ hd)
    · have hlt := h.sound.dead_lt (hdead _ hd)
      omega
  · intro x hd
    have hold := hdead x hd
    rcases h.gone x hold with hown | hx | hgone
    · exact Or.inl (huser x hown)
    · exact Or.inr (Or.inl (hexit hx))
    · exact Or.inr (Or.inr fun hr => hgone (h.sound.reaches hs hr (h.sound.dead_lt hold)))

/-- The finalizers that stay belong to other objects than the one that runs. -/
theorem Session.Sound.key_ne {s : Session} (h : s.Sound) {f : Finalizer}
    (hf : s.nextReady = some f) {g : Finalizer}
    (hg : g ∈ s.frame.toList ++ s.finalizers.eraseP Finalizer.ready) : g.key ≠ f.key := by
  obtain ⟨newer, older, hsplit, herase, _⟩ := nextReady_split hf
  have hnodup := h.nodup
  rw [pending, hsplit, ← List.append_assoc, List.map_append, List.map_cons, List.nodup_middle,
    ← List.map_append, List.append_assoc, ← herase] at hnodup
  intro hkey
  exact (List.nodup_cons.mp hnodup).1 (hkey ▸ List.mem_map_of_mem hg)

/-- Every disciplined step keeps the invariant. -/
theorem Session.Clean.step {s t : Session} {a : Act} (h : s.Clean) (hg : Disciplined s a)
    (hs : Stepped s a t) : t.Clean := by
  have hs' := hs
  have hsame : ∀ f ∈ s.pending, (∃ g ∈ s.pending, g.key = f.key) ∨ f.key = s.next :=
    fun f hf => Or.inl ⟨f, hf, rfl⟩
  cases hs with
  | graph => exact clean_keep h hs' (Or.inl rfl) hsame fun hx => hx
  | null => exact h
  | @call u x c hfree hroot hpass hx ho hends =>
    have hlive := h.alive_of_passes hfree hroot hpass hx hg
    refine ⟨h.sound.step hs', h.calls.log hlive, ?_, ?_⟩
    · intro f hf hd
      rcases dead_log hd with hd | ⟨hce, hh⟩
      · exact h.alive f hf hd
      · rcases mem_pending.mp hf with hframe | hf
        · have hnone : s.frame = some f := hframe
          rw [hfree.1] at hnone
          contradiction
        · have hname := (h.sound.addr x _ hx).1
          exact (hg x hpass).2 (hends hce) f hf (by rw [← hh, hname])
    · intro y hd
      rcases dead_log hd with hd | ⟨hce, hh⟩
      · rcases h.gone y hd with hown | hrest
        · exact Or.inl (hown.log c)
        · exact Or.inr hrest
      · exact Or.inl ⟨c, List.mem_cons_self, ho, hce, hh⟩
  | ctxNew => exact clean_keep h hs' (Or.inl rfl) hsame fun hx => hx
  | socketNew _ _ _ hlive =>
    exact clean_keep h hs' (Or.inr ⟨_, rfl, rfl, hlive⟩) hsame fun hx => hx
  | initContext =>
    refine clean_keep h hs' (Or.inl rfl) ?_ fun hx => hx
    intro f hf
    rcases mem_pending.mp hf with hf | hf
    · obtain rfl := Option.some.inj hf
      exact Or.inr rfl
    · exact hsame f (mem_pending.mpr (Or.inr hf))
  | initSocket _ _ _ hlive =>
    refine clean_keep h hs' (Or.inr ⟨_, rfl, rfl, hlive⟩) ?_ fun hx => hx
    intro f hf
    rcases mem_pending.mp hf with hf | hf
    · obtain rfl := Option.some.inj hf
      exact Or.inr rfl
    · exact hsame f (mem_pending.mpr (Or.inr hf))
  | @register f hf =>
    refine clean_keep h hs' (Or.inl rfl) ?_ fun hx => hx
    intro g hmem
    rcases mem_pending.mp hmem with hmem | hmem
    · contradiction
    · rcases List.mem_cons.mp hmem with rfl | hmem
      · exact hsame g (mem_pending.mpr (Or.inl hf))
      · exact hsame g (mem_pending.mpr (Or.inr hmem))
  | collect =>
    refine clean_keep h hs' (Or.inl rfl) ?_ fun hx => hx
    intro f hf
    rcases mem_pending.mp hf with hf | hf
    · exact hsame f (mem_pending.mpr (Or.inl hf))
    · obtain ⟨g, hmem, rfl⟩ := List.mem_map.mp hf
      exact hsame g (mem_pending.mpr (Or.inr hmem))
  | @finalizeNull f _ hf hx =>
    have hmem := (nextReady_spec hf).1
    rw [h.sound.keys f (mem_pending.mpr (Or.inr hmem))] at hx
    contradiction
  | @finalize f c _ hf hx _ _ =>
    obtain ⟨hmem, hready⟩ := nextReady_spec hf
    have hname := (h.sound.addr _ _ hx).1
    have hlive : ¬ s.Dead c.handle := by
      rw [hname]
      exact h.alive f (mem_pending.mpr (Or.inr hmem))
    have hsub : List.Sublist (s.finalizers.eraseP Finalizer.ready) s.finalizers :=
      List.eraseP_sublist
    refine ⟨h.sound.step hs', h.calls.log hlive, ?_, ?_⟩
    · intro g hg hd
      rcases dead_log hd with hd | ⟨_, hh⟩
      · exact h.alive g ((hsub.append_left _).subset hg) hd
      · exact h.sound.key_ne hf hg (by rw [← hh, hname])
    · intro y hd
      rcases dead_log hd with hold | ⟨_, hh⟩
      · rcases h.gone y hold with hown | hexit | hgone
        · exact Or.inl (hown.log c)
        · exact Or.inr (Or.inl hexit)
        · exact Or.inr (Or.inr fun hr => hgone (h.sound.reaches hs' hr (h.sound.dead_lt hold)))
      · by_cases hexit : s.exiting = true
        · exact Or.inr (Or.inl hexit)
        · refine Or.inr (Or.inr ?_)
          rw [← hh, hname]
          exact h.sound.unreached_step hs' (Bool.eq_false_iff.mpr hexit) hmem hready
  | abandon =>
    exact clean_keep h hs' (Or.inl rfl) (fun f hf => hsame f (s.pending_leave.subset hf))
      fun hx => hx
  | exit =>
    refine clean_keep h hs' (Or.inl rfl) ?_ fun _ => rfl
    intro f hf
    rcases mem_pending.mp hf with hf | hf
    · contradiction
    · obtain ⟨g, hmem, rfl⟩ := List.mem_map.mp hf
      exact hsame g (mem_pending.mpr (Or.inr hmem))

/-- In a session whose user closes and destroys only objects without a finalizer, and
never uses what he has closed or destroyed, no handle is passed to libzmq after its
end, whenever the collector runs and the session ends. -/
theorem ends_last {s : Session} (h : Reach (Fires step) Disciplined .start s) : s.EndsLast := by
  have hi : s.Clean := h.invariant Session.clean_start
    fun _ _ _ hi hg hs => hi.step hg (stepped_of_step hs)
  exact hi.calls

/-- A socket of `zmq.socket` is closed by hand, one of `init.socket` by its finalizer. -/
theorem ends_last_run :
    ∃ s, Reach (Fires step) Disciplined .start s ∧ s.EndsLast ∧
      s.calls = [⟨.finalizer, .destroy, 0, true⟩, ⟨.finalizer, .close, 1, true⟩,
        ⟨.user, .close, 2, true⟩, ⟨.user, .use, 2, true⟩, ⟨.user, .socket, 0, true⟩,
        ⟨.user, .socket, 0, true⟩] := by
  obtain ⟨s, hs, hp⟩ := exists_reach_of_exec step (fun s a => decide (Disciplined s a)) .start
    [.user .initContext, .register, .user (.initSocket 0 true), .register,
      .user (.socketNew 0 true), .user (.use 2), .user (.close 2), .exit, .finalize false,
      .finalize false]
    (fun s => s.calls = [⟨.finalizer, .destroy, 0, true⟩, ⟨.finalizer, .close, 1, true⟩,
      ⟨.user, .close, 2, true⟩, ⟨.user, .use, 2, true⟩, ⟨.user, .socket, 0, true⟩,
      ⟨.user, .socket, 0, true⟩]) (by decide)
  have hr : Reach (Fires step) Disciplined .start s := hs.mono fun _ _ hd => of_decide_eq_true hd
  exact ⟨s, hr, ends_last hr, of_decide_eq_true hp⟩

/-- The user closes a socket of `init.socket`, and its finalizer closes it again. -/
theorem closed_twice :
    ¬ ∀ s, Reach (Fires step) (fun _ _ => True) .start s → s.EndsLast := by
  intro hall
  obtain ⟨s, hs, hp⟩ := exists_reach_of_exec step (fun _ _ => true) .start
    [.user .initContext, .register, .user (.initSocket 0 true), .register, .user (.close 1),
      .exit, .finalize false] (fun s => ¬ s.EndsLast) (by decide)
  have hr : Reach (Fires step) (fun _ _ => True) .start s := hs.mono fun _ _ _ => trivial
  have hviolated : ¬ s.EndsLast := by simpa using hp
  exact hviolated (hall s hr)

end PbdZmq.Handle
