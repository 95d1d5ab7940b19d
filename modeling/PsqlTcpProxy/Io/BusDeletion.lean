import PsqlTcpProxy.Io.BusMoves

/-!
# Deletion is final

A deletion is deferred: `del_fd` and `del_fd_callbacks` put the descriptor into
`_callbacks_to_remove`, the loop over its callbacks looks there before each call,
and the callbacks go when the dispatch is over.  `Final` says what that promises, of the
moves of a run.

The removal visits the set itself, and the destructors it runs may delete further
descriptors.  What is inserted then may be visited or not, and if the set is rearranged even
a descriptor that was to be removed before may be passed over; and then the set is cleared.
`Careful` is what the moves have to be for a deletion to be final, and `Standing` the
invariant.
-/

namespace PsqlTcpProxy
namespace Io

open Library

variable {κ σ : Type}

namespace Bus

/-! ## What a deletion promises -/

/-- What a line makes of the callbacks registered for a descriptor since the last deletion. -/
def renew (fd : FileDescriptor) (callbacks : List κ) : Entry κ → List κ
  | .added fd' callback => if fd' = fd then callbacks ++ [callback] else callbacks
  | .marked fd' => if fd' = fd then [] else callbacks
  | _ => callbacks

/-- The callbacks registered for a descriptor since `del_fd` or `del_fd_callbacks` was last
called for it. -/
def sinceMarked (trace : List (Entry κ)) (fd : FileDescriptor) : List κ :=
  trace.foldl (renew fd) []

/-- Every callback that was called had been registered for its descriptor since the last
deletion. -/
def NoneRevived (trace : List (Entry κ)) : Prop :=
  ∀ before callback ev after, trace = before ++ .invoked callback ev :: after →
    callback ∈ sinceMarked before ev.fd

/-- What the moves have to be for a deletion to be final.  While descriptors are being
removed, a destructor deletes only what is to be removed already (`Orderly`), and adds to none
of these that has been visited; and the error callback does not throw while a descriptor with an entry
is to be removed. -/
def Careful : Bus κ σ × Phase κ → Move κ σ → Prop
  | (s, .erasing current _), .perform (.addFd fd _) =>
    fd ∈ s.callbacksToRemove → fd ∈ ahead current s.callbacksToRemove
  | (s, _), .abort => ∀ fd ∈ s.callbacksToRemove, s.callbackMap fd = none
  | place, m => Orderly place m

instance : (place : Bus κ σ × Phase κ) → DecidablePred (Careful place)
  | (s, .erasing current _), .perform (.addFd fd _) => inferInstanceAs (Decidable
      (fd ∈ s.callbacksToRemove → fd ∈ ahead current s.callbacksToRemove))
  | (s, .idle), .abort | (s, .calling _ _), .abort | (s, .erasing _ _), .abort =>
    inferInstanceAs (Decidable (∀ fd ∈ s.callbacksToRemove, s.callbackMap fd = none))
  | (s, .erasing current left), .perform (.delFd fd) =>
    inferInstanceAs (Decidable (Orderly (s, .erasing current left) (.perform (.delFd fd))))
  | (s, .erasing current left), .perform (.delFdCallbacks fd) => inferInstanceAs
      (Decidable (Orderly (s, .erasing current left) (.perform (.delFdCallbacks fd))))
  | (_, .erasing _ _), .perform (.enqueueEvent _) | (_, .erasing _ _), .perform .get
  | (_, .erasing _ _), .perform (.set _) | (_, .erasing _ _), .note _
  | (_, .erasing _ _), .swap | (_, .erasing _ _), .start _ | (_, .erasing _ _), .invoke
  | (_, .erasing _ _), .skip | (_, .erasing _ _), .finish | (_, .erasing _ _), .erase
  | (_, .erasing _ _), .clear => .isTrue trivial
  | (_, .idle), .perform _ | (_, .idle), .note _ | (_, .idle), .swap | (_, .idle), .start _
  | (_, .idle), .invoke | (_, .idle), .skip | (_, .idle), .finish | (_, .idle), .erase
  | (_, .idle), .clear => .isTrue trivial
  | (_, .calling _ _), .perform _ | (_, .calling _ _), .note _ | (_, .calling _ _), .swap
  | (_, .calling _ _), .start _ | (_, .calling _ _), .invoke | (_, .calling _ _), .skip
  | (_, .calling _ _), .finish | (_, .calling _ _), .erase | (_, .calling _ _), .clear =>
    .isTrue trivial

/-- What holds in a phase.  The loop over the descriptors has every entry that is to be removed
before it, and passes enough. -/
def PhaseSound (s : Bus κ σ) : Phase κ → Prop
  | .idle => True
  | .calling ev callbacks => ev.fd ∈ s.callbacksToRemove ∨
      ∀ callback ∈ callbacks, callback ∈ sinceMarked s.trace ev.fd
  | .erasing current left =>
    (∀ fd ∈ s.callbacksToRemove,
      fd ∈ ahead current s.callbacksToRemove ∨ s.callbackMap fd = none) ∧
    (ahead current s.callbacksToRemove).length ≤ left

/-- A descriptor is to be removed, or all its callbacks have been registered since its last
deletion. -/
structure Standing (s : Bus κ σ) (phase : Phase κ) : Prop where
  noneRevived : NoneRevived s.trace
  registered : ∀ fd, fd ∈ s.callbacksToRemove ∨
    (s.callbackMap fd).getD [] <:+ sinceMarked s.trace fd
  phase : PhaseSound s phase
  nodup : s.callbacksToRemove.Nodup

section Standing

variable {host : Host κ σ} {s t : Bus κ σ} {phase : Phase κ}

theorem sinceMarked_snoc (trace : List (Entry κ)) (entry : Entry κ) (fd : FileDescriptor) :
    sinceMarked (trace ++ [entry]) fd = renew fd (sinceMarked trace fd) entry := by
  rw [sinceMarked, List.foldl_append]
  rfl

/-- One line more. -/
theorem NoneRevived.snoc {trace : List (Entry κ)} (h : NoneRevived trace) {entry : Entry κ}
    (hentry : ∀ callback ev, entry = .invoked callback ev → callback ∈ sinceMarked trace ev.fd) :
    NoneRevived (trace ++ [entry]) := by
  intro before callback ev after heq
  rcases List.eq_nil_or_concat after with rfl | ⟨after, last, rfl⟩
  · obtain ⟨rfl, hlast⟩ := List.append_inj' heq rfl
    exact hentry callback ev (List.singleton_inj.mp hlast)
  · rw [List.concat_eq_append, ← List.cons_append, ← List.append_assoc] at heq
    exact h before callback ev after (List.append_inj' heq rfl).1

/-- A line that is about none of the callbacks. -/
theorem Standing.line (h : Standing s phase) {entry : Entry κ}
    (hcall : ∀ callback ev, entry ≠ .invoked callback ev)
    (hrenew : ∀ fd callbacks, renew fd callbacks entry = callbacks) :
    Standing (s.log entry) phase := by
  have hsince : sinceMarked (s.log entry).trace = sinceMarked s.trace := by
    ext fd : 1
    exact (sinceMarked_snoc s.trace entry fd).trans (hrenew fd _)
  constructor
  · exact h.noneRevived.snoc fun callback ev heq => absurd heq (hcall callback ev)
  · rw [hsince]
    exact h.registered
  · cases phase with
    | idle => trivial
    | calling ev callbacks =>
      show _ ∨ _
      rw [hsince]
      exact h.phase
    | erasing current left => exact h.phase
  · exact h.nodup

/-- The queue and the world do not matter. -/
theorem Standing.of_eq (h : Standing s phase) (hmap : t.callbackMap = s.callbackMap)
    (hmarks : t.callbacksToRemove = s.callbacksToRemove) (htrace : t.trace = s.trace) :
    Standing t phase := by
  constructor
  · rw [htrace]
    exact h.noneRevived
  · rw [hmap, hmarks, htrace]
    exact h.registered
  · cases phase with
    | idle => trivial
    | calling ev callbacks =>
      show _ ∨ _
      rw [hmarks, htrace]
      exact h.phase
    | erasing current left =>
      show (∀ _, _) ∧ _
      rw [hmap, hmarks]
      exact h.phase
  · rw [hmarks]
    exact h.nodup

theorem mem_marked (host : Host κ σ) (s : Bus κ σ) (fd fd' : FileDescriptor) :
    fd' ∈ ((s.mark host fd).log (.marked fd)).callbacksToRemove ↔
      fd' ∈ s.callbacksToRemove ∨ fd' = fd := mem_mark host s fd fd'

/-- **A deletion.** -/
theorem Standing.marked (h : Standing s phase) {fd : FileDescriptor}
    (hcareful : ∀ current left, phase = .erasing current left → fd ∈ s.callbacksToRemove) :
    Standing ((s.mark host fd).log (.marked fd)) phase := by
  have hsince : ∀ fd', fd' ≠ fd →
      sinceMarked ((s.mark host fd).log (.marked fd)).trace fd' = sinceMarked s.trace fd' := by
    intro fd' hne
    exact (sinceMarked_snoc s.trace _ fd').trans (if_neg (Ne.symm hne))
  constructor
  · exact h.noneRevived.snoc (by rintro _ _ ⟨⟩)
  · intro fd'
    rw [mem_marked]
    by_cases hfd : fd' = fd
    · exact Or.inl (Or.inr hfd)
    · rw [hsince fd' hfd]
      exact (h.registered fd').imp_left Or.inl
  · cases phase with
    | idle => trivial
    | calling ev callbacks =>
      show _ ∨ _
      rw [mem_marked]
      by_cases hfd : ev.fd = fd
      · exact Or.inl (Or.inr hfd)
      · rw [hsince ev.fd hfd]
        exact Or.imp_left Or.inl h.phase
    | erasing current left =>
      -- the set is as it was
      have hsame : ((s.mark host fd).log (.marked fd)).callbacksToRemove = s.callbacksToRemove :=
        mark_of_mem host (hcareful current left rfl)
      show (∀ _, _) ∧ _
      rw [hsame]
      exact h.phase
  · exact host.layout.nodup_insert s.trace h.nodup

/-- An entry is made, or there was one. -/
theorem Standing.entry (h : Standing s phase) {fd : FileDescriptor} {callbacks : List κ}
    (hsame : (s.callbackMap fd).getD [] = callbacks)
    (hcareful : ∀ current left, phase = .erasing current left → fd ∈ s.callbacksToRemove →
      fd ∈ ahead current s.callbacksToRemove) :
    Standing (s.setCallbacks fd (some callbacks)) phase := by
  constructor
  · exact h.noneRevived
  · intro fd'
    refine (h.registered fd').imp_right fun hsuffix => ?_
    show (if fd' = fd then some callbacks else s.callbackMap fd').getD [] <:+ _
    split
    · rename_i hfd
      rw [hfd, hsame] at hsuffix
      rw [hfd]
      exact hsuffix
    · exact hsuffix
  · cases phase with
    | idle => trivial
    | calling ev callbacks => exact h.phase
    | erasing current left =>
      refine ⟨fun fd' hmem => ?_, h.phase.2⟩
      by_cases hfd : fd' = fd
      · subst hfd
        exact Or.inl (hcareful current left rfl hmem)
      · exact (h.phase.1 fd' hmem).imp_right fun hnone => (if_neg hfd).trans hnone
  · exact h.nodup

/-- **A registration.** -/
theorem Standing.pushBack (h : Standing s phase) {fd : FileDescriptor} {callbacks : List κ}
    (hsame : (s.callbackMap fd).getD [] = callbacks)
    (hcareful : ∀ current left, phase = .erasing current left → fd ∈ s.callbacksToRemove →
      fd ∈ ahead current s.callbacksToRemove)
    (callback : κ) : Standing (s.pushBack fd callbacks (some callback)) phase := by
  have hsince : ∀ fd', sinceMarked (s.pushBack fd callbacks (some callback)).trace fd' =
      if fd' = fd then sinceMarked s.trace fd' ++ [callback] else sinceMarked s.trace fd' := by
    intro fd'
    refine (sinceMarked_snoc s.trace _ fd').trans ?_
    simp only [renew, eq_comm]
  constructor
  · exact h.noneRevived.snoc (by rintro _ _ ⟨⟩)
  · intro fd'
    refine (h.registered fd').imp_right fun hsuffix => ?_
    rw [hsince]
    show (if fd' = fd then some (callbacks ++ [callback]) else s.callbackMap fd').getD [] <:+ _
    split
    · rename_i hfd
      rw [hfd, hsame] at hsuffix
      rw [hfd]
      obtain ⟨older, hlist⟩ := hsuffix
      refine ⟨older, ?_⟩
      rw [← hlist]
      exact (List.append_assoc _ _ _).symm
    · exact hsuffix
  · cases phase with
    | idle => trivial
    | calling ev callbacks' =>
      refine Or.imp_right (fun hall callback' hmem => ?_) h.phase
      rw [hsince]
      split
      · exact List.mem_append_left _ (hall callback' hmem)
      · exact hall callback' hmem
    | erasing current left =>
      refine ⟨fun fd' hmem => ?_, h.phase.2⟩
      by_cases hfd : fd' = fd
      · subst hfd
        exact Or.inl (hcareful current left rfl hmem)
      · exact (h.phase.1 fd' hmem).imp_right fun hnone => (if_neg hfd).trans hnone
  · exact h.nodup

/-- **An operation.** -/
theorem Standing.perform (h : Standing s phase) (call : BusCall κ σ)
    (hcareful : Careful (s, phase) (.perform call)) :
    Standing (s.perform host call).2 phase := by
  cases call with
  | addFd fd callback =>
    have hcare : ∀ current left, phase = .erasing current left → fd ∈ s.callbacksToRemove →
        fd ∈ ahead current s.callbacksToRemove := by
      rintro current left rfl
      exact hcareful
    have hpush : ∀ (t : Bus κ σ) (callbacks : List κ), Standing t phase →
        (t.callbackMap fd).getD [] = callbacks →
        t.callbacksToRemove = s.callbacksToRemove →
        Standing (t.pushBack fd callbacks callback) phase := by
      intro t callbacks ht hsame hmarks
      cases callback with
      | none => exact ht
      | some callback =>
        refine ht.pushBack hsame ?_ callback
        rw [hmarks]
        exact hcare
    simp only [Bus.perform, addFd]
    rcases hmap : s.callbackMap fd with _ | callbacks
    · have hentry : Standing (s.setCallbacks fd (some [])) phase :=
        h.entry (by rw [hmap]; rfl) hcare
      rcases host.nativeAddFd fd (s.setCallbacks fd (some [])).world with ⟨_ | _, world⟩
      · exact hentry.of_eq rfl rfl rfl
      · refine hpush _ [] (hentry.of_eq rfl rfl rfl) ?_ rfl
        exact congrArg (Option.getD · []) (if_pos rfl)
    · exact hpush s callbacks h (by rw [hmap]; rfl) rfl
  | delFdCallbacks fd =>
    refine h.marked ?_
    rintro current left rfl
    exact hcareful
  | delFd fd =>
    have hmarked : Standing ((s.mark host fd).log (.marked fd)) phase := by
      refine h.marked ?_
      rintro current left rfl
      exact hcareful
    exact hmarked.of_eq rfl rfl rfl
  | enqueueEvent ev =>
    have hqueued : Standing ({ s with events := s.events ++ [ev] } : Bus κ σ) phase :=
      h.of_eq rfl rfl rfl
    exact hqueued.line (by rintro _ _ ⟨⟩) fun _ _ => rfl
  | get => exact h
  | set world => exact h.of_eq rfl rfl rfl

end Standing

/-! ## After a deletion -/

/-- `del_fd` or `del_fd_callbacks` is called. -/
def Deletes (fd : FileDescriptor) (m : Move κ σ) : Prop :=
  m = .perform (.delFd fd) ∨ m = .perform (.delFdCallbacks fd)

section After

variable {host : Host κ σ} {s t : Bus κ σ × Phase κ} {fd : FileDescriptor}

/-- A deletion puts the descriptor into the set. -/
theorem Moved.marks {m : Move κ σ} (h : Moved host s m t) (hm : Deletes fd m) :
    fd ∈ t.1.callbacksToRemove := by
  rcases hm with rfl | rfl
  · cases h with
    | perform s => exact (mem_marked host s fd fd).mpr (Or.inr rfl)
  · cases h with
    | perform s => exact (mem_marked host s fd fd).mpr (Or.inr rfl)

end After

end Bus

end Io
end PsqlTcpProxy
