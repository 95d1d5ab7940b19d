import PsqlTcpProxy.Io.Bus
import Mathlib.Data.List.Forall2

/-!
# Events are dispatched once and in order

Nothing is known about the callbacks, so everything rests on what the operations
of the bus can do to it: they add lines of three kinds to the trace (`IsOp`),
append to the queue what these lines say, and mark descriptors (`Used`).  That is
a reflexive and transitive relation, so any code is `Used`.

From there the proof follows the source: a callback, the loop over the callbacks
of a descriptor (`Calls`), a dispatch, the two phases of `wait_events`.  The error
callback is assumed not to throw (`Silent`): an exception from it would end the
loop that called it.
-/

namespace PsqlTcpProxy
namespace Io

open Library

variable {κ σ : Type}

/-! ## Reading the trace -/

namespace Entry

/-- The line is written by an operation of the bus. -/
def IsOp : Entry κ → Prop
  | .added .. | .marked _ | .enqueued _ => True
  | _ => False

/-- The line is written by `wait_events` when it has got an event, or events. -/
def IsArrival : Entry κ → Prop
  | .polled _ | .delivered _ | .dispatched _ => True
  | _ => False

theorem IsOp.not_arrival {e : Entry κ} (h : e.IsOp) : ¬ e.IsArrival := by
  cases e with
  | added _ _ | marked _ | enqueued _ => exact id
  | polled _ | delivered _ | dispatched _ | invoked _ _ | returned _ _ | reported _ => exact h.elim

/-- The event `enqueue_event` was called with. -/
def enqueued? : Entry κ → Option Event
  | .enqueued ev => some ev
  | _ => none

/-- The event taken from the queue. -/
def dispatched? : Entry κ → Option Event
  | .dispatched ev => some ev
  | _ => none

/-- The callback that was called, and the event it was called for. -/
def invoked? : Entry κ → Option (κ × Event)
  | .invoked callback ev => some (callback, ev)
  | _ => none

/-- The exception a callback threw. -/
def thrown? : Entry κ → Option Exception
  | .returned _ thrown => thrown
  | _ => none

/-- The error the error callback was called with. -/
def reported? : Entry κ → Option Error
  | .reported err => some err
  | _ => none

end Entry

/-- The events enqueued, in order. -/
def enqueuedIn (entries : List (Entry κ)) : List Event := entries.filterMap Entry.enqueued?
/-- The events taken from the queue, in order. -/
def dispatchedIn (entries : List (Entry κ)) : List Event := entries.filterMap Entry.dispatched?
/-- The calls of callbacks, in order. -/
def invokedIn (entries : List (Entry κ)) : List (κ × Event) := entries.filterMap Entry.invoked?
/-- The exceptions of callbacks, in order. -/
def thrownIn (entries : List (Entry κ)) : List Exception := entries.filterMap Entry.thrown?
/-- The errors reported, in order. -/
def reportedIn (entries : List (Entry κ)) : List Error := entries.filterMap Entry.reported?

section Append

variable (l l' : List (Entry κ))

@[simp] theorem enqueuedIn_append : enqueuedIn (l ++ l') = enqueuedIn l ++ enqueuedIn l' :=
  List.filterMap_append
@[simp] theorem dispatchedIn_append : dispatchedIn (l ++ l') = dispatchedIn l ++ dispatchedIn l' :=
  List.filterMap_append
@[simp] theorem invokedIn_append : invokedIn (l ++ l') = invokedIn l ++ invokedIn l' :=
  List.filterMap_append
@[simp] theorem thrownIn_append : thrownIn (l ++ l') = thrownIn l ++ thrownIn l' :=
  List.filterMap_append
@[simp] theorem reportedIn_append : reportedIn (l ++ l') = reportedIn l ++ reportedIn l' :=
  List.filterMap_append

end Append

/-- A reading of the trace that sees no operation sees nothing in a list of
operations. -/
theorem filterMap_ops {β : Type} {f : Entry κ → Option β} (hf : ∀ e, e.IsOp → f e = none)
    {entries : List (Entry κ)} (h : ∀ e ∈ entries, e.IsOp) : entries.filterMap f = [] :=
  List.filterMap_eq_nil_iff.mpr fun e he => hf e (h e he)

section Ops

variable {entries : List (Entry κ)} (h : ∀ e ∈ entries, e.IsOp)
include h

theorem dispatchedIn_ops : dispatchedIn entries = [] :=
  filterMap_ops (by rintro (_ | _ | _ | _ | _ | _ | _ | _ | _) he <;> first | rfl | exact he.elim) h
theorem invokedIn_ops : invokedIn entries = [] :=
  filterMap_ops (by rintro (_ | _ | _ | _ | _ | _ | _ | _ | _) he <;> first | rfl | exact he.elim) h
theorem thrownIn_ops : thrownIn entries = [] :=
  filterMap_ops (by rintro (_ | _ | _ | _ | _ | _ | _ | _ | _) he <;> first | rfl | exact he.elim) h
theorem reportedIn_ops : reportedIn entries = [] :=
  filterMap_ops (by rintro (_ | _ | _ | _ | _ | _ | _ | _ | _) he <;> first | rfl | exact he.elim) h

end Ops

namespace Bus

/-! ## What any code does to the bus -/

/-- From `s` to `t` the trace grows by `entries`, and the queue by what they say. -/
structure Emits (s t : Bus κ σ) (entries : List (Entry κ)) : Prop where
  trace : t.trace = s.trace ++ entries
  events : t.events = s.events ++ enqueuedIn entries

theorem Emits.refl (s : Bus κ σ) : Emits s s [] :=
  ⟨(List.append_nil _).symm, (List.append_nil _).symm⟩

theorem Emits.trans {s t u : Bus κ σ} {l l' : List (Entry κ)} (h : Emits s t l)
    (h' : Emits t u l') : Emits s u (l ++ l') := by
  refine ⟨?_, ?_⟩
  · rw [h'.trace, h.trace, List.append_assoc]
  · rw [h'.events, h.events, enqueuedIn_append, List.append_assoc]

/-- A line that enqueues nothing. -/
theorem emits_log (s : Bus κ σ) {entry : Entry κ} (h : entry.enqueued? = none) :
    Emits s (s.log entry) [entry] := by
  refine ⟨rfl, ?_⟩
  rw [enqueuedIn, List.filterMap_cons_none h]
  exact (List.append_nil _).symm

/-- The descriptors marked in `t` are those of `s` and those the entries mark. -/
def Marks (s t : Bus κ σ) (entries : List (Entry κ)) : Prop :=
  ∀ fd, fd ∈ t.callbacksToRemove ↔ fd ∈ s.callbacksToRemove ∨ Entry.marked fd ∈ entries

theorem Marks.refl (s : Bus κ σ) : Marks s s [] := by
  intro fd
  simp

theorem Marks.trans {s t u : Bus κ σ} {l l' : List (Entry κ)} (h : Marks s t l)
    (h' : Marks t u l') : Marks s u (l ++ l') := by
  intro fd
  rw [h' fd, h fd, List.mem_append, or_assoc]

/-- A line that marks nothing. -/
theorem marks_log (s : Bus κ σ) {entry : Entry κ} (h : ∀ fd, entry ≠ .marked fd) :
    Marks s (s.log entry) [entry] := by
  intro fd
  have hne : Entry.marked fd ∉ [entry] := by
    intro hmem
    exact h fd (List.mem_singleton.mp hmem).symm
  exact ⟨Or.inl, fun hor => hor.resolve_right hne⟩

/-- What code that only calls operations does. -/
def Used (s t : Bus κ σ) : Prop :=
  ∃ entries, Emits s t entries ∧ Marks s t entries ∧ ∀ e ∈ entries, e.IsOp

theorem Used.refl (s : Bus κ σ) : Used s s := ⟨[], Emits.refl s, Marks.refl s, by simp⟩

theorem Used.trans {s t u : Bus κ σ} (h : Used s t) (h' : Used t u) : Used s u := by
  obtain ⟨l, hemits, hmarks, hops⟩ := h
  obtain ⟨l', hemits', hmarks', hops'⟩ := h'
  refine ⟨l ++ l', hemits.trans hemits', hmarks.trans hmarks', ?_⟩
  intro e he
  rcases List.mem_append.mp he with he | he
  · exact hops e he
  · exact hops' e he

/-- Changing the callbacks or the world. -/
theorem used_of_eq {s t : Bus κ σ} (htrace : t.trace = s.trace) (hevents : t.events = s.events)
    (hmarks : t.callbacksToRemove = s.callbacksToRemove) : Used s t := by
  refine ⟨[], ⟨?_, ?_⟩, ?_, by simp⟩
  · rw [htrace, List.append_nil]
  · rw [hevents]
    exact (List.append_nil _).symm
  · intro fd
    rw [hmarks]
    simp

theorem used_pushBack (s : Bus κ σ) (fd : FileDescriptor) (callbacks : List κ)
    (callback : Option κ) : Used s (s.pushBack fd callbacks callback) := by
  cases callback with
  | none => exact Used.refl s
  | some callback =>
    refine ⟨[.added fd callback], ⟨rfl, (List.append_nil _).symm⟩, ?_, ?_⟩
    · intro fd'
      simp [pushBack, log, setCallbacks]
    · intro e he
      rw [List.mem_singleton.mp he]
      trivial

/-- Marking a descriptor and recording it. -/
theorem mem_mark (host : Host κ σ) (s : Bus κ σ) (fd fd' : FileDescriptor) :
    fd' ∈ (s.mark host fd).callbacksToRemove ↔ fd' ∈ s.callbacksToRemove ∨ fd' = fd :=
  host.layout.mem_insert s.trace

/-- Marking a descriptor that is marked. -/
theorem mark_of_mem (host : Host κ σ) {s : Bus κ σ} {fd : FileDescriptor}
    (h : fd ∈ s.callbacksToRemove) : (s.mark host fd).callbacksToRemove = s.callbacksToRemove :=
  host.layout.insert_of_mem s.trace h

theorem used_mark (host : Host κ σ) (s : Bus κ σ) (fd : FileDescriptor) :
    Used s ((s.mark host fd).log (.marked fd)) := by
  refine ⟨[.marked fd], ⟨rfl, (List.append_nil _).symm⟩, ?_, ?_⟩
  · intro fd'
    simp only [List.mem_singleton, Entry.marked.injEq]
    exact mem_mark host s fd fd'
  · intro e he
    rw [List.mem_singleton.mp he]
    trivial

section AddFd

variable (host : Host κ σ) (s : Bus κ σ) (fd : FileDescriptor)

@[simp] theorem setCallbacks_world (callbacks : Option (List κ)) :
    (s.setCallbacks fd callbacks).world = s.world := rfl

theorem addFd_of_some {callbacks : List κ} (h : s.callbackMap fd = some callbacks)
    (callback : Option κ) :
    s.addFd host fd callback = (.ok (), s.pushBack fd callbacks callback) := by
  rw [addFd, h]

theorem addFd_of_error (h : s.callbackMap fd = none) {e : Exception} {world : σ}
    (hnative : host.nativeAddFd fd s.world = (.error e, world)) (callback : Option κ) :
    s.addFd host fd callback = (.error e, { s.setCallbacks fd (some []) with world }) := by
  simp only [addFd, h, setCallbacks_world, hnative]

theorem addFd_of_ok (h : s.callbackMap fd = none) {world : σ}
    (hnative : host.nativeAddFd fd s.world = (.ok (), world)) (callback : Option κ) :
    s.addFd host fd callback = (.ok (),
      ({ s.setCallbacks fd (some []) with world } : Bus κ σ).pushBack fd [] callback) := by
  simp only [addFd, h, setCallbacks_world, hnative]

theorem pushBack_callbackMap {callbacks : List κ} (h : s.callbackMap fd = some callbacks)
    (callback : Option κ) (fd' : FileDescriptor) :
    (s.pushBack fd callbacks callback).callbackMap fd' =
      if fd' = fd then some (callbacks ++ callback.toList) else s.callbackMap fd' := by
  cases callback with
  | none =>
    show s.callbackMap fd' = _
    split
    · rename_i hfd
      rw [hfd, h, Option.toList_none, List.append_nil]
    · rfl
  | some callback => rfl

@[simp] theorem pushBack_callbacksToRemove (callbacks : List κ) (callback : Option κ) :
    (s.pushBack fd callbacks callback).callbacksToRemove = s.callbacksToRemove := by
  cases callback <;> rfl

/-- **What `add_fd` does** to the entries and the marks: it makes or extends the entry of its
descriptor, and marks nothing; the callback is there unless the native half has failed. -/
theorem addFd_spec (callback : Option κ) : ∃ more,
    (∀ fd', (s.addFd host fd callback).2.callbackMap fd' =
      if fd' = fd then some ((s.callbackMap fd).getD [] ++ more) else s.callbackMap fd') ∧
    (s.addFd host fd callback).2.callbacksToRemove = s.callbacksToRemove ∧
    ((s.addFd host fd callback).1 = .ok () → more = callback.toList) := by
  rcases hmap : s.callbackMap fd with _ | callbacks
  · have hentry : ∀ world, ({ s.setCallbacks fd (some []) with world } : Bus κ σ).callbackMap fd =
        some [] := fun _ => if_pos rfl
    rcases hnative : host.nativeAddFd fd s.world with ⟨e | ⟨⟩, world⟩
    · rw [addFd_of_error host s fd hmap hnative]
      exact ⟨[], fun fd' => rfl, rfl, by rintro ⟨⟩⟩
    · rw [addFd_of_ok host s fd hmap hnative]
      refine ⟨callback.toList, fun fd' => ?_, pushBack_callbacksToRemove _ fd _ _, fun _ => rfl⟩
      rw [pushBack_callbackMap _ fd (hentry world)]
      show (if fd' = fd then _ else if fd' = fd then _ else s.callbackMap fd') = _
      split <;> rfl
  · rw [addFd_of_some host s fd hmap]
    exact ⟨callback.toList, pushBack_callbackMap s fd hmap callback,
      pushBack_callbacksToRemove s fd _ _, fun _ => rfl⟩

end AddFd

/-- **Every operation** does no more than that. -/
theorem used_perform (host : Host κ σ) (call : BusCall κ σ) (s : Bus κ σ) :
    Used s (s.perform host call).2 := by
  cases call with
  | addFd fd callback =>
    simp only [perform, addFd]
    rcases s.callbackMap fd with _ | callbacks
    · rcases host.nativeAddFd fd (s.setCallbacks fd (some [])).world with ⟨_ | _, world⟩
      · exact used_of_eq rfl rfl rfl
      · have hnew : Used s { s.setCallbacks fd (some []) with world } := used_of_eq rfl rfl rfl
        exact hnew.trans (used_pushBack _ fd [] callback)
    · exact used_pushBack s fd callbacks callback
  | delFdCallbacks fd => exact used_mark host s fd
  | delFd fd => exact (used_mark host s fd).trans (used_of_eq rfl rfl rfl)
  | enqueueEvent ev =>
    refine ⟨[.enqueued ev], ⟨rfl, rfl⟩, ?_, ?_⟩
    · intro fd
      simp [perform, enqueueEvent, log]
    · intro e he
      rw [List.mem_singleton.mp he]
      trivial
  | get => exact Used.refl s
  | set world => exact used_of_eq rfl rfl rfl

/-- **Any code** does no more than that. -/
theorem used_exec {α : Type} (host : Host κ σ) (code : Code κ σ α) (s : Bus κ σ) :
    Used s (s.exec host code).2 :=
  Program.exec_rel (perform host) Used.refl (fun _ _ _ => Used.trans)
    (fun call t => used_perform host call t) code s

/-- The set has every descriptor once. -/
theorem nodup_perform {s : Bus κ σ} (host : Host κ σ) (call : BusCall κ σ)
    (hs : s.callbacksToRemove.Nodup) : (s.perform host call).2.callbacksToRemove.Nodup := by
  cases call with
  | addFd fd callback =>
    obtain ⟨-, -, hmarks, -⟩ := addFd_spec host s fd callback
    exact hmarks ▸ hs
  | delFdCallbacks fd => exact host.layout.nodup_insert s.trace hs
  | delFd fd => exact host.layout.nodup_insert s.trace hs
  | enqueueEvent _ | get | set _ => exact hs

theorem nodup_exec {α : Type} {s : Bus κ σ} (host : Host κ σ) (code : Code κ σ α)
    (hs : s.callbacksToRemove.Nodup) : (s.exec host code).2.callbacksToRemove.Nodup :=
  Program.exec_rel (R := fun s t => s.callbacksToRemove.Nodup → t.callbacksToRemove.Nodup)
    (perform host) (fun _ => id) (fun _ _ _ h h' => h' ∘ h)
    (fun call _ => nodup_perform host call) code s hs

/-! ## A callback -/

/-- The error callback does not throw. -/
def Silent (host : Host κ σ) (callback : Error → Code κ σ Unit) : Prop :=
  ∀ err s, (exec host (callback err) s).1 = .ok ()

/-- What the loop over the callbacks of `ev.fd` does from `s` to `t`. -/
structure Calls (ev : Event) (callbacks : List κ) (s t : Bus κ σ) (entries : List (Entry κ)) :
    Prop where
  emits : Emits s t entries
  marks : Marks s t entries
  /-- No other event arrives meanwhile. -/
  alone : ∀ e ∈ entries, ¬ e.IsArrival
  /-- The callbacks are called once, in order, all of them unless the descriptor
  is marked. -/
  invoked : ∃ n, invokedIn entries = (callbacks.take n).map (fun callback => (callback, ev)) ∧
    (n < callbacks.length → ev.fd ∈ t.callbacksToRemove)
  /-- None is called when the descriptor is marked before the loop … -/
  unmarked : ∀ callback, .invoked callback ev ∈ entries → ev.fd ∉ s.callbacksToRemove
  /-- … or after it has been marked in the loop. -/
  stops : entries.Pairwise fun e e' => e = .marked ev.fd → ∀ callback, e' ≠ .invoked callback ev
  /-- What they throw is reported once, in order. -/
  reported : List.Forall₂ (fun e err => ∃ errno, err = asError ev.fd errno e) (thrownIn entries)
    (reportedIn entries)

/-- No event is taken from the queue. -/
theorem Calls.dispatched {ev : Event} {callbacks : List κ} {s t : Bus κ σ} {l : List (Entry κ)}
    (h : Calls ev callbacks s t l) : dispatchedIn l = [] := by
  refine List.filterMap_eq_nil_iff.mpr fun e he => ?_
  rcases e with _ | _ | _ | _ | _ | ev | _ | _ | _
  case dispatched => exact absurd trivial (h.alone _ he)
  all_goals rfl

/-- Nothing is called, because nothing is left or the descriptor is marked. -/
theorem Calls.none {ev : Event} {callbacks : List κ} {s : Bus κ σ}
    (h : callbacks ≠ [] → ev.fd ∈ s.callbacksToRemove) : Calls ev callbacks s s [] := by
  refine ⟨Emits.refl s, Marks.refl s, ?_, ⟨0, ?_, ?_⟩, ?_, List.Pairwise.nil, List.Forall₂.nil⟩
  · rintro e ⟨⟩
  · rw [List.take_zero]
    rfl
  · intro hlt
    exact h (List.ne_nil_of_length_pos hlt)
  · rintro callback ⟨⟩

/-- One callback, and then the others. -/
theorem Calls.cons {ev : Event} {callback : κ} {callbacks : List κ} {s t u : Bus κ σ}
    {l l' : List (Entry κ)} (h : Calls ev [callback] s t l)
    (hcalled : invokedIn l = [(callback, ev)]) (h' : Calls ev callbacks t u l') :
    Calls ev (callback :: callbacks) s u (l ++ l') := by
  refine ⟨h.emits.trans h'.emits, h.marks.trans h'.marks, ?_, ?_, ?_, ?_, ?_⟩
  · intro e he
    rcases List.mem_append.mp he with he | he
    · exact h.alone e he
    · exact h'.alone e he
  · obtain ⟨n, hn, hlt⟩ := h'.invoked
    refine ⟨n + 1, ?_, ?_⟩
    · rw [invokedIn_append, hcalled, hn]
      rfl
    · intro hlen
      exact hlt (Nat.lt_of_succ_lt_succ hlen)
  · intro called hmem
    rcases List.mem_append.mp hmem with hmem | hmem
    · exact h.unmarked called hmem
    · exact fun hmark => h'.unmarked called hmem ((h.marks ev.fd).mpr (Or.inl hmark))
  · refine List.pairwise_append.mpr ⟨h.stops, h'.stops, ?_⟩
    rintro e he e' he' rfl called rfl
    exact h'.unmarked called he' ((h.marks ev.fd).mpr (Or.inr he))
  · rw [thrownIn_append, reportedIn_append]
    exact List.rel_append h.reported h'.reported

variable {host : Host κ σ} {errorCallback : Error → Code κ σ Unit}

/-- A report is a call of the error callback. -/
theorem report_spec (hsilent : Silent host errorCallback) (err : Error) (s : Bus κ σ) :
    ∃ t ops, s.report host (some errorCallback) err = (.ok (), t) ∧ (∀ e ∈ ops, e.IsOp) ∧
      Emits s t (.reported err :: ops) ∧ Marks s t (.reported err :: ops) := by
  obtain ⟨ops, hemits, hmarks, hops⟩ := used_exec host (errorCallback err) (s.log (.reported err))
  refine ⟨_, ops, Prod.ext (hsilent err _) rfl, hops, ?_, ?_⟩
  · exact (emits_log s rfl).trans hemits
  · exact (marks_log s (by rintro _ ⟨⟩)).trans hmarks

/-- What one call of a callback does, without the report. -/
theorem invoke_spec (host : Host κ σ) (ev : Event) (callback : κ) (s : Bus κ σ) :
    ∃ t thrown ops, s.invoke host ev callback = (thrown, t) ∧ (∀ e ∈ ops, e.IsOp) ∧
      Emits s t (.invoked callback ev :: (ops ++ [.returned callback thrown])) ∧
      Marks s t (.invoked callback ev :: (ops ++ [.returned callback thrown])) := by
  obtain ⟨ops, hemits, hmarks, hops⟩ :=
    used_exec host (host.callback callback ev.fd ev.flags) (s.log (.invoked callback ev))
  have hemits' := (emits_log s rfl : Emits s _ [.invoked callback ev]).trans hemits
  have hmarks' := (marks_log s (by rintro _ ⟨⟩) : Marks s _ [.invoked callback ev]).trans hmarks
  unfold invoke
  rcases hexec : (s.log (.invoked callback ev)).exec host
    (host.callback callback ev.fd ev.flags) with ⟨_ | _, t⟩
  · rw [hexec] at hemits' hmarks'
    exact ⟨_, _, ops, rfl, hops, hemits'.trans (emits_log t rfl),
      hmarks'.trans (marks_log t (by rintro _ ⟨⟩))⟩
  · rw [hexec] at hemits' hmarks'
    exact ⟨_, _, ops, rfl, hops, hemits'.trans (emits_log t rfl),
      hmarks'.trans (marks_log t (by rintro _ ⟨⟩))⟩

/-- What a callback did, as lines of the trace: its own operations, how it left,
and after a throw the report. -/
theorem Calls.single {ev : Event} {callback : κ} {s t : Bus κ σ} {ops tail : List (Entry κ)}
    {thrown : Option Exception} (hunmarked : ev.fd ∉ s.callbacksToRemove)
    (hemits : Emits s t (.invoked callback ev :: (ops ++ .returned callback thrown :: tail)))
    (hmarks : Marks s t (.invoked callback ev :: (ops ++ .returned callback thrown :: tail)))
    (hops : ∀ e ∈ ops, e.IsOp) (htail : invokedIn tail = []) (halone : ∀ e ∈ tail, ¬ e.IsArrival)
    (hthrown : thrownIn tail = []) (hreported : List.Forall₂
      (fun e err => ∃ errno, err = asError ev.fd errno e) thrown.toList (reportedIn tail)) :
    Calls ev [callback] s t (.invoked callback ev :: (ops ++ .returned callback thrown :: tail)) ∧
      invokedIn (.invoked callback ev :: (ops ++ .returned callback thrown :: tail)) =
        [(callback, ev)] := by
  have hrest : invokedIn (ops ++ .returned callback thrown :: tail) = [] := by
    rw [invokedIn_append, invokedIn_ops hops]
    exact htail
  have hcalled : invokedIn (.invoked callback ev :: (ops ++ .returned callback thrown :: tail)) =
      [(callback, ev)] := congrArg ((callback, ev) :: ·) hrest
  refine ⟨⟨hemits, hmarks, ?_, ⟨1, hcalled, ?_⟩, fun _ _ => hunmarked, ?_, ?_⟩, hcalled⟩
  · intro e he
    rcases List.mem_cons.mp he with rfl | he
    · exact id
    rcases List.mem_append.mp he with he | he
    · exact (hops e he).not_arrival
    rcases List.mem_cons.mp he with rfl | he
    · exact id
    · exact halone e he
  · intro hlt
    exact absurd hlt (Nat.lt_irrefl 1)
  · have hnone : ∀ e ∈ ops ++ .returned callback thrown :: tail, ∀ called,
        e ≠ .invoked called ev := by
      rintro e he called rfl
      exact absurd (List.filterMap_eq_nil_iff.mp hrest _ he) (by simp [Entry.invoked?])
    refine List.Pairwise.cons (by rintro _ _ ⟨⟩) ?_
    exact List.pairwise_of_forall_mem_list fun _ _ e' he' _ => hnone e' he'
  · have hthrows : thrownIn (.invoked callback ev :: (ops ++ .returned callback thrown :: tail)) =
        thrown.toList := by
      show thrownIn (ops ++ .returned callback thrown :: tail) = _
      rw [thrownIn_append, thrownIn_ops hops]
      cases thrown with
      | none => exact hthrown
      | some e => exact congrArg (e :: ·) hthrown
    have hreports :
        reportedIn (.invoked callback ev :: (ops ++ .returned callback thrown :: tail)) =
          reportedIn tail := by
      show reportedIn (ops ++ .returned callback thrown :: tail) = _
      rw [reportedIn_append, reportedIn_ops hops]
      rfl
    rw [hthrows, hreports]
    exact hreported

/-! ## The loop over the callbacks -/

theorem runCallbacks_marked {ev : Event} {s : Bus κ σ} (h : ev.fd ∈ s.callbacksToRemove)
    (callbacks : List κ) :
    s.runCallbacks host (some errorCallback) ev callbacks = (.ok (), s) := by
  induction callbacks with
  | nil => rfl
  | cons callback callbacks ih => rw [runCallbacks, if_pos h, ih]

/-- **The loop over the callbacks.**  Induction on the callbacks that are left;
once the descriptor is marked, none of them is called. -/
theorem runCallbacks_spec (hsilent : Silent host errorCallback) (ev : Event) (callbacks : List κ)
    (s : Bus κ σ) : ∃ t entries,
      s.runCallbacks host (some errorCallback) ev callbacks = (.ok (), t) ∧
      Calls ev callbacks s t entries := by
  induction callbacks generalizing s with
  | nil => exact ⟨s, [], rfl, Calls.none fun h => absurd rfl h⟩
  | cons callback callbacks ih =>
    by_cases hmark : ev.fd ∈ s.callbacksToRemove
    · refine ⟨s, [], ?_, Calls.none fun _ => hmark⟩
      rw [runCallbacks, if_pos hmark]
      exact runCallbacks_marked hmark callbacks
    · rw [runCallbacks, if_neg hmark]
      obtain ⟨t, thrown, ops, hinvoke, hops, hemits, hmarks⟩ :=
        invoke_spec host ev callback s
      rw [hinvoke]
      cases thrown with
      | none =>
        obtain ⟨u, entries, hrest, hcalls⟩ := ih t
        obtain ⟨hfirst, hcalled⟩ :=
          Calls.single hmark hemits hmarks hops rfl (by simp) rfl List.Forall₂.nil
        exact ⟨u, _, hrest, hfirst.cons hcalled hcalls⟩
      | some e =>
        generalize herr : asError ev.fd (host.errno t.world) e = err
        obtain ⟨t', ops', hreport, hops', hemits', hmarks'⟩ := report_spec hsilent err t
        obtain ⟨u, entries, hrest, hcalls⟩ := ih t'
        simp only [herr, hreport]
        have htrace := hemits.trans hemits'
        have hmarked := hmarks.trans hmarks'
        rw [List.cons_append, List.append_assoc] at htrace hmarked
        have hinvoked : invokedIn (.reported err :: ops') = [] :=
          (invokedIn_ops hops' : invokedIn ops' = [])
        have halone : ∀ e ∈ Entry.reported err :: ops', ¬ e.IsArrival :=
          List.forall_mem_cons.mpr ⟨id, fun e he => (hops' e he).not_arrival⟩
        have hthrown : thrownIn (.reported err :: ops') = [] :=
          (thrownIn_ops hops' : thrownIn ops' = [])
        have hreported : reportedIn (.reported err :: ops') = [err] :=
          congrArg (err :: ·) (reportedIn_ops hops')
        have honce : List.Forall₂ (fun e err => ∃ errno, err = asError ev.fd errno e) [e]
            (reportedIn (.reported err :: ops')) := by
          rw [hreported]
          exact .cons ⟨_, herr.symm⟩ .nil
        obtain ⟨hfirst, hcalled⟩ :=
          Calls.single hmark htrace hmarked hops hinvoked halone hthrown honce
        exact ⟨u, _, hrest, hfirst.cons hcalled hcalls⟩

/-! ## A dispatch -/

theorem used_destroyAll (host : Host κ σ) (callbacks : List κ) (s : Bus κ σ) :
    Used s (s.destroyAll host callbacks) := by
  induction callbacks generalizing s with
  | nil => exact Used.refl s
  | cons callback callbacks ih => exact (used_exec host (host.destroy callback) s).trans (ih _)

theorem used_erase (host : Host κ σ) (fd : FileDescriptor) (s : Bus κ σ) :
    Used s (s.erase host fd) := by
  unfold erase
  split
  · have hremoved : Used s (s.setCallbacks fd none) := used_of_eq rfl rfl rfl
    exact hremoved.trans (used_destroyAll host _ _)
  · exact Used.refl s

theorem used_eraseAll (host : Host κ σ) (n : ℕ) (current : Option FileDescriptor) (s : Bus κ σ) :
    Used s (s.eraseAll host n current) := by
  induction n generalizing current s with
  | zero => exact Used.refl s
  | succ n ih =>
    rw [eraseAll]
    split
    · exact Used.refl s
    · exact (used_erase host _ s).trans (ih _ _)

/-- Removing the callbacks of closed connections calls none and takes no event. -/
theorem flush_spec (host : Host κ σ) (s : Bus κ σ) :
    ∃ ops, Emits s (s.flush host) ops ∧ ∀ e ∈ ops, e.IsOp := by
  obtain ⟨ops, hemits, -, hops⟩ := used_eraseAll host s.passes none s
  exact ⟨ops, ⟨hemits.trace, hemits.events⟩, hops⟩

/-- What one dispatch of `ev` from `s` does: it calls the callbacks registered for
`ev.fd` at that moment, and then removes the callbacks of closed connections. -/
structure Dispatches (host : Host κ σ) (errorCallback : Error → Code κ σ Unit) (ev : Event)
    (s : Bus κ σ) : Prop where
  returns : (s.dispatch host (some errorCallback) ev).1 = .ok ()
  calls : ∃ t entries ops, Calls ev ((s.callbackMap ev.fd).getD []) s t entries ∧
    (s.dispatch host (some errorCallback) ev).2 = t.flush host ∧
    Emits t (t.flush host) ops ∧ ∀ e ∈ ops, e.IsOp

/-- **Every dispatch** calls every callback of its descriptor once, in order, up to
the point where the descriptor is marked, and reports every throw once. -/
theorem dispatches (hsilent : Silent host errorCallback) (ev : Event) (s : Bus κ σ) :
    Dispatches host errorCallback ev s := by
  obtain ⟨t, entries, hrun, hcalls⟩ :=
    runCallbacks_spec hsilent ev ((s.callbackMap ev.fd).getD []) s
  obtain ⟨ops, hemits, hops⟩ := flush_spec host t
  have hdispatch : s.dispatch host (some errorCallback) ev = (.ok (), t.flush host) := by
    simp only [dispatch, hrun]
  exact ⟨congrArg Prod.fst hdispatch, t, entries, ops, hcalls, congrArg Prod.snd hdispatch,
    hemits, hops⟩

/-- The lines of a dispatch: no event arrives meanwhile, and only callbacks of its
descriptor are called. -/
theorem Dispatches.lines {ev : Event} {s : Bus κ σ} (h : Dispatches host errorCallback ev s) :
    ∃ l, Emits s (s.dispatch host (some errorCallback) ev).2 l ∧ (∀ e ∈ l, ¬ e.IsArrival) ∧
      ∀ callback ev', .invoked callback ev' ∈ l → callback ∈ (s.callbackMap ev.fd).getD [] := by
  obtain ⟨-, t, entries, ops, hcalls, heq, hemits, hops⟩ := h
  refine ⟨entries ++ ops, ?_, ?_, ?_⟩
  · rw [heq]
    exact hcalls.emits.trans hemits
  · intro e he
    rcases List.mem_append.mp he with he | he
    · exact hcalls.alone e he
    · exact (hops e he).not_arrival
  · intro callback ev' hmem
    rcases List.mem_append.mp hmem with hmem | hmem
    · obtain ⟨n, hinvoked, -⟩ := hcalls.invoked
      have hcall : (callback, ev') ∈ invokedIn entries := List.mem_filterMap.mpr ⟨_, hmem, rfl⟩
      rw [hinvoked] at hcall
      obtain ⟨callback', htake, hpair⟩ := List.mem_map.mp hcall
      obtain rfl : callback' = callback := congrArg Prod.fst hpair
      exact List.mem_of_mem_take htake
    · exact (hops _ hmem).elim

/-- From `s` to `t` no event is taken from the queue. -/
def Keeps (s t : Bus κ σ) : Prop := ∃ entries, Emits s t entries ∧ dispatchedIn entries = []

theorem Used.keeps {s t : Bus κ σ} (h : Used s t) : Keeps s t := by
  obtain ⟨ops, hemits, -, hops⟩ := h
  exact ⟨ops, hemits, dispatchedIn_ops hops⟩

/-! ## A call of `wait_events` -/

/-- An event is dispatched from `s` to `t`, and `entries` are the lines of it: the one that
says where the event comes from, the calls of the callbacks that are registered for its
descriptor then, and the removal of the callbacks of closed connections. -/
structure Announced (host : Host κ σ) (errorCallback : Error → Code κ σ Unit)
    (note : Event → Entry κ) (ev : Event) (s t : Bus κ σ) (entries : List (Entry κ)) : Prop where
  dispatch : (s.log (note ev)).dispatch host (some errorCallback) ev = (.ok (), t)
  lines : ∃ u calls ops, entries = note ev :: (calls ++ ops) ∧
    Calls ev ((s.callbackMap ev.fd).getD []) (s.log (note ev)) u calls ∧ t = u.flush host ∧
    Emits u t ops ∧ ∀ e ∈ ops, e.IsOp

/-- The native phase from `s` to `t`: operations, batches, and dispatches of the events that
are delivered. -/
inductive Waits (host : Host κ σ) (errorCallback : Error → Code κ σ Unit) (s : Bus κ σ) :
    Bus κ σ → List (Entry κ) → Prop
  | refl : Waits host errorCallback s s []
  | used {t u : Bus κ σ} {l ops : List (Entry κ)} (before : Waits host errorCallback s t l)
    (hemits : Emits t u ops) (hops : ∀ e ∈ ops, e.IsOp) : Waits host errorCallback s u (l ++ ops)
  | polled {t : Bus κ σ} {l : List (Entry κ)} (before : Waits host errorCallback s t l)
    (batch : List Event) :
    Waits host errorCallback s (t.log (.polled batch)) (l ++ [.polled batch])
  | delivered {t u : Bus κ σ} {l l' : List (Entry κ)} (before : Waits host errorCallback s t l)
    {ev : Event} (hev : Announced host errorCallback .delivered ev t u l') :
    Waits host errorCallback s u (l ++ l')

/-- The queue phase from `s` to `t`: the events are dispatched one after the other, each from
where the one before it has led. -/
inductive Drains (host : Host κ σ) (errorCallback : Error → Code κ σ Unit) :
    List Event → Bus κ σ → Bus κ σ → List (Entry κ) → Prop
  | nil (s : Bus κ σ) : Drains host errorCallback [] s s []
  | cons {ev : Event} {evs : List Event} {s t u : Bus κ σ} {l l' : List (Entry κ)}
    (first : Announced host errorCallback .dispatched ev s t l)
    (rest : Drains host errorCallback evs t u l') :
    Drains host errorCallback (ev :: evs) s u (l ++ l')

/-- **Every dispatch** can be announced. -/
theorem announced (hsilent : Silent host errorCallback) (note : Event → Entry κ) (ev : Event)
    (s : Bus κ σ) : ∃ t l, Announced host errorCallback note ev s t l := by
  obtain ⟨hreturns, u, calls, ops, hcalls, heq, hemits, hops⟩ :=
    dispatches hsilent ev (s.log (note ev))
  exact ⟨u.flush host, note ev :: (calls ++ ops), Prod.ext hreturns heq, u, calls, ops, rfl,
    hcalls, rfl, hemits, hops⟩

section Announced

variable {note : Event → Entry κ} {ev : Event} {s t : Bus κ σ} {l : List (Entry κ)}

theorem Announced.emits (h : Announced host errorCallback note ev s t l)
    (hnote : (note ev).enqueued? = none) : Emits s t l := by
  obtain ⟨-, u, calls, ops, rfl, hcalls, rfl, hemits, -⟩ := h
  exact (emits_log s hnote).trans (hcalls.emits.trans hemits)

/-- Only the line that announces it can say that an event was taken from the queue. -/
theorem Announced.dispatched (h : Announced host errorCallback note ev s t l) :
    dispatchedIn l = (note ev).dispatched?.toList := by
  obtain ⟨-, u, calls, ops, rfl, hcalls, -, -, hops⟩ := h
  have hlater : dispatchedIn (calls ++ ops) = [] := by
    rw [dispatchedIn_append, hcalls.dispatched, dispatchedIn_ops hops]
    rfl
  rw [dispatchedIn, List.filterMap_cons]
  rcases (note ev).dispatched? with _ | taken
  · exact hlater
  · exact congrArg (taken :: ·) hlater

theorem Waits.emits (h : Waits host errorCallback s t l) : Emits s t l := by
  induction h with
  | refl => exact Emits.refl s
  | used before hemits hops ih => exact ih.trans hemits
  | polled before batch ih => exact ih.trans (emits_log _ rfl)
  | delivered before hev ih => exact ih.trans (hev.emits rfl)

theorem Waits.dispatched (h : Waits host errorCallback s t l) : dispatchedIn l = [] := by
  induction h with
  | refl => rfl
  | used before hemits hops ih => rw [dispatchedIn_append, ih, dispatchedIn_ops hops]; rfl
  | polled before batch ih => rw [dispatchedIn_append, ih]; rfl
  | delivered before hev ih => rw [dispatchedIn_append, ih, hev.dispatched]; rfl

theorem Waits.trans {u : Bus κ σ} {l' : List (Entry κ)} (h : Waits host errorCallback s t l)
    (h' : Waits host errorCallback t u l') : Waits host errorCallback s u (l ++ l') := by
  induction h' with
  | refl =>
    rw [List.append_nil]
    exact h
  | used before hemits hops ih =>
    rw [← List.append_assoc]
    exact ih.used hemits hops
  | polled before batch ih =>
    rw [← List.append_assoc]
    exact ih.polled batch
  | delivered before hev ih =>
    rw [← List.append_assoc]
    exact ih.delivered hev

theorem Drains.emits {evs : List Event} (h : Drains host errorCallback evs s t l) :
    Emits s t l := by
  induction h with
  | nil s => exact Emits.refl s
  | cons first rest ih => exact (first.emits rfl).trans ih

theorem Drains.dispatched {evs : List Event} (h : Drains host errorCallback evs s t l) :
    dispatchedIn l = evs := by
  induction h with
  | nil s => rfl
  | cons first rest ih => rw [dispatchedIn_append, first.dispatched, ih]; rfl

end Announced

/-- **The native phase** takes no event from the queue, and dispatches what is delivered. -/
theorem native_spec (hsilent : Silent host errorCallback) (wait : WaitCode κ σ) (s : Bus κ σ) :
    ∃ l, Waits host errorCallback s (s.native host (some errorCallback) wait).2 l := by
  refine Program.exec_rel (R := fun s t => ∃ l, Waits host errorCallback s t l) _
    (fun s => ⟨[], .refl⟩) ?_ ?_ wait s
  · rintro s t u ⟨l, h⟩ ⟨l', h'⟩
    exact ⟨l ++ l', h.trans h'⟩
  · intro call t
    cases call with
    | bus call =>
      obtain ⟨ops, hemits, -, hops⟩ := used_perform host call t
      exact ⟨_, Waits.refl.used hemits hops⟩
    | poll batch => exact ⟨_, Waits.refl.polled batch⟩
    | deliver ev =>
      obtain ⟨u, l, hev⟩ := announced hsilent .delivered ev t
      have hstate : (performWait host (some errorCallback) (.deliver ev) t).2 = u :=
        congrArg Prod.snd hev.dispatch
      rw [hstate]
      exact ⟨_, Waits.refl.delivered hev⟩

/-- **The queue phase** takes the events it was given, in order, and dispatches each of them. -/
theorem drain_spec (hsilent : Silent host errorCallback) (evs : List Event) (s : Bus κ σ) :
    ∃ t entries, s.drain host (some errorCallback) evs = (.ok (), t) ∧
      Drains host errorCallback evs s t entries := by
  induction evs generalizing s with
  | nil => exact ⟨s, [], rfl, .nil s⟩
  | cons ev evs ih =>
    obtain ⟨t, l, hev⟩ := announced hsilent .dispatched ev s
    obtain ⟨u, l', hdrain, hrest⟩ := ih t
    refine ⟨u, l ++ l', ?_, .cons hev hrest⟩
    rw [drain, hev.dispatch]
    exact hdrain

/-- What one call of `wait_events` from `s` does. -/
structure Serves (host : Host κ σ) (errorCallback : Error → Code κ σ Unit) (wait : WaitCode κ σ)
    (s : Bus κ σ) : Prop where
  returns : (s.waitEvents host wait (some errorCallback)).1 = .ok ()
  /-- The native phase dispatches what is delivered … -/
  delivers : ∃ entries, Waits host errorCallback s (s.native host (some errorCallback) wait).2
    entries
  /-- … and leaves the queue to the queue phase. -/
  native : Keeps s (s.native host (some errorCallback) wait).2
  /-- When it returns, exactly the events that are queued then are dispatched, one
  after the other, and those enqueued meanwhile stay. -/
  drained : ∀ t, s.native host (some errorCallback) wait = (.ok (), t) →
    ∃ entries, Drains host errorCallback t.events { t with events := [] }
        (s.waitEvents host wait (some errorCallback)).2 entries ∧
      (s.waitEvents host wait (some errorCallback)).2.trace = t.trace ++ entries ∧
      dispatchedIn entries = t.events ∧
      (s.waitEvents host wait (some errorCallback)).2.events = enqueuedIn entries
  /-- When it throws, no event is dispatched, none is lost, and the exception is
  reported. -/
  kept : ∀ e t, s.native host (some errorCallback) wait = (.error e, t) →
    ∃ ops, (∀ op ∈ ops, op.IsOp) ∧ Emits t (s.waitEvents host wait (some errorCallback)).2
      (.reported (asError (-1) (host.errno t.world) e) :: ops)

/-- **Every call of `wait_events`** does that. -/
theorem serves (hsilent : Silent host errorCallback) (wait : WaitCode κ σ) (s : Bus κ σ) :
    Serves host errorCallback wait s := by
  obtain ⟨l, hwaits⟩ := native_spec hsilent wait s
  have hkeeps : Keeps s (s.native host (some errorCallback) wait).2 :=
    ⟨l, hwaits.emits, hwaits.dispatched⟩
  rcases hnative : s.native host (some errorCallback) wait with ⟨e | ⟨⟩, t⟩
  · obtain ⟨u, ops, hreport, hops, hemits, -⟩ :=
      report_spec hsilent (asError (-1) (host.errno t.world) e) t
    have hwait : s.waitEvents host wait (some errorCallback) = (.ok (), u) := by
      simp only [waitEvents, serve, hnative, hreport]
    refine ⟨congrArg Prod.fst hwait, ⟨l, hwaits⟩, hkeeps, ?_, ?_⟩
    · intro t' ht'
      rw [hnative] at ht'
      cases ht'
    · intro e' t' ht'
      rw [hnative] at ht'
      cases ht'
      rw [hwait]
      exact ⟨ops, hops, hemits⟩
  · obtain ⟨u, entries, hdrain, hdrains⟩ :=
      drain_spec hsilent t.events ({ t with events := [] } : Bus κ σ)
    have hwait : s.waitEvents host wait (some errorCallback) = (.ok (), u) := by
      simp only [waitEvents, serve, hnative, hdrain]
    refine ⟨congrArg Prod.fst hwait, ⟨l, hwaits⟩, hkeeps, ?_, ?_⟩
    · intro t' ht'
      rw [hnative] at ht'
      cases ht'
      rw [hwait]
      exact ⟨entries, hdrains, hdrains.emits.trace, hdrains.dispatched, hdrains.emits.events⟩
    · intro e' t' ht'
      rw [hnative] at ht'
      cases ht'

/-! ## Runs -/

/-- The input brings an error callback that is not empty and does not throw. -/
def Quiet (host : Host κ σ) : BusInput κ σ → Prop
  | .code _ => True
  | .waitEvents _ errorCallback => ∃ callback, errorCallback = some callback ∧ Silent host callback

/-- The events enqueued are the events dispatched and the events still queued. -/
def Fifo (s : Bus κ σ) : Prop := enqueuedIn s.trace = dispatchedIn s.trace ++ s.events

theorem Keeps.fifo {s t : Bus κ σ} (h : Keeps s t) (hs : Fifo s) : Fifo t := by
  obtain ⟨entries, hemits, hnone⟩ := h
  unfold Fifo at hs ⊢
  rw [hemits.trace, hemits.events, enqueuedIn_append, dispatchedIn_append, hnone, hs,
    List.append_nil, List.append_assoc]

/-- **One input** keeps the order of events. -/
theorem fifo_step {s : Bus κ σ} {input : BusInput κ σ} (hquiet : Quiet host input) (hs : Fifo s) :
    Fifo (s.step host input) := by
  cases input with
  | code code => exact (used_exec host code s).keeps.fifo hs
  | waitEvents wait errorCallback =>
    obtain ⟨callback, rfl, hsilent⟩ := hquiet
    have hserves := serves hsilent wait s
    have hnative := hserves.native.fifo hs
    show Fifo (s.waitEvents host wait (some callback)).2
    rcases heq : s.native host (some callback) wait with ⟨e | ⟨⟩, t⟩
    · rw [heq] at hnative
      obtain ⟨ops, hops, hemits⟩ := hserves.kept e t heq
      have hkeeps : Keeps t (s.waitEvents host wait (some callback)).2 :=
        ⟨_, hemits, (dispatchedIn_ops hops : dispatchedIn ops = [])⟩
      exact hkeeps.fifo hnative
    · rw [heq] at hnative
      obtain ⟨entries, -, htrace, htaken, hevents⟩ := hserves.drained t heq
      unfold Fifo at hnative ⊢
      rw [htrace, hevents, enqueuedIn_append, dispatchedIn_append, htaken, hnative]

/-- **A run** keeps the order of events. -/
theorem fifo_after {s : Bus κ σ} {inputs : List (BusInput κ σ)}
    (hquiet : ∀ input ∈ inputs, Quiet host input) (hs : Fifo s) :
    Fifo (s.after host inputs) := by
  induction inputs generalizing s with
  | nil => exact hs
  | cons input inputs ih =>
    obtain ⟨hfirst, hrest⟩ := List.forall_mem_cons.mp hquiet
    exact ih hrest (fifo_step hfirst hs)

/-- **Queued events are dispatched exactly once, in order, whatever callbacks do.**
In every run whose error callbacks are there and do not throw, the events
enqueued are the events dispatched followed by the events still queued.  From
every state, a call of `wait_events` dispatches what is queued when its native
phase returns, one event after the other, and keeps what is enqueued meanwhile, or,
when the native phase throws, keeps everything; and a dispatch calls every callback
of its descriptor once, in order, until the descriptor is marked. -/
theorem dispatched_once (host : Host κ σ) (world : σ) (inputs : List (BusInput κ σ))
    (hquiet : ∀ input ∈ inputs, Quiet host input) :
    Fifo ((start world).after host inputs) ∧
    (∀ errorCallback, Silent host errorCallback → ∀ wait s, Serves host errorCallback wait s) ∧
    (∀ errorCallback, Silent host errorCallback → ∀ ev s, Dispatches host errorCallback ev s) :=
  ⟨fifo_after hquiet rfl, fun _ hsilent wait s => serves hsilent wait s,
    fun _ hsilent ev s => dispatches hsilent ev s⟩

/-- Two callbacks: one throws, one enqueues an event. -/
def mixedHost : Host Bool Unit where
  nativeAddFd _ world := (.ok (), world)
  nativeDelFd _ world := (.ok (), world)
  callback throws fd _ :=
    if throws then .raise .unknown else .call (.enqueueEvent ⟨fd, Flags.out⟩) .pure
  destroy _ := .pure ()
  errno _ := 0

/-- A run with both of them, and its next call and dispatch. -/
theorem dispatched_once_mixed :
    Fifo ((start ()).after mixedHost
      [.code (.call (.addFd 3 (some true)) fun _ => .call (.addFd 3 (some false)) fun _ =>
        .call (.enqueueEvent ⟨3, Flags.in'⟩) .pure),
      .waitEvents (.pure ()) (some fun _ => .pure ())]) ∧
    Serves mixedHost (fun _ => .pure ()) (.raise (.std "interrupted")) (start ()) ∧
    Dispatches mixedHost (fun _ => .pure ()) ⟨3, Flags.in'⟩ (start ()) := by
  have hsilent : Silent mixedHost fun _ => .pure () := fun _ _ => rfl
  obtain ⟨hfifo, hserves, hdispatches⟩ := dispatched_once mixedHost ()
    [.code (.call (.addFd 3 (some true)) fun _ => .call (.addFd 3 (some false)) fun _ =>
      .call (.enqueueEvent ⟨3, Flags.in'⟩) .pure),
    .waitEvents (.pure ()) (some fun _ => .pure ())] (by
      rintro input (_ | ⟨_, _ | ⟨_, ⟨⟩⟩⟩)
      · trivial
      · exact ⟨_, rfl, hsilent⟩)
  exact ⟨hfifo, hserves _ hsilent _ _, hdispatches _ hsilent _ _⟩

end Bus

end Io
end PsqlTcpProxy
