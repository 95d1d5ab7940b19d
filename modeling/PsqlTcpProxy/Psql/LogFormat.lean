import PsqlTcpProxy.Library.Fields
import PsqlTcpProxy.Psql.LoggedTexts
import PsqlTcpProxy.Psql.QueryLog

/-!
# One line per query

`main` gives the query processor a newline as its separator, and the log is meant
to have one query per line.  When no `write_acquire` fails, the log is every
logged text with a newline behind it (`log_of_granted`); nothing escapes a
newline inside a text.

`log_decodes_iff` says for which queries the lines of the log are the queries:
for those without a newline, with lengths that the handler reads right.  The
second part is what the handler's guess needs.  That nothing else makes up for a
length read wrong, whatever the client sends and wherever the stream is cut,
rests on where logged texts can stand: in a stream of queries without newlines, a
newline is at most four bytes behind a NUL or the beginning (`newline_near`).
-/

namespace PsqlTcpProxy
namespace Psql

open Library Io

/-! ## The log of a run in which all is granted -/

namespace QueryQueue

/-- The separator of the log, a newline. -/
abbrev NEWLINE : UInt8 := 10

/-- The `write_acquire` the main thread is in succeeds. -/
def GrantedTo (q : QueryQueue) : ProducerPc UInt8 → Prop
  | .acquiring piece w => q.spsc.granted piece w = true
  | _ => True

instance (q : QueryQueue) : DecidablePred q.GrantedTo
  | .acquiring piece w => inferInstanceAs (Decidable (q.spsc.granted piece w = true))
  | .idle | .copying .. | .loadingI .. | .storingI .. | .storingW .. => .isTrue trivial

/-- No `write_acquire` fails in this turn. -/
def Grants (q : QueryQueue) : QueryTurn → Prop
  | .producer => q.GrantedTo q.spsc.producer
  | .addMessage _ | .consumer _ => True

instance (q : QueryQueue) : DecidablePred q.Grants
  | .producer => inferInstanceAs (Decidable (q.GrantedTo q.spsc.producer))
  | .addMessage _ | .consumer _ => .isTrue trivial

/-- All that was requested is accepted. -/
def AllAccepted (q : QueryQueue) : Prop :=
  q.spsc.accepted ++ q.spsc.waiting = q.added.flatMap (QueryProcessor.requests q.separator)

theorem step_allAccepted {q t : QueryQueue} {turn : QueryTurn} (h : q.AllAccepted)
    (hgrants : q.Grants turn) (hstep : q.step turn = some t) : t.AllAccepted := by
  cases turn with
  | addMessage message =>
    by_cases hbusy : q.busy = true
    · obtain rfl := Option.some.inj ((if_pos hbusy).symm.trans hstep)
      exact h
    · obtain rfl := Option.some.inj ((if_neg hbusy).symm.trans hstep)
      show q.spsc.accepted ++ (q.spsc.producer.requesting ++
        (q.spsc.todo ++ QueryProcessor.requests q.separator message)) = _
      rw [← List.append_assoc, ← List.append_assoc, List.append_assoc q.spsc.accepted,
        List.flatMap_append, ← h, List.flatMap_singleton]
      rfl
  | producer =>
    obtain ⟨spsc, hspsc, rfl⟩ := Option.map_eq_some_iff.mp hstep
    show spsc.accepted ++ spsc.waiting =
      q.note.added.flatMap (QueryProcessor.requests q.note.separator)
    rw [note_added, note_separator, ← h]
    rcases Spsc.producerStep_waiting hspsc with ⟨piece, w, hpc, hwait, hacc⟩ | ⟨-, hwait, hacc⟩
    · have hgrants' : q.GrantedTo q.spsc.producer := hgrants
      rw [hpc] at hgrants'
      have hgranted : q.spsc.granted piece w = true := hgrants'
      rw [hacc, hwait, if_pos hgranted, List.append_assoc]
      rfl
    · rw [hacc, hwait]
  | consumer more =>
    obtain ⟨spsc, hspsc, rfl⟩ := Option.map_eq_some_iff.mp hstep
    obtain ⟨hpc, htodo, hacc⟩ := Spsc.consumerStep_frame hspsc
    show spsc.accepted ++ (spsc.producer.requesting ++ spsc.todo) = _
    rw [hacc, hpc, htodo]
    exact h

theorem flatten_flatMap_requests (separator : UInt8) (messages : List Text) :
    (messages.flatMap (QueryProcessor.requests separator)).flatten =
      terminated separator messages := by
  induction messages with
  | nil => rfl
  | cons message messages ih =>
    rw [List.flatMap_cons, List.flatten_append, ih, QueryProcessor.flatten_requests]
    rfl

/-- All that was requested is in the log or on its way there. -/
theorem AllAccepted.total {separator : UInt8} {q : QueryQueue} (h : q.AllAccepted)
    (hsafe : q.Safe separator) (hbusy : q.busy = false) :
    q.spsc.consumed ++ q.spsc.buffered = terminated separator q.added := by
  have hseparator : q.separator = separator := hsafe.separator_eq
  rw [AllAccepted, waiting_of_not_busy hbusy, List.append_nil, hseparator] at h
  rw [hsafe.inv.consumed_buffered (idle_of_not_busy hbusy).1, h, flatten_flatMap_requests]

/-- **The log of granted messages.**  When no `write_acquire` fails, then between
two calls of `_add_message` and with nothing left in the buffer, what was consumed
is every message with a separator behind it. -/
theorem log_of_granted {data : ℕ → UInt8} {separator : UInt8} {turns : List QueryTurn}
    (hgrants : Meets step Grants (start data separator) turns) {q : QueryQueue}
    (hrun : run step (start data separator) turns = some q) (hbusy : q.busy = false)
    (hdrained : q.spsc.buffered = []) : q.spsc.consumed = terminated separator q.added := by
  obtain ⟨t, hrun', hsafe⟩ := run_total step_safe
    ⟨inv_start data separator, rfl, [], List.Sublist.refl _, rfl⟩ turns
  obtain rfl := Option.some.inj (hrun'.symm.trans hrun)
  have hall : t.AllAccepted :=
    run_invariant (fun _ _ _ hI hP hs => step_allAccepted hI hP hs)
      (show AllAccepted (start data separator) from rfl) hgrants hrun
  have hseparator : t.separator = separator := hsafe.separator_eq
  have hconsumed := hsafe.inv.consumed_buffered (idle_of_not_busy hbusy).1
  rw [hdrained, List.append_nil] at hconsumed
  rw [AllAccepted, waiting_of_not_busy hbusy, List.append_nil, hseparator] at hall
  rw [hconsumed, hall, flatten_flatMap_requests]

/-- To be drained is not enough: at the index 1024 even the empty buffer has no
room for a piece of 1025 characters. -/
example : acquireAt QueryProcessor.BUFF_SZ 1024 1024 1025 = none := by decide

end QueryQueue

/-! ## Queries -/

/-- A query that a client can send. -/
structure ClientQuery where
  text : Text
  nulFree : 0 ∉ text
  length_lt : 4 + (text.length + 1) < 2 ^ 32

namespace ClientQuery

/-- Its packet. -/
def packet (c : ClientQuery) : FrontendPacket := .query c.text c.nulFree c.length_lt

/-- The handler reads the length of the packet right. -/
def Readable (c : ClientQuery) : Prop := c.packet.length ≤ byteSwap c.packet.length

instance (c : ClientQuery) : Decidable c.Readable :=
  inferInstanceAs (Decidable (c.packet.length ≤ byteSwap c.packet.length))

theorem packet_length (c : ClientQuery) : c.packet.length = c.text.length + 5 := by
  show 4 + (c.text ++ [0]).length = _
  rw [List.length_append, List.length_singleton]
  omega

theorem packet_encode (c : ClientQuery) :
    c.packet.encode = Query.MESSAGE_CODE :: encodeUint32Be c.packet.length ++ (c.text ++ [0]) := rfl

/-- The bytes of some queries, one after the other. -/
def encode (cs : List ClientQuery) : List UInt8 :=
  (cs.map packet).flatMap FrontendPacket.encode

theorem encode_cons (c : ClientQuery) (cs : List ClientQuery) :
    encode (c :: cs) = c.packet.encode ++ encode cs := rfl

theorem encode_append (cs cs' : List ClientQuery) :
    encode (cs ++ cs') = encode cs ++ encode cs' := by
  rw [encode, List.map_append, List.flatMap_append, encode, encode]

/-- The texts that a handler logs for queries it reads. -/
theorem logged_requests (cs : List ClientQuery) (fd : FileDescriptor) :
    logged ((cs.map packet).flatMap (FrontendPacket.requests fd)) = cs.map text := by
  induction cs with
  | nil => rfl
  | cons c cs ih =>
    rw [List.map_cons, List.flatMap_cons, logged_append, ih]
    rfl

end ClientQuery

open ClientQuery

/-! ## Newlines in a stream of queries -/

/-- In the packet of a query without newlines, a newline is in the type byte or the length field. -/
theorem newline_in_packet {c : ClientQuery} (hc : QueryQueue.NEWLINE ∉ c.text) {u v : List UInt8}
    (h : c.packet.encode = u ++ QueryQueue.NEWLINE :: v) : u.length ≤ 4 := by
  by_contra hlong
  rw [packet_encode] at h
  have hlen : (Query.MESSAGE_CODE :: encodeUint32Be c.packet.length).length = 5 := rfl
  rcases List.append_eq_append_iff.mp h with ⟨a, hu, htail⟩ | ⟨a, hhead, htail⟩
  · have hmem : QueryQueue.NEWLINE ∈ c.text ++ [0] := by
      rw [htail]
      exact List.mem_append_right _ List.mem_cons_self
    rcases List.mem_append.mp hmem with hmem | hmem
    · exact hc hmem
    · exact absurd hmem (by decide)
  · have hsum := congrArg List.length hhead
    rw [hlen, List.length_append] at hsum
    have hnil : a = [] := List.length_eq_zero_iff.mp (by omega)
    subst hnil
    have hmem : QueryQueue.NEWLINE ∈ c.text ++ [0] := by
      rw [List.nil_append] at htail
      rw [← htail]
      exact List.mem_cons_self
    rcases List.mem_append.mp hmem with hmem | hmem
    · exact hc hmem
    · exact absurd hmem (by decide)

/-- The end of a packet contains its NUL. -/
theorem nul_mem_end {c : ClientQuery} {u x : List UInt8} (h : c.packet.encode = u ++ x)
    (hne : x ≠ []) : 0 ∈ x := by
  have hlast : c.packet.encode.getLast? = some 0 := by
    rw [packet_encode, ← List.append_assoc, List.getLast?_concat]
  rw [h, List.getLast?_append_of_ne_nil u hne] at hlast
  exact List.mem_of_getLast? hlast

/-- **Newlines are near the beginning of a packet.**  In a stream of queries
without newlines, at most four bytes without a NUL stand right before a newline. -/
theorem newline_near {cs : List ClientQuery} (hcs : ∀ c ∈ cs, QueryQueue.NEWLINE ∉ c.text)
    {u x v : List UInt8} (h : encode cs = u ++ x ++ QueryQueue.NEWLINE :: v) (hx : 0 ∉ x) :
    x.length ≤ 4 := by
  induction cs generalizing u with
  | nil => exact absurd h.symm (List.append_ne_nil_of_right_ne_nil _ (List.cons_ne_nil _ _))
  | cons c cs ih =>
    have ih' : ∀ u, encode cs = u ++ x ++ QueryQueue.NEWLINE :: v → x.length ≤ 4 := fun u =>
      ih fun c' hc' => hcs c' (List.mem_cons_of_mem c hc')
    rw [encode_cons] at h
    rcases List.append_eq_append_iff.mp h with ⟨a, hux, hrest⟩ | ⟨a, hpacket, htail⟩
    · -- the newline is behind the packet, and so is what stands before it
      rcases List.append_eq_append_iff.mp hux with ⟨b, hpacket, rfl⟩ | ⟨b, rfl, rfl⟩
      · rcases eq_or_ne b [] with rfl | hne
        · exact ih' [] hrest
        · exact absurd (List.mem_append_left a (nul_mem_end hpacket hne)) hx
      · exact ih' b hrest
    · -- the newline is in the packet
      rcases a with _ | ⟨b, a⟩
      · rw [List.append_nil] at hpacket
        rcases eq_or_ne x [] with rfl | hne
        · exact Nat.zero_le 4
        · exact absurd (nul_mem_end hpacket hne) hx
      · obtain rfl : QueryQueue.NEWLINE = b := (List.cons.inj htail).1
        have hlen := newline_in_packet (hcs c List.mem_cons_self) hpacket
        rw [List.length_append] at hlen
        omega

/-! ## Which queries can be read back -/

/-- Queries that the handler reads right are the packets of their stream. -/
theorem parse_queries {cs : List ClientQuery} (hcs : ∀ c ∈ cs, c.Readable) :
    ∃ frames, parse true (encode cs) = ⟨frames, true, []⟩ ∧ (∀ p ∈ frames, p.Accepted) ∧
      ∀ fd, logged (frames.flatMap (Packet.effects fd)) = cs.map text := by
  have hread : ∀ p ∈ cs.map packet, p.length ≤ byteSwap p.length := by
    intro p hp
    obtain ⟨c, hc, rfl⟩ := List.mem_map.mp hp
    exact hcs c hc
  obtain ⟨frames, hframes, hok, heffects⟩ := parse_packets hread
  refine ⟨frames, hframes, hok, fun fd => ?_⟩
  rw [heffects, logged_requests]

/-- What the handler logs of queries it reads right, and then of anything. -/
theorem logged_readable (fd : FileDescriptor) {cs : List ClientQuery}
    (hcs : ∀ c ∈ cs, c.Readable) {rest : List UInt8} {calls : List HandlerCall}
    (hcut : streamOf calls = encode cs ++ rest) :
    cs.map text <+: logged ((Handler.mk [] true fd).run calls).effects := by
  obtain ⟨frames, hframes, hok, hlogged⟩ := parse_queries hcs
  have hfirst : frames <+: (parse true ([] ++ streamOf calls)).frames := by
    rw [List.nil_append, hcut, parse_append, hframes]
    exact List.prefix_append _ _
  obtain ⟨more, hmore⟩ :=
    run_accepted_prefix (h := Handler.mk [] true fd) rfl calls hfirst hok
  rw [← hmore, logged_append, ← hlogged fd]
  exact List.prefix_append _ _

/-- Queries that the handler reads right are logged and nothing else is. -/
theorem logged_eq (fd : FileDescriptor) {cs : List ClientQuery} (hcs : ∀ c ∈ cs, c.Readable)
    {calls : List HandlerCall} (hcut : streamOf calls = encode cs) :
    logged ((Handler.mk [] true fd).run calls).effects = cs.map text := by
  obtain ⟨frames, hframes, hok, hlogged⟩ := parse_queries hcs
  have hparse : parse true ([] ++ streamOf calls) = ⟨frames, true, []⟩ := by
    rw [List.nil_append, hcut, hframes]
  have hrun := run_eq (h := Handler.mk [] true fd) rfl calls (by rw [hparse]; exact hok)
  rw [hrun, ← hlogged fd]
  show logged ((parse true ([] ++ streamOf calls)).frames.flatMap (Packet.effects fd)) = _
  rw [hparse]

/-- A short query is read right. -/
theorem readable_of_short {c : ClientQuery} (h : c.text.length ≤ 4) : c.Readable := by
  refine le_byteSwap ?_
  rw [packet_length]
  exact Nat.lt_of_le_of_lt (Nat.add_le_add_right h 5) (by decide)

/-- A text that stands in the stream with the length of a query has a length that
is read right. -/
theorem readable_of_sits {c : ClientQuery} {stream : List UInt8} (h : Sits stream c.text) :
    c.Readable := by
  obtain ⟨_, _, _, _, _, -, hlen⟩ := h
  rw [Readable, packet_length]
  exact hlen

/-- **A log that reads back has been read right.**  If the lines that are logged
are the queries, none of which contains a newline, then the handler has read
every length right. -/
theorem readable_of_log (fd : FileDescriptor) {cs : List ClientQuery} {calls : List HandlerCall}
    (hcut : streamOf calls = encode cs) (hfree : ∀ c ∈ cs, QueryQueue.NEWLINE ∉ c.text)
    (hlog : terminated QueryQueue.NEWLINE (logged ((Handler.mk [] true fd).run calls).effects) =
      terminated QueryQueue.NEWLINE (cs.map text)) : ∀ c ∈ cs, c.Readable := by
  by_contra hno
  push Not at hno
  obtain ⟨c, hc, hunread⟩ := hno
  -- the first query that is not read right
  obtain ⟨bad, hfind⟩ : ∃ bad, cs.find? (fun c => decide ¬ c.Readable) = some bad :=
    Option.isSome_iff_exists.mp (List.find?_isSome.mpr ⟨c, hc, decide_eq_true hunread⟩)
  obtain ⟨hbad, read, behind, rfl, hread⟩ := List.find?_eq_some_iff_append.mp hfind
  rw [decide_eq_true_eq] at hbad
  have hsits : ∀ m ∈ logged ((Handler.mk [] true fd).run calls).effects,
      Sits (streamOf calls) m := fun m hm => run_sits (Handler.mk [] true fd) calls hm
  have hread' : ∀ c ∈ read, c.Readable := fun c hc => by simpa using hread c hc
  obtain ⟨others, hothers⟩ :=
    logged_readable fd hread' (hcut.trans (encode_append read (bad :: behind)))
  rw [← hothers] at hlog hsits
  rw [List.map_append, List.map_cons, terminated_append, terminated_append, terminated_cons,
    List.append_cancel_left_eq] at hlog
  have hbadfree := hfree bad (List.mem_append_right _ List.mem_cons_self)
  -- what is logged next should be its text
  rcases others with _ | ⟨m, others⟩
  · exact absurd hlog.symm (List.append_ne_nil_of_right_ne_nil _ (List.cons_ne_nil _ _))
  · have hm := hsits m (List.mem_append_right _ List.mem_cons_self)
    rw [terminated_cons] at hlog
    rcases List.append_eq_append_iff.mp hlog with ⟨a, htext, htail⟩ | ⟨a, hlong, htail⟩
    · rcases a with _ | ⟨b, a⟩
      · rw [List.append_nil] at htext
        exact hbad (readable_of_sits (htext ▸ hm))
      · obtain rfl : QueryQueue.NEWLINE = b := (List.cons.inj htail).1
        exact hbadfree (htext ▸ List.mem_append_right m List.mem_cons_self)
    · rcases a with _ | ⟨b, a⟩
      · rw [List.append_nil] at hlong
        exact hbad (readable_of_sits (hlong ▸ hm))
      · -- a text with a newline in it stands across the beginning of a packet
        obtain rfl : QueryQueue.NEWLINE = b := (List.cons.inj htail).1
        obtain ⟨b₀, b₁, b₂, b₃, last, ⟨u, v, hstream⟩, -⟩ := hm
        refine hbad (readable_of_short (newline_near hfree
          (u := u ++ [Query.MESSAGE_CODE, b₀, b₁, b₂, b₃]) (v := a ++ [last] ++ v) ?_ bad.nulFree))
        rw [← hcut, ← hstream, hlong]
        simp only [List.append_assoc, List.cons_append, List.nil_append]

/-! ## The log of a client's queries -/

/-- **When the lines of the log are the queries.**  For every sequence of queries,
every way to cut its stream into results, and every interleaving of the two
threads in which the texts that the handler logs are added, no `write_acquire`
fails and all is consumed: the fields of the log are the texts of the queries if
and only if no text contains a newline and the handler reads every length right. -/
theorem log_decodes_iff (fd : FileDescriptor) (cs : List ClientQuery) (calls : List HandlerCall)
    (hcut : streamOf calls = encode cs) (data : ℕ → UInt8) (turns : List QueryTurn)
    (hgrants : Meets QueryQueue.step QueryQueue.Grants (.start data QueryQueue.NEWLINE) turns)
    (q : QueryQueue) (hrun : run QueryQueue.step (.start data QueryQueue.NEWLINE) turns = some q)
    (hadded : q.added = logged ((Handler.mk [] true fd).run calls).effects)
    (hbusy : q.busy = false) (hdrained : q.spsc.buffered = []) :
    fields QueryQueue.NEWLINE q.spsc.consumed = cs.map text ↔
      ∀ c ∈ cs, QueryQueue.NEWLINE ∉ c.text ∧ c.Readable := by
  rw [QueryQueue.log_of_granted hgrants hrun hbusy hdrained, hadded]
  constructor
  · intro hfields
    have hfree : ∀ c ∈ cs, QueryQueue.NEWLINE ∉ c.text := by
      intro c hc
      have htext : c.text ∈ fields QueryQueue.NEWLINE (terminated QueryQueue.NEWLINE
          (logged ((Handler.mk [] true fd).run calls).effects)) := by
        rw [hfields]
        exact List.mem_map_of_mem hc
      exact notMem_of_mem_fields htext
    have hlog := terminated_fields_terminated QueryQueue.NEWLINE
      (logged ((Handler.mk [] true fd).run calls).effects)
    rw [hfields] at hlog
    have hread := readable_of_log fd hcut hfree hlog.symm
    exact fun c hc => ⟨hfree c hc, hread c hc⟩
  · intro h
    rw [logged_eq fd (fun c hc => (h c hc).2) hcut, fields_terminated_iff]
    intro text htext
    obtain ⟨c, hc, rfl⟩ := List.mem_map.mp htext
    exact (h c hc).1

/-! ## Runs with one query and with two -/

theorem nul_ne_letters : (0 : UInt8) ∉ [97, 98] := by decide

/-- The query `ab`. -/
def firstQuery : ClientQuery := ⟨[97, 98], nul_ne_letters, Nat.le_of_ble_eq_true rfl⟩

/-- The query `c`. -/
def secondQuery : ClientQuery := ⟨[99], by decide, Nat.le_of_ble_eq_true rfl⟩

/-- The stream of the two queries, cut inside the second packet. -/
def twoCalls : List HandlerCall :=
  [⟨fun _ _ => 0, .success ((encode [firstQuery, secondQuery]).take 10)⟩,
    ⟨fun _ _ => 0, .success ((encode [firstQuery, secondQuery]).drop 10)⟩]

theorem streamOf_twoCalls : streamOf twoCalls = encode [firstQuery, secondQuery] :=
  List.take_append_drop 10 (encode [firstQuery, secondQuery])

/-- Two queries of one line each. -/
theorem log_decodes_lines : ∃ q,
    run QueryQueue.step QueryQueue.shortStart QueryQueue.pairTurns = some q ∧
      (fields QueryQueue.NEWLINE q.spsc.consumed = [[97, 98], [99]] ↔
        ∀ c ∈ [firstQuery, secondQuery], QueryQueue.NEWLINE ∉ c.text ∧ c.Readable) := by
  have heval : (run QueryQueue.step (QueryQueue.firstConsumed.shortAdded [99])
      QueryQueue.secondTurns).map (fun q => (q.added, q.busy, q.spsc.buffered)) =
        some ([[97, 98], [99]], false, []) := by decide
  obtain ⟨q, hrun, hq⟩ := Option.map_eq_some_iff.mp heval
  rw [Prod.mk.injEq, Prod.mk.injEq] at hq
  obtain ⟨hadded, hbusy, hdrained⟩ := hq
  have hread : ∀ c ∈ [firstQuery, secondQuery], c.Readable := by
    simp only [List.forall_mem_cons]
    exact ⟨le_byteSwap (by decide), le_byteSwap (by decide), by simp⟩
  have hrun' := QueryQueue.run_pair.trans hrun
  refine ⟨q, hrun', log_decodes_iff 7 [firstQuery, secondQuery] twoCalls streamOf_twoCalls
    (fun _ => 0) QueryQueue.pairTurns
    (QueryQueue.meets_pair trivial (by decide) trivial (by decide)) q hrun' ?_ hbusy hdrained⟩
  rw [hadded, logged_eq 7 hread streamOf_twoCalls]
  rfl

/-- The main thread stores a short message, then the writer thread consumes it. -/
def shortTurns : List QueryTurn :=
  List.replicate 17 .producer ++ List.replicate 7 (.consumer true)

/-- A query of two lines, `a` and `b`. -/
def twoLineQuery : ClientQuery := ⟨[97, 10, 98], by decide, Nat.le_of_ble_eq_true rfl⟩

/-- The stream of one query in one piece. -/
def oneCall (c : ClientQuery) : List HandlerCall := [⟨fun _ _ => 0, .success (encode [c])⟩]

theorem logged_oneCall {c : ClientQuery} (h : c.Readable) :
    logged ((Handler.mk [] true 7).run (oneCall c)).effects = [c.text] :=
  logged_eq 7 (List.forall_mem_singleton.mpr h) (List.append_nil _)

/-- **A query that forges a record.**  The two lines of one query come out of the
log as two queries. -/
theorem newline_splits_record : ∃ q,
    Meets QueryQueue.step QueryQueue.Grants QueryQueue.shortStart (.addMessage [97, 10, 98] :: shortTurns) ∧
    run QueryQueue.step QueryQueue.shortStart (.addMessage [97, 10, 98] :: shortTurns) = some q ∧
    streamOf (oneCall twoLineQuery) = encode [twoLineQuery] ∧
    q.added = logged ((Handler.mk [] true 7).run (oneCall twoLineQuery)).effects ∧
    q.busy = false ∧ q.spsc.buffered = [] ∧
    fields QueryQueue.NEWLINE q.spsc.consumed = [[97], [98]] ∧
    fields QueryQueue.NEWLINE q.spsc.consumed ≠ [twoLineQuery].map text := by
  have hstep : QueryQueue.shortStart.step (.addMessage [97, 10, 98]) =
      some (QueryQueue.shortStart.shortAdded [97, 10, 98]) :=
    QueryQueue.step_short rfl (by decide)
  have heval : (run QueryQueue.step (QueryQueue.shortStart.shortAdded [97, 10, 98]) shortTurns).map
      (fun q => (q.added, q.busy, q.spsc.buffered, q.spsc.consumed)) =
        some ([[97, 10, 98]], false, [], [97, 10, 98, 10]) := by decide
  obtain ⟨q, hrun, hq⟩ := Option.map_eq_some_iff.mp heval
  rw [Prod.mk.injEq, Prod.mk.injEq, Prod.mk.injEq] at hq
  obtain ⟨hadded, hbusy, hdrained, hconsumed⟩ := hq
  have hread : twoLineQuery.Readable := le_byteSwap (by decide)
  refine ⟨q, ⟨trivial, fun t ht => ?_⟩, ?_, List.append_nil _, ?_, hbusy, hdrained, ?_, ?_⟩
  · obtain rfl := Option.some.inj (hstep.symm.trans ht)
    decide
  · rw [run_cons, hstep, Option.bind_some, hrun]
  · rw [hadded, logged_oneCall hread]
    rfl
  · rw [hconsumed]
    decide
  · rw [hconsumed]
    decide

end Psql
end PsqlTcpProxy
