import PsqlTcpProxy.Library.Run
import PsqlTcpProxy.Psql.Rejected

/-!
# What the handler keeps between two calls

`_buffer` is meant for one packet that has not arrived in full.  The four exits of
`operator()` that save bytes are not alike, though: behind two of them, further
bytes will complete the packet, but a length field below 4 is treated in the same
way, and no further bytes make it larger.  `run_malformed` is what comes of that:
everything the client sends from then on is kept.

The other way to keep too much is a packet that `make_message` refuses in the
branch for a non-empty buffer.  `retention_bounded_iff` says that there is no
third one.
-/

namespace PsqlTcpProxy
namespace Psql

open Library Io

/-! ## What a packet declares -/

/-- The type byte, if there is one, and the length field. -/
def headerSize (first : Bool) : ℕ := if first then 5 else 4

/-- The length field of the packet at the front, once it is there. -/
def lengthAt (first : Bool) (bytes : List UInt8) : Option ℕ :=
  match if first then bytes.tail else bytes with
  | b₀ :: b₁ :: b₂ :: b₃ :: _ =>
    let lengthField := word b₀ b₁ b₂ b₃
    some (decodeUint32 lengthField (checkEndiannessByUint32 lengthField)).toNat
  | _ => none

/-- The size of the packet at the front, as far as it is declared: the header
before the length field is there, the header and the payload afterwards. -/
def declaredSize (first : Bool) (bytes : List UInt8) : ℕ :=
  headerSize first + ((lengthAt first bytes).getD 4 - 4)

/-- The bytes are a strict prefix of one packet. -/
def Incomplete (first : Bool) (bytes : List UInt8) : Prop :=
  bytes.length < headerSize first ∨
    ∃ length, lengthAt first bytes = some length ∧
      bytes.length < headerSize first + (length - 4)

/-- The packet at the front has a length field that does not count itself. -/
def Malformed (first : Bool) (bytes : List UInt8) : Prop :=
  ∃ length, lengthAt first bytes = some length ∧ length < 4

section

variable {first before t : Bool} {bytes packet rest : List UInt8} {p : Packet}

/-- The header at the front is not whole yet, or the packet is cut where its length
field says. -/
theorem header_cases (first : Bool) (bytes : List UInt8) :
    (lengthAt first bytes = none ∧ nextPacket first bytes = none ∧
        bytes.length < headerSize first) ∨
      ∃ code lengthField tail,
        lengthAt first bytes =
          some (decodeUint32 lengthField (checkEndiannessByUint32 lengthField)).toNat ∧
        nextPacket first bytes = cutPayload code lengthField tail ∧
        bytes.length = headerSize first + tail.length := by
  rcases four_or_short (if first then bytes.tail else bytes) with hshort | ⟨b₀, b₁, b₂, b₃, tail, h⟩
  · left
    refine ⟨?_, nextPacket_of_short hshort, ?_⟩
    · unfold lengthAt
      split
      · rename_i heq
        rw [heq] at hshort
        exact absurd hshort (by simp)
      · rfl
    · cases first with
      | false => exact hshort
      | true =>
        simp only [if_true, List.length_tail] at hshort
        show bytes.length < 5
        omega
  · right
    cases first with
    | false =>
      obtain rfl : bytes = _ := h
      exact ⟨0, word b₀ b₁ b₂ b₃, tail, rfl, rfl, Nat.add_comm tail.length 4⟩
    | true =>
      rcases bytes with _ | ⟨code, bytes⟩
      · cases h
      · obtain rfl : bytes = _ := h
        exact ⟨code, word b₀ b₁ b₂ b₃, tail, rfl, rfl, Nat.add_comm tail.length 5⟩

/-- **The handler waits for two reasons.**  No packet is whole if the one at the
front is incomplete, or if it is malformed; never for both reasons. -/
theorem incomplete_iff :
    Incomplete first bytes ↔ nextPacket first bytes = none ∧ ¬ Malformed first bytes := by
  rcases header_cases first bytes with ⟨hat, hnext, hlen⟩ | ⟨code, field, tail, hat, hnext, hlen⟩
  · refine ⟨fun _ => ⟨hnext, ?_⟩, fun _ => Or.inl hlen⟩
    rintro ⟨length, hlength, -⟩
    rw [hat] at hlength
    cases hlength
  · rw [Incomplete, Malformed, hat, hnext, hlen, cutPayload]
    generalize (decodeUint32 field (checkEndiannessByUint32 field)).toNat = length
    simp only [Option.some.injEq, exists_eq_left', ite_eq_right_iff, reduceCtorEq, imp_false]
    omega

theorem Malformed.next_none (h : Malformed first bytes) : nextPacket first bytes = none := by
  obtain ⟨length, hat', hlt⟩ := h
  rcases header_cases first bytes with ⟨-, hnext, -⟩ | ⟨code, field, tail, hat, hnext, -⟩
  · exact hnext
  · rw [hat, Option.some.injEq] at hat'
    rw [hnext, cutPayload, hat', if_neg (by omega)]

/-- Further bytes do not change the length field. -/
theorem lengthAt_append {length : ℕ} (h : lengthAt first bytes = some length)
    (more : List UInt8) : lengthAt first (bytes ++ more) = some length := by
  unfold lengthAt at h
  split at h
  · rename_i b₀ b₁ b₂ b₃ tail heq
    cases first with
    | false =>
      obtain rfl : bytes = _ := heq
      exact h
    | true =>
      rcases bytes with _ | ⟨code, bytes⟩
      · cases heq
      · obtain rfl : bytes = _ := heq
        exact h
  · cases h

theorem Malformed.append (h : Malformed first bytes) (more : List UInt8) :
    Malformed first (bytes ++ more) := by
  obtain ⟨length, hat, hlt⟩ := h
  exact ⟨length, lengthAt_append hat more, hlt⟩

/-- A whole packet is what it declares. -/
theorem declaredSize_of_next (h : nextPacket first (packet ++ rest) = some (p, t, rest)) :
    declaredSize first (packet ++ rest) = packet.length := by
  rcases header_cases first (packet ++ rest) with
    ⟨-, hnext, -⟩ | ⟨code, field, tail, hat, hnext, hlen⟩
  · rw [h] at hnext
    cases hnext
  · rw [h] at hnext
    obtain ⟨hfour, hpayload, -, -, -, rfl⟩ := cutPayload_eq_some hnext.symm
    rw [declaredSize, hat, Option.getD_some, ← hpayload]
    rw [List.length_append, List.length_append] at hlen
    omega

theorem Incomplete.length_le (h : Incomplete first bytes) :
    bytes.length ≤ declaredSize first bytes := by
  rcases h with hlt | ⟨length, hat, hlt⟩
  · exact Nat.le_of_lt (Nat.lt_of_lt_of_le hlt (Nat.le_add_right _ _))
  · rw [declaredSize, hat]
    exact Nat.le_of_lt hlt

end

/-! ## The condition -/

/-- Behind packets that are accepted, a length field below 4 comes. -/
inductive Stalls : (first : Bool) → (stream : List UInt8) → Prop
  | here {first : Bool} {stream : List UInt8} (malformed : Malformed first stream) :
      Stalls first stream
  | later {first t : Bool} {p : Packet} {stream rest : List UInt8}
      (next : nextPacket first stream = some (p, t, rest)) (accepted : p.Accepted)
      (behind : Stalls t rest) : Stalls first stream

/-- What a call may be made with, for the handler to keep no more than one incomplete
packet.  With a result that is not an error no length field below 4 comes, and a
packet that is refused comes only to an empty buffer or with nothing behind it; with an
error there is no whole packet in the buffer, where it has been refused. -/
def Handler.Careful (h : Handler) : InputResult → Prop
  | .success bytes =>
    ¬ Stalls h.firstMsgHandled (h.buffer ++ bytes) ∧
      ∀ passed before packet rest,
        Rejects h.firstMsgHandled (h.buffer ++ bytes) passed before packet rest →
          h.buffer = [] ∨ rest = []
  | .error _ => nextPacket h.firstMsgHandled h.buffer = none

/-- What is asked of a call: if it returns normally, the buffer is a strict prefix of
one packet, and in any case it is not larger than what its packet declares. -/
def Handled.Retains (r : Handled) : Prop :=
  (r.thrown = none → Incomplete r.handler.firstMsgHandled r.handler.buffer) ∧
    r.handler.buffer.length ≤ declaredSize r.handler.firstMsgHandled r.handler.buffer

section

variable {first before t : Bool} {stream packet rest : List UInt8} {passed : List Packet}

/-- The first refused packet is one, and no length field below 4 is in front of it. -/
theorem Rejects.not_stalls (h : Rejects first stream passed before packet rest) :
    ¬ Stalls first stream := by
  induction h with
  | here next refused =>
    intro hstalls
    cases hstalls with
    | here malformed =>
      rw [malformed.next_none] at next
      cases next
    | later next' accepted behind =>
      rw [next] at next'
      cases next'
      exact refused accepted
  | later next accepted behind ih =>
    intro hstalls
    cases hstalls with
    | here malformed =>
      rw [malformed.next_none] at next
      cases next
    | later next' accepted' behind' =>
      rw [next] at next'
      cases next'
      exact ih behind'

/-- The refused packet stands at the front when it is reached. -/
theorem Rejects.next (h : Rejects first stream passed before packet rest) :
    ∃ p t, nextPacket before (packet ++ rest) = some (p, t, rest) := by
  induction h with
  | here next refused => exact ⟨_, _, next⟩
  | later next accepted behind ih => exact ih

/-- In a stream without a refused packet, the parser stops at a length field below
4. -/
theorem stalls_iff (hok : ∀ p ∈ (parse first stream).frames, p.Accepted) :
    Stalls first stream ↔ Malformed (parse first stream).state (parse first stream).rest := by
  induction first, stream using packet_induction with
  | stuck first stream next =>
    rw [parse_of_none next]
    refine ⟨fun h => ?_, Stalls.here⟩
    cases h with
    | here malformed => exact malformed
    | later next' accepted behind =>
      rw [next] at next'
      cases next'
  | packet first stream p t rest next ih =>
    rw [parse_of_some next] at hok ⊢
    obtain ⟨hp, hrest⟩ := List.forall_mem_cons.mp hok
    refine Iff.trans ⟨fun h => ?_, Stalls.later next hp⟩ (ih hrest)
    cases h with
    | here malformed =>
      rw [malformed.next_none] at next
      cases next
    | later next' accepted behind =>
      rw [next] at next'
      cases next'
      exact behind

end

/-! ## Calls -/

/-- An error leaves the handler as it is. -/
theorem retains_error {h : Handler} (hwell : ¬ Malformed h.firstMsgHandled h.buffer)
    (beyond : List UInt8 → ℕ → UInt8) (err : Error) :
    (h.call beyond (.error err)).Retains ↔ h.Careful (.error err) := by
  refine ⟨fun hretains => (incomplete_iff.mp (hretains.1 rfl)).1, fun hnone => ?_⟩
  have hincomplete := incomplete_iff.mpr ⟨hnone, hwell⟩
  exact ⟨fun _ => hincomplete, hincomplete.length_le⟩

/-- A call that meets no refused packet keeps what is behind the whole packets. -/
theorem retains_accepted {h : Handler} {chunk : List UInt8}
    (hok : ∀ p ∈ (parse h.firstMsgHandled (h.buffer ++ chunk)).frames, p.Accepted)
    (beyond : List UInt8 → ℕ → UInt8) :
    (h.call beyond (.success chunk)).Retains ↔
      ¬ Stalls h.firstMsgHandled (h.buffer ++ chunk) := by
  have hnone := nextPacket_rest h.firstMsgHandled (h.buffer ++ chunk)
  rw [stalls_iff hok, call_success_eq hok]
  refine ⟨fun hretains => (incomplete_iff.mp (hretains.1 rfl)).2, fun hwell => ?_⟩
  have hincomplete := incomplete_iff.mpr ⟨hnone, hwell⟩
  exact ⟨fun _ => hincomplete, hincomplete.length_le⟩

/-- A call that meets a refused packet keeps it, and what is behind it, if the buffer
was not empty. -/
theorem retains_rejects {h : Handler} {chunk packet rest : List UInt8} {passed : List Packet}
    {before : Bool}
    (hrejects : Rejects h.firstMsgHandled (h.buffer ++ chunk) passed before packet rest)
    (beyond : List UInt8 → ℕ → UInt8) :
    (h.call beyond (.success chunk)).Retains ↔ h.buffer = [] ∨ rest = [] := by
  obtain ⟨err, hcall⟩ := call_rejects hrejects beyond
  obtain ⟨p, t, hnext⟩ := hrejects.next
  rw [hcall, Handled.Retains]
  simp only [reduceCtorEq, false_imp_iff, true_and]
  split
  · rename_i hnil
    exact iff_of_true (Nat.zero_le _) (Or.inl hnil)
  · rename_i hne
    rw [declaredSize_of_next hnext, List.length_append, or_iff_right hne,
      ← List.length_eq_zero_iff]
    omega

theorem not_rejects {h : Handler} {chunk : List UInt8}
    (hok : ∀ p ∈ (parse h.firstMsgHandled (h.buffer ++ chunk)).frames, p.Accepted)
    {packet rest : List UInt8} {passed : List Packet} {before : Bool} :
    ¬ Rejects h.firstMsgHandled (h.buffer ++ chunk) passed before packet rest := by
  intro hrejects
  refine thrown_of_rejects hrejects (fun _ _ => 0) ?_
  rw [call_success_eq hok]
  rfl

/-- **One call.**  From a buffer that is not malformed, a call keeps no more than it
should if and only if it is made with care. -/
theorem retains_iff {h : Handler} (hwell : ¬ Malformed h.firstMsgHandled h.buffer)
    (c : HandlerCall) : (h.call c.beyond c.result).Retains ↔ h.Careful c.result := by
  obtain ⟨beyond, chunk | err⟩ := c
  · rcases rejects_or_accepted h.firstMsgHandled (h.buffer ++ chunk) with
      ⟨passed, before, packet, rest, hrejects⟩ | hok
    · refine ⟨fun hretains => ⟨hrejects.not_stalls, fun _ _ _ _ h' => ?_⟩, fun hcareful => ?_⟩
      · exact (retains_rejects h' beyond).mp hretains
      · exact (retains_rejects hrejects beyond).mpr (hcareful.2 _ _ _ _ hrejects)
    · rw [retains_accepted hok beyond]
      exact ⟨fun hgoes => ⟨hgoes, fun _ _ _ _ h' => absurd h' (not_rejects hok)⟩, And.left⟩
  · exact retains_error hwell beyond err

theorem not_malformed_nil (first : Bool) : ¬ Malformed first [] := by
  rintro ⟨length, hat, -⟩
  cases first <;> cases hat

/-- What such a call leaves behind is not malformed. -/
theorem Handled.Retains.not_malformed {h : Handler} {c : HandlerCall}
    (hretains : (h.call c.beyond c.result).Retains) :
    ¬ Malformed (h.call c.beyond c.result).handler.firstMsgHandled
      (h.call c.beyond c.result).handler.buffer := by
  by_cases hthrown : (h.call c.beyond c.result).thrown = none
  · exact (incomplete_iff.mp (hretains.1 hthrown)).2
  · obtain ⟨beyond, chunk | err⟩ := c
    · obtain ⟨passed, before, packet, rest, hrejects⟩ := rejects_of_thrown hthrown
      obtain ⟨err, hcall⟩ := call_rejects hrejects beyond
      obtain ⟨p, t, hnext⟩ := hrejects.next
      rw [hcall]
      show ¬ Malformed before (if h.buffer = [] then [] else packet ++ rest)
      split
      · exact not_malformed_nil before
      · intro hmalformed
        rw [hmalformed.next_none] at hnext
        cases hnext
    · exact absurd rfl hthrown

/-! ## Runs -/

/-- The handler after a call, however it left. -/
def Handler.step (h : Handler) (c : HandlerCall) : Option Handler :=
  some (h.call c.beyond c.result).handler

/-- **At most one incomplete packet is kept.**  In every run, whatever the client
sends, all calls keep no more than a strict prefix of one packet (and those that throw
no more than one packet) if and only if all of them are made with care. -/
theorem retention_bounded_iff (fd : FileDescriptor) (calls : List HandlerCall) :
    Meets Handler.step (fun h c => (h.call c.beyond c.result).Retains) (Handler.init fd) calls ↔
      Meets Handler.step (fun h c => h.Careful c.result) (Handler.init fd) calls := by
  refine meets_congr (fun h c hwell => retains_iff hwell c) (fun h c h' _ hretains hstep => ?_)
    (not_malformed_nil false) calls
  obtain rfl := Option.some.inj hstep
  exact hretains.not_malformed

/-! ## A length field below 4 -/

/-- **Everything is kept.**  A run whose bytes begin with a malformed packet does
nothing but append what the client sends. -/
theorem run_malformed {h : Handler} (hstuck : nextPacket h.firstMsgHandled h.buffer = none)
    {calls : List HandlerCall}
    (hmalformed : Malformed h.firstMsgHandled (h.buffer ++ streamOf calls)) :
    h.run calls = ⟨{ h with buffer := h.buffer ++ streamOf calls }, [], []⟩ := by
  have hnone := hmalformed.next_none
  rw [run_eq hstuck calls]
  · rw [Handler.expected_of_none hnone]
  · rw [parse_of_none hnone]
    exact fun p hp => absurd hp List.not_mem_nil

/-- A length field of 0. -/
def emptyPayload : List UInt8 := [0, 0, 0, 0]

theorem malformed_emptyPayload : Malformed false emptyPayload := ⟨0, rfl, by decide⟩

/-- **A buffer that grows for ever.**  Behind a length field of 0 the calls return
normally, and the buffer holds whatever the client has sent. -/
theorem empty_payload_grows :
    ¬ (∀ (fd : FileDescriptor) (calls : List HandlerCall),
        Meets Handler.step (fun h c => (h.call c.beyond c.result).Retains)
          (Handler.init fd) calls) ∧
      ∀ chunks : List (List UInt8), (Handler.init 7).run
        ((emptyPayload :: chunks).map fun chunk => ⟨fun _ _ => 0, .success chunk⟩) =
          ⟨⟨emptyPayload ++ chunks.flatten, false, 7⟩, [], []⟩ := by
  refine ⟨fun hall => ?_, fun chunks => ?_⟩
  · have hretains := (hall 7 [⟨fun _ _ => 0, .success emptyPayload⟩]).1
    have hcareful := (retains_iff (h := Handler.init 7) (not_malformed_nil false) _).mp hretains
    exact hcareful.1 (Stalls.here malformed_emptyPayload)
  · have hstream : streamOf ((emptyPayload :: chunks).map fun chunk =>
        (⟨fun _ _ => 0, .success chunk⟩ : HandlerCall)) = emptyPayload ++ chunks.flatten := by
      rw [streamOf, List.flatMap_map]
      exact List.flatMap_id.trans List.flatten_cons
    rw [run_malformed (h := Handler.init 7) rfl]
    · rw [hstream]
      rfl
    · rw [hstream]
      exact malformed_emptyPayload.append chunks.flatten

end Psql
end PsqlTcpProxy
