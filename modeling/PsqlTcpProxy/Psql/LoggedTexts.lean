import PsqlTcpProxy.Psql.ClientStream
import PsqlTcpProxy.Psql.Rejected

/-!
# The texts that a run logs

Two facts about every run of the handler, whatever the client sends and wherever
the stream is cut, also when calls throw.

* `run_accepted_prefix`: what is logged begins with what the packets ask for that
  come before the first refused one.
* `run_sits`: every text that is logged stands in the stream behind a type byte
  and a length field that reads as its length.  After an exception the parser may
  go on at any byte, so the text need not be one that the client meant as a query.
-/

namespace PsqlTcpProxy
namespace Psql

open Library Io

/-- The texts among the effects. -/
def logged (effects : List Effect) : List Text :=
  effects.filterMap fun
    | .addMessage text => some text
    | .enqueueEvent _ => none

theorem logged_append (es es' : List Effect) : logged (es ++ es') = logged es ++ logged es' :=
  List.filterMap_append

/-! ## One call -/

/-- The packets before the refused one are the first of the stream. -/
theorem Rejects.frames {first before : Bool} {passed : List Packet}
    {stream packet rest : List UInt8} (h : Rejects first stream passed before packet rest) :
    (∀ p ∈ passed, p.Accepted) ∧
      ∃ p more, (parse first stream).frames = passed ++ p :: more ∧ ¬ p.Accepted := by
  induction h with
  | @here first p t packet rest next refused =>
    refine ⟨fun p hp => absurd hp List.not_mem_nil, p, (parse t rest).frames, ?_, refused⟩
    rw [parse_of_some next]
    rfl
  | @later first before t p passed stream stream' packet rest next accepted behind ih =>
    obtain ⟨hok, q, more, hframes, hrefused⟩ := ih
    refine ⟨List.forall_mem_cons.mpr ⟨accepted, hok⟩, q, more, ?_, hrefused⟩
    rw [parse_of_some next, hframes]
    rfl

theorem Rejects.suffix {first before : Bool} {passed : List Packet}
    {stream packet rest : List UInt8} (h : Rejects first stream passed before packet rest) :
    packet ++ rest <:+ stream := by
  induction h with
  | here next refused => exact List.suffix_refl _
  | later next accepted behind ih =>
    obtain ⟨taken, -, rfl⟩ := packetFramer.takes next
    exact ih.trans (List.suffix_append taken _)

/-- No accepted packets reach beyond the refused one. -/
theorem Rejects.longest {first before : Bool} {passed : List Packet}
    {stream packet rest : List UInt8} (h : Rejects first stream passed before packet rest)
    {gs : List Packet} (hgs : gs <+: (parse first stream).frames) (hok : ∀ p ∈ gs, p.Accepted) :
    gs <+: passed := by
  obtain ⟨-, p, more, hframes, hrefused⟩ := h.frames
  rw [hframes] at hgs
  rcases List.prefix_or_prefix_of_prefix hgs (List.prefix_append passed _) with h' | ⟨gs', rfl⟩
  · exact h'
  · rw [List.prefix_append_right_inj] at hgs
    rcases List.prefix_cons_iff.mp hgs with rfl | ⟨gs'', rfl, -⟩
    · exact ⟨[], by rw [List.append_nil, List.append_nil]⟩
    · exact absurd (hok p (List.mem_append_right _ List.mem_cons_self)) hrefused

/-- What a call does is what the accepted packets at the front of the pending
bytes ask for, and it keeps a suffix of these bytes. -/
theorem call_frames (h : Handler) (c : HandlerCall) :
    ∃ fs, fs <+: (parse h.firstMsgHandled (h.buffer ++ c.result.bytes)).frames ∧
      (∀ p ∈ fs, p.Accepted) ∧
      (nextPacket h.firstMsgHandled h.buffer = none →
        ∀ gs, gs <+: (parse h.firstMsgHandled (h.buffer ++ c.result.bytes)).frames →
          (∀ p ∈ gs, p.Accepted) → gs <+: fs) ∧
      (h.call c.beyond c.result).effects = fs.flatMap (Packet.effects h.fd) ∧
      (h.call c.beyond c.result).handler.buffer <:+ h.buffer ++ c.result.bytes ∧
      (h.call c.beyond c.result).handler.fd = h.fd := by
  obtain ⟨buffer, first, fd⟩ := h
  obtain ⟨beyond, bytes | err⟩ := c
  · show ∃ fs, fs <+: (parse first (buffer ++ bytes)).frames ∧ _
    simp only [Handler.call]
    rcases rejects_or_accepted first (buffer ++ bytes) with
      ⟨passed, before, packet, rest, hrejects⟩ | hok
    · obtain ⟨hpassed, p, more, hframes, -⟩ := hrejects.frames
      refine ⟨passed, hframes ▸ List.prefix_append _ _, hpassed,
        fun _ gs hgs hok => hrejects.longest hgs hok, ?_⟩
      split
      · rename_i hnil
        cases hnil
        obtain ⟨err, hchunk⟩ := parseChunk_rejects hrejects
        rw [List.nil_append] at hchunk
        rw [hchunk beyond fd]
        exact ⟨rfl, List.nil_suffix, rfl⟩
      · obtain ⟨err, hbuffer⟩ := parseBuffer_rejects hrejects
        rw [hbuffer beyond fd]
        exact ⟨rfl, hrejects.suffix, rfl⟩
    · refine ⟨_, List.prefix_refl _, hok, fun _ gs hgs _ => hgs, ?_⟩
      split
      · rename_i hnil
        cases hnil
        rw [List.nil_append] at hok ⊢
        rw [parseChunk_eq beyond fd first bytes hok]
        exact ⟨rfl, Framer.rest_suffix (F := packetFramer) first bytes, rfl⟩
      · rw [parseBuffer_eq beyond fd first (buffer ++ bytes) hok]
        exact ⟨rfl, Framer.rest_suffix (F := packetFramer) first (buffer ++ bytes), rfl⟩
  · refine ⟨[], List.nil_prefix, fun p hp => absurd hp List.not_mem_nil, ?_, rfl, ?_, rfl⟩
    · intro hstuck gs hgs _
      have hgs' : gs <+: (parse first (buffer ++ [])).frames := hgs
      rwa [List.append_nil, parse_of_none hstuck] at hgs'
    · exact ⟨[], (List.append_nil buffer).symm⟩

/-! ## What is logged first -/

theorem append_streamOf (h : Handler) (c : HandlerCall) (cs : List HandlerCall) :
    h.buffer ++ streamOf (c :: cs) = (h.buffer ++ c.result.bytes) ++ streamOf cs := by
  rw [streamOf, List.flatMap_cons, List.append_assoc]
  rfl

/-- **A run begins with the packets before the first refused one.** -/
theorem run_accepted_prefix {h : Handler} (hstuck : nextPacket h.firstMsgHandled h.buffer = none)
    (calls : List HandlerCall) {gs : List Packet}
    (hgs : gs <+: (parse h.firstMsgHandled (h.buffer ++ streamOf calls)).frames)
    (hok : ∀ p ∈ gs, p.Accepted) :
    gs.flatMap (Packet.effects h.fd) <+: (h.run calls).effects := by
  induction calls generalizing h gs with
  | nil =>
    rw [streamOf, List.flatMap_nil, List.append_nil, parse_of_none hstuck] at hgs
    rw [List.prefix_nil.mp hgs]
    exact List.nil_prefix
  | cons c cs ih =>
    rw [append_streamOf, parse_append] at hgs
    obtain ⟨fs, -, -, hlongest, heffects, -, -⟩ := call_frames h c
    rcases List.prefix_or_prefix_of_prefix hgs (List.prefix_append _ _) with hshort | ⟨gs', rfl⟩
    · -- the packets are all in what this call parses
      obtain ⟨more, rfl⟩ := hlongest hstuck gs hshort hok
      rw [Handler.run]
      simp only [heffects, List.flatMap_append, List.append_assoc]
      exact List.prefix_append _ _
    · -- this call parses all its packets and leaves a rest without one
      have hcall := call_eq hstuck c fun p hp => hok p (List.mem_append_left _ hp)
      rw [List.prefix_append_right_inj] at hgs
      have hrest := ih (h := (h.call c.beyond c.result).handler)
        (by rw [hcall]; exact nextPacket_rest _ _) (by rw [hcall]; exact hgs)
        fun p hp => hok p (List.mem_append_right _ hp)
      rw [Handler.run]
      simp only [hcall, Handler.expected, List.flatMap_append] at hrest ⊢
      exact (List.prefix_append_right_inj _).mpr hrest

/-! ## Where a logged text stands -/

/-- The text is in the stream, behind the letter Q and a length field that reads
as its length. -/
def Sits (stream : List UInt8) (text : Text) : Prop :=
  ∃ b₀ b₁ b₂ b₃ last, Query.MESSAGE_CODE :: b₀ :: b₁ :: b₂ :: b₃ :: (text ++ [last]) <:+: stream ∧
    text.length + 5 ≤ byteSwap (text.length + 5)

theorem Sits.mono {stream stream' : List UInt8} {text : Text} (h : Sits stream text)
    (hpart : stream <:+: stream') : Sits stream' text := by
  obtain ⟨b₀, b₁, b₂, b₃, last, hsits, hlen⟩ := h
  exact ⟨b₀, b₁, b₂, b₃, last, hsits.trans hpart, hlen⟩

/-- Reversing the bytes of a number. -/
theorem byteSwap_uint32Of (a b c d : UInt8) : byteSwap (uint32Of a b c d) = uint32Of d c b a := by
  have ha := a.toNat_lt
  have hb := b.toNat_lt
  have hc := c.toNat_lt
  have hd := d.toNat_lt
  have h₀ : uint32Of a b c d % 2 ^ 8 = d.toNat := by unfold uint32Of; omega
  have h₁ : uint32Of a b c d / 2 ^ 8 % 2 ^ 8 = c.toNat := by unfold uint32Of; omega
  have h₂ : uint32Of a b c d / 2 ^ 16 % 2 ^ 8 = b.toNat := by unfold uint32Of; omega
  have h₃ : uint32Of a b c d / 2 ^ 24 % 2 ^ 8 = a.toNat := by unfold uint32Of; omega
  generalize uint32Of a b c d = n at h₀ h₁ h₂ h₃
  simp only [byteSwap, uint32Of, UInt8.toNat_ofNat', h₀, h₁, h₂, h₃]

/-- The smaller of the two readings is not above its own byte reversal. -/
theorem decode_le_byteSwap (w : ℕ → UInt8) :
    (decodeUint32 w (checkEndiannessByUint32 w)).toNat ≤
      byteSwap (decodeUint32 w (checkEndiannessByUint32 w)).toNat := by
  have hle := decodeUint32Le_toNat w
  have hbe := decodeUint32Be_toNat w
  unfold checkEndiannessByUint32 decodeUint32
  by_cases hcmp : decodeUint32Le w ≤ decodeUint32Be w
  · have hnat := UInt32.le_iff_toNat_le.mp hcmp
    simp only [if_pos hcmp, if_true]
    rwa [hle, byteSwap_uint32Of, ← hle, ← hbe]
  · have hnat := Nat.le_of_lt (UInt32.lt_iff_toNat_lt.mp (UInt32.not_le.mp hcmp))
    simp only [if_neg hcmp, reduceCtorEq, if_false]
    rwa [hbe, byteSwap_uint32Of, ← hle, ← hbe]

/-- A query that is accepted has its text in the stream. -/
theorem sits_of_nextPacket {first t : Bool} {stream rest : List UInt8} {p : Packet}
    (h : nextPacket first stream = some (p, t, rest)) (hquery : p.code = Query.MESSAGE_CODE)
    (hok : p.Accepted) : Sits stream p.payload.dropLast := by
  obtain ⟨b₀, b₁, b₂, b₃, tail, rfl, hcode, hcut⟩ := nextPacket_eq_some h
  obtain ⟨hfour, hlen, -, -, -, rfl⟩ := cutPayload_eq_some hcut
  have hfirst : first = true := by
    by_contra hfalse
    rw [hcode (Bool.not_eq_true first ▸ hfalse)] at hquery
    exact absurd hquery (by decide)
  have hne : p.payload ≠ [] := by
    intro hnil
    obtain ⟨code, endianness, payload⟩ := p
    obtain rfl : code = Query.MESSAGE_CODE := hquery
    obtain rfl : payload = [] := hnil
    refine hok (fun _ => 0) (.std "basic_string::_M_create") ?_
    rw [Packet.make, makeMessage_query, List.length_nil, makeQueryMsg_zero]
    rfl
  refine ⟨b₀, b₁, b₂, b₃, p.payload.getLast hne, ?_, ?_⟩
  · rw [List.dropLast_append_getLast hne, hfirst, if_pos rfl, hquery]
    have hfront := List.prefix_append (Query.MESSAGE_CODE :: b₀ :: b₁ :: b₂ :: b₃ :: p.payload) rest
    exact hfront.isInfix
  · have hpos := List.length_pos_iff.mpr hne
    have hsum : p.payload.dropLast.length + 5 =
        (decodeUint32 (word b₀ b₁ b₂ b₃) (checkEndiannessByUint32 (word b₀ b₁ b₂ b₃))).toNat := by
      rw [List.length_dropLast]
      omega
    rw [hsum]
    exact decode_le_byteSwap _

theorem sits_of_mem_frames {first : Bool} {stream : List UInt8} {p : Packet}
    (hp : p ∈ (parse first stream).frames) (hquery : p.code = Query.MESSAGE_CODE)
    (hok : p.Accepted) : Sits stream p.payload.dropLast := by
  induction first, stream using packet_induction with
  | stuck first stream next =>
    rw [parse_of_none next] at hp
    exact absurd hp List.not_mem_nil
  | packet first stream q t rest next ih =>
    rw [parse_of_some next] at hp
    rcases List.mem_cons.mp hp with rfl | hp
    · exact sits_of_nextPacket next hquery hok
    · obtain ⟨taken, -, rfl⟩ := packetFramer.takes next
      exact (ih hp).mono (List.suffix_append taken rest).isInfix

theorem mem_logged_effects {text : Text} {fs : List Packet} {fd : FileDescriptor}
    (h : text ∈ logged (fs.flatMap (Packet.effects fd))) :
    ∃ p ∈ fs, p.code = Query.MESSAGE_CODE ∧ text = p.payload.dropLast := by
  obtain ⟨e, he, htext⟩ := List.mem_filterMap.mp h
  obtain ⟨p, hp, hep⟩ := List.mem_flatMap.mp he
  refine ⟨p, hp, ?_⟩
  unfold Packet.effects at hep
  split at hep
  · rename_i hquery
    rw [List.mem_singleton] at hep
    subst hep
    exact ⟨hquery, (Option.some.inj htext).symm⟩
  split at hep
  · rw [List.mem_singleton] at hep
    subst hep
    cases htext
  · exact absurd hep List.not_mem_nil

/-- **Every text that is logged stands in the stream**, behind a length field that
reads as its length. -/
theorem run_sits (h : Handler) (calls : List HandlerCall) {text : Text}
    (htext : text ∈ logged (h.run calls).effects) : Sits (h.buffer ++ streamOf calls) text := by
  induction calls generalizing h with
  | nil => exact absurd htext List.not_mem_nil
  | cons c cs ih =>
    obtain ⟨fs, hfs, hok, -, heffects, ⟨front, hsuffix⟩, -⟩ := call_frames h c
    rw [Handler.run] at htext
    simp only [logged_append, List.mem_append] at htext
    rw [append_streamOf]
    rcases htext with htext | htext
    · rw [heffects] at htext
      obtain ⟨p, hp, hquery, rfl⟩ := mem_logged_effects htext
      exact (sits_of_mem_frames (hfs.subset hp) hquery (hok p hp)).mono
        (List.prefix_append _ _).isInfix
    · refine (ih _ htext).mono ?_
      rw [← hsuffix, List.append_assoc]
      exact (List.suffix_append front _).isInfix

end Psql
end PsqlTcpProxy
