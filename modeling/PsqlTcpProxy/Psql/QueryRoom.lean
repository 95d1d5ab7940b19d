import PsqlTcpProxy.Io.BipartiteBufDrained
import PsqlTcpProxy.Psql.QueryProcessor

/-!
# Room for a record

How long a record a drained query buffer takes depends on where its indexes
stand.  A piece of at most `CHUNK_SZ` characters always has room, since the
buffer has twice as many cells.  Two things do not:

* a separator behind a message of `CHUNK_SZ` characters that has wrapped to the
  front and ends just before the read index, which is at `CHUNK_SZ + 1`;
* a piece of `CHUNK_SZ + 1` characters (and so is every piece that is not the
  last) at the indexes `CHUNK_SZ` and `CHUNK_SZ + 1`.

Each piece that is stored moves the index for the next, so a message of three
such pieces is never stored in full (`placed_iff`).
-/

namespace PsqlTcpProxy
namespace Psql

open Library Io

namespace QueryProcessor

/-! ## Histories -/

/-- A call of `add_message` or of `process`. -/
inductive QueryCall where
  | addMessage (message : Text)
  | process (callback : (rbuf : Text) → Fin (rbuf.length + 1))

/-- What a call of `process` leaves behind. -/
def processed (q : QueryProcessor) (callback : (rbuf : Text) → Fin (rbuf.length + 1)) :
    Option QueryProcessor :=
  (q.process callback).map Prod.snd

/-- One call.  `none` is a failed assertion. -/
def step (q : QueryProcessor) : QueryCall → Option QueryProcessor
  | .addMessage message => q.addMessage message
  | .process callback => q.processed callback

/-- Between two calls: no acquired region is left over, and data that wraps with nothing
at the front fills the buffer to its end. -/
structure Settled (b : QueryBuffer) : Prop where
  wf : b.Wf
  unflagged : b.writeWrapped = false
  full : b.w = 0 → b.w < b.r → b.i = BUFF_SZ

theorem settled_init (data : ℕ → UInt8) : Settled (.init data) :=
  ⟨BipartiteBuffer.wf_init data (by decide), rfl, fun _ h => absurd h (Nat.lt_irrefl 0)⟩

namespace Settled

variable {b : QueryBuffer}

theorem flag (hb : Settled b) (n : ℕ) : b.FlagFor n := fun hset => by
  rw [hb.unflagged] at hset
  cases hset

/-- A drained query buffer is empty where its indexes meet. -/
theorem met (hb : Settled b) (hnil : b.held = []) : b.r = b.w := by
  rcases BipartiteBuffer.held_eq_nil hb.wf hnil with heq | ⟨hw, hri⟩
  · exact heq
  · by_contra hne
    have hfull := hb.full hw (by omega)
    have hr := hb.wf.r_lt
    omega

/-- **A request**: refused, and nothing changes, or appended. -/
theorem writePiece (hb : Settled b) (piece : Text) :
    (acquireAt BUFF_SZ b.w b.r piece.length = none ∧
        QueryProcessor.writePiece b piece = some b) ∨
      ∃ p wrapped b', acquireAt BUFF_SZ b.w b.r piece.length = some (p, wrapped) ∧
        QueryProcessor.writePiece b piece = some b' ∧ Settled b' ∧ b'.held = b.held ++ piece ∧
        b'.r = b.r ∧ b'.w = if p + piece.length = BUFF_SZ then 0 else p + piece.length := by
  rcases hat : acquireAt BUFF_SZ b.w b.r piece.length with _ | ⟨p, wrapped⟩
  · left
    refine ⟨rfl, ?_⟩
    rw [QueryProcessor.writePiece, BipartiteBuffer.writeAcquire, hat]
  · right
    obtain ⟨b₁, hacq⟩ : ∃ b₁, b.writeAcquire piece.length = (some p, b₁) := by
      have hfst := b.writeAcquire_fst piece.length
      rw [hat, Option.map_some] at hfst
      exact ⟨_, Prod.ext hfst rfl⟩
    obtain ⟨b', hrel, hwf, -, hheld⟩ :=
      BipartiteBuffer.write_correct hb.wf (hb.flag _) hacq (Nat.le_refl piece.length)
    have hpiece : QueryProcessor.writePiece b piece = some b' := by
      rw [QueryProcessor.writePiece, hacq]
      exact hrel
    refine ⟨p, wrapped, b', rfl, hpiece, ?_⟩
    have hi := hb.wf.i_le
    have hw := hb.wf.w_lt
    rcases BipartiteBuffer.write_cases hb.wf (hb.flag _) hacq (Nat.le_refl piece.length) with
      ⟨rfl, -, hrel'⟩ | ⟨rfl, hroom, hover, hrel'⟩
    · rw [hrel', Option.some.injEq] at hrel
      subst hrel
      refine ⟨⟨hwf, rfl, fun hzero hlt => ?_⟩, hheld, rfl, rfl⟩
      change (if b.w + piece.length = BUFF_SZ then 0 else b.w + piece.length) = 0 at hzero
      change (if b.w + piece.length = BUFF_SZ then 0 else b.w + piece.length) < b.r at hlt
      show max b.i (b.w + piece.length) = BUFF_SZ
      rw [hzero] at hlt
      split at hzero
      · omega
      · have hfull := hb.full (by omega) (by omega)
        omega
    · -- what wraps is not empty, so the write index leaves the front
      rw [hrel', Option.some.injEq] at hrel
      subst hrel
      refine ⟨⟨hwf, rfl, fun hzero hlt => ?_⟩, hheld, rfl, rfl⟩
      change (if 0 + piece.length = BUFF_SZ then 0 else 0 + piece.length) = 0 at hzero
      have hbefore := hroom.lt_read
      have hr := hb.wf.r_lt
      split at hzero <;> omega

/-- **A call of `process`** never fails, leaves the write index where it is, and drops
what the callback consumed. -/
theorem process {q : QueryProcessor} (hq : Settled q.queryBuffer)
    (callback : (rbuf : Text) → Fin (rbuf.length + 1)) :
    ∃ n q', q.process callback = some (n, q') ∧ Settled q'.queryBuffer ∧
      q'.queryBuffer.w = q.queryBuffer.w ∧ q'.separator = q.separator ∧
      q'.queryBuffer.held = q.queryBuffer.held.drop n ∧
      (q.queryBuffer.held ≠ [] → ∃ rbuf, rbuf ≠ [] ∧ n = (callback rbuf : ℕ)) := by
  have hindexes := q.queryBuffer.readAcquire_indexes
  unfold QueryProcessor.process
  rcases BipartiteBuffer.readAcquire_cases hq.wf with
    ⟨p, b, hacq, hwf, hheld, hnil, -⟩ | ⟨p, len, b, hacq, hpos, -⟩
  · rw [hacq] at hindexes ⊢
    obtain ⟨hr, hw, hi, hflag⟩ := hindexes
    have hsettled : Settled b :=
      ⟨hwf, hflag.trans hq.unflagged, by rw [hr, hw, hi]; exact hq.full⟩
    have hdrop : b.held = q.queryBuffer.held.drop 0 := hheld
    rcases p with _ | p
    · exact ⟨0, _, rfl, hsettled, hw, rfl, hdrop, absurd hnil⟩
    · exact ⟨0, _, if_neg (Nat.lt_irrefl 0), hsettled, hw, rfl, hdrop, absurd hnil⟩
  · rw [hacq]
    simp only [if_pos hpos]
    have hlen := length_region b.data p len
    have hk : (callback (region b.data p len) : ℕ) ≤ len := by
      have := (callback (region b.data p len)).isLt
      omega
    obtain ⟨-, b', hrel, hwf, hheld, -⟩ := BipartiteBuffer.read_correct hq.wf hacq hpos hk
    obtain ⟨hw, hi, hflag, hwraps⟩ := BipartiteBuffer.read_indexes hq.wf hacq hpos hk hrel
    have hsettled : Settled b' :=
      ⟨hwf, hflag.trans hq.unflagged, fun hzero hlt => hi.trans (hq.full (hw ▸ hzero) (hwraps hlt))⟩
    refine ⟨_, _, congrArg (Option.map _) hrel, hsettled, hw, rfl, hheld, fun _ => ?_⟩
    refine ⟨region b.data p len, fun hnil => ?_, rfl⟩
    rw [hnil, List.length_nil] at hlen
    omega

end Settled

/-- Along the pieces of a message. -/
theorem Settled.pieces {b : QueryBuffer} (hb : Settled b) (pieces : List Text) :
    ∃ b', run QueryProcessor.writePiece b pieces = some b' ∧ Settled b' := by
  refine run_total (I := Settled) (fun b piece hb => ?_) hb pieces
  rcases hb.writePiece piece with ⟨-, hpiece⟩ | ⟨-, -, b', -, hpiece, hsettled, -⟩
  · exact ⟨b, hpiece, hb⟩
  · exact ⟨b', hpiece, hsettled⟩

theorem step_settled (separator : UInt8) (q : QueryProcessor) (c : QueryCall)
    (hq : Settled q.queryBuffer ∧ q.separator = separator) :
    ∃ q', q.step c = some q' ∧ Settled q'.queryBuffer ∧ q'.separator = separator := by
  cases c with
  | addMessage message =>
    obtain ⟨b, hrun, hb⟩ := hq.1.pieces (requests q.separator message)
    refine ⟨{ q with queryBuffer := b }, ?_, hb, hq.2⟩
    rw [step, addMessage_eq, hrun, Option.map_some]
  | process callback =>
    obtain ⟨n, q', hcall, hsettled, -, hsep, -⟩ := hq.1.process callback
    exact ⟨q', congrArg (Option.map Prod.snd) hcall, hsettled, hsep.trans hq.2⟩

/-- Every history can be played, and ends between two calls. -/
theorem history_settled (data : ℕ → UInt8) (separator : UInt8) (history : List QueryCall) :
    ∃ q, run step (init data separator) history = some q ∧ Settled q.queryBuffer ∧
      q.separator = separator :=
  run_total (step_settled separator) ⟨settled_init data, rfl⟩ history

/-! ## Draining -/

/-- A callback that consumes all it is offered. -/
def consumeAll : (rbuf : Text) → Fin (rbuf.length + 1) := fun rbuf => Fin.last rbuf.length

/-- Calls of `process` leave the write index alone. -/
theorem run_processed {q q' : QueryProcessor} (hq : Settled q.queryBuffer)
    {callbacks : List ((rbuf : Text) → Fin (rbuf.length + 1))}
    (h : run processed q callbacks = some q') :
    Settled q'.queryBuffer ∧ q'.queryBuffer.w = q.queryBuffer.w := by
  have hstep : ∀ t callback, (Settled t.queryBuffer ∧ t.queryBuffer.w = q.queryBuffer.w) →
      ∃ t', processed t callback = some t' ∧
        (Settled t'.queryBuffer ∧ t'.queryBuffer.w = q.queryBuffer.w) := by
    rintro t callback ⟨ht, hsame⟩
    obtain ⟨n, t', hcall, hsettled, hw, -⟩ := ht.process callback
    exact ⟨t', congrArg (Option.map Prod.snd) hcall, hsettled, hw.trans hsame⟩
  obtain ⟨t, ht, hinv⟩ := run_total hstep ⟨hq, rfl⟩ callbacks
  obtain rfl := Option.some.inj (h.symm.trans ht)
  exact hinv

/-- A buffer can be drained. -/
theorem exists_drain {q : QueryProcessor} (hq : Settled q.queryBuffer) :
    ∃ callbacks q', run processed q callbacks = some q' ∧ q'.queryBuffer.held = [] := by
  have hstep : ∀ t : QueryProcessor, Settled t.queryBuffer → ¬ t.queryBuffer.held = [] →
      ∃ t', processed t consumeAll = some t' ∧ Settled t'.queryBuffer ∧
        t'.queryBuffer.held.length < t.queryBuffer.held.length := by
    intro t ht hne
    obtain ⟨n, t', hcall, hsettled, -, -, hheld, hoffered⟩ := ht.process consumeAll
    obtain ⟨rbuf, hrbuf, rfl⟩ := hoffered hne
    refine ⟨t', congrArg (Option.map Prod.snd) hcall, hsettled, ?_⟩
    have hpos := List.length_pos_iff.mpr hrbuf
    have hlen := List.length_pos_iff.mpr hne
    rw [hheld, List.length_drop]
    show t.queryBuffer.held.length - rbuf.length < _
    omega
  obtain ⟨n, q', hrun, -, hnil⟩ := run_reaches _ hstep hq
  exact ⟨_, q', hrun, hnil⟩

/-! ## Pieces stored in a drained buffer -/

/-- Every piece is stored, if the buffer is drained before each of them. -/
def StoresDrained (q : QueryProcessor) : List Text → Prop
  | [] => True
  | piece :: pieces => ∃ b, writePiece q.queryBuffer piece = some b ∧
    b.held = q.queryBuffer.held ++ piece ∧
      ∀ callbacks q', run processed { q with queryBuffer := b } callbacks = some q' →
        q'.queryBuffer.held = [] → q'.StoresDrained pieces

/-- Where the indexes of a drained buffer meet after a piece of `n` characters has
been stored in one whose indexes met at `p`. -/
def place (p n : ℕ) : Option ℕ :=
  (acquireAt BUFF_SZ p p n).map fun start => if start.1 + n = BUFF_SZ then 0 else start.1 + n

/-- Pieces of the given lengths all have room, each behind the one before. -/
def Placed : ℕ → List ℕ → Prop
  | _, [] => True
  | p, n :: ns => ∃ p', place p n = some p' ∧ Placed p' ns

/-- **The pieces are stored as the indexes have room for them.** -/
theorem storesDrained_iff {q : QueryProcessor} (hq : Settled q.queryBuffer)
    (hnil : q.queryBuffer.held = []) (pieces : List Text) :
    q.StoresDrained pieces ↔ Placed q.queryBuffer.w (pieces.map List.length) := by
  induction pieces generalizing q with
  | nil => exact Iff.rfl
  | cons piece pieces ih =>
    have hmet := hq.met hnil
    rcases hq.writePiece piece with
      ⟨hnone, hpiece⟩ | ⟨p, wrapped, b, hat, hpiece, hb, hheld, -, hw⟩
    · rw [hmet] at hnone
      refine iff_of_false ?_ ?_
      · rintro ⟨b, hb, hheld, -⟩
        obtain rfl := Option.some.inj (hpiece.symm.trans hb)
        -- only the empty piece is nothing when it is refused, and it is not
        obtain rfl : piece = [] := List.append_right_eq_self.mp hheld.symm
        have hlt := hq.wf.w_lt
        rw [acquireAt_met hlt, if_pos (by simp only [List.length_nil]; omega)] at hnone
        cases hnone
      · rintro ⟨p', hp', -⟩
        rw [place, hnone] at hp'
        cases hp'
    · rw [hmet] at hat
      have hplace : place q.queryBuffer.w piece.length = some b.w := by
        rw [place, hat, Option.map_some, hw]
      have hrest : ∀ callbacks q', run processed { q with queryBuffer := b } callbacks = some q' →
          q'.queryBuffer.held = [] →
            (q'.StoresDrained pieces ↔ Placed b.w (pieces.map List.length)) := by
        intro callbacks q' hrun hnil'
        obtain ⟨hsettled, hw'⟩ := run_processed (q := { q with queryBuffer := b }) hb hrun
        rw [ih hsettled hnil', hw']
      constructor
      · rintro ⟨b', hb', -, hall⟩
        obtain rfl := Option.some.inj (hpiece.symm.trans hb')
        obtain ⟨callbacks, q', hrun, hnil'⟩ := exists_drain (q := { q with queryBuffer := b }) hb
        exact ⟨b.w, hplace, (hrest callbacks q' hrun hnil').mp (hall callbacks q' hrun hnil')⟩
      · rintro ⟨p', hp', hplaced⟩
        obtain rfl := Option.some.inj (hplace.symm.trans hp')
        exact ⟨b, hpiece, hheld, fun callbacks q' hrun hnil' =>
          (hrest callbacks q' hrun hnil').mpr hplaced⟩

/-! ## Where a record has room -/

theorem place_eq {p : ℕ} (hp : p < BUFF_SZ) (n : ℕ) :
    place p n =
      if n ≤ BUFF_SZ - p ∧ n < BUFF_SZ then some (if p + n = BUFF_SZ then 0 else p + n)
      else if n < p then some n else none := by
  rw [place, acquireAt_met hp]
  split
  · rfl
  · split
    · rw [Option.map_some]
      simp only
      rw [if_neg (by omega), Nat.zero_add]
    · rfl

theorem place_lt {p p' n : ℕ} (hp : p < BUFF_SZ) (h : place p n = some p') : p' < BUFF_SZ := by
  rw [place_eq hp] at h
  split at h
  · obtain rfl := Option.some.inj h
    split <;> omega
  · obtain ⟨hn, hp'⟩ := Option.ite_none_right_eq_some.mp h
    obtain rfl := Option.some.inj hp'
    exact Nat.lt_trans hn hp

/-- A piece that is not longer than a chunk has room everywhere. -/
theorem place_short {p n : ℕ} (hp : p < BUFF_SZ) (hn : n ≤ CHUNK_SZ) :
    ∃ p', place p n = some p' := by
  have hbuff : BUFF_SZ = 2048 := rfl
  have hchunk : CHUNK_SZ = 1024 := rfl
  rw [place_eq hp]
  split
  · exact ⟨_, rfl⟩
  · exact ⟨n, if_pos (by omega)⟩

/-- A piece that is one character longer has room except at two indexes. -/
theorem place_long {p : ℕ} (hp : p < BUFF_SZ) :
    place p (CHUNK_SZ + 1) =
      if p < CHUNK_SZ then some (if p + 1 = CHUNK_SZ then 0 else p + (CHUNK_SZ + 1))
      else if CHUNK_SZ + 1 < p then some (CHUNK_SZ + 1) else none := by
  have hbuff : BUFF_SZ = 2048 := rfl
  have hchunk : CHUNK_SZ = 1024 := rfl
  rw [place_eq hp]
  by_cases hlow : p < CHUNK_SZ
  · rw [if_pos (by omega), if_pos hlow]
    by_cases hend : p + 1 = CHUNK_SZ
    · rw [if_pos (by omega), if_pos hend]
    · rw [if_neg (by omega), if_neg hend]
  · rw [if_neg (by omega), if_neg hlow]

/-- Where a message has room in full, in a buffer that is drained before each of its
pieces. -/
def RoomFor (p length : ℕ) : Prop :=
  length ≤ CHUNK_SZ ∨
    (length ≤ 2 * CHUNK_SZ + 1 ∧ p ≠ CHUNK_SZ ∧ p ≠ CHUNK_SZ + 1) ∨
    (length ≤ 3 * CHUNK_SZ + 2 ∧ 0 < p ∧ p < CHUNK_SZ)

/-- A long message has room if its first piece has, and the rest has behind it. -/
theorem roomFor_long {p length : ℕ} (hp : p < BUFF_SZ) (hlong : CHUNK_SZ < length) :
    RoomFor p length ↔
      ∃ p', place p (CHUNK_SZ + 1) = some p' ∧ RoomFor p' (length - (CHUNK_SZ + 1)) := by
  have hbuff : BUFF_SZ = 2048 := rfl
  have hchunk : CHUNK_SZ = 1024 := rfl
  rw [place_long hp]
  by_cases hlow : p < CHUNK_SZ
  · rw [if_pos hlow]
    simp only [Option.some.injEq, exists_eq_left', RoomFor]
    split <;> omega
  · rw [if_neg hlow]
    by_cases hhigh : CHUNK_SZ + 1 < p
    · rw [if_pos hhigh]
      simp only [Option.some.injEq, exists_eq_left', RoomFor]
      omega
    · rw [if_neg hhigh]
      simp only [reduceCtorEq, false_and, exists_false, iff_false, RoomFor]
      omega

theorem placed_separator {p : ℕ} (hp : p < BUFF_SZ) : Placed p [1] := by
  obtain ⟨p', hp'⟩ := place_short hp (show 1 ≤ CHUNK_SZ by decide)
  exact ⟨p', hp', trivial⟩

/-- **Where a message and its separator have room.** -/
theorem placed_iff {p : ℕ} (hp : p < BUFF_SZ) (separator : UInt8) (message : Text) :
    Placed p ((requests separator message).map List.length) ↔ RoomFor p message.length := by
  induction hlen : message.length using Nat.strongRecOn generalizing p message with
  | _ length ih =>
    subst hlen
    by_cases hshort : message.length ≤ CHUNK_SZ
    · rw [requests_of_short separator hshort]
      obtain ⟨p', hp'⟩ := place_short hp hshort
      exact iff_of_true ⟨p', hp', placed_separator (place_lt hp hp')⟩ (Or.inl hshort)
    · rw [roomFor_long hp (Nat.lt_of_not_le hshort)]
      by_cases hexact : message.length = CHUNK_SZ + 1
      · rw [requests, messagePieces_of_exact hexact, List.singleton_append, List.map_cons, hexact,
          Nat.sub_self]
        refine exists_congr fun p' => and_congr_right fun hp' => ?_
        exact iff_of_true (placed_separator (place_lt hp hp')) (Or.inl (Nat.zero_le _))
      · rw [requests, messagePieces_of_long (by omega), List.cons_append, List.map_cons,
          List.length_take_of_le (by omega)]
        refine exists_congr fun p' => and_congr_right fun hp' => ?_
        have hrest : (message.drop (CHUNK_SZ + 1)).length = message.length - (CHUNK_SZ + 1) :=
          List.length_drop
        exact ih _ (by omega) (place_lt hp hp') _ hrest

/-! ## A message in one call -/

/-- `_add_message` stores the whole message and its separator. -/
def StoresRecord (q : QueryProcessor) (message : Text) : Prop :=
  ∃ q', q.addMessage message = some q' ∧
    q'.queryBuffer.held = q.queryBuffer.held ++ record q.separator message

/-- Behind a piece of at most a chunk, a separator has no room when the piece is a whole
chunk and ends just before the read index. -/
theorem separator_room {p n s : ℕ} {wrapped : Bool} (hp : p < BUFF_SZ) (hn : n ≤ CHUNK_SZ)
    (hat : acquireAt BUFF_SZ p p n = some (s, wrapped)) :
    acquireAt BUFF_SZ (if s + n = BUFF_SZ then 0 else s + n) p 1 = none ↔
      n = CHUNK_SZ ∧ p = CHUNK_SZ + 1 := by
  have hbuff : BUFF_SZ = 2048 := rfl
  have hchunk : CHUNK_SZ = 1024 := rfl
  rw [acquireAt_met hp] at hat
  split at hat
  · obtain ⟨rfl, -⟩ := Prod.mk.inj (Option.some.inj hat)
    by_cases hend : p + n = BUFF_SZ
    · rw [if_pos hend, acquireAt_one_eq_none_iff (by omega), calcFree_of_lt (by omega)]
      omega
    · rw [if_neg hend, acquireAt_one_eq_none_iff (by omega), calcFree_of_le (by omega)]
      omega
  · obtain ⟨hlt, hat⟩ := Option.ite_none_right_eq_some.mp hat
    obtain ⟨rfl, -⟩ := Prod.mk.inj (Option.some.inj hat)
    rw [if_neg (by omega), acquireAt_one_eq_none_iff (by omega), calcFree_of_lt (by omega)]
    omega

/-- **A short message** is stored with its separator unless it is as long as a chunk and the
indexes meet at the one place where the separator has no room. -/
theorem storesRecord_iff {q : QueryProcessor} (hq : Settled q.queryBuffer)
    (hnil : q.queryBuffer.held = []) {message : Text} (hshort : message.length ≤ CHUNK_SZ) :
    q.StoresRecord message ↔
      ¬ (message.length = CHUNK_SZ ∧ q.queryBuffer.w = CHUNK_SZ + 1) := by
  have hmet := hq.met hnil
  have hw := hq.wf.w_lt
  rcases hq.writePiece message with
    ⟨hnone, -⟩ | ⟨s, wrapped, b, hat, hmessage, hb, hheld, hbr, hbw⟩
  · rw [hmet] at hnone
    exact absurd hnone (acquireAt_met_ne_none hw (Nat.mul_le_mul_left 2 hshort))
  · rw [hmet] at hat hbr
    have hroom := separator_room hw hshort hat
    rw [← hbw, ← hbr] at hroom
    have hadd : ∀ b', writePiece b [q.separator] = some b' →
        q.addMessage message = some { q with queryBuffer := b' } := by
      intro b' hb'
      rw [addMessage_short q hshort, run_cons, hmessage, Option.bind_some, run_cons, hb']
      rfl
    rcases hb.writePiece [q.separator] with
      ⟨hnone, hskip⟩ | ⟨s', wrapped', b', hat', hseparator, -, hheld', -⟩
    · -- the separator is skipped, and the message stands alone
      refine iff_of_false ?_ (not_not_intro (hbr ▸ hroom.mp hnone))
      rintro ⟨q', hq', hrecord⟩
      obtain rfl := Option.some.inj ((hadd b hskip).symm.trans hq')
      change b.held = _ at hrecord
      rw [hheld, record, List.append_cancel_left_eq] at hrecord
      exact List.cons_ne_nil _ _ (List.append_right_eq_self.mp hrecord.symm)
    · refine iff_of_true ⟨_, hadd b' hseparator, ?_⟩ fun hend => ?_
      · show b'.held = _
        rw [hheld', hheld, record, List.append_assoc]
      · rw [List.length_singleton, hroom.mpr (hbr.symm ▸ hend)] at hat'
        cases hat'

/-! ## Every history -/

/-- **What a drained query buffer takes.**  After every history that leaves nothing
stored, with the indexes meeting at `w`: a message of at most `CHUNK_SZ` characters is
stored with its separator unless it is that long and `w` is `CHUNK_SZ + 1`; the pieces and
the separator of a longer message, each to a drained buffer, are all stored if and only if
there is `RoomFor` it. -/
theorem drained_takes_iff (data : ℕ → UInt8) (separator : UInt8) (history : List QueryCall)
    {q : QueryProcessor} (hrun : run step (init data separator) history = some q)
    (hnil : q.queryBuffer.held = []) (message : Text) :
    (message.length ≤ CHUNK_SZ →
        (q.StoresRecord message ↔
          ¬ (message.length = CHUNK_SZ ∧ q.queryBuffer.w = CHUNK_SZ + 1))) ∧
      (CHUNK_SZ < message.length →
        (q.StoresDrained (requests separator message) ↔
          RoomFor q.queryBuffer.w message.length)) := by
  obtain ⟨q', hrun', hsettled, -⟩ := history_settled data separator history
  obtain rfl := Option.some.inj (hrun.symm.trans hrun')
  refine ⟨storesRecord_iff hsettled hnil, fun _ => ?_⟩
  rw [storesDrained_iff hsettled hnil, placed_iff hsettled.wf.w_lt]

/-- The messages `ab` and `c`, each consumed before the next call. -/
def pairHistory : List QueryCall :=
  [.addMessage [97, 98], .process consumeAll, .addMessage [99], .process consumeAll]

/-- Where the indexes meet then. -/
theorem pairHistory_indexes : (run step (init (fun _ => 0) 10) pairHistory).map (fun q =>
    (q.queryBuffer.r, q.queryBuffer.w, q.separator)) = some (5, 5, 10) := by
  have hfirst : ∀ q : QueryProcessor, q.addMessage [97, 98] =
      (run writePiece q.queryBuffer [[97, 98], [q.separator]]).map fun b =>
        { q with queryBuffer := b } := fun q => addMessage_short q (by decide)
  have hsecond : ∀ q : QueryProcessor, q.addMessage [99] =
      (run writePiece q.queryBuffer [[99], [q.separator]]).map fun b =>
        { q with queryBuffer := b } := fun q => addMessage_short q (by decide)
  simp only [pairHistory, run_cons, step, hfirst, hsecond]
  rfl

/-- Behind them a whole chunk is stored, and so is a message of three pieces. -/
theorem drained_takes_behind : ∃ q, run step (init (fun _ => 0) 10) pairHistory = some q ∧
    q.StoresRecord (List.replicate CHUNK_SZ 97) ∧
      q.StoresDrained (requests 10 (List.replicate (3 * CHUNK_SZ) 97)) := by
  have hlen : ∀ n, (List.replicate n (97 : UInt8)).length = n := fun _ => List.length_replicate
  obtain ⟨q, hrun, hindexes⟩ := Option.map_eq_some_iff.mp pairHistory_indexes
  simp only [Prod.mk.injEq] at hindexes
  obtain ⟨hr, hw, -⟩ := hindexes
  have hnil : q.queryBuffer.held = [] := by
    rw [BipartiteBuffer.held_eq, hr, hw]
    exact heldAt_eq_nil_of_eq _ _ _
  have htakes := fun n => drained_takes_iff (fun _ => 0) 10 pairHistory hrun hnil
    (List.replicate n 97)
  refine ⟨q, hrun, ?_, ?_⟩
  · refine ((htakes CHUNK_SZ).1 (Nat.le_of_eq (hlen _))).mpr fun hend => ?_
    rw [hw] at hend
    exact absurd hend.2 (by decide)
  · refine ((htakes (3 * CHUNK_SZ)).2 (by rw [hlen]; decide)).mpr ?_
    rw [hlen, hw]
    exact .inr (.inr (by decide))

theorem run_process (q : QueryProcessor)
    (callbacks : List ((rbuf : Text) → Fin (rbuf.length + 1))) :
    run step q (callbacks.map .process) = run processed q callbacks := by
  induction callbacks generalizing q with
  | nil => rfl
  | cons callback callbacks ih =>
    rw [List.map_cons, run_cons, run_cons]
    exact congrArg _ (funext ih)

/-- A request that fits behind the write index of a buffer that has not wrapped. -/
theorem Settled.writePiece_behind {b : QueryBuffer} (hb : Settled b) {w : ℕ} (hr : b.r = 0)
    (hw : b.w = w) (piece : Text) (hfit : w + piece.length < BUFF_SZ) :
    ∃ b', QueryProcessor.writePiece b piece = some b' ∧ Settled b' ∧ b'.r = 0 ∧
      b'.w = w + piece.length := by
  subst hw
  have hat : acquireAt BUFF_SZ b.w b.r piece.length = some (b.w, false) := by
    simp only [acquireAt, hr, calcFree_of_le (Nat.zero_le b.w)]
    exact if_pos (by omega)
  rcases hb.writePiece piece with ⟨hnone, -⟩ | ⟨s, wrapped, b', hat', hpiece, hb', -, hbr, hbw⟩
  · rw [hat] at hnone
    cases hnone
  · obtain ⟨rfl, -⟩ := Prod.mk.inj (Option.some.inj (hat.symm.trans hat'))
    rw [if_neg (by omega)] at hbw
    exact ⟨b', hpiece, hb', hbr.trans hr, hbw⟩

/-- **A second message of `CHUNK_SZ` characters.**  Behind a first one the indexes of the
drained buffer meet at `CHUNK_SZ + 1`.  There the separator of the second is refused, and
so is a piece of one more character. -/
theorem chunk_refused : ∃ history q, run step (init (fun _ => 0) 10) history = some q ∧
    q.queryBuffer.held = [] ∧ ¬ q.StoresRecord (List.replicate CHUNK_SZ 97) ∧
      ¬ q.StoresDrained (requests 10 (List.replicate (CHUNK_SZ + 1) 97)) := by
  have hlen : ∀ n, (List.replicate n (97 : UInt8)).length = n := fun _ => List.length_replicate
  have hchunk : CHUNK_SZ = 1024 := rfl
  obtain ⟨b, hmessage, hb, hbr, hbw⟩ := (settled_init fun _ => 0).writePiece_behind rfl rfl
    (List.replicate CHUNK_SZ 97) (by rw [hlen]; decide)
  obtain ⟨b', hseparator, hb', -, hbw'⟩ := hb.writePiece_behind hbr hbw [10]
    (by rw [hlen]; decide)
  have hadd : (init (fun _ => 0) 10).addMessage (List.replicate CHUNK_SZ 97) =
      some ⟨b', 10⟩ := by
    rw [addMessage_short _ (Nat.le_of_eq (hlen CHUNK_SZ)), init, run_cons, hmessage,
      Option.bind_some, run_cons, hseparator]
    rfl
  obtain ⟨callbacks, q, hdrain, hnil⟩ := exists_drain (q := ⟨b', 10⟩) hb'
  obtain ⟨hq, hqw⟩ := run_processed (q := ⟨b', 10⟩) hb' hdrain
  have hw : q.queryBuffer.w = CHUNK_SZ + 1 := by
    rw [hqw, hbw', hlen]
    rfl
  have hrun : run step (init (fun _ => 0) 10)
      (.addMessage (List.replicate CHUNK_SZ 97) :: callbacks.map .process) = some q := by
    rw [run_cons, step, hadd, Option.bind_some, run_process, hdrain]
  refine ⟨_, q, hrun, hnil, fun hstores => ?_, fun hstores => ?_⟩
  · exact (storesRecord_iff hq hnil (Nat.le_of_eq (hlen _))).mp hstores ⟨hlen _, hw⟩
  · rw [storesDrained_iff hq hnil, placed_iff hq.wf.w_lt, hw, hlen, RoomFor] at hstores
    omega

end QueryProcessor

end Psql
end PsqlTcpProxy
