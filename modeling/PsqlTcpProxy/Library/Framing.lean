import Mathlib.Data.List.Basic

/-!
# Framing a stream

A framer cuts a stream of cells into frames.  It looks at the unconsumed cells
from a frame boundary on and either finds a whole frame there or waits for more;
what it found does not depend on what comes behind (`append`), and it takes at
least one cell off the front (`takes`).  A state is carried from frame to frame, for formats
whose first frame is special.

From these two laws alone, a stream decodes to the same frames however it is cut
into chunks: `decode_append`.  A reader that keeps the undecoded rest between
chunks is then correct by induction on the chunks.
-/

namespace PsqlTcpProxy
namespace Library

variable {σ α β : Type*}

/-- A framer with states `σ`, cells `α` and frames `β`. -/
structure Framer (σ α β : Type*) where
  /-- The frame at the front, the state after it and the cells behind it. -/
  next : σ → List α → Option (β × σ × List α)
  /-- A frame takes at least one cell off the front. -/
  takes : ∀ {s xs b t rest}, next s xs = some (b, t, rest) →
    ∃ taken, taken ≠ [] ∧ xs = taken ++ rest
  /-- A frame does not depend on what comes behind it. -/
  append : ∀ {s xs b t rest}, next s xs = some (b, t, rest) → ∀ ys,
    next s (xs ++ ys) = some (b, t, rest ++ ys)

/-- The frames decoded from a stream, the state after them and the undecoded
rest. -/
structure Decoded (σ α β : Type*) where
  frames : List β
  state : σ
  rest : List α

namespace Framer

variable (F : Framer σ α β)

theorem shorter {F : Framer σ α β} {s t : σ} {xs rest : List α} {b : β}
    (h : F.next s xs = some (b, t, rest)) : rest.length < xs.length := by
  obtain ⟨taken, hne, rfl⟩ := F.takes h
  rw [List.length_append]
  have := List.length_pos_iff.mpr hne
  omega

/-- Decode as many frames as there are. -/
def decode (s : σ) (xs : List α) : Decoded σ α β :=
  match h : F.next s xs with
  | none => ⟨[], s, xs⟩
  | some (b, t, rest) =>
    have : rest.length < xs.length := shorter h
    let d := decode t rest
    ⟨b :: d.frames, d.state, d.rest⟩
termination_by xs.length

variable {F}

theorem decode_of_none {s : σ} {xs : List α} (h : F.next s xs = none) :
    F.decode s xs = ⟨[], s, xs⟩ := by
  rw [decode]
  split
  · rfl
  · rename_i heq
    rw [h] at heq
    cases heq

theorem decode_of_some {s t : σ} {xs rest : List α} {b : β}
    (h : F.next s xs = some (b, t, rest)) :
    F.decode s xs =
      ⟨b :: (F.decode t rest).frames, (F.decode t rest).state, (F.decode t rest).rest⟩ := by
  rw [decode]
  split
  · rename_i heq
    rw [h] at heq
    cases heq
  · rename_i heq
    rw [h] at heq
    cases heq
    rfl

/-- Induction along the frames of a stream. -/
theorem frame_induction {P : σ → List α → Prop}
    (stuck : ∀ s xs, F.next s xs = none → P s xs)
    (frame : ∀ s xs b t rest, F.next s xs = some (b, t, rest) → P t rest → P s xs)
    (s : σ) (xs : List α) : P s xs := by
  induction hn : xs.length using Nat.strongRecOn generalizing s xs with
  | _ n ih =>
    rcases h : F.next s xs with _ | ⟨b, t, rest⟩
    · exact stuck s xs h
    · exact frame s xs b t rest h (ih rest.length (hn ▸ shorter h) t rest rfl)

/-- The rest has no frame at its front. -/
theorem next_rest (s : σ) (xs : List α) :
    F.next (F.decode s xs).state (F.decode s xs).rest = none := by
  induction s, xs using F.frame_induction with
  | stuck s xs h =>
    rw [decode_of_none h]
    exact h
  | frame s xs b t rest h ih =>
    rw [decode_of_some h]
    exact ih

/-- The rest is what is left at the end of the stream. -/
theorem rest_suffix (s : σ) (xs : List α) : (F.decode s xs).rest <:+ xs := by
  induction s, xs using F.frame_induction with
  | stuck s xs h =>
    simpa only [decode_of_none h] using List.suffix_refl xs
  | frame s xs b t rest h ih =>
    obtain ⟨taken, -, rfl⟩ := F.takes h
    rw [decode_of_some h]
    exact ih.trans (List.suffix_append taken rest)

/-- **Decoding does not depend on the cut.**  A stream decodes as its first part
does, and then the rest of that followed by the second part. -/
theorem decode_append (s : σ) (xs ys : List α) :
    F.decode s (xs ++ ys) =
      ⟨(F.decode s xs).frames ++
          (F.decode (F.decode s xs).state ((F.decode s xs).rest ++ ys)).frames,
        (F.decode (F.decode s xs).state ((F.decode s xs).rest ++ ys)).state,
        (F.decode (F.decode s xs).state ((F.decode s xs).rest ++ ys)).rest⟩ := by
  induction s, xs using F.frame_induction with
  | stuck s xs h =>
    rw [decode_of_none h]
    rfl
  | frame s xs b t rest h ih =>
    rw [decode_of_some h, decode_of_some (F.append h ys), ih]
    rfl

end Framer

end Library
end PsqlTcpProxy
