/-
Decoders of a byte stream that comes in pieces.

A deframer takes one frame off the front of its buffer, asks for more, or stops.
What it decides of a prefix it decides of every continuation of it.

* `Deframer` — such a decoder, with the two laws;
* `drain` — the frames of a buffer, and the bytes that are left of it;
* `resume` — the buffer after another piece;
* **`foldl_resume`** — the pieces are decoded as the whole stream is.
-/
import Mathlib.Tactic.Common

/-- `next` is `none` while a frame is not complete; else it gives what the frame
emits and the rest of the buffer, or no rest if the frame ends the stream. -/
structure Deframer (α ε : Type) where
  next : List α → Option (List ε × Option (List α))
  progress : ∀ buffer events rest, next buffer = some (events, some rest) →
    rest.length < buffer.length
  stable : ∀ buffer events rest more, next buffer = some (events, rest) →
    next (buffer ++ more) = some (events, rest.map (· ++ more))

namespace Deframer

variable {α ε : Type} (d : Deframer α ε)

/-- What the buffer emits, and what is left of it; `none` once the stream has
ended. -/
def drain (buffer : List α) : List ε × Option (List α) :=
  match h : d.next buffer with
  | none => ([], some buffer)
  | some (events, none) => (events, none)
  | some (events, some rest) =>
    have := d.progress buffer events rest h
    let (later, left) := drain rest
    (events ++ later, left)
termination_by buffer.length

theorem drain_of_none {buffer : List α} (h : d.next buffer = none) :
    d.drain buffer = ([], some buffer) := by
  rw [drain]
  split
  · rfl
  all_goals simp_all

theorem drain_of_end {buffer : List α} {events : List ε} (h : d.next buffer = some (events, none)) :
    d.drain buffer = (events, none) := by
  rw [drain]
  split
  · simp_all
  · simp_all
  · simp_all

theorem drain_of_frame {buffer rest : List α} {events : List ε}
    (h : d.next buffer = some (events, some rest)) :
    d.drain buffer = (events ++ (d.drain rest).1, (d.drain rest).2) := by
  rw [drain]
  split
  · simp_all
  · simp_all
  · next events' rest' h' =>
    rw [h] at h'
    obtain ⟨rfl, rfl⟩ : events = events' ∧ rest = rest' := by simpa using h'
    rfl

/-- One more piece is received. -/
def resume (state : List ε × Option (List α)) (piece : List α) : List ε × Option (List α) :=
  match state.2 with
  | none => state
  | some rest => (state.1 ++ (d.drain (rest ++ piece)).1, (d.drain (rest ++ piece)).2)

/-- **A buffer is drained and then its continuation.** -/
theorem drain_append (buffer more : List α) :
    d.drain (buffer ++ more) = d.resume (d.drain buffer) more := by
  induction h : buffer.length using Nat.strongRecOn generalizing buffer with
  | _ n ih =>
    cases hn : d.next buffer with
    | none =>
      rw [drain_of_none d hn]
      simp [resume]
    | some frame =>
      obtain ⟨events, _ | rest⟩ := frame
      · rw [drain_of_end d hn, drain_of_end d (d.stable _ _ _ more hn)]
        rfl
      · have hlt : rest.length < n := h ▸ d.progress _ _ _ hn
        rw [drain_of_frame d hn, drain_of_frame d (d.stable _ _ _ more hn), ih _ hlt rest rfl]
        cases hrest : (d.drain rest).2 with
        | none => simp [resume, hrest]
        | some left => simp [resume, hrest]

/-- What is left of a buffer has no frame. -/
theorem drain_left {buffer rest : List α} (h : (d.drain buffer).2 = some rest) :
    d.drain rest = ([], some rest) := by
  induction hl : buffer.length using Nat.strongRecOn generalizing buffer with
  | _ n ih =>
    cases hn : d.next buffer with
    | none =>
      rw [drain_of_none d hn] at h
      obtain rfl := Option.some.inj h
      exact drain_of_none d hn
    | some frame =>
      obtain ⟨events, _ | left⟩ := frame
      · rw [drain_of_end d hn] at h
        cases h
      · rw [drain_of_frame d hn] at h
        exact ih _ (hl ▸ d.progress _ _ _ hn) h rfl

/-- **However the stream is cut into pieces, it is decoded as a whole.** -/
theorem foldl_resume (pieces : List (List α)) (buffer : List α) :
    pieces.foldl d.resume (d.drain buffer) = d.drain (buffer ++ pieces.flatten) := by
  induction pieces generalizing buffer with
  | nil => simp
  | cons piece pieces ih =>
    rw [List.foldl_cons, ← drain_append, ih, List.flatten_cons, List.append_assoc]

end Deframer
