/-
The HLS playlist of one day of recordings (`src/record/hls_playlist.cpp`).

A playlist keeps its entries in memory and rewrites its file after every
change.  Durations are exact rationals.

* `begin`, `append`, `dropFrontIf`, `finish` — the operations; each says
  whether it rewrites the file;
* `lines`, `text` — what `rewrite` writes;
* `names` — the file names listed, in order.
-/
import Mathlib.Data.Int.Notation
import Mathlib.Data.Rat.Floor
import IpcMini.RecordPaths

namespace IpcMini

/-- `record::HlsPlaylist`; an empty `path_` is `none`. -/
structure HlsPlaylist where
  path : Option File
  targetDurationSec : ℤ
  mediaSequence : ℕ
  entries : List (String × ℚ)
  ended : Bool
  deriving DecidableEq, Repr

namespace HlsPlaylist

/-- A default constructed playlist. -/
def empty : HlsPlaylist := ⟨none, 300, 0, [], false⟩

def active (p : HlsPlaylist) : Bool := p.path.isSome

/-- `begin`; it rewrites the file. -/
def begin (path : File) (targetDurationSec : ℤ) : HlsPlaylist where
  path := some path
  targetDurationSec := if 0 < targetDurationSec then targetDurationSec else 300
  mediaSequence := 0
  entries := []
  ended := false

/-- `append`, and whether it rewrites the file. -/
def append (p : HlsPlaylist) (filename : String) (durationSec : ℚ) : HlsPlaylist × Bool :=
  if p.path = none ∨ filename = "" then (p, false)
  else
    let duration := if 1 / 1000 < durationSec then durationSec else 1 / 1000
    let rounded := ⌈duration⌉
    ({ p with
      targetDurationSec :=
        if p.targetDurationSec < rounded then rounded else p.targetDurationSec
      entries := p.entries ++ [(filename, duration)]
      ended := false }, true)

/-- `drop_front_if`, and whether it rewrites the file. -/
def dropFrontIf (p : HlsPlaylist) (filename : String) : HlsPlaylist × Bool :=
  match p.entries with
  | [] => (p, false)
  | front :: rest =>
    if front.1 ≠ filename then (p, false)
    else ({ p with entries := rest, mediaSequence := p.mediaSequence + 1 }, true)

/-- `finish`, and whether it rewrites the file. -/
def finish (p : HlsPlaylist) : HlsPlaylist × Bool :=
  if p.path = none ∨ p.ended then (p, false) else ({ p with ended := true }, true)

/-- The listed file names. -/
def names (p : HlsPlaylist) : List String := p.entries.map Prod.fst

/-! ### The file -/

/-- The nearest integer, and the even one of two, as `printf` rounds. -/
def nearest (q : ℚ) : ℤ :=
  let low := ⌊q⌋
  if q - low < 1 / 2 then low
  else if 1 / 2 < q - low then low + 1
  else if low % 2 = 0 then low
  else low + 1

/-- `%.3f` of a duration that is not negative. -/
def fixed3 (q : ℚ) : String :=
  let thousandths := (nearest (q * 1000)).toNat
  pad 1 (thousandths / 1000) ++ "." ++ pad 3 (thousandths % 1000)

/-- The lines that `rewrite` writes, each followed by a newline. -/
def lines (p : HlsPlaylist) : List String :=
  ["#EXTM3U", "#EXT-X-VERSION:7", "#EXT-X-TARGETDURATION:" ++ toString p.targetDurationSec,
    "#EXT-X-MEDIA-SEQUENCE:" ++ toString p.mediaSequence, "#EXT-X-INDEPENDENT-SEGMENTS",
    "#EXT-X-MAP:URI=\"init.mp4\""] ++
  (p.entries.flatMap fun entry => ["#EXTINF:" ++ fixed3 entry.2 ++ ",", entry.1]) ++
  (if p.ended then ["#EXT-X-ENDLIST"] else [])

/-- The text of the file. -/
def text (p : HlsPlaylist) : List Char := p.lines.flatMap fun line => line.toList ++ ['\n']

/-! ### Names -/

@[simp] theorem names_begin (path : File) (target : ℤ) : (begin path target).names = [] := rfl

theorem append_of_ne (p : HlsPlaylist) (filename : String) (hp : p.path ≠ none)
    (hf : filename ≠ "") (durationSec : ℚ) :
    (p.append filename durationSec).2 = true ∧
      (p.append filename durationSec).1.path = p.path ∧
      (p.append filename durationSec).1.names = p.names ++ [filename] := by
  rw [append, if_neg (by simp [hp, hf])]
  exact ⟨rfl, rfl, by simp [names]⟩

end HlsPlaylist

end IpcMini
