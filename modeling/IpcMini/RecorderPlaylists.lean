/-
The playlist files during the calls of `process_frame`.

Whatever the muxer, the clock and the codec library answer, every call keeps
the invariant of the playlist files, as long as the playlists themselves can be
written.

* `Env.Rewrites` — the playlists can be written;
* `RecInv` — the archive's invariant, and the day of the open segment and of a
  ready session is the day of the active playlist;
* `preserved_rec_inv` — the operations of a call preserve it;
* **`rec_inv_processFrame`**, **`rec_inv_endWriter`** — what the writer does preserves
  it.
-/
import IpcMini.DayPlaylists
import IpcMini.RecorderCalls

namespace IpcMini

open Archive

/-- The playlist files that are begun in the call can be written. -/
structure Env.Rewrites (env : Env) : Prop where
  playlistBegun : env.playlistBegun = true
  playlistRebegun : env.playlistRebegun = true

namespace Recorder

variable {v : Disk} {s t : Recorder} {env : Env}

/-- The archive's invariant, and the day of the open segment and of a ready
session is that of the active playlist. -/
structure RecInv (v : Disk) (s : Recorder) : Prop where
  archive : ArchiveInv v s.archive
  session : s.sessionReady = true →
    s.archive.playlist.path = some (.index s.archive.currentDay)
  media : s.muxer.segmentOpen = true → ∀ path ∈ s.currentMediaPath,
    Generated path ∧ path.day = s.archive.currentDay ∧
      s.archive.playlist.path = some (.index s.archive.currentDay)

/-- What touches none of the files. -/
theorem RecInv.congr (h : RecInv v s) (ha : t.archive = s.archive)
    (hs : t.sessionReady = s.sessionReady)
    (hp : t.currentMediaPath = s.currentMediaPath)
    (hm : t.muxer.segmentOpen = s.muxer.segmentOpen) : RecInv v t := by
  refine ⟨ha ▸ h.archive, ?_, ?_⟩
  · rw [ha, hs]
    exact h.session
  · rw [ha, hm, hp]
    exact h.media

/-- Without an open segment only the session is left to say something about. -/
theorem RecInv.of_closed (ha : ArchiveInv v s.archive) (hm : s.muxer.segmentOpen = false)
    (hs : s.sessionReady = true →
      s.archive.playlist.path = some (.index s.archive.currentDay)) : RecInv v s :=
  ⟨ha, hs, fun ho => absurd ho (by simp [hm])⟩

/-! ### Segments and sessions -/

theorem rec_inv_closeCurrentSegment (env : Env) (h : RecInv v s) (endPlaylist : Bool) :
    RecInv v (s.closeCurrentSegment env endPlaylist) ∧
      (s.closeCurrentSegment env endPlaylist).muxer.segmentOpen = false := by
  have hclosed : (s.closeCurrentSegment env endPlaylist).muxer.segmentOpen = false := by
    rw [closeCurrentSegment]
    dsimp only
    split
    · exact Muxer.segmentOpen_closeSegment _
    · rename_i hopen
      simpa using hopen
  -- the segment is remembered if it has a path
  obtain ⟨a, heq, hinv, hp, hd⟩ : ∃ a : Archive,
      (s.closeCurrentSegment env endPlaylist).archive =
        (if endPlaylist then a.endPlaylist else a) ∧
      ArchiveInv v a ∧ a.playlist.path = s.archive.playlist.path ∧
      a.currentDay = s.archive.currentDay := by
    cases hopen : s.muxer.segmentOpen with
    | false =>
      refine ⟨s.archive, ?_, h.archive, rfl, rfl⟩
      rw [closeCurrentSegment, hopen]
    | true =>
      cases hpath : s.currentMediaPath with
      | none =>
        refine ⟨s.archive, ?_, h.archive, rfl, rfl⟩
        rw [closeCurrentSegment, hopen, hpath]
      | some path =>
        obtain ⟨hgen, hday, hactive⟩ := h.media hopen path hpath
        refine ⟨s.archive.closeSegment path s.segmentDuration env.bytes, ?_,
          inv_closeSegment h.archive hgen hday hactive _ _⟩
        rw [closeCurrentSegment, hopen, hpath]
  refine ⟨.of_closed ?_ hclosed fun hs => ?_, hclosed⟩
  · rw [heq]
    split
    · exact (inv_endPlaylist hinv).1
    · exact hinv
  · have hpath := h.session hs
    rw [heq]
    split
    · rw [(inv_endPlaylist hinv).2.1, (inv_endPlaylist hinv).2.2, hp, hd]
      exact hpath
    · rw [hp, hd]
      exact hpath

theorem rec_inv_endDay (h : RecInv v s) : RecInv v (s.endDay env) := by
  obtain ⟨hinv, -⟩ := rec_inv_closeCurrentSegment env h true
  refine .of_closed ?_ (Muxer.segmentOpen_endSession _) (by simp [endDay])
  exact ⟨⟨hinv.archive.keeps, hinv.archive.kept, hinv.archive.listing, hinv.archive.named⟩,
    hinv.archive.inactive, hinv.archive.active⟩

theorem rec_inv_beginSession (h : RecInv v s) (he : env.Rewrites) (hs : s.sessionReady = false)
    (day : String) : RecInv v (s.beginSession env day).2 := by
  rcases s.beginSession_cases env day with ⟨muxer, hclosed, hb⟩ | ⟨hno, -⟩ |
    ⟨-, muxer, hclosed, hb⟩
  · rw [hb]
    exact .of_closed h.archive hclosed fun hr => absurd hr (by simp [hs])
  · simp [he.playlistBegun] at hno
  · obtain ⟨hinv, hp, hd⟩ := inv_listDay h.archive day
    rw [hb]
    exact .of_closed hinv hclosed fun _ => by rw [hd]; exact hp

theorem rec_inv_restartSession (h : RecInv v s) (he : env.Rewrites) (day : String) :
    RecInv v (s.restartSession env day).2 := by
  obtain ⟨hinv, -⟩ := rec_inv_closeCurrentSegment env h true
  rcases s.restartSession_cases env day with ⟨muxer, hclosed, hr⟩ | ⟨muxer, hclosed, hr⟩
  · rw [hr]
    exact .of_closed hinv.archive hclosed (by simp)
  · obtain ⟨hlist, hp, hd⟩ := inv_listDay hinv.archive day
    rw [hr, he.playlistRebegun]
    exact .of_closed hlist hclosed fun _ => by rw [hd]; exact hp

theorem rec_inv_openMedia (h : RecInv v s) {time : LocalTime} (hs : s.sessionReady = true)
    (hday : s.archive.currentDay = time.day) (keyframe : MediaFrame) :
    RecInv v (s.openMedia env keyframe time).2 := by
  have hpath := h.session hs
  rcases s.openMedia_cases env keyframe time with ⟨muxer, hclosed, he⟩ | ⟨muxer, he⟩
  · rw [he]
    exact .of_closed h.archive hclosed h.session
  · rw [he]
    refine ⟨⟨⟨h.archive.keeps, h.archive.kept, h.archive.listing, h.archive.named⟩,
      h.archive.inactive, h.archive.active⟩, h.session, fun _ path hp => ?_⟩
    obtain rfl : nextMediaPath time env.suffix = path := by simpa using hp
    exact ⟨⟨time, env.suffix, rfl⟩, hday.symm, hpath⟩

/-! ### Calls -/

/-- The operations of a call preserve the invariant. -/
theorem preserved_rec_inv (he : env.Rewrites) : Preserved env (fun _ => True) (RecInv v) where
  congr h ha hs hp hm := h.congr ha hs hp hm
  close endPlaylist h := (rec_inv_closeCurrentSegment env h endPlaylist).1
  endDay h := rec_inv_endDay h
  beginSession day h hs := rec_inv_beginSession h he hs day
  restartSession day h := rec_inv_restartSession h he day
  openMedia keyframe _ h hs hday _ := rec_inv_openMedia h hs hday keyframe

/-- **Every call of `process_frame` preserves the invariant.** -/
theorem rec_inv_processFrame (h : RecInv v s) (he : env.Rewrites) (frame : MediaFrame) :
    RecInv v (s.processFrame env frame) :=
  (preserved_rec_inv he).processFrame h frame trivial

/-- **So does the end of the writer.** -/
theorem rec_inv_endWriter (h : RecInv v s) : RecInv v (s.endWriter env) := by
  obtain ⟨hinv, -⟩ := rec_inv_closeCurrentSegment env h true
  exact .of_closed hinv.archive (Muxer.segmentOpen_endSession _) (by simp [endWriter])

end Recorder

end IpcMini
