/-
The playlist files of the days while the recorder works.

The recorder changes its list of kept segments and the playlist files of their
days one effect at a time.  Except while a playlist is written anew, which
begins with an empty list, each playlist the recorder has written lists every
kept segment of its day.

* `Disk` — the kept list and the playlist files between two effects;
* `Good` — every playlist that is not being written anew lists its segments;
* `Keeps` — `Good` holds before and after every effect of a list, and a playlist
  is only enqueued once it was written;
* `ArchiveInv` — the effects so far keep `Good`, and the playlist in memory
  lists exactly the kept segments of its day;
* **`inv_listDay`**, **`inv_closeSegment`**, **`inv_pruneRetained`**,
  **`inv_endPlaylist`** — the operations of the archive preserve it.
-/
import Mathlib.Data.List.Induction
import Mathlib.Logic.Function.Basic
import IpcMini.Archive
import IpcMini.PlaylistText

namespace IpcMini

open RecordHttp

/-! ### Disks and effects -/

/-- What the effects change. -/
structure Disk where
  kept : List KeptSegment
  /-- the text of the playlist file of each day -/
  index : String → Option (List Char)
  /-- the days whose playlist was written since the start -/
  written : List String
  /-- the day whose playlist is being written anew -/
  listing : Option String

namespace Disk

def exec (v : Disk) : Effect → Disk
  | .pushKept item => { v with kept := v.kept ++ [item] }
  | .popKept => { v with kept := v.kept.tail }
  | .rewrite p =>
    match p.path with
    | some file =>
      { v with
        index := Function.update v.index file.day (some p.text)
        written := file.day :: v.written }
    | none => v
  | .unlink file =>
    if file = .index file.day then { v with index := Function.update v.index file.day none } else v
  | .startListing day => { v with listing := some day }
  | .endListing => { v with listing := none }
  | .rmdir _ | .enqueue _ | .enqueueDelete _ => v

def execs (v : Disk) (es : List Effect) : Disk := es.foldl exec v

@[simp] theorem execs_nil (v : Disk) : v.execs [] = v := rfl

@[simp] theorem execs_cons (v : Disk) (e : Effect) (es : List Effect) :
    v.execs (e :: es) = (v.exec e).execs es := rfl

theorem execs_singleton (v : Disk) (e : Effect) : v.execs [e] = v.exec e := rfl

@[simp] theorem execs_append (v : Disk) (es fs : List Effect) :
    v.execs (es ++ fs) = (v.execs es).execs fs := List.foldl_append

/-- The playlist file of the day, if there is one, lists the kept segments of
the day. -/
def Covers (v : Disk) (day : String) : Prop :=
  ∀ text ∈ v.index day, ∀ item ∈ v.kept, item.day = day →
    item.filename.toList ∈ listedMediaFromPlaylist text

/-- Every playlist written since the start covers its day, unless it is being
written anew. -/
def Good (v : Disk) : Prop := ∀ day ∈ v.written, v.listing ≠ some day → v.Covers day

/-- A playlist that is enqueued was written before. -/
def Okay (v : Disk) : Effect → Prop
  | .enqueue file => ∀ day, file = .index day → day ∈ v.written
  | _ => True

/-- The disk is good before and after every effect. -/
def Keeps : Disk → List Effect → Prop
  | v, [] => v.Good
  | v, e :: es => v.Good ∧ v.Okay e ∧ Keeps (v.exec e) es

theorem Keeps.good {v : Disk} {es : List Effect} (h : v.Keeps es) : v.Good := by
  cases es with
  | nil => exact h
  | cons e es => exact h.1

theorem keeps_append {v : Disk} {es fs : List Effect} :
    v.Keeps (es ++ fs) ↔ v.Keeps es ∧ (v.execs es).Keeps fs := by
  induction es generalizing v with
  | nil => exact ⟨fun h => ⟨h.good, h⟩, fun h => h.2⟩
  | cons e es ih =>
    simp only [List.cons_append, Keeps, ih, execs_cons]
    exact ⟨fun ⟨hg, ho, hk, hr⟩ => ⟨⟨hg, ho, hk⟩, hr⟩, fun ⟨⟨hg, ho, hk⟩, hr⟩ => ⟨hg, ho, hk, hr⟩⟩

theorem Keeps.good_execs {v : Disk} {es : List Effect} (h : v.Keeps es) : (v.execs es).Good := by
  rw [← es.append_nil, keeps_append] at h
  exact h.2

theorem keeps_concat {v : Disk} {es : List Effect} {e : Effect} (h : v.Keeps es)
    (ho : (v.execs es).Okay e) (hg : ((v.execs es).exec e).Good) : v.Keeps (es ++ [e]) :=
  keeps_append.mpr ⟨h, h.good_execs, ho, hg⟩

/-- A playlist that lists the kept segments of its day covers it. -/
theorem covers_of_names {v : Disk} {p : HlsPlaylist} {day : String}
    (hkept : ∀ item ∈ v.kept, Plain item.filename.toList) (hindex : v.index day = some p.text)
    (hnames : ∀ item ∈ v.kept, item.day = day → item.filename ∈ p.names) : v.Covers day := by
  intro text htext item hitem hday
  obtain rfl : p.text = text := by simpa [hindex] using htext
  exact listed_of_mem_names (hkept item hitem) (hnames item hitem hday)

/-- What covers a day still does when segments are dropped. -/
theorem Covers.subset {v w : Disk} {day : String} (h : v.Covers day)
    (hi : w.index day = v.index day) (hk : ∀ item ∈ w.kept, item ∈ v.kept) : w.Covers day :=
  fun text htext item hitem => h text (hi ▸ htext) item (hk item hitem)

theorem exec_rewrite {p : HlsPlaylist} {day : String} (hp : p.path = some (.index day)) (v : Disk) :
    v.exec (.rewrite p) = { v with
      index := Function.update v.index day (some p.text)
      written := day :: v.written } := by
  rw [exec, hp]
  rfl

/-- A rewrite that lists the kept segments of the day leaves the disk good. -/
theorem Good.rewrite {v : Disk} {p : HlsPlaylist} {day : String} (h : v.Good)
    (hkept : ∀ item ∈ v.kept, Plain item.filename.toList) (hp : p.path = some (.index day))
    (hnames : ∀ item ∈ v.kept, item.day = day → item.filename ∈ p.names) :
    (v.exec (.rewrite p)).Good := by
  rw [exec_rewrite hp]
  intro d hd hne
  by_cases hday : d = day
  · subst hday
    exact covers_of_names hkept (by simp) hnames
  · refine (h d ((List.mem_cons.mp hd).resolve_left hday) hne).subset ?_ fun item hitem => hitem
    exact Function.update_of_ne hday _ _

end Disk

open Disk

/-! ### Names that are no playlists -/

theorem Plain.ne_index {file : File} (h : Plain file.name.toList) (day : String) :
    file ≠ .index day := by
  rintro rfl
  have : isSegment "index.m3u8".toList = true := h.segment
  exact absurd this (by decide)

theorem Plain.name_ne_empty {name : String} (h : Plain name.toList) : name ≠ "" := by
  rintro rfl
  exact h.ne_nil rfl

theorem init_ne_index (day day' : String) : File.init day ≠ .index day' := by
  intro h
  have : "init.mp4" = "index.m3u8" := congrArg File.name h
  exact absurd this (by decide)

theorem finish_path (p : HlsPlaylist) : p.finish.1.path = p.path := by
  rw [HlsPlaylist.finish]
  split <;> rfl

theorem finish_names (p : HlsPlaylist) : p.finish.1.names = p.names := by
  rw [HlsPlaylist.finish]
  split <;> rfl

/-! ### Writing a playlist anew -/

/-- The names of the kept segments of a day, in order. -/
def namesOfDay (kept : List KeptSegment) (day : String) : List String :=
  (Archive.ofDay kept day).map KeptSegment.filename

theorem mem_namesOfDay {kept : List KeptSegment} {item : KeptSegment} (h : item ∈ kept) :
    item.filename ∈ namesOfDay kept item.day :=
  List.mem_map.mpr ⟨item, List.mem_filter.mpr ⟨h, by simp⟩, rfl⟩

/-- Rewriting the playlist of one day while it is being listed. -/
structure Lists (v w : Disk) (p : HlsPlaylist) (day : String) : Prop where
  kept : w.kept = v.kept
  listing : w.listing = some day
  index : w.index day = some p.text
  others : ∀ d, d ≠ day → w.index d = v.index d
  written : ∀ d, d ∈ w.written ↔ d = day ∨ d ∈ v.written

/-- While a day is listed the other playlists are as good as before. -/
theorem Lists.good {v w : Disk} {p : HlsPlaylist} {day : String} (h : Lists v w p day)
    (hgood : v.Good) (hlisting : v.listing = none) : w.Good := by
  intro d hd hne
  have hday : d ≠ day := fun heq => hne (heq ▸ h.listing)
  have hdv : d ∈ v.written := ((h.written d).mp hd).resolve_left hday
  refine (hgood d hdv (by simp [hlisting])).subset (h.others d hday) fun item hitem => ?_
  exact h.kept ▸ hitem

theorem Lists.rewrite {v w : Disk} {p q : HlsPlaylist} {day : String} (h : Lists v w p day)
    (hq : q.path = some (.index day)) : Lists v (w.exec (.rewrite q)) q day := by
  rw [exec_rewrite hq]
  refine ⟨h.kept, h.listing, Function.update_self _ _ _, fun d hd => ?_, fun d => ?_⟩
  · exact (Function.update_of_ne hd _ _).trans (h.others d hd)
  · simp only [List.mem_cons, h.written d]
    tauto

/-- One more append. -/
theorem appendAll_concat {p : HlsPlaylist} {items : List KeptSegment} {item : KeptSegment}
    {q : HlsPlaylist} {rewrites : List Effect} (h : Archive.appendAll p items = (q, rewrites))
    (hop : (q.append item.filename item.durationSec).2 = true) :
    Archive.appendAll p (items ++ [item]) =
      ((q.append item.filename item.durationSec).1,
        rewrites ++ [.rewrite (q.append item.filename item.durationSec).1]) := by
  rw [Archive.appendAll] at h ⊢
  rw [List.foldl_append, h]
  simp only [List.foldl_cons, List.foldl_nil]
  rw [if_pos hop]

/-- The appends to a playlist that is being written anew. -/
theorem appendAll_spec {v w : Disk} {p : HlsPlaylist} {day : String}
    (hgood : v.Good) (hlisting : v.listing = none) (hw : Lists v w p day)
    (hpath : p.path = some (.index day)) :
    ∀ {items : List KeptSegment} {q : HlsPlaylist} {rewrites : List Effect},
      (∀ item ∈ items, Plain item.filename.toList) → Archive.appendAll p items = (q, rewrites) →
      w.Keeps rewrites ∧ Lists v (w.execs rewrites) q day ∧ q.path = some (.index day) ∧
        q.names = p.names ++ items.map KeptSegment.filename := by
  intro items
  induction items using List.reverseRecOn with
  | nil =>
    rintro q rewrites - ⟨⟩
    exact ⟨hw.good hgood hlisting, hw, hpath, by simp⟩
  | append_singleton items item ih =>
    intro q' rewrites' hplain h
    obtain ⟨⟨q, rewrites⟩, hall⟩ : ∃ r, Archive.appendAll p items = r := ⟨_, rfl⟩
    obtain ⟨hk, hl, hp, hn⟩ := ih (fun i hi => hplain i (List.mem_append_left _ hi)) hall
    have hname := (hplain item (by simp)).name_ne_empty
    obtain ⟨hop, hpath', hnames'⟩ := HlsPlaylist.append_of_ne q item.filename (by simp [hp]) hname
      item.durationSec
    rw [appendAll_concat hall hop] at h
    obtain ⟨rfl, rfl⟩ := Prod.mk.inj h
    have hl' := hl.rewrite (hpath'.trans hp)
    refine ⟨keeps_concat hk trivial (hl'.good hgood hlisting), ?_, hpath'.trans hp, ?_⟩
    · rw [execs_append]
      exact hl'
    · rw [hnames', hn, List.map_append, List.append_assoc]
      rfl

/-- The playlist of a day was written anew. -/
structure Rebuilt (v w : Disk) (day : String) : Prop where
  kept : w.kept = v.kept
  listing : w.listing = none
  others : ∀ d, d ≠ day → w.index d = v.index d
  written : ∀ d, d ∈ w.written ↔ d = day ∨ d ∈ v.written

/-- Writing the playlist of a day anew keeps the disk good, and afterwards the
playlist lists the kept segments of the day. -/
theorem rebuild_spec {v : Disk} {day : String} {target : ℤ} {p : HlsPlaylist}
    {rewrites : List Effect} (hgood : v.Good) (hlisting : v.listing = none)
    (hplain : ∀ item ∈ v.kept, Plain item.filename.toList)
    (h : Archive.appendAll (.begin (.index day) target) (Archive.ofDay v.kept day) =
      (p, rewrites)) :
    let es := [Effect.startListing day, .rewrite (.begin (.index day) target)] ++ rewrites ++
      [Effect.endListing]
    v.Keeps es ∧ Rebuilt v (v.execs es) day ∧ (v.execs es).index day = some p.text ∧
      p.path = some (.index day) ∧ p.names = namesOfDay v.kept day := by
  have hlists : Lists v (v.execs [Effect.startListing day, .rewrite (.begin (.index day) target)])
      (.begin (.index day) target) day := by
    refine ⟨rfl, rfl, ?_, fun d hd => ?_, fun d => ?_⟩
    · simp [exec, HlsPlaylist.begin, File.index]
    · exact Function.update_of_ne hd _ _
    · simp [exec, HlsPlaylist.begin, File.index]
  obtain ⟨hk, hl, hp, hn⟩ := appendAll_spec hgood hlisting hlists rfl
    (fun item hitem => hplain item (List.mem_filter.mp hitem).1) h
  have hnames : p.names = namesOfDay v.kept day := by
    rw [hn, HlsPlaylist.names_begin, List.nil_append]
    rfl
  have hes : v.execs ([Effect.startListing day, .rewrite (.begin (.index day) target)] ++
      rewrites ++ [Effect.endListing]) =
      { (v.execs [Effect.startListing day, .rewrite (.begin (.index day) target)]).execs rewrites
        with listing := none } := by
    rw [execs_append, execs_append]
    rfl
  intro es
  show v.Keeps es ∧ Rebuilt v (v.execs es) day ∧ _
  rw [show v.execs es = _ from hes]
  refine ⟨?_, ⟨hl.kept, rfl, hl.others, hl.written⟩, hl.index, hp, hnames⟩
  have hstart : v.Keeps [Effect.startListing day, .rewrite (.begin (.index day) target)] :=
    ⟨hgood, trivial, fun d hd _ => hgood d hd (by simp [hlisting]), trivial, hk.good⟩
  refine keeps_concat (keeps_append.mpr ⟨hstart, hk⟩) trivial ?_
  rw [← execs_singleton, ← execs_append, show v.execs _ = _ from hes]
  intro d hd _
  by_cases hday : d = day
  · -- the list is complete again
    subst hday
    refine covers_of_names (p := p) (fun item hitem => hplain item (hl.kept ▸ hitem)) hl.index
      fun item hitem hd' => ?_
    rw [hnames, ← hd']
    exact mem_namesOfDay (hl.kept ▸ hitem)
  · have hdv : d ∈ v.written := ((hl.written d).mp hd).resolve_left hday
    refine (hgood d hdv (by simp [hlisting])).subset (hl.others d hday) fun item hitem => ?_
    exact hl.kept ▸ hitem

/-! ### Names of kept segments -/

/-- The names of the kept segments can be read from a playlist, and tell their
day: no two days share a name, and a name of the recorder's own form stands in
the directory of its day. -/
structure Named (kept : List KeptSegment) : Prop where
  plain : ∀ item ∈ kept, Plain item.filename.toList
  apart : ∀ x ∈ kept, ∀ y ∈ kept, x.filename = y.filename → x.day = y.day
  own : ∀ item ∈ kept, ∀ day, Generated ⟨day, item.filename⟩ → day = item.day

theorem named_of_generated {kept : List KeptSegment} (h : ∀ item ∈ kept, Generated item.path) :
    Named kept where
  plain := fun item hitem => (h item hitem).plain
  apart := fun x hx y hy hname => (h x hx).day_eq (h y hy) hname
  own := fun item hitem _ hg => hg.day_eq (h item hitem) rfl

theorem Named.subset {kept rest : List KeptSegment} (h : Named kept)
    (hsub : ∀ item ∈ rest, item ∈ kept) : Named rest where
  plain := fun item hitem => h.plain item (hsub item hitem)
  apart := fun x hx y hy => h.apart x (hsub x hx) y (hsub y hy)
  own := fun item hitem => h.own item (hsub item hitem)

/-- A segment that the recorder named keeps the names apart. -/
theorem Named.concat {kept : List KeptSegment} {item : KeptSegment} (h : Named kept)
    (hitem : Generated item.path) : Named (kept ++ [item]) := by
  have hnew : ∀ x ∈ kept, x.filename = item.filename → item.day = x.day := by
    intro x hx hname
    refine h.own x hx item.day ?_
    rw [hname]
    exact hitem
  have hmem : ∀ {x}, x ∈ kept ++ [item] → x ∈ kept ∨ x = item := fun hx =>
    (List.mem_append.mp hx).imp_right (by simpa using ·)
  refine ⟨fun x hx => ?_, fun x hx y hy hname => ?_, fun x hx day hg => ?_⟩
  · rcases hmem hx with hx | rfl
    · exact h.plain x hx
    · exact hitem.plain
  · rcases hmem hx with hxk | hxi
    · rcases hmem hy with hyk | rfl
      · exact h.apart x hxk y hyk hname
      · exact (hnew x hxk hname).symm
    · subst hxi
      rcases hmem hy with hyk | rfl
      · exact hnew y hyk hname.symm
      · rfl
  · rcases hmem hx with hx | rfl
    · exact h.own x hx day hg
    · exact hg.day_eq hitem rfl

/-! ### The invariant of the archive -/

namespace Archive

/-- The disk after the effects so far. -/
def disk (v : Disk) (a : Archive) : Disk := v.execs a.effects

/-- The playlist's file is the playlist, and it lists the kept segments of its
day. -/
structure Shows (v : Disk) (p : HlsPlaylist) (day : String) : Prop where
  path : p.path = some (.index day)
  written : day ∈ v.written
  index : v.index day = some p.text
  names : p.names = namesOfDay v.kept day

/-- The effects so far keep the disk good, and no playlist is being written anew. -/
structure Stored (v : Disk) (a : Archive) : Prop where
  keeps : v.Keeps a.effects
  kept : (a.disk v).kept = a.kept
  listing : (a.disk v).listing = none
  named : Named a.kept

/-- Moreover the playlist shows its day. -/
structure ArchiveInv (v : Disk) (a : Archive) : Prop extends Stored v a where
  inactive : a.playlist.path = none → a.playlist.entries = []
  active : a.playlist.path ≠ none → ∃ day, Shows (a.disk v) a.playlist day

variable {v : Disk} {a : Archive}

theorem Stored.good (h : Stored v a) : (a.disk v).Good := h.keeps.good_execs

/-- More effects that keep the disk good and agree with the kept list. -/
theorem Stored.execs (h : Stored v a) {b : Archive} {es : List Effect}
    (hb : b.effects = a.effects ++ es) (hk : (a.disk v).Keeps es)
    (hkept : ((a.disk v).execs es).kept = b.kept) (hl : ((a.disk v).execs es).listing = none)
    (hn : Named b.kept) : Stored v b ∧ b.disk v = (a.disk v).execs es := by
  have hd : b.disk v = (a.disk v).execs es := by
    rw [disk, hb, execs_append]
    rfl
  refine ⟨⟨?_, hd ▸ hkept, hd ▸ hl, hn⟩, hd⟩
  rw [hb]
  exact keeps_append.mpr ⟨h.keeps, hk⟩

theorem Stored.emit (h : Stored v a) {b : Archive} {e : Effect} (hb : b.effects = a.effects)
    (ho : (a.disk v).Okay e) (hg : ((a.disk v).exec e).Good)
    (hkept : ((a.disk v).exec e).kept = b.kept) (hl : ((a.disk v).exec e).listing = none)
    (hn : Named b.kept) : Stored v (b.emit e) ∧ (b.emit e).disk v = (a.disk v).exec e :=
  have hb' : (b.emit e).effects = a.effects ++ [e] := by rw [Archive.emit, hb]
  h.execs hb' ⟨h.good, ho, hg⟩ hkept hl hn

/-- The playlist may be rewritten when it lists the kept segments of its day. -/
theorem Stored.rewrite (h : Stored v a) {q : HlsPlaylist} {day : String}
    (hp : q.path = some (.index day))
    (hn : ∀ item ∈ a.kept, item.day = day → item.filename ∈ q.names) :
    Stored v (Archive.emit { a with playlist := q } (.rewrite q)) ∧
      (Archive.emit { a with playlist := q } (.rewrite q)).disk v = { a.disk v with
        index := Function.update (a.disk v).index day (some q.text)
        written := day :: (a.disk v).written } := by
  have hgood : ((a.disk v).exec (.rewrite q)).Good := by
    refine h.good.rewrite (fun item hitem => ?_) hp fun item hitem => hn item (h.kept ▸ hitem)
    exact h.named.plain item (h.kept ▸ hitem)
  have hexec := exec_rewrite hp (a.disk v)
  rw [← hexec]
  exact h.emit rfl trivial hgood (hexec ▸ h.kept) (hexec ▸ h.listing) h.named

/-- After a rewrite that lists just these the playlist shows its day. -/
theorem Stored.show (h : Stored v a) {q : HlsPlaylist} {day : String}
    (hp : q.path = some (.index day)) (hn : q.names = namesOfDay a.kept day) :
    ArchiveInv v (Archive.emit { a with playlist := q } (.rewrite q)) := by
  obtain ⟨hs, hd⟩ := h.rewrite hp fun item hitem hday => by
    rw [hn, ← hday]
    exact mem_namesOfDay hitem
  refine ⟨hs, fun hnone => absurd (hp.symm.trans hnone) (by simp), fun _ => ⟨day, hp, ?_, ?_, ?_⟩⟩
  · rw [hd]
    exact List.mem_cons_self
  · rw [hd]
    exact Function.update_self _ _ _
  · rw [hs.kept]
    exact hn

/-- The active playlist is written. -/
theorem ArchiveInv.written (h : ArchiveInv v a) {day : String}
    (hp : a.playlist.path = some (.index day)) : Shows (a.disk v) a.playlist day := by
  obtain ⟨d, hd⟩ := h.active (by simp [hp])
  obtain rfl : d = day := by
    have := hd.path.symm.trans hp
    simpa [File.index] using this
  exact hd

/-- An effect that does not change the disk. -/
theorem ArchiveInv.emit (h : ArchiveInv v a) {e : Effect} (hid : (a.disk v).exec e = a.disk v)
    (ho : (a.disk v).Okay e) : ArchiveInv v (a.emit e) ∧ (a.emit e).disk v = a.disk v := by
  obtain ⟨hs, hd⟩ := h.toStored.emit rfl ho (hid.symm ▸ h.good) (hid.symm ▸ h.kept)
    (hid.symm ▸ h.listing) h.named
  rw [hid] at hd
  refine ⟨⟨hs, h.inactive, ?_⟩, hd⟩
  rw [hd]
  exact h.active

/-- An upload of a file that is no playlist, or of a playlist that is written. -/
theorem ArchiveInv.upload (h : ArchiveInv v a) (file : File)
    (hf : ∀ day, file = .index day → day ∈ (a.disk v).written) :
    ArchiveInv v (a.uploadRelative file) ∧ (a.uploadRelative file).disk v = a.disk v := by
  rw [uploadRelative]
  split
  · exact ⟨h, rfl⟩
  · exact h.emit rfl hf

theorem ArchiveInv.delete (h : ArchiveInv v a) (file : File) :
    ArchiveInv v (a.deleteRelative file) ∧ (a.deleteRelative file).disk v = a.disk v := by
  rw [deleteRelative]
  split
  · exact ⟨h, rfl⟩
  · exact h.emit rfl trivial

/-! ### What the small operations leave alone -/

/-- What pruning and uploading leave alone. -/
structure SameDay (a b : Archive) : Prop where
  kept : b.kept = a.kept
  playlist : b.playlist = a.playlist
  currentDay : b.currentDay = a.currentDay

theorem SameDay.trans {a b c : Archive} (h : SameDay a b) (h' : SameDay b c) : SameDay a c :=
  ⟨h'.kept.trans h.kept, h'.playlist.trans h.playlist, h'.currentDay.trans h.currentDay⟩

theorem sameDay_upload (a : Archive) (file : File) : SameDay a (a.uploadRelative file) := by
  rw [uploadRelative]
  split <;> exact ⟨rfl, rfl, rfl⟩

theorem sameDay_delete (a : Archive) (file : File) : SameDay a (a.deleteRelative file) := by
  rw [deleteRelative]
  split <;> exact ⟨rfl, rfl, rfl⟩

theorem updatePlaylist_playlist (a : Archive) (op : HlsPlaylist × Bool) :
    (a.updatePlaylist op).playlist = op.1 := by
  rw [updatePlaylist]
  split <;> rfl

theorem updatePlaylist_currentDay (a : Archive) (op : HlsPlaylist × Bool) :
    (a.updatePlaylist op).currentDay = a.currentDay := by
  rw [updatePlaylist]
  split <;> rfl

/-! ### Listing a day -/

/-- A session's files are uploaded behind the playlist that is written anew. -/
theorem listDay_eq (a : Archive) (day : String) {p : HlsPlaylist} {rewrites : List Effect}
    (hall : appendAll (.begin (.index day) a.config.segmentSec) (ofDay a.kept day) =
      (p, rewrites)) (hp : p.path = some (.index day)) :
    (a.beginPlaylist day true).listDay day =
      (({ a with
        currentDay := day
        playlist := p
        effects := a.effects ++ [Effect.startListing day,
          .rewrite (.begin (.index day) a.config.segmentSec)] ++ rewrites ++
            [Effect.endListing] } : Archive).uploadRelative (.init day)).uploadRelative
        (.index day) := by
  rw [beginPlaylist, if_pos rfl, listDay]
  dsimp only
  rw [hall]
  dsimp only
  rw [hp]

/-- A session's playlist is written anew. -/
theorem inv_listDay (h : ArchiveInv v a) (day : String) :
    ArchiveInv v ((a.beginPlaylist day true).listDay day) ∧
      ((a.beginPlaylist day true).listDay day).playlist.path = some (.index day) ∧
      ((a.beginPlaylist day true).listDay day).currentDay = day := by
  generalize hall : appendAll (.begin (.index day) a.config.segmentSec) (ofDay a.kept day) = r
  obtain ⟨p, rewrites⟩ := r
  rw [← h.kept] at hall
  obtain ⟨hk, hr, hindex, hpath, hnames⟩ :=
    rebuild_spec h.good h.listing (fun item hitem => h.named.plain item (h.kept ▸ hitem)) hall
  rw [h.kept] at hall
  -- what is uploaded afterwards does not touch the disk
  generalize hb : ({ a with
    currentDay := day
    playlist := p
    effects := a.effects ++ ([Effect.startListing day,
      .rewrite (.begin (.index day) a.config.segmentSec)] ++ rewrites ++
        [Effect.endListing]) } : Archive) = b
  obtain ⟨hs, hdisk⟩ := h.toStored.execs (b := b) (by rw [← hb]) hk
    (by rw [hr.kept, h.kept, ← hb]) hr.listing (by rw [← hb]; exact h.named)
  have hshows : Shows (b.disk v) b.playlist day := by
    rw [hdisk, ← hb]
    exact ⟨hpath, (hr.written day).mpr (.inl rfl), hindex, by rw [hnames, hr.kept]⟩
  have hinv : ArchiveInv v b := by
    refine ⟨hs, fun hp => ?_, fun _ => ⟨day, hshows⟩⟩
    exact absurd (hshows.path.symm.trans hp) (by simp)
  have heq : (a.beginPlaylist day true).listDay day =
      (b.uploadRelative (.init day)).uploadRelative (.index day) := by
    rw [listDay_eq a day hall hpath, ← hb]
    simp
  -- the index is uploaded as it was written
  obtain ⟨hinit, hdinit⟩ := hinv.upload (.init day) fun d hd =>
    absurd hd (init_ne_index day d)
  obtain ⟨hindex', -⟩ := hinit.upload (.index day) fun d hd => by
    obtain rfl : day = d := by simpa [File.index] using hd
    rw [hdinit]
    exact hshows.written
  have hsame := (sameDay_upload b (.init day)).trans (sameDay_upload _ (.index day))
  rw [heq]
  refine ⟨hindex', ?_, ?_⟩
  · rw [hsame.playlist]
    exact hshows.path
  · rw [hsame.currentDay, ← hb]

/-! ### Pruning -/

/-- What `rewrite_day_playlist` does to the disk. -/
theorem rebuild_finish_spec {w : Disk} {day : String} {target : ℤ} {p : HlsPlaylist}
    {rewrites : List Effect} (hgood : w.Good) (hlisting : w.listing = none)
    (hplain : ∀ item ∈ w.kept, Plain item.filename.toList)
    (hall : appendAll (.begin (.index day) target) (ofDay w.kept day) = (p, rewrites))
    (ended : Bool) :
    let es := [Effect.startListing day, .rewrite (.begin (.index day) target)] ++ rewrites ++
      [Effect.endListing] ++ if ended && p.finish.2 then [Effect.rewrite p.finish.1] else []
    w.Keeps es ∧ Rebuilt w (w.execs es) day := by
  obtain ⟨hk, hr, -, hpath, hnames⟩ := rebuild_spec hgood hlisting hplain hall
  dsimp only
  generalize [Effect.startListing day, .rewrite (.begin (.index day) target)] ++ rewrites ++
    [Effect.endListing] = es at hk hr ⊢
  split
  case isFalse =>
    rw [List.append_nil]
    exact ⟨hk, hr⟩
  case isTrue =>
    have hfpath := (finish_path p).trans hpath
    rw [execs_append, execs_singleton]
    have hg : ((w.execs es).exec (.rewrite p.finish.1)).Good := by
      refine hk.good_execs.rewrite (fun item hitem => hplain item (hr.kept ▸ hitem)) hfpath
        fun item hitem hday => ?_
      rw [finish_names, hnames, ← hday]
      exact mem_namesOfDay (hr.kept ▸ hitem)
    refine ⟨keeps_concat hk trivial hg, ?_⟩
    rw [exec_rewrite hfpath]
    refine ⟨hr.kept, hr.listing, fun d hd => ?_, fun d => ?_⟩
    · exact (Function.update_of_ne hd _ _).trans (hr.others d hd)
    · simp only [List.mem_cons, hr.written d]
      tauto

/-- The playlist of another day than the active one is written anew. -/
theorem inv_rewriteDayPlaylist (h : ArchiveInv v a) {day : String}
    (hne : a.playlist.path ≠ some (.index day)) (ended : Bool) :
    ArchiveInv v (a.rewriteDayPlaylist day ended) ∧
      SameDay a (a.rewriteDayPlaylist day ended) := by
  rw [rewriteDayPlaylist]
  split
  · exact ⟨h, rfl, rfl, rfl⟩
  generalize hall : appendAll (.begin (.index day) a.config.segmentSec) (ofDay a.kept day) = r
  obtain ⟨p, rewrites⟩ := r
  rw [← h.kept] at hall
  obtain ⟨hk, hr⟩ := rebuild_finish_spec h.good h.listing
    (fun item hitem => h.named.plain item (h.kept ▸ hitem)) hall ended
  rw [h.kept] at hall
  dsimp only
  rw [hall]
  dsimp only
  generalize hes : [Effect.startListing day,
    .rewrite (.begin (.index day) a.config.segmentSec)] ++ rewrites ++ [Effect.endListing] ++
    (if ended && p.finish.2 then [Effect.rewrite p.finish.1] else []) = es at hk hr
  have hassoc : a.effects ++ [Effect.startListing day,
      .rewrite (.begin (.index day) a.config.segmentSec)] ++ rewrites ++ [Effect.endListing] ++
      (if ended && p.finish.2 then [Effect.rewrite p.finish.1] else []) = a.effects ++ es := by
    rw [← hes]
    simp only [List.append_assoc]
  rw [hassoc]
  generalize hb : ({ a with effects := a.effects ++ es } : Archive) = b
  obtain ⟨hs, hdisk⟩ := h.toStored.execs (b := b) (by rw [← hb]) hk
    (by rw [hr.kept, h.kept, ← hb]) hr.listing (by rw [← hb]; exact h.named)
  have hinv : ArchiveInv v b := by
    refine ⟨hs, ?_, ?_⟩
    · rw [← hb]
      exact h.inactive
    · -- the file of the active playlist is another one
      rw [hdisk, ← hb]
      intro hp
      obtain ⟨d, hd⟩ := h.active hp
      have hdd : d ≠ day := by
        rintro rfl
        exact hne hd.path
      exact ⟨d, hd.path, (hr.written d).mpr (.inr hd.written),
        (hr.others d hdd).trans hd.index, by rw [hd.names, hr.kept]⟩
  refine ⟨(hinv.upload _ fun d hd => ?_).1, ?_⟩
  · obtain rfl : day = d := by simpa [File.index] using hd
    rw [hdisk]
    exact (hr.written day).mpr (.inl rfl)
  · refine SameDay.trans ?_ (sameDay_upload b _)
    rw [← hb]
    exact ⟨rfl, rfl, rfl⟩

theorem namesOfDay_cons_of_eq {old : KeptSegment} {day : String} (h : old.day = day)
    (rest : List KeptSegment) :
    namesOfDay (old :: rest) day = old.filename :: namesOfDay rest day := by
  rw [namesOfDay, ofDay, List.filter_cons_of_pos (by simp [h])]
  rfl

theorem namesOfDay_cons_of_ne {old : KeptSegment} {day : String} (h : old.day ≠ day)
    (rest : List KeptSegment) : namesOfDay (old :: rest) day = namesOfDay rest day := by
  rw [namesOfDay, ofDay, List.filter_cons_of_neg (by simp [h])]
  rfl

/-- The playlist does not begin with the name. -/
theorem dropFrontIf_of_ne {p : HlsPlaylist} {filename : String}
    (h : p.names.head? ≠ some filename) : p.dropFrontIf filename = (p, false) := by
  rw [HlsPlaylist.dropFrontIf]
  cases he : p.entries with
  | nil => rfl
  | cons front rest =>
    dsimp only
    rw [if_pos]
    rintro rfl
    exact h (by rw [HlsPlaylist.names, he]; rfl)

/-- The oldest segment leaves the list. -/
theorem stored_pop (h : ArchiveInv v a) {old : KeptSegment} {rest : List KeptSegment}
    (hkept : a.kept = old :: rest) :
    Stored v (Archive.emit { a with kept := rest } .popKept) ∧
      (Archive.emit { a with kept := rest } .popKept).disk v =
        { a.disk v with kept := rest } := by
  have hexec : (a.disk v).exec .popKept = { a.disk v with kept := rest } := by
    show { a.disk v with kept := (a.disk v).kept.tail } = _
    rw [h.kept, hkept, List.tail_cons]
  have hgood : ((a.disk v).exec .popKept).Good := by
    intro d hd hne
    exact (h.good d hd hne).subset rfl fun item hitem => List.mem_of_mem_tail hitem
  have hnamed : Named rest := by
    refine h.named.subset fun item hitem => ?_
    exact hkept ▸ List.mem_cons_of_mem _ hitem
  rw [← hexec]
  exact h.toStored.emit rfl trivial hgood (congrArg Disk.kept hexec) h.listing hnamed

/-- The oldest segment leaves the list, and the playlist if it is of that day. -/
theorem inv_drop_front (h : ArchiveInv v a) {old : KeptSegment} {rest : List KeptSegment}
    (hkept : a.kept = old :: rest)
    (hcur : a.playlist.path ≠ none → a.playlist.path = some (.index a.currentDay)) :
    ∀ b, b = (Archive.emit { a with kept := rest } .popKept).updatePlaylist
        (a.playlist.dropFrontIf old.filename) →
      ArchiveInv v b ∧ b.kept = rest ∧ b.playlist.path = a.playlist.path ∧
        b.currentDay = a.currentDay := by
  obtain ⟨hs, hdisk⟩ := stored_pop h hkept
  -- nothing more happens unless the playlist begins with the segment
  have hsame : a.playlist.names.head? ≠ some old.filename →
      (a.playlist.path ≠ none → a.playlist.names = namesOfDay rest a.currentDay) →
      ∀ b, b = (Archive.emit { a with kept := rest } .popKept).updatePlaylist
          (a.playlist.dropFrontIf old.filename) →
        ArchiveInv v b ∧ b.kept = rest ∧ b.playlist.path = a.playlist.path ∧
          b.currentDay = a.currentDay := by
    rintro hhead hnames b rfl
    rw [dropFrontIf_of_ne hhead, updatePlaylist, if_neg (by simp)]
    refine ⟨⟨hs, h.inactive, fun hp => ?_⟩, rfl, rfl, rfl⟩
    have hshows := h.written (hcur hp)
    refine ⟨a.currentDay, hshows.path, ?_, ?_, ?_⟩
    · exact hdisk ▸ hshows.written
    · exact hdisk ▸ hshows.index
    · exact (hnames hp).trans (congrArg (namesOfDay · a.currentDay) hs.kept.symm)
  by_cases hp : a.playlist.path = none
  · refine hsame ?_ fun hne => absurd hp hne
    rw [HlsPlaylist.names, h.inactive hp]
    simp
  have hshows := h.written (hcur hp)
  have hnames := hshows.names
  rw [h.kept, hkept] at hnames
  by_cases hday : old.day = a.currentDay
  · -- the segment heads the playlist of its day
    rw [namesOfDay_cons_of_eq hday] at hnames
    obtain ⟨front, entries, he, hfront, hrest⟩ := List.map_eq_cons_iff.mp hnames
    rintro b rfl
    rw [HlsPlaylist.dropFrontIf, he]
    dsimp only
    rw [if_neg (by simp [hfront]), updatePlaylist, if_pos rfl]
    exact ⟨hs.show hshows.path hrest, rfl, rfl, rfl⟩
  · rw [namesOfDay_cons_of_ne hday] at hnames
    refine hsame (fun hhead => ?_) fun _ => hnames
    -- a segment of another day has another name
    rw [hnames] at hhead
    obtain ⟨item, hitem, hname⟩ := List.mem_map.mp (List.mem_of_mem_head? hhead)
    obtain ⟨hmem, hd⟩ := List.mem_filter.mp hitem
    have happart := h.named.apart old (by rw [hkept]; exact List.mem_cons_self) item
      (by rw [hkept]; exact List.mem_cons_of_mem _ hmem) hname.symm
    exact hday (happart.trans (of_decide_eq_true hd))

/-- The playlist file of another day than the active one is removed. -/
theorem inv_unlink_index (h : ArchiveInv v a) (day : String)
    (hne : a.playlist.path ≠ some (.index day)) :
    ArchiveInv v (a.emit (.unlink (.index day))) := by
  have hexec : (a.disk v).exec (.unlink (.index day)) =
      { a.disk v with index := Function.update (a.disk v).index day none } := if_pos rfl
  have hgood : ((a.disk v).exec (.unlink (.index day))).Good := by
    rw [hexec]
    intro d hd hl text htext
    by_cases hday : d = day
    · exact absurd htext (by simp [hday])
    · exact h.good d hd hl text ((Function.update_of_ne hday _ _).symm.trans htext)
  obtain ⟨hs, hdisk⟩ := h.toStored.emit (e := .unlink (.index day)) rfl trivial hgood
    (hexec ▸ h.kept) (hexec ▸ h.listing) h.named
  refine ⟨hs, h.inactive, fun hp => ?_⟩
  obtain ⟨d, hshows⟩ := h.active hp
  have hday : d ≠ day := by
    rintro rfl
    exact hne hshows.path
  rw [hdisk, hexec]
  exact ⟨d, hshows.path, hshows.written, (Function.update_of_ne hday _ _).trans hshows.index,
    hshows.names⟩

/-- The media file of a segment that left the list is removed. -/
theorem inv_drop_media (h : ArchiveInv v a) {file : File} (hfile : Plain file.name.toList) :
    ∀ b, b = (Archive.emit { a with mediaFiles := a.mediaFiles.filter (· ≠ file) }
        (.unlink file)).deleteRelative file → ArchiveInv v b ∧ SameDay a b := by
  rintro b rfl
  have hmedia : ArchiveInv v { a with mediaFiles := a.mediaFiles.filter (· ≠ file) } :=
    ⟨⟨h.keeps, h.kept, h.listing, h.named⟩, h.inactive, h.active⟩
  have hunlink : (a.disk v).exec (.unlink file) = a.disk v := if_neg (hfile.ne_index file.day)
  refine ⟨((hmedia.emit hunlink trivial).1.delete file).1, ?_⟩
  have hdropped : SameDay a (Archive.emit
      { a with mediaFiles := a.mediaFiles.filter (· ≠ file) } (.unlink file)) := ⟨rfl, rfl, rfl⟩
  exact hdropped.trans (sameDay_delete _ file)

/-- The directory of a day without segments is removed. -/
theorem inv_remove_day (h : ArchiveInv v a) (day : String)
    (hne : a.playlist.path ≠ some (.index day)) :
    ∀ b, b = ((((a.emit (.unlink (.init day))).emit (.unlink (.index day))).deleteRelative
        (.init day)).deleteRelative (.index day)).emit (.rmdir day) →
      ArchiveInv v b ∧ SameDay a b := by
  rintro b rfl
  have hinit := h.emit (e := .unlink (.init day)) (if_neg (init_ne_index day day)) trivial
  have hindex := inv_unlink_index hinit.1 day hne
  have hdelete := (hindex.delete (.init day)).1.delete (.index day)
  refine ⟨(hdelete.1.emit (e := .rmdir day) rfl trivial).1, ?_⟩
  have hunlinked : SameDay a ((a.emit (.unlink (.init day))).emit (.unlink (.index day))) :=
    ⟨rfl, rfl, rfl⟩
  have hdeleted := (hunlinked.trans (sameDay_delete _ (.init day))).trans
    (sameDay_delete _ (.index day))
  exact hdeleted.trans ⟨rfl, rfl, rfl⟩

/-- One turn of the loop of `prune_retained`. -/
theorem inv_pruneFront (h : ArchiveInv v a) {old : KeptSegment} {rest : List KeptSegment}
    (hkept : a.kept = old :: rest)
    (hcur : a.playlist.path ≠ none → a.playlist.path = some (.index a.currentDay)) :
    ArchiveInv v (a.pruneFront old rest) ∧ (a.pruneFront old rest).kept = rest ∧
      (a.pruneFront old rest).playlist.path = a.playlist.path ∧
      (a.pruneFront old rest).currentDay = a.currentDay := by
  have hold : Plain old.path.name.toList :=
    h.named.plain old (by rw [hkept]; exact List.mem_cons_self)
  rw [pruneFront]
  dsimp only
  generalize hb : (Archive.emit { a with kept := rest } .popKept).updatePlaylist
    ((Archive.emit { a with kept := rest } .popKept).playlist.dropFrontIf old.filename) = b
  obtain ⟨hinv, hbk, hbp, hbd⟩ := inv_drop_front h hkept hcur b hb.symm
  generalize hc : (Archive.emit { b with mediaFiles := b.mediaFiles.filter (· ≠ old.path) }
    (.unlink old.path)).deleteRelative old.path = c
  obtain ⟨hcinv, hsame⟩ := inv_drop_media hinv hold c hc.symm
  have hend : ∀ d, ArchiveInv v d ∧ SameDay c d → ArchiveInv v d ∧ d.kept = rest ∧
      d.playlist.path = a.playlist.path ∧ d.currentDay = a.currentDay := by
    rintro d ⟨hd, hcd⟩
    obtain ⟨hk, hp, hday⟩ := hsame.trans hcd
    exact ⟨hd, hk.trans hbk, by rw [hp, hbp], hday.trans hbd⟩
  split
  · exact hend c ⟨hcinv, rfl, rfl, rfl⟩
  rename_i hday
  -- the day is over, so its playlist is not the active one
  have hne : c.playlist.path ≠ some (.index old.day) := by
    rw [hsame.playlist, hbp]
    intro hp
    have hcurrent := (hcur (by simp [hp])).symm.trans hp
    rw [hsame.currentDay, hbd] at hday
    exact hday (by simpa [File.index] using hcurrent.symm)
  split
  · exact hend _ (inv_remove_day hcinv old.day hne _ rfl)
  · exact hend _ (inv_rewriteDayPlaylist hcinv hne true)

theorem inv_pruneLoop {items : List KeptSegment} : ∀ {a : Archive}, ArchiveInv v a →
    a.kept = items →
    (a.playlist.path ≠ none → a.playlist.path = some (.index a.currentDay)) →
    ArchiveInv v (a.pruneLoop items) ∧
      (a.pruneLoop items).playlist.path = a.playlist.path ∧
      (a.pruneLoop items).currentDay = a.currentDay := by
  induction items with
  | nil => exact fun h _ _ => ⟨h, rfl, rfl⟩
  | cons old rest ih =>
    intro a h hkept hcur
    rw [pruneLoop]
    split
    · obtain ⟨hinv, hk, hp, hd⟩ := inv_pruneFront h hkept hcur
      obtain ⟨hinv', hp', hd'⟩ := ih hinv hk (by rw [hp, hd]; exact hcur)
      exact ⟨hinv', hp'.trans hp, hd'.trans hd⟩
    · exact ⟨h, rfl, rfl⟩

/-- **Pruning preserves the invariant** while the active playlist is that of the
current day. -/
theorem inv_pruneRetained (h : ArchiveInv v a)
    (hcur : a.playlist.path ≠ none → a.playlist.path = some (.index a.currentDay)) :
    ArchiveInv v a.pruneRetained ∧ a.pruneRetained.playlist.path = a.playlist.path ∧
      a.pruneRetained.currentDay = a.currentDay :=
  inv_pruneLoop h rfl hcur

/-! ### Closing a segment -/

theorem namesOfDay_concat (kept : List KeptSegment) {item : KeptSegment} {day : String}
    (h : item.day = day) :
    namesOfDay (kept ++ [item]) day = namesOfDay kept day ++ [item.filename] := by
  rw [namesOfDay, namesOfDay, ofDay, ofDay, List.filter_append, List.map_append,
    List.filter_cons_of_pos (by simp [h])]
  rfl

/-- A segment joins the list after the playlist of its day lists it. -/
theorem Stored.push {q : HlsPlaylist} {item : KeptSegment} (h : Stored v a)
    (hgen : Generated item.path) (hp : a.playlist = q) (hq : q.path = some (.index item.day))
    (hwritten : item.day ∈ (a.disk v).written) (hindex : (a.disk v).index item.day = some q.text)
    (hnames : q.names = namesOfDay a.kept item.day ++ [item.filename]) :
    ArchiveInv v (Archive.emit { a with kept := a.kept ++ [item] } (.pushKept item)) := by
  have hexec : (a.disk v).exec (.pushKept item) = { a.disk v with kept := a.kept ++ [item] } := by
    rw [exec, h.kept]
  have hnamed : Named (a.kept ++ [item]) := h.named.concat hgen
  have hlisted : q.names = namesOfDay (a.kept ++ [item]) item.day := by
    rw [hnames, namesOfDay_concat _ rfl]
  have hgood : ((a.disk v).exec (.pushKept item)).Good := by
    -- the day of the segment is covered by the new playlist, the others as before
    rw [hexec]
    intro d hd' hne
    by_cases hday : d = item.day
    · subst hday
      refine covers_of_names (p := q) hnamed.plain hindex fun i hi hid => ?_
      rw [hlisted, ← hid]
      exact mem_namesOfDay hi
    · intro text htext i hi hid
      rcases List.mem_append.mp hi with hi | hi
      · exact h.good d hd' hne text htext i (h.kept ▸ hi) hid
      · obtain rfl : i = item := by simpa using hi
        exact absurd hid.symm hday
  obtain ⟨hs, hd⟩ := h.emit (b := { a with kept := a.kept ++ [item] }) (e := .pushKept item)
    rfl trivial hgood (congrArg Disk.kept hexec) h.listing hnamed
  refine ⟨hs, fun hnone => ?_, fun _ => ⟨item.day, ?_, ?_, ?_, ?_⟩⟩
  · exact absurd (hq.symm.trans (hp ▸ hnone)) (by simp)
  · exact hp ▸ hq
  · rw [hd]
    exact hwritten
  · rw [hd]
    exact hindex.trans (by rw [← hp]; rfl)
  · rw [hd, hexec]
    exact (congrArg HlsPlaylist.names hp).trans hlisted

/-- The playlist of the current day lists the closed segment, and the recorder
remembers it. -/
theorem inv_append_remember (h : ArchiveInv v a) {path : File} (hgen : Generated path)
    (hday : path.day = a.currentDay) (hp : a.playlist.path = some (.index a.currentDay))
    (duration : ℚ) (bytes : ℕ) :
    ∀ b, b = (a.updatePlaylist (a.playlist.append path.name duration)).rememberClosedSegment
        path duration bytes →
      ArchiveInv v b ∧ b.playlist.path = a.playlist.path ∧ b.currentDay = a.currentDay := by
  have hshows := h.written hp
  obtain ⟨hop, hqpath, hqnames⟩ := HlsPlaylist.append_of_ne a.playlist path.name
    (by simp [hp]) hgen.plain.name_ne_empty duration
  generalize hq : a.playlist.append path.name duration = op at hop hqpath hqnames
  have hqp : op.1.path = some (.index a.currentDay) := hqpath.trans hp
  rw [hshows.names, h.kept] at hqnames
  -- the playlist lists the segment before the recorder does
  obtain ⟨hs, hsd⟩ := h.toStored.rewrite hqp fun item hitem hd => by
    rw [hqnames, ← hd]
    exact List.mem_append_left _ (mem_namesOfDay hitem)
  rintro b rfl
  rw [updatePlaylist, if_pos hop, rememberClosedSegment]
  refine ⟨hs.push (q := op.1) hgen rfl (by rw [hqp, ← hday]; rfl) ?_ ?_ ?_, hqpath, rfl⟩
  · rw [hsd]
    exact List.mem_cons.mpr (.inl hday)
  · rw [hsd]
    show Function.update _ _ _ path.day = _
    rw [hday]
    exact Function.update_self _ _ _
  · exact hqnames.trans (by rw [← hday]; rfl)

/-- **A closed segment joins the list and the playlist of its day.** -/
theorem inv_closeSegment (h : ArchiveInv v a) {path : File} (hgen : Generated path)
    (hday : path.day = a.currentDay) (hp : a.playlist.path = some (.index a.currentDay))
    (duration : ℚ) (bytes : ℕ) :
    ArchiveInv v (a.closeSegment path duration bytes) ∧
      (a.closeSegment path duration bytes).playlist.path = a.playlist.path ∧
      (a.closeSegment path duration bytes).currentDay = a.currentDay := by
  rw [closeSegment]
  generalize hb : (a.updatePlaylist (a.playlist.append path.name duration)).rememberClosedSegment
    path duration bytes = b
  obtain ⟨hinv, hbp, hbd⟩ := inv_append_remember h hgen hday hp duration bytes b hb.symm
  obtain ⟨hup, -⟩ := hinv.upload path fun d hd => absurd hd (hgen.plain.ne_index d)
  have hsame := sameDay_upload b path
  obtain ⟨hprune, hpp, hpd⟩ := inv_pruneRetained hup fun _ => by
    rw [hsame.playlist, hsame.currentDay, hbp, hbd]
    exact hp
  have hpath : (b.uploadRelative path).pruneRetained.playlist.path =
      some (.index a.currentDay) := by
    rw [hpp, hsame.playlist, hbp, hp]
  rw [hpath]
  have hlast := sameDay_upload (b.uploadRelative path).pruneRetained (.index a.currentDay)
  refine ⟨(hprune.upload _ fun d hd => ?_).1, ?_, ?_⟩
  · obtain rfl : a.currentDay = d := by simpa [File.index] using hd
    exact (hprune.written hpath).written
  · rw [hlast.playlist, hpath, hp]
  · rw [hlast.currentDay, hpd, hsame.currentDay, hbd]

/-- **The end of a day's playlist preserves the invariant.** -/
theorem inv_endPlaylist (h : ArchiveInv v a) :
    ArchiveInv v a.endPlaylist ∧ a.endPlaylist.playlist.path = a.playlist.path ∧
      a.endPlaylist.currentDay = a.currentDay := by
  rw [endPlaylist]
  cases hp : a.playlist.path with
  | none => exact ⟨h, hp, rfl⟩
  | some index =>
    dsimp only
    obtain ⟨day, hshows⟩ := h.active (by simp [hp])
    obtain rfl : File.index day = index := by
      have := hshows.path.symm.trans hp
      simpa using this
    generalize hb : a.updatePlaylist a.playlist.finish = b
    have hbinv : ArchiveInv v b := by
      rw [← hb, updatePlaylist]
      split
      · refine h.toStored.show ((finish_path _).trans hp) ?_
        rw [finish_names, hshows.names, h.kept]
      -- a playlist that cannot be ended is left as it is
      · rename_i hfin
        have : a.playlist.finish.1 = a.playlist := by
          rw [HlsPlaylist.finish] at hfin ⊢
          split
          · rfl
          · rename_i hne
            rw [if_neg hne] at hfin
            exact absurd rfl hfin
        rw [this]
        exact h
    have hbp : b.playlist.path = some (.index day) := by
      rw [← hb, updatePlaylist_playlist, finish_path, hp]
    have hbd : b.currentDay = a.currentDay := by
      rw [← hb, updatePlaylist_currentDay]
    have hlast := sameDay_upload b (.index day)
    refine ⟨(hbinv.upload _ fun d hd => ?_).1, by rw [hlast.playlist, hbp], by
      rw [hlast.currentDay, hbd]⟩
    obtain rfl : day = d := by simpa [File.index] using hd
    exact (hbinv.written hbp).written

end Archive

end IpcMini
