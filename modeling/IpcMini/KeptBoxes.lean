/-
The boxes that `MulticlassNms` keeps (`src/devices/hisi_3516cv610/dev_svp_yolov8.cpp`).

A candidate is kept unless it overlaps a box that was kept before by more than the
threshold, in float arithmetic; its class is not looked at.

* `CalcIou_comm` — overlapping is mutual;
* `nms_eq_select` — the loop is a greedy selection from the valid candidates;
* `Suppresses` — what a selection of boxes should be;
* **`kept_boxes`** — the boxes of every output are such a selection, in which the ones
  left out are covered by boxes that score no less, and which selecting again leaves alone.
-/
import IpcMini.Detections
import IpcMini.Greedy

namespace IpcMini

open Floats

namespace Detections

variable {nmsThr : Single} {isXywh : Bool}

/-- Overlapping is mutual. -/
theorem CalcIou_comm (a b : FinalBox) : CalcIou a b = CalcIou b a := by
  have harea : (Floating.finite a.area : Single) + Floating.finite b.area =
      Floating.finite b.area + Floating.finite a.area := Floating.add_comm _ _
  unfold CalcIou
  dsimp only
  rw [harea, max_comm a.lx, max_comm a.ly, min_comm a.rx, min_comm a.ry]

/-! ### The selection -/

/-- A box overlaps a kept one too much. -/
def clash (nmsThr : Single) (box kept : FinalBox) : Bool := nmsThr < CalcIou box kept

theorem not_clash_iff {a b : FinalBox} : clash nmsThr a b = false ↔ ¬nmsThr < CalcIou a b := by
  rw [clash, decide_eq_false_iff_not]

/-- The loop of `MulticlassNms` selects from the boxes of the valid candidates. -/
theorem nms_eq_select (bboxes : List FinalBox) (vaildBox : List Candidate) :
    MulticlassNms bboxes vaildBox nmsThr isXywh =
      Greedy.select (clash nmsThr) bboxes (vaildBox.filterMap (validBox isXywh)) := by
  induction vaildBox generalizing bboxes with
  | nil => rfl
  | cons item vaildBox ih =>
    have hloop : MulticlassNms bboxes (item :: vaildBox) nmsThr isXywh =
        MulticlassNms (nmsStep nmsThr isXywh bboxes item) vaildBox nmsThr isXywh := rfl
    rw [hloop, ih, nmsStep]
    cases hvalid : validBox isXywh item with
    | none => rw [List.filterMap_cons_none hvalid]
    | some bbox =>
      rw [List.filterMap_cons_some hvalid, Greedy.select_cons]
      rfl

/-- What non-maximum suppression should leave of the `valid` boxes. -/
structure Suppresses (nmsThr : Single) (valid kept : List FinalBox) : Prop where
  /-- kept boxes are valid ones, in their order -/
  sublist : kept.Sublist valid
  /-- they do not overlap too much, whatever their classes -/
  apart : kept.Pairwise fun a b => ¬nmsThr < CalcIou a b
  /-- one that is left out overlaps a kept one that came before it -/
  covers : ∀ before box after, valid = before ++ box :: after → box ∉ kept →
    ∃ other ∈ kept, other ∈ before ∧ nmsThr < CalcIou box other

theorem suppresses_select (valid : List FinalBox) :
    Suppresses nmsThr valid (Greedy.select (clash nmsThr) [] valid) := by
  refine ⟨?_, ?_, ?_⟩
  · have hsublist : (Greedy.select (clash nmsThr) [] valid).Sublist ([] ++ valid) :=
      Greedy.select_sublist [] valid
    rwa [List.nil_append] at hsublist
  · refine (Greedy.select_pairwise valid .nil).imp ?_
    intro a b hclash
    rw [CalcIou_comm]
    exact not_clash_iff.mp hclash
  · rintro before box after rfl hout
    have hcovers : box ∈ Greedy.select (clash nmsThr) [] (before ++ box :: after) ∨
        ∃ other ∈ Greedy.select (clash nmsThr) [] before, clash nmsThr box other = true :=
      Greedy.select_covers [] before box after
    rcases hcovers with hin | ⟨other, hother, hclash⟩
    · exact absurd hin hout
    · have hbefore : other ∈ [] ++ before := (Greedy.select_sublist [] before).subset hother
      refine ⟨other, ?_, hbefore, by simpa [clash] using hclash⟩
      rw [Greedy.select_append]
      exact (Greedy.select_keeps _ _).subset hother

/-! ### The boxes of an output -/

section Output

variable (SIZE_MAX : ℕ) (out : NetworkOutput)

/-- The boxes of the valid candidates of an output. -/
def validBoxes : List FinalBox := (candidates SIZE_MAX out).filterMap (validBox false)

theorem finalBoxes_eq :
    finalBoxes SIZE_MAX out =
      Greedy.select (clash nmsThreshold) [] (validBoxes SIZE_MAX out) :=
  nms_eq_select [] _

/-- A kept box is that of a valid candidate, which is the box itself. -/
theorem validBox_candidate {box : FinalBox} (h : box ∈ validBoxes SIZE_MAX out) :
    validBox false box.candidate = some box := by
  obtain ⟨item, -, hvalid⟩ := List.mem_filterMap.mp h
  rwa [← (validBox_spec hvalid).1]

/-- **The kept boxes.**  For every output of the network the boxes that are kept are
valid candidates in their order, no two of which overlap by more than the threshold; a
valid candidate that is left out overlaps one of them that came before it, and if the
candidates come with falling scores that one scores no less.  Selecting from the kept
boxes again keeps them all. -/
theorem kept_boxes :
    Suppresses nmsThreshold (validBoxes SIZE_MAX out) (finalBoxes SIZE_MAX out) ∧
      ((validBoxes SIZE_MAX out).Pairwise (fun a b => b.score ≤ a.score) →
        ∀ box ∈ validBoxes SIZE_MAX out, box ∉ finalBoxes SIZE_MAX out →
          ∃ other ∈ finalBoxes SIZE_MAX out,
            nmsThreshold < CalcIou box other ∧ box.score ≤ other.score) ∧
      MulticlassNms [] ((finalBoxes SIZE_MAX out).map FinalBox.candidate) nmsThreshold false =
        finalBoxes SIZE_MAX out := by
  have hsel : Suppresses nmsThreshold (validBoxes SIZE_MAX out) (finalBoxes SIZE_MAX out) := by
    rw [finalBoxes_eq]
    exact suppresses_select _
  refine ⟨hsel, ?_, ?_⟩
  · intro hfalling box hbox hout
    obtain ⟨before, after, hsplit⟩ := List.append_of_mem hbox
    obtain ⟨other, hother, hbefore, hover⟩ := hsel.covers before box after hsplit hout
    rw [hsplit, List.pairwise_append] at hfalling
    exact ⟨other, hother, hover, hfalling.2.2 other hbefore box List.mem_cons_self⟩
  · -- the candidates of the kept boxes are valid, and stand for these
    have hback : ((finalBoxes SIZE_MAX out).map FinalBox.candidate).filterMap (validBox false) =
        finalBoxes SIZE_MAX out := by
      rw [List.filterMap_map]
      calc _ = (finalBoxes SIZE_MAX out).filterMap some := by
            refine List.filterMap_congr ?_
            intro box hbox
            exact validBox_candidate SIZE_MAX out (hsel.sublist.subset hbox)
        _ = finalBoxes SIZE_MAX out := List.filterMap_some
    rw [nms_eq_select, hback, finalBoxes_eq]
    exact Greedy.select_select _

end Output

end Detections

end IpcMini
