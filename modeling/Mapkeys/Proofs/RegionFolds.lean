import Mapkeys.Proofs.LinePlaces
import Mapkeys.Proofs.RegionMarks
import Mapkeys.Proofs.Sessions

/-!
# What can be folded

The regions that can be folded are the pairs of marks with balanced ones between them, outside the
records, and the other folds are the records of several lines. No two folds begin or end on the same
line, and they lie inside each other or apart (`Document.folds_matched`).
-/

namespace Mapkeys

open DyckStep

/-! ## Folds that fit -/

namespace Fold

/-- One fold ends before the other one begins. -/
def Apart (a b : Fold) : Prop := a.endLine < b.startLine ∨ b.endLine < a.startLine

/-- The lines of one fold are lines of the other one. -/
def Inside (a b : Fold) : Prop := b.startLine ≤ a.startLine ∧ a.endLine ≤ b.endLine

/-- Two folds neither cross nor share their first or their last line. -/
structure Fits (a b : Fold) : Prop where
  starts : a.startLine ≠ b.startLine
  ends : a.endLine ≠ b.endLine
  nested : a.Apart b ∨ a.Inside b ∨ b.Inside a

theorem Fits.symm {a b : Fold} (fits : Fits a b) : Fits b a where
  starts := fits.starts.symm
  ends := fits.ends.symm
  nested := by
    rcases fits.nested with apart | inside | around
    · exact .inl apart.symm
    · exact .inr (.inr inside)
    · exact .inr (.inl around)

theorem fits_of_lt {a b : Fold} (order : a.startLine < a.endLine) (order' : b.startLine < b.endLine)
    (before : a.endLine < b.startLine) : Fits a b :=
  ⟨by omega, by omega, .inl (.inl before)⟩

theorem le_iff (a b : Fold) :
    a.le b = true ↔
      a.startLine < b.startLine ∨ a.startLine = b.startLine ∧ a.endLine ≤ b.endLine := by
  unfold le
  split_ifs with starts
  · rw [decide_eq_true_iff]
    omega
  · rw [decide_eq_true_iff]
    omega

theorem le_total (a b : Fold) : a.le b = true ∨ b.le a = true := by
  rw [le_iff, le_iff]
  omega

theorem le_trans (a b c : Fold) (first : a.le b = true) (second : b.le c = true) :
    a.le c = true := by
  rw [le_iff] at *
  omega

/-- Folds that fit are listed by their first lines, which all differ. -/
theorem sortBy_fits {folds : List Fold} (fit : folds.Pairwise Fits) :
    (sortBy le folds).Pairwise fun a b => a.startLine < b.startLine ∧ Fits a b := by
  have kept : (sortBy le folds).Pairwise Fits :=
    ((sortBy_perm le folds).pairwise_iff Fits.symm).mpr fit
  refine ((sortBy_pairwise le_total le_trans folds).and kept).imp fun {a b} both => ?_
  have before := (le_iff a b).mp both.1
  have differ := both.2.starts
  exact ⟨by omega, both.2⟩

end Fold

/-! ## Regions -/

namespace Document

/-- Two lines that no record claims, which begin and end a region, and the marks on such lines
    between them are balanced. -/
structure Region (document : Document) (first last : Nat) : Prop where
  order : first < last
  begins : ∃ line, document.lines[first]? = some line ∧ document.IsFree line ∧
    Marker.Marks U line.text
  ends : ∃ line, document.lines[last]? = some line ∧ document.IsFree line ∧
    Marker.Marks D line.text
  balanced : ∃ word : DyckWord,
    word.toList = (document.marks.filter (Bracket.isBetween first last)).map Bracket.step

theorem mem_marks_iff {text : Text} {index : Nat} {step : DyckStep} :
    ⟨index, step⟩ ∈ (parse text).marks ↔
      ∃ line, (parse text).lines[index]? = some line ∧ (parse text).IsFree line ∧
        Marker.Marks step line.text := by
  have place (line : Line) : (parse text).lines[index]? = some line ↔
      line ∈ (parse text).lines ∧ line.index = index := Line.getElem_split_iff
  simp only [mem_marks, place, and_assoc]

theorem region_iff {text : Text} {first last : Nat} :
    (parse text).Region first last ↔ Bracket.Pairs (parse text).marks first last := by
  rw [Bracket.pairs_iff (marks_pairwise text), mem_marks_iff, mem_marks_iff]
  constructor
  · rintro ⟨order, begins, ends, balanced⟩
    exact ⟨order, begins, ends, balanced⟩
  · rintro ⟨order, begins, ends, balanced⟩
    exact ⟨order, begins, ends, balanced⟩

theorem mem_regions_iff {text : Text} {fold : Fold} :
    fold ∈ Fold.regions (parse text).lines [] (parse text).tokens ↔
      fold.kind = .region ∧ (parse text).Region fold.startLine fold.endLine := by
  rw [regions_eq, region_iff, ← Bracket.mem_matched_iff]
  obtain ⟨first, last, kind⟩ := fold
  constructor
  · intro member
    obtain ⟨pair, matched, same⟩ := List.mem_map.mp member
    cases same
    exact ⟨rfl, matched⟩
  · rintro ⟨rfl, matched⟩
    exact List.mem_map_of_mem matched

theorem regions_fit (text : Text) :
    (Fold.regions (parse text).lines [] (parse text).tokens).Pairwise Fold.Fits := by
  have ordered : ((parse text).marks.map Bracket.line).Pairwise (· < ·) :=
    List.pairwise_map.mpr (marks_pairwise text)
  have order {pair : Nat × Nat} (member : pair ∈ Bracket.matched [] (parse text).marks) :
      pair.1 < pair.2 :=
    (region_iff.mpr (Bracket.mem_matched_iff.mp member)).order
  rw [regions_eq, List.pairwise_map]
  refine List.Pairwise.imp_of_mem (fun {pair later} own other both => ?_)
    (Bracket.matched_pairwise ordered)
  have less := order own
  have less' := order other
  obtain ⟨last, apart | around⟩ := both
  · exact Fold.fits_of_lt less less' apart
  · exact ⟨Nat.ne_of_gt around, Nat.ne_of_lt last, .inr (.inl ⟨around.le, last.le⟩)⟩

end Document

/-! ## Records of several lines -/

namespace Record

section

variable {text : Text} {record : Record} (member : record ∈ (Document.parse text).records)

include member

theorem index_lt_iff :
    record.declaration.index < record.lastLine.index ↔ 1 < record.lines.length := by
  have pairwise := lines_pairwise (Line.split_pairwise text) member
  unfold lines at pairwise
  unfold lines lastLine
  cases last : record.others.getLast? with
  | none => simp [List.getLast?_eq_none_iff.mp last]
  | some line =>
    have own : line ∈ record.others := List.mem_of_getLast? last
    have before := (List.pairwise_cons.mp pairwise).1 line own
    have positive := List.length_pos_of_mem own
    simp [before.index, positive]

/-- A line that no record claims stands before or after the record. -/
theorem index_before_or_after {line : Line} {index : Nat}
    (there : (Document.parse text).lines[index]? = some line)
    (free : (Document.parse text).IsFree line) :
    index < record.declaration.index ∨ record.lastLine.index < index := by
  obtain ⟨present, rfl⟩ := Line.getElem_split_iff.mp there
  exact (line_before_or_after (Line.split_pairwise text) member present (free record member)).imp
    Line.Before.index Line.Before.index

end

end Record

namespace Document

theorem mem_recordFolds_iff {text : Text} {fold : Fold} :
    fold ∈ Fold.records (parse text).records ↔
      fold.kind = .mapkey ∧ ∃ record ∈ (parse text).records, 1 < record.lines.length ∧
        record.declaration.index = fold.startLine ∧ record.lastLine.index = fold.endLine := by
  obtain ⟨first, last, kind⟩ := fold
  simp only [Fold.records, List.mem_map, List.mem_filter, decide_eq_true_iff, Fold.mk.injEq]
  constructor
  · rintro ⟨record, ⟨member, several⟩, rfl, rfl, rfl⟩
    exact ⟨rfl, record, member, (Record.index_lt_iff member).mp several, rfl, rfl⟩
  · rintro ⟨rfl, record, member, several, rfl, rfl⟩
    exact ⟨record, ⟨member, (Record.index_lt_iff member).mpr several⟩, rfl, rfl, rfl⟩

theorem recordFolds_fit (text : Text) : (Fold.records (parse text).records).Pairwise Fold.Fits := by
  have apart : (parse text).records.Pairwise fun record later =>
      record.lastLine.index < later.declaration.index :=
    (Record.segment_pairwise (Line.split_pairwise text)).imp fun {record later} before =>
      (before _ (Record.lastLine_mem record) _ (Record.declaration_mem later)).index
  refine List.pairwise_map.mpr ((apart.filter _).imp_of_mem fun {record later} own other before => ?_)
  have several : record.declaration.index < record.lastLine.index := by
    simpa using List.of_mem_filter own
  have several' : later.declaration.index < later.lastLine.index := by
    simpa using List.of_mem_filter other
  exact Fold.fits_of_lt several several' before

/-- A record lies inside a region or apart from it. -/
theorem region_fits_record {text : Text} {a b : Fold}
    (region : a ∈ Fold.regions (parse text).lines [] (parse text).tokens)
    (several : b ∈ Fold.records (parse text).records) : Fold.Fits a b := by
  obtain ⟨-, order, ⟨first, there, free, -⟩, ⟨last, there', free', -⟩, -⟩ := mem_regions_iff.mp region
  obtain ⟨-, record, member, long, starts, ends⟩ := mem_recordFolds_iff.mp several
  have less := (Record.index_lt_iff member).mpr long
  have beginning := Record.index_before_or_after member there free
  have ending := Record.index_before_or_after member there' free'
  rw [starts, ends] at less beginning ending
  refine ⟨by omega, by omega, ?_⟩
  unfold Fold.Apart Fold.Inside
  omega

/-- The folds of a document: the regions, the records of several lines, and nothing that crosses. -/
structure Folded (document : Document) (folds : List Fold) : Prop where
  region : ∀ first last, ⟨first, last, .region⟩ ∈ folds ↔ document.Region first last
  mapkey : ∀ first last, ⟨first, last, .mapkey⟩ ∈ folds ↔
    ∃ record ∈ document.records, 1 < record.lines.length ∧
      record.declaration.index = first ∧ record.lastLine.index = last
  starts : folds.Pairwise fun a b => a.startLine < b.startLine
  ends : (folds.map Fold.endLine).Nodup
  nested : ∀ a ∈ folds, ∀ b ∈ folds, a.Apart b ∨ a.Inside b ∨ b.Inside a

theorem mem_folds {text : Text} {fold : Fold} :
    fold ∈ (parse text).folds ↔ fold ∈ Fold.regions (parse text).lines [] (parse text).tokens ∨
      fold ∈ Fold.records (parse text).records :=
  (sortBy_perm Fold.le _).mem_iff.trans List.mem_append

theorem folded (text : Text) : Folded (parse text) (parse text).folds := by
  have fit : (parse text).folds.Pairwise fun a b => a.startLine < b.startLine ∧ Fold.Fits a b :=
    Fold.sortBy_fits (List.pairwise_append.mpr
      ⟨regions_fit text, recordFolds_fit text, fun _ region _ several =>
        region_fits_record region several⟩)
  constructor
  · intro first last
    simp [mem_folds, mem_regions_iff, mem_recordFolds_iff]
  · intro first last
    simp [mem_folds, mem_regions_iff, mem_recordFolds_iff]
  · exact fit.imp fun both => both.1
  · exact List.pairwise_map.mpr (fit.imp fun both => both.2.ends)
  · intro a first b second
    rcases Record.pairwise_cases fit first second with rfl | before | after
    · exact .inr (.inl ⟨Nat.le_refl _, Nat.le_refl _⟩)
    · exact before.2.nested
    · exact after.2.symm.nested

/-- A record in the second of two regions that begin. -/
def sheltered : Text := "! region\n!region b\nmapkey a x\\\nmapkey(continued) y\n!Endregion".toList

example : (parse sheltered).folds = [⟨1, 4, .region⟩, ⟨2, 3, .mapkey⟩] := by decide +kernel

/-- Whatever a session has been asked before, it answers with the folds of the text: the pairs of
    balanced marks outside the records and the records of several lines, each with a first and a
    last line of its own, and none across another one. -/
theorem folds_matched (text : Text) (config : Config) (asked : List (FileTree × Session.Query))
    (files : FileTree) :
    ∃ folds, ((Session.ask files (.folds text)).run (Session.after config asked)).1 =
        .ok (.folds folds) ∧ Folded (parse text) folds :=
  ⟨_, Session.ask_after config asked files (.folds text), folded text⟩

end Document
end Mapkeys
