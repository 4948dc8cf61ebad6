import Mapkeys.Proofs.LinePlaces
import Mapkeys.Proofs.Passages
import Mapkeys.Proofs.PlainLines
import Mapkeys.Proofs.RecordGrammar

/-!
# Remarks

A remark is a comment that ends in a semicolon and a backslash, or an escaped continuation that
begins with an exclamation mark. Put between two lines of a record, it becomes one more line of that
record, and every definition of the document says what it has said before, whatever the remark
says (`definitions_insertAfter`).
-/

namespace Mapkeys

open Text

/-! ## Lines put into a text -/

namespace Line

/-- The text with a part put in after the line of a number, the first line being zero; after a text
    that has no line feed there, the part comes last. -/
def insertAfter (part : Text) : Nat → Text → Text
  | _, [] => part
  | 0, c :: rest => if c = '\n' then c :: (part ++ rest) else c :: insertAfter part 0 rest
  | n + 1, c :: rest =>
    if c = '\n' then c :: insertAfter part n rest else c :: insertAfter part (n + 1) rest

theorem insertAfter_whole {before : Text} (whole : Whole before) {index : Nat}
    (count : before.count '\n' = index + 1) (part after : Text) :
    insertAfter part index (before ++ after) = before ++ (part ++ after) := by
  induction before generalizing index with
  | nil => simp at count
  | cons c rest ih =>
    rcases whole.cons with ⟨rfl, rfl⟩ | ⟨some, others⟩
    · obtain rfl : index = 0 := by simpa using count
      rfl
    · by_cases feed : c = '\n'
      · subst feed
        rw [List.count_cons_self] at count
        have positive : 0 < rest.count '\n' := by
          rw [List.count_pos_iff]
          exact List.mem_of_getLast? (others.resolve_left some)
        obtain ⟨n, rfl⟩ : ∃ n, index = n + 1 := ⟨index - 1, by omega⟩
        have later := ih others (by omega : rest.count '\n' = n + 1)
        simp [insertAfter, later]
      · rw [List.count_cons_of_ne feed] at count
        have later := ih others count
        cases index with
        | zero => simp [insertAfter, feed, later]
        | succ n => simp [insertAfter, feed, later]

end Line

/-! ## Remarks -/

/-- A line of a record that says nothing. -/
inductive Remark where
  | comment (about : Text)
  | continuation (about : Text)
  deriving Repr, DecidableEq

namespace Remark

/-- What a remark is about. -/
def words : Remark → Text
  | comment about => about
  | continuation about => about

/-- How a remark is written. -/
def text : Remark → Text
  | comment about => '!' :: (about ++ [';', '\\'])
  | continuation about => Line.continuationMarker ++ ' ' :: '!' :: (about ++ ['\\'])

/-- A remark with the end of its line, which may have a carriage return. -/
def line (returned : Bool) (remark : Remark) : Text :=
  remark.text ++ if returned then ['\r', '\n'] else ['\n']

theorem text_flat {remark : Remark} (flat : '\n' ∉ remark.words) : '\n' ∉ remark.text := by
  have marker : '\n' ∉ Line.continuationMarker := by decide
  cases remark with
  | comment about => simpa [text, words] using flat
  | continuation about => simpa [text, words, marker] using flat

theorem trimRight_text (remark : Remark) : trimRight remark.text = remark.text := by
  cases remark with
  | comment about =>
    have ends : text (.comment about) = ('!' :: (about ++ [';'])) ++ ['\\'] := by simp [text]
    rw [ends, trimRight_escape]
  | continuation about =>
    have ends : text (.continuation about) =
        (Line.continuationMarker ++ ' ' :: '!' :: about) ++ ['\\'] := by simp [text]
    rw [ends, trimRight_escape]

/-- A remark is one line. -/
theorem split_line {remark : Remark} (flat : '\n' ∉ remark.words) (returned : Bool) :
    Line.split (remark.line returned) = [⟨0, 0, remark.text⟩] := by
  have plain := text_flat flat
  cases returned with
  | false =>
    have ends : remark.line false = remark.text ++ '\n' :: [] := rfl
    rw [ends, Line.split_break plain, Line.dropReturn_tight (trimRight_text remark)]
    rfl
  | true =>
    have ends : remark.line true = (remark.text ++ ['\r']) ++ '\n' :: [] := by simp [line]
    have kept : Line.dropReturn (remark.text ++ ['\r']) = remark.text := by simp [Line.dropReturn]
    rw [ends, Line.split_break (by simpa using plain), kept]
    rfl

theorem whole_line (returned : Bool) (remark : Remark) : Line.Whole (remark.line returned) := by
  refine .inr ?_
  cases returned with
  | false => simp [line]
  | true => simp [line]

/-- A remark after whole lines is one more line, and the lines behind it are moved. -/
theorem split_insertAfter {remark : Remark} (flat : '\n' ∉ remark.words) (returned : Bool)
    {first : Text} (whole : Line.Whole first) {index : Nat}
    (count : (Line.split first).length = index + 1) (rest : Text) :
    ∃ line chars lines, line.text = remark.text ∧
      Line.split (Line.insertAfter (remark.line returned) index (first ++ rest)) =
        Line.split first ++ line :: (Line.split rest).map (Relocation.shift chars lines).line := by
  have feeds : first.count '\n' = index + 1 := by rw [Line.count_whole whole, count]
  refine ⟨(Relocation.shift first.length (Line.split first).length).line ⟨0, 0, remark.text⟩,
    (first ++ remark.line returned).length, (Line.split (first ++ remark.line returned)).length,
    rfl, ?_⟩
  rw [Line.insertAfter_whole whole feeds, ← List.append_assoc,
    Line.split_append (whole.append (whole_line returned remark))]
  rw [Line.split_append whole, split_line flat returned, List.append_assoc]
  rfl

theorem shape_comment (about : Text) : Line.shape (text (.comment about)) = .comment 0 := rfl

theorem shape_continuation (about : Text) :
    Line.shape (text (.continuation about)) = .continuation 0 := Line.shape_continued _

theorem ofLine_continuation {line : Line} {about : Text}
    (written : line.text = text (.continuation about)) :
    (Layout.ofLine line).isRemark = true ∧ (Layout.ofLine line).isEscaped = true := by
  have escaped : '!' :: (about ++ ['\\']) = ('!' :: about) ++ ['\\'] := by simp
  have solid : Solid ('!' :: (about ++ ['\\'])) := by
    refine ⟨by simp, by simp; decide, ?_⟩
    rw [escaped, trimRight_escape]
  have split : line.text = (Line.continuationMarker ++ [' ']) ++ '!' :: (about ++ ['\\']) := by
    simp [written, text]
  have ends := (Layout.withBody_plain split solid
    (.continuation (Layout.pieceAt line 0 Line.continuationMarker.length) true)).2
  rw [escaped, endsEscaped_escape] at ends
  rw [Layout.ofLine_continued written solid]
  exact ⟨by simp [Layout.isRemark], ends⟩

section

variable {remark : Remark} {line : Line} (written : line.text = remark.text)

include written

theorem canFollow : Record.canFollow line = true := by
  rw [Record.canFollow_iff, Line.kind, Line.kindOf, written]
  cases remark with
  | comment about => exact .inl rfl
  | continuation about =>
    rw [shape_continuation]
    exact .inr rfl

theorem keepsOpen : Record.keepsOpen line = true := by
  rw [Record.keepsOpen_iff (canFollow written), Record.HoldsOpen, Line.kind, Line.kindOf]
  cases remark with
  | comment about =>
    refine .inl ⟨by rw [written]; rfl, ?_⟩
    rw [Line.isCommentEscaped, written, trimRight_text, endsWith, List.isSuffixOf_iff_suffix]
    exact ⟨'!' :: about, rfl⟩
  | continuation about =>
    refine .inr ⟨?_, (ofLine_continuation written).2⟩
    rw [written, shape_continuation]
    rfl

theorem holdsStatements : (Layout.ofLine line).holdsStatements = false := by
  cases remark with
  | comment about =>
    have shape : Line.shape line.text = .comment 0 := by rw [written, shape_comment]
    unfold Layout.ofLine
    rw [shape]
    simp [Layout.holdsStatements, Layout.isRemark]
  | continuation about => simp [Layout.holdsStatements, (ofLine_continuation written).1]

end

end Remark

/-! ## Records that go on -/

namespace Record

/-- The last line of a record is as many lines after its declaration as the record claims. -/
theorem lastLine_index {text : Text} {record : Record}
    (member : record ∈ segment (Line.split text)) :
    record.lastLine.index = record.declaration.index + record.others.length := by
  obtain ⟨earlier, rest, parts⟩ := lines_consecutive record member
  obtain ⟨init, lines⟩ := lines_eq_append record
  have length := congrArg List.length lines
  simp only [Record.lines, List.length_cons, List.length_append, List.length_nil] at length
  have first : Line.split text = earlier ++ record.declaration :: (record.others ++ rest) := by
    simp [← parts, Record.lines]
  have last : Line.split text = (earlier ++ init) ++ record.lastLine :: rest := by
    simp [← parts, lines]
  have low := Line.number_index first
  have high := Line.number_index last
  rw [List.length_append] at high
  omega

/-- A record goes on after the line of a number: that line is its declaration or one that keeps it
    open, and so are those in between, and the next line can follow. -/
structure GoesOn (text : Text) (record : Record) (index : Nat) (earlier before : List Line)
    (next : Line) (following : List Line) : Prop where
  parts : Line.split text = earlier ++ record.declaration :: (before ++ next :: following)
  shape : ∃ head, Line.shape record.declaration.text = .declaration head
  follow : ∀ line ∈ before, canFollow line = true
  holds : ∀ line ∈ before, keepsOpen line = true
  next : canFollow next = true
  length : (earlier ++ record.declaration :: before).length = index + 1

theorem exists_goesOn {text : Text} {record : Record} (member : record ∈ segment (Line.split text))
    {index : Nat} (low : record.declaration.index ≤ index) (high : index < record.lastLine.index) :
    ∃ earlier before next following, GoesOn text record index earlier before next following := by
  obtain ⟨earlier, following, head, parts, shape, declared⟩ := exists_declaration record member
  have claims := claim_claims (Line.isEscaped record.declaration.text) following
  have others : (claim (Line.isEscaped record.declaration.text) following).1 = record.others := by
    conv_rhs => rw [declared]
    rfl
  rw [others] at claims
  obtain ⟨rest, whole⟩ := claims.begins
  have count := lastLine_index member
  have first : record.declaration.index = earlier.length := by
    simpa using Line.number_index parts
  obtain ⟨k, rfl⟩ := Nat.exists_eq_add_of_le low
  have inside : k < record.others.length := by omega
  have split : record.others =
      record.others.take k ++ record.others[k] :: record.others.drop (k + 1) := by
    rw [List.getElem_cons_drop, List.take_append_drop]
  have divided : following =
      record.others.take k ++ record.others[k] :: (record.others.drop (k + 1) ++ rest) := by
    calc following = record.others ++ rest := whole.symm
      _ = (record.others.take k ++ record.others[k] :: record.others.drop (k + 1)) ++ rest := by
        rw [← split]
      _ = _ := by rw [List.append_assoc, List.cons_append]
  refine ⟨earlier, record.others.take k, record.others[k], record.others.drop (k + 1) ++ rest, ?_⟩
  refine ⟨by rw [← divided, parts], ⟨head, shape⟩, ?_, ?_, ?_, ?_⟩
  · exact fun line taken => claims.follow line (List.mem_of_mem_take taken)
  · intro line taken
    refine claims.inner line ?_
    rw [List.dropLast_eq_take]
    exact (List.take_prefix_take_left (by omega)).subset taken
  · exact claims.follow _ (List.getElem_mem inside)
  · simp only [List.length_append, List.length_cons, List.length_take]
    omega

section

variable {before : List Line} (follow : ∀ line ∈ before, canFollow line = true)

include follow

/-- A record goes through the lines that keep it open. -/
theorem claim_through (holds : ∀ line ∈ before, keepsOpen line = true) {next : Line}
    (follows : canFollow next = true) (isOpen : Bool) (rest : List Line) :
    claim isOpen (before ++ next :: rest) =
      (before ++ (claim true (next :: rest)).1, (claim true (next :: rest)).2) := by
  induction before generalizing isOpen with
  | nil => simp [claim, follows]
  | cons line others ih =>
    have later := ih (fun other member => follow other (List.mem_cons_of_mem line member))
      (fun other member => holds other (List.mem_cons_of_mem line member)) true
    rw [List.cons_append, claim, if_pos (follow line List.mem_cons_self),
      if_pos (holds line List.mem_cons_self), later]
    rfl

/-- The records before a declaration, the one that it begins, and those of the lines that follow. -/
theorem segment_through (holds : ∀ line ∈ before, keepsOpen line = true) {next : Line}
    (follows : canFollow next = true) {declaration : Line} {head : Line.Declared}
    (shape : Line.shape declaration.text = .declaration head) (earlier rest : List Line) :
    segment (earlier ++ declaration :: (before ++ next :: rest)) =
      segment earlier ++ ⟨head.name, declaration, before ++ (claim true (next :: rest)).1,
        !(claim true (next :: rest)).2⟩ :: segment (next :: rest) := by
  have closes : ∀ line ∈ (declaration :: (before ++ next :: rest)).head?,
      canFollow line = false := by
    simp [canFollow, Line.kind, Line.kindOf, shape, Line.Shape.kind]
  rw [segment_append closes, segment, shape]
  dsimp only
  rw [segment_append_of_canFollow follow, ofDeclaration, claim_through follow holds follows]

end

end Record

/-! ## What the lines say -/

/-- What the definitions of lines say. -/
def Record.gists (lines : List Line) : List Gist :=
  (Record.segment lines).map fun record => (Definition.ofRecord record).gist

namespace Relocation

variable (chars lines : Nat)

theorem passages_shift (document : List Line) :
    Layout.passages ((document.map (shift chars lines).line).map Layout.ofLine) =
      Layout.passages (document.map Layout.ofLine) := by
  induction document with
  | nil => rfl
  | cons line rest ih =>
    have layout := ofLine_line (steady_shift chars lines line.start line.stop)
    rw [List.map_cons, List.map_cons, List.map_cons, layout]
    cases holds : (Layout.ofLine line).holdsStatements with
    | true =>
      rw [Layout.passages_holds holds, Layout.passages_holds (by simp [holds]), ih,
        isEscaped_layout]
      rfl
    | false => rw [Layout.passages_skip holds, Layout.passages_skip (by simp [holds]), ih]

theorem gists_shift (document : List Line) :
    Record.gists (document.map (shift chars lines).line) = Record.gists document := by
  unfold Record.gists
  rw [segment_line, List.map_map]
  refine List.map_congr_left fun record _ => ?_
  exact Definition.gist_of_tokens (tokens_record fun _ _ => steady_shift chars lines _ _)
    (fun _ => rfl) (fun _ => rfl) rfl rfl

end Relocation

namespace Record

section

variable {before : List Line} (follow : ∀ line ∈ before, canFollow line = true)
  (holds : ∀ line ∈ before, keepsOpen line = true) {next : Line} (follows : canFollow next = true)
  {declaration : Line} {head : Line.Declared}
  (shape : Line.shape declaration.text = .declaration head)

include follow holds follows shape

/-- Lines in which a record goes on say what the lines before the record say, what its passages say
    and what the lines from the next one on say, wherever these are moved. -/
theorem gists_through {earlier rest : List Line} {chars lines : Nat}
    (ordered : (earlier ++ declaration ::
      (before ++ (next :: rest).map (Relocation.shift chars lines).line)).Pairwise Line.Before) :
    gists (earlier ++ declaration ::
        (before ++ (next :: rest).map (Relocation.shift chars lines).line)) =
      gists earlier ++ Passage.gist head.name (!(claim true (next :: rest)).2)
        (Layout.passages ((declaration :: before).map Layout.ofLine) ++
          Layout.passages ((claim true (next :: rest)).1.map Layout.ofLine)) ::
        gists (next :: rest) := by
  have moved : canFollow ((Relocation.shift chars lines).line next) = true := by
    rw [Relocation.keeps_line.canFollow, follows]
  have segmented := segment_through follow holds moved shape earlier
    (rest.map (Relocation.shift chars lines).line)
  rw [← List.map_cons, claim_map Relocation.keeps_line] at segmented
  obtain ⟨record, made⟩ : ∃ record : Record, record = ⟨head.name, declaration,
      before ++ (claim true (next :: rest)).1.map (Relocation.shift chars lines).line,
      !(claim true (next :: rest)).2⟩ := ⟨_, rfl⟩
  rw [← made] at segmented
  have member : record ∈ segment (earlier ++ declaration ::
      (before ++ (next :: rest).map (Relocation.shift chars lines).line)) := by
    rw [segmented]
    simp
  have said := gist_passages ordered member
  have layouts : Layout.passages record.layouts =
      Layout.passages ((declaration :: before).map Layout.ofLine) ++
        Layout.passages ((claim true (next :: rest)).1.map Layout.ofLine) := by
    rw [← Relocation.passages_shift chars lines (claim true (next :: rest)).1,
      ← Layout.passages_append, ← List.map_append, made]
    rfl
  rw [layouts] at said
  rw [← Relocation.gists_shift chars lines (next :: rest), gists, segmented, List.map_append,
    List.map_cons, said, made]
  rfl

/-- A line that says nothing is passed over, and the lines after it may be moved. -/
theorem gists_insert {line : Line} (open_line : canFollow line = true ∧ keepsOpen line = true)
    (silent : (Layout.ofLine line).holdsStatements = false) {earlier rest : List Line}
    {chars lines chars' lines' : Nat}
    (ordered : (earlier ++ declaration ::
      (before ++ (next :: rest).map (Relocation.shift chars lines).line)).Pairwise Line.Before)
    (ordered' : (earlier ++ declaration :: ((before ++ [line]) ++
      (next :: rest).map (Relocation.shift chars' lines').line)).Pairwise Line.Before) :
    gists (earlier ++ declaration :: ((before ++ [line]) ++
        (next :: rest).map (Relocation.shift chars' lines').line)) =
      gists (earlier ++ declaration ::
        (before ++ (next :: rest).map (Relocation.shift chars lines).line)) := by
  have follow' : ∀ other ∈ before ++ [line], canFollow other = true := by
    simpa [or_imp, forall_and, open_line.1] using follow
  have holds' : ∀ other ∈ before ++ [line], keepsOpen other = true := by
    simpa [or_imp, forall_and, open_line.2] using holds
  have nothing : Layout.passages ((declaration :: (before ++ [line])).map Layout.ofLine) =
      Layout.passages ((declaration :: before).map Layout.ofLine) := by
    have last : Layout.passages [Layout.ofLine line] = [] := Layout.passages_skip silent
    rw [← List.cons_append, List.map_append, Layout.passages_append, List.map_singleton, last,
      List.append_nil]
  rw [gists_through follow holds follows shape ordered,
    gists_through follow' holds' follows shape ordered', nothing]

end

end Record

namespace Document

theorem gists_parse (text : Text) :
    (parse text).definitions.map Definition.gist = Record.gists (Line.split text) :=
  List.map_map

/-- A remark after any line of a record but its last one leaves the definitions of the document, and
    what each of them says. -/
theorem definitions_insertAfter {text : Text} {record : Record}
    (member : record ∈ (parse text).records) {index : Nat}
    (low : record.declaration.index ≤ index) (high : index < record.lastLine.index)
    {remark : Remark} (flat : '\n' ∉ remark.words) (returned : Bool) :
    (parse (Line.insertAfter (remark.line returned) index text)).definitions.map Definition.gist =
      (parse text).definitions.map Definition.gist := by
  obtain ⟨earlier, before, next, following, goesOn⟩ := Record.exists_goesOn member low high
  obtain ⟨head, shape⟩ := goesOn.shape
  have parts : Line.split text =
      (earlier ++ record.declaration :: before) ++ next :: following := by
    rw [goesOn.parts]
    simp
  -- the text is cut before the next line of the record, and the remark goes in between
  obtain ⟨first, raw, rest, stands, lines, later⟩ := Line.exists_cut parts
  obtain ⟨line, chars, moved, written, inserted⟩ := Remark.split_insertAfter flat returned
    stands.whole (by rw [lines, goesOn.length]) (raw ++ rest)
  rw [← stands.parts, lines] at inserted
  cases document : Line.split (raw ++ rest) with
  | nil => simp [document] at later
  | cons origin others =>
    rw [document] at later inserted
    have follows : Record.canFollow origin = true := by
      have same := (List.cons.inj later).1
      rw [← Relocation.keeps_line.canFollow origin, same]
      exact goesOn.next
    have new : Line.split (Line.insertAfter (remark.line returned) index text) =
        earlier ++ record.declaration :: ((before ++ [line]) ++
          (origin :: others).map (Relocation.shift chars moved).line) := by
      rw [inserted]
      simp
    have ordered := Line.split_pairwise text
    have ordered' := Line.split_pairwise (Line.insertAfter (remark.line returned) index text)
    rw [goesOn.parts, ← later] at ordered
    rw [new] at ordered'
    rw [gists_parse, gists_parse, new, goesOn.parts, ← later]
    exact Record.gists_insert goesOn.follow goesOn.holds follows shape
      ⟨Remark.canFollow written, Remark.keepsOpen written⟩ (Remark.holdsStatements written)
      ordered ordered'

/-- A label over two lines of a record, and another record. -/
def carried : Text := "mapkey a @MAPKEY_LABEL x\\\nmapkey(continued) y;%b;\nmapkey b z".toList

/-- The record with the label. -/
def carriedRecord : Record where
  name := "a".toList
  declaration := ⟨0, 0, "mapkey a @MAPKEY_LABEL x\\".toList⟩
  others := [⟨1, 26, "mapkey(continued) y;%b;".toList⟩]
  terminated := true

/-- A remark in the middle of the label that looks like statements and a declaration. -/
theorem carried_insertAfter :
    let remark := Remark.comment "@MAPKEY_LABEL no; %c; mapkey d".toList
    carriedRecord ∈ (parse carried).records ∧
      carriedRecord.declaration.index ≤ 0 ∧ 0 < carriedRecord.lastLine.index ∧
      '\n' ∉ remark.words ∧
      (parse (Line.insertAfter (remark.line true) 0 carried)).definitions.map Definition.gist =
        [⟨"a".toList, none, some "x y".toList, none, ["b".toList], true⟩,
          ⟨"b".toList, none, none, none, [], true⟩] := by
  intro remark
  have member : carriedRecord ∈ (parse carried).records := by decide +kernel
  have low : carriedRecord.declaration.index ≤ 0 := by decide
  have high : 0 < carriedRecord.lastLine.index := by decide
  have flat : '\n' ∉ remark.words := by decide
  refine ⟨member, low, high, flat, ?_⟩
  rw [definitions_insertAfter member low high flat]
  decide +kernel

end Document

end Mapkeys
