import Mapkeys.Document
import Mapkeys.Proofs.DocumentTokens
import Mapkeys.Proofs.StatementExtent
import Mathlib.Order.Monotone.Basic

/-!
# Relocation

Lines that stand elsewhere with the same texts give the same records, statements and tokens
elsewhere. A relocation says where each offset goes and which number each line gets; it keeps the
order of offsets, and it is steady on a line if it moves all of the line alike.
-/

namespace Mapkeys

open Text

/-- Where offsets and lines go. -/
structure Relocation where
  offset : Nat → Nat
  index : Nat → Nat
  strictMono : StrictMono offset

namespace Relocation

/-- Everything by the given numbers of characters and lines further on. -/
def shift (chars lines : Nat) : Relocation :=
  ⟨(· + chars), (· + lines), fun _ _ less => Nat.add_lt_add_right less chars⟩

/-! ## What is relocated -/

variable (move : Relocation)

def line (line : Line) : Line := ⟨move.index line.index, move.offset line.start, line.text⟩

def piece (piece : Piece) : Piece := ⟨move.offset piece.start, piece.text⟩

def head : LineHead → LineHead
  | .declaration keyword name => .declaration (move.piece keyword) (move.piece name)
  | .continuation marker isRemark => .continuation (move.piece marker) isRemark
  | .blank => .blank
  | .comment => .comment
  | .other => .other

def layout (layout : Layout) : Layout :=
  ⟨move.head layout.head, move.piece layout.body, layout.escapeAt.map move.offset⟩

def statement (statement : Statement) : Statement :=
  { statement with start := move.offset statement.start, stop := move.offset statement.stop }

def place (place : TagPlace) : TagPlace := { place with offset := move.offset place.offset }

def reading (reading : TagReading) : TagReading :=
  ⟨reading.tag, move.offset reading.offset, reading.content.map move.statement⟩

def record (record : Record) : Record :=
  ⟨record.name, move.line record.declaration, record.others.map move.line, record.terminated⟩

/-- What identifies a record once its line has another number. -/
def id (id : Text) : Text :=
  let numbered := id.drop "mapkey_".toList.length
  let digits := numbered.takeWhile (· ≠ '_')
  "mapkey_".toList ++ ofNat (move.index (Nat.ofDigitChars 10 digits 0)) ++
    numbered.drop digits.length

def token (token : Token) : Token :=
  { token with
    start := move.offset token.start
    stop := move.offset token.stop
    record := token.record.map move.id }

def definition (definition : Definition) : Definition :=
  { record := move.record definition.record
    nameToken := definition.nameToken.map move.token
    descriptionToken := definition.descriptionToken.map move.token
    labelToken := definition.labelToken.map move.token
    systemToken := definition.systemToken.map move.token
    callTokens := definition.callTokens.map move.token }

/-! ## Steady parts -/

/-- Everything between two offsets is moved alike. -/
def Steady (low high : Nat) : Prop :=
  ∀ offset, low ≤ offset → offset ≤ high → move.offset offset + low = move.offset low + offset

variable {move}

theorem Steady.mono {low high low' high' : Nat} (steady : move.Steady low high)
    (low_le : low ≤ low') (le_high : high' ≤ high) : move.Steady low' high' := by
  intro offset above below
  have first := steady low' low_le (by omega)
  have second := steady offset (by omega) (by omega)
  omega

theorem Steady.add {low high offset length : Nat} (steady : move.Steady low high)
    (above : low ≤ offset) (below : offset + length ≤ high) :
    move.offset (offset + length) = move.offset offset + length := by
  have first := steady offset above (by omega)
  have second := steady (offset + length) (by omega) below
  omega

theorem steady_shift (chars lines low high : Nat) : (shift chars lines).Steady low high := by
  intro offset _ _
  simp only [shift]
  omega

theorem offset_lt_iff {a b : Nat} : move.offset a < move.offset b ↔ a < b :=
  move.strictMono.lt_iff_lt

theorem offset_inj {a b : Nat} : move.offset a = move.offset b ↔ a = b :=
  move.strictMono.injective.eq_iff

/-! ## Lines -/

theorem withBody_line {line : Line} {column : Nat} (steady : move.Steady line.start line.stop)
    (inside : column ≤ line.text.length) (head : LineHead) :
    Layout.withBody (move.line line) (move.head head) column =
      move.layout (Layout.withBody line head column) := by
  have body : move.offset (line.start + column) = move.offset line.start + column :=
    steady.add (Nat.le_refl _) (by unfold Line.stop; omega)
  have content := trimRight_length_le line.text
  have escape : move.offset (line.start + ((trimRight line.text).length - 1)) =
      move.offset line.start + ((trimRight line.text).length - 1) :=
    steady.add (Nat.le_refl _) (by unfold Line.stop; omega)
  unfold Layout.withBody Relocation.layout Relocation.piece Relocation.line
  dsimp only
  split_ifs
  · simp only [body, escape, Option.map_some]
  · simp only [body, Option.map_none]

theorem pieceAt_line {line : Line} {column length : Nat} (steady : move.Steady line.start line.stop)
    (inside : column ≤ line.text.length) :
    Layout.pieceAt (move.line line) column length = move.piece (Layout.pieceAt line column length) := by
  have start : move.offset (line.start + column) = move.offset line.start + column :=
    steady.add (Nat.le_refl _) (by unfold Line.stop; omega)
  simp only [Layout.pieceAt, Relocation.piece, Relocation.line, start]

/-- A line that is moved has its layout moved. -/
theorem ofLine_line {line : Line} (steady : move.Steady line.start line.stop) :
    Layout.ofLine (move.line line) = move.layout (Layout.ofLine line) := by
  have read := Line.shape_spec line.text
  have text : (move.line line).text = line.text := rfl
  unfold Layout.ofLine
  rw [text]
  cases shape : Line.shape line.text with
  | blank => rfl
  | other => rfl
  | comment column =>
    rw [shape] at read
    have mark := Line.remarked_bounds read
    exact withBody_line steady (Nat.le_of_lt mark) .comment
  | continuation column =>
    rw [shape] at read
    have fits := Line.continued_bounds read
    dsimp only
    rw [pieceAt_line steady (by omega)]
    exact withBody_line steady (afterBlanks_le fits).2 (.continuation _ _)
  | declaration head =>
    rw [shape] at read
    obtain ⟨gap, -, fits⟩ := Line.declared_bounds read
    have name : move.offset (line.start + head.nameColumn) =
        move.offset line.start + head.nameColumn :=
      steady.add (Nat.le_refl _) (by unfold Line.stop; omega)
    dsimp only
    rw [pieceAt_line steady (by omega), ← withBody_line steady (afterBlanks_le fits).2]
    simp only [Relocation.head, Relocation.piece, Relocation.line, name]

/-! ## Records -/

theorem keepsOpen_line (line : Line) : Record.keepsOpen (move.line line) = Record.keepsOpen line := by
  have escaped : (Layout.ofLine (move.line line)).isEscaped = (Layout.ofLine line).isEscaped := by
    have text : (move.line line).text = line.text := rfl
    unfold Layout.ofLine
    rw [text]
    cases Line.shape line.text with
    | blank => rfl
    | other => rfl
    | _ =>
      simp only [Layout.withBody, text]
      split_ifs
      · rfl
      · rfl
  unfold Record.keepsOpen
  rw [escaped]
  rfl

theorem keeps_line : Record.Keeps move.line := ⟨fun _ => rfl, fun _ => rfl, keepsOpen_line⟩

/-- Lines that are moved give the records moved. -/
theorem segment_line (lines : List Line) :
    Record.segment (lines.map move.line) = (Record.segment lines).map move.record :=
  Record.segment_map keeps_line lines

@[simp] theorem lines_record (record : Record) :
    (move.record record).lines = record.lines.map move.line := rfl

/-- The number in what identifies a record can be read off. -/
theorem id_record (record : Record) : move.id record.id = (move.record record).id := by
  unfold Relocation.id Record.id
  generalize "mapkey_".toList = stem
  simp only [List.append_assoc, List.drop_left, List.singleton_append, Record.takeWhile_ofNat]
  rw [show Nat.ofDigitChars 10 (ofNat record.declaration.index) 0 = record.declaration.index from
    Nat.ofDigitChars_ten_toDigits]
  rfl

/-! ## Statements -/

theorem fragment_piece {start : Nat} {t : Text} (steady : move.Steady start (start + t.length)) :
    Statement.fragment (move.offset start) t = (Statement.fragment start t).map move.piece := by
  have indented := indent_le_length t
  unfold Statement.fragment
  split_ifs
  · rfl
  · simp only [List.map_cons, List.map_nil, Relocation.piece]
    rw [steady.add (Nat.le_refl _) (by omega)]

section

variable {layouts : List Layout}
  (steady : ∀ layout ∈ layouts, move.Steady layout.body.start layout.body.stop)

@[simp] theorem holdsStatements_layout (layout : Layout) :
    (move.layout layout).holdsStatements = layout.holdsStatements := by
  obtain ⟨head, body, escapeAt⟩ := layout
  cases head <;> rfl

@[simp] theorem isEscaped_layout (layout : Layout) :
    (move.layout layout).isEscaped = layout.isEscaped := by
  simp [Layout.isEscaped, Relocation.layout]

include steady in
theorem fragments_layout {column : Nat}
    (first : ∀ layout ∈ layouts.head?, column ≤ layout.body.text.length) :
    Statement.fragments column (layouts.map move.layout) =
      ((Statement.fragments column layouts).1.map move.piece,
        (Statement.fragments column layouts).2.map move.offset) := by
  induction layouts generalizing column with
  | nil => rfl
  | cons layout rest ih =>
    have fits := first layout rfl
    have whole := steady layout List.mem_cons_self
    have next := @ih (fun other member => steady other (List.mem_cons_of_mem layout member)) 0
      (fun _ _ => Nat.zero_le _)
    have starts : (move.layout layout).body.start + column =
        move.offset (layout.body.start + column) :=
      (whole.add (Nat.le_refl _) (by unfold Piece.stop; omega)).symm
    have content : (move.layout layout).body.text.drop column = layout.body.text.drop column := rfl
    have steady_from : move.Steady (layout.body.start + column)
        (layout.body.start + column + (layout.body.text.drop column).length) :=
      whole.mono (Nat.le_add_right _ _) (by rw [List.length_drop]; unfold Piece.stop; omega)
    have moved := fragment_piece steady_from
    rw [List.map_cons]
    cases holds : layout.holdsStatements with
    | false =>
      rw [Statement.fragments_skip holds, Statement.fragments_skip (by simpa using holds), next]
    | true =>
      have holds' : (move.layout layout).holdsStatements = true := by simpa using holds
      cases ends : terminator? (layout.body.text.drop column) with
      | some length =>
        have inside := Statement.terminator_lt ends
        rw [Statement.fragments_terminated holds ends,
          Statement.fragments_terminated holds' (content ▸ ends), starts, content,
          fragment_piece (steady_from.mono (Nat.le_refl _) (by rw [List.length_take]; omega)),
          ← steady_from.add (Nat.le_refl _) (by omega)]
        rfl
      | none =>
        cases escaped : layout.isEscaped with
        | true =>
          have escaped' : (move.layout layout).isEscaped = true := by simpa using escaped
          rw [Statement.fragments_escaped holds ends escaped,
            Statement.fragments_escaped holds' (content ▸ ends) escaped', starts, content, moved,
            next, List.map_append]
        | false =>
          have closed' : (move.layout layout).isEscaped = false := by simpa using escaped
          rw [Statement.fragments_closed holds ends escaped,
            Statement.fragments_closed holds' (content ▸ ends) closed', starts, content, moved]
          rfl

theorem ofFragments_piece {pieces : List Piece} {terminatorAt : Option Nat}
    (steady : ∀ piece ∈ pieces, move.Steady piece.start piece.stop) :
    Statement.ofFragments (pieces.map move.piece) (terminatorAt.map move.offset) =
      (Statement.ofFragments pieces terminatorAt).map move.statement := by
  have texts : (pieces.map move.piece).map Piece.text = pieces.map Piece.text := by
    rw [List.map_map]
    rfl
  unfold Statement.ofFragments
  rw [texts, List.head?_map, List.getLast?_map]
  cases head : pieces.head? with
  | none => rfl
  | some first =>
    cases tail : pieces.getLast? with
    | none => rfl
    | some last =>
      have stop : (move.piece last).stop = move.offset last.stop :=
        ((steady last (List.mem_of_getLast? tail)).add (Nat.le_refl _) (Nat.le_refl _)).symm
      cases terminatorAt with
      | none =>
        simp only [Option.map_some, Option.map_none, Option.getD_none, stop]
        rfl
      | some offset => rfl

include steady in
/-- Layouts that are moved give the statements moved. -/
theorem read_layout {position column : Nat}
    (fits : ∀ layout ∈ layouts[position]?, column ≤ layout.body.text.length) :
    Statement.read (layouts.map move.layout) position column =
      (Statement.read layouts position column).map move.statement := by
  rw [← List.head?_drop] at fits
  unfold Statement.read
  rw [← List.map_drop, fragments_layout
    (fun layout member => steady layout (List.mem_of_mem_drop member)) fits]
  refine ofFragments_piece fun piece member => ?_
  obtain ⟨layout, own, -, low, high⟩ := (Statement.fragments_in_bodies fits).1 piece member
  exact (steady layout (List.mem_of_mem_drop own)).mono low high

/-! ## Tags -/

theorem ofLayout_layout (position : Nat) {layout : Layout}
    (steady : move.Steady layout.body.start layout.body.stop) :
    TagPlace.ofLayout position (move.layout layout) =
      (TagPlace.ofLayout position layout).map move.place := by
  unfold TagPlace.ofLayout
  rw [holdsStatements_layout]
  split_ifs
  · rw [List.map_map]
    refine List.map_congr_left fun found member => ?_
    have bounds := Tag.scan_bounds found member
    have body : (move.layout layout).body.text = layout.body.text := rfl
    rw [body] at bounds
    have offset : move.offset (layout.body.start + found.1) =
        move.offset layout.body.start + found.1 :=
      steady.add (Nat.le_refl _) (by unfold Piece.stop; omega)
    simp only [Function.comp, Relocation.place, Relocation.layout, Relocation.piece, offset]
  · rfl

include steady in
theorem all_layout (position : Nat) :
    TagPlace.all position (layouts.map move.layout) =
      (TagPlace.all position layouts).map move.place := by
  induction layouts generalizing position with
  | nil => rfl
  | cons layout rest ih =>
    rw [List.map_cons, TagPlace.all_cons, TagPlace.all_cons, List.map_append,
      ofLayout_layout position (steady layout List.mem_cons_self),
      ih fun other member => steady other (List.mem_cons_of_mem layout member)]

include steady in
/-- Tags are passed over after the move if they are before it. -/
theorem read_place {covered covered' : Tag → Nat} {places : List TagPlace}
    (same : ∀ tag offset, offset < covered tag ↔ move.offset offset < covered' tag)
    (fit : ∀ place ∈ places, ∀ layout ∈ layouts[place.position]?,
      place.column + place.tag.marker.length ≤ layout.body.text.length) :
    TagPlace.read (layouts.map move.layout) covered' (places.map move.place) =
      (TagPlace.read layouts covered places).map move.reading := by
  induction places generalizing covered covered' with
  | nil => rfl
  | cons place rest ih =>
    have later : ∀ other ∈ rest, ∀ layout ∈ layouts[other.position]?,
        other.column + other.tag.marker.length ≤ layout.body.text.length :=
      fun other member => fit other (List.mem_cons_of_mem place member)
    have reading : (move.place place).reading (layouts.map move.layout) =
        move.reading (place.reading layouts) := by
      have content := read_layout steady (fit place List.mem_cons_self)
      simp only [TagPlace.reading, Relocation.reading, Relocation.place, content]
    have skipped : place.offset < covered place.tag ↔
        (move.place place).offset < covered' (move.place place).tag :=
      same place.tag place.offset
    rw [List.map_cons, TagPlace.read_cons, TagPlace.read_cons, reading]
    by_cases inside : place.offset < covered place.tag
    · rw [if_pos inside, if_pos (skipped.mp inside)]
      exact ih same later
    · rw [if_neg inside, if_neg (fun moved => inside (skipped.mpr moved)), List.map_cons]
      refine congrArg _ (ih (fun tag offset => ?_) later)
      unfold TagPlace.cover Relocation.reading
      dsimp only
      cases (place.reading layouts).content with
      | none => exact same tag offset
      | some statement =>
        simp only [Option.map_some]
        split_ifs
        · exact offset_lt_iff.symm
        · exact same tag offset

end

/-! ## Readings of a record -/

/-- Every line of a record is moved alike. -/
def SteadyOn (move : Relocation) (record : Record) : Prop :=
  ∀ line ∈ record.lines, move.Steady line.start line.stop

variable {record : Record} (steady : move.SteadyOn record)

include steady

theorem layouts_record : (move.record record).layouts = record.layouts.map move.layout := by
  unfold Record.layouts
  rw [lines_record, List.map_map, List.map_map]
  exact List.map_congr_left fun line own => ofLine_line (steady line own)

theorem steady_body {layout : Layout} (own : layout ∈ record.layouts) :
    move.Steady layout.body.start layout.body.stop := by
  obtain ⟨line, mine, rfl⟩ := List.mem_map.mp own
  have parts := Layout.ofLine_ordered line
  exact (steady line mine).mono parts.body_start parts.body_stop

/-- A record that is moved has its tags and their contents moved. -/
theorem tagReadings_record :
    (move.record record).tagReadings = record.tagReadings.map move.reading := by
  have bodies : ∀ layout ∈ record.layouts, move.Steady layout.body.start layout.body.stop :=
    fun layout own => steady_body steady own
  unfold Record.tagReadings
  rw [layouts_record steady, all_layout bodies]
  refine read_place bodies (by simp) ?_
  intro place present layout there
  obtain ⟨k, found, position, at_k, on⟩ := TagPlace.exists_on place present
  rw [position, Nat.zero_add, at_k] at there
  cases there
  exact on.fits

end Relocation
end Mapkeys
