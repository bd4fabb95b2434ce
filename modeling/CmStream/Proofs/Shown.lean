import CmStream.CommandLine.Session
import CmStream.Proofs.Text.Reading
import CmStream.Shown

/-!
# Every line shows what it is about

The lines of a listing and of events are read back, number by number and register by register. None
of them has an end of line within, so that a text of them falls apart into the same lines again.
-/

namespace CmStream

open Text

/-! ## Registers -/

theorem FarPointer.words_text (p : FarPointer) :
    words p.text = [hex 4 p.segment.toNat, hex 4 p.offset.toNat] := by
  have hcolon : words ":" = [] := by decide
  rw [text, words_append_between _ (by decide) (by decide), words_hex, words_hex, hcolon]
  rfl

theorem FarPointer.oneLine_text (p : FarPointer) : OneLine p.text := by
  rw [text, oneLine_append, oneLine_append]
  exact ⟨⟨oneLine_hex _ _, by decide⟩, oneLine_hex _ _⟩

namespace Registers

variable {name : String} {value : Word}

theorem words_of_mem_named {r : Registers} (h : (name, value) ∈ r.named) : words name = [name] := by
  have hname : name ∈ r.named.map Prod.fst := List.mem_map_of_mem h
  have hall : ∀ name ∈ r.named.map Prod.fst, words name = [name] := by
    have hnames : ∀ name ∈ Registers.initial.named.map Prod.fst, words name = [name] := by decide
    exact hnames
  exact hall name hname

/-- The words of a line of registers are the names and the values in turn. -/
theorem words_text (r : Registers) :
    words r.text = r.named.flatMap fun (name, value) => [name, hex 4 value.toNat] := by
  rw [text, words_intercalate, List.flatMap_map]
  refine List.flatMap_congr fun (name, value) hmem => ?_
  have hequals : words "=" = [] := by decide
  rw [words_append_between name (by decide) (by decide), words_hex, hequals,
    words_of_mem_named hmem]
  rfl

theorem ofWords?_text (r : Registers) : ofWords? (words r.text) = some r := by
  rw [words_text]
  simp [ofWords?, named, pairs, List.lookup_cons, fourDigits?_hex]

theorem oneLine_text (r : Registers) : OneLine r.text := by
  have hnames : ∀ name ∈ r.named.map Prod.fst, OneLine name := by
    have hall : ∀ name ∈ Registers.initial.named.map Prod.fst, OneLine name := by decide
    exact hall
  rw [text]
  refine oneLine_intercalate fun text hmem => ?_
  obtain ⟨⟨name, value⟩, hnamed, rfl⟩ := List.mem_map.mp hmem
  rw [oneLine_append, oneLine_append]
  exact ⟨⟨hnames name (List.mem_map_of_mem hnamed), by decide⟩, oneLine_hex _ _⟩

end Registers

/-! ## Events -/

/-- The line of an event shows it. -/
theorem Event.shown_text (event : Event) : event.Shown event.text := by
  cases event with
  | imageFound offset padding =>
    refine ⟨toString offset, toString padding, ?_, decimal?_toString _, decimal?_toString _⟩
    unfold text
    dsimp only
    simp (disch := decide) only [words_append_of_opens, words_append_between,
      words_append_of_closes, words_toString]
    rfl
  | imageLoaded paragraphs entry =>
    refine ⟨toString paragraphs.toNat, markedHex 4 entry.toNat, ?_, decimal?_toString _,
      marked?_markedHex _ _⟩
    unfold text
    dsimp only
    simp (disch := decide) only [words_append_between, words_append_of_closes, words_toString,
      words_markedHex]
    rfl
  | callBegun offset compressedLength uncompressedLength control =>
    refine ⟨toString offset, toString compressedLength.toNat, toString uncompressedLength.toNat,
      markedHex 4 control.toNat, ?_, decimal?_toString _, decimal?_toString _,
      decimal?_toString _, marked?_markedHex _ _⟩
    unfold text
    dsimp only
    simp (disch := decide) only [words_append_between, words_append_of_closes, words_toString,
      words_markedHex]
    rfl
  | instruction registers =>
    refine ⟨hex 4 registers.cs.toNat, hex 4 registers.ip.toNat, words registers.text, ?_,
      fourDigits?_hex _, fourDigits?_hex _, registers.ofWords?_text⟩
    have hblank : words " " = [] := by decide
    unfold text
    dsimp only
    simp (disch := decide) only [words_append_between, FarPointer.words_text, hblank,
      Registers.codePointer, List.append_nil, List.cons_append, List.nil_append]
  | halted steps =>
    refine ⟨toString steps, ?_, decimal?_toString _⟩
    unfold text
    dsimp only
    simp (disch := decide) only [words_append_of_opens, words_append_of_closes, words_toString]
    rfl
  | stopped stop =>
    cases stop with
    | gaveUp place cause =>
      refine ⟨hex 4 place.segment.toNat, hex 4 place.offset.toNat, ?_, fourDigits?_hex _,
        fourDigits?_hex _⟩
      have hstopped : words "stopped: " = ["stopped"] := by decide
      have hat : words " at " = ["at"] := by decide
      unfold text
      dsimp only [Stop.message]
      simp (disch := decide) only [words_append_between, words_append_of_closes,
        FarPointer.words_text, hstopped, hat, List.append_assoc, List.cons_append, List.nil_append]
    | stepLimit steps =>
      refine ⟨toString steps, ?_, decimal?_toString _⟩
      unfold text
      dsimp only [Stop.message]
      simp (disch := decide) only [words_append_of_opens, words_append_of_closes, words_toString]
      rfl
  | callEnded registers => exact registers.ofWords?_text
  | finished length =>
    refine ⟨toString length, ?_, decimal?_toString _⟩
    unfold text
    dsimp only
    simp (disch := decide) only [words_append_of_opens, words_append_of_closes, words_toString]
    rfl

/-- The lines of some events show them, one by one. -/
theorem Event.forall₂_shown (events : List Event) :
    List.Forall₂ Event.Shown events (events.map Event.text) := by
  rw [List.forall₂_map_right_iff, List.forall₂_same]
  exact fun event _ => event.shown_text

/-! ### Without an end of line -/

theorem Fault.oneLine_message (fault : Fault) : OneLine fault.message := by
  obtain ⟨address, access⟩ := fault
  unfold message
  cases access with
  | read | write | execute =>
    simp only [oneLine_append, oneLine_markedHex, and_true]
    decide

theorem Cause.oneLine_message (cause : Cause) : OneLine cause.message := by
  unfold message
  cases cause with
  | fault fault => exact fault.oneLine_message
  | undefinedOpcode | unsupportedOpcode | interrupt =>
    simp only [oneLine_append, oneLine_markedHex, and_true]
    decide
  | divideError => decide

theorem Stop.oneLine_message (stop : Stop) : OneLine stop.message := by
  unfold message
  cases stop with
  | gaveUp place cause =>
    simp only [oneLine_append, Cause.oneLine_message, FarPointer.oneLine_text, true_and, and_true]
    decide
  | stepLimit steps =>
    simp only [oneLine_append, oneLine_toString, and_true]
    decide

theorem Event.oneLine_text (event : Event) : OneLine event.text := by
  unfold text
  cases event with
  | callEnded registers => exact registers.oneLine_text
  | imageFound | imageLoaded | callBegun | instruction | halted | stopped | finished =>
    simp only [oneLine_append, oneLine_toString, oneLine_markedHex, FarPointer.oneLine_text,
      Registers.oneLine_text, Stop.oneLine_message, true_and, and_true]
    decide

/-! ## Listings -/

namespace Listing

variable {container : Container} {block : Block} {header : BlockHeader}

theorem words_line (offset compressed uncompressed control : String) :
    words (line offset compressed uncompressed control)
      = words offset ++ (words compressed ++ (words uncompressed ++ words control)) := by
  rw [line, words_intercalate]
  simp only [List.flatMap_cons, List.flatMap_nil, List.append_nil, words_rightAligned]

theorem oneLine_line {offset compressed uncompressed control : String} (hoffset : OneLine offset)
    (hcompressed : OneLine compressed) (huncompressed : OneLine uncompressed)
    (hcontrol : OneLine control) : OneLine (line offset compressed uncompressed control) := by
  refine oneLine_intercalate fun text hmem => ?_
  simp only [List.mem_cons, List.not_mem_nil, or_false] at hmem
  rcases hmem with rfl | rfl | rfl | rfl
  · exact oneLine_rightAligned 8 hoffset
  · exact oneLine_rightAligned 10 hcompressed
  · exact oneLine_rightAligned 12 huncompressed
  · exact oneLine_rightAligned 7 hcontrol

/-- The row of a block shows it. -/
theorem showsBlock_text (h : block.header = .ok header) :
    ShowsBlock block (Row.text ⟨block.offset, block.compressedLength, block.uncompressedLength,
      header.control⟩) := by
  refine ⟨header, toString block.offset, toString block.compressedLength.toNat,
    toString block.uncompressedLength.toNat, markedHex 5 header.control.toNat, h, ?_,
    decimal?_toString _, decimal?_toString _, decimal?_toString _, marked?_markedHex _ _⟩
  rw [Row.text, words_line, words_toString, words_toString, words_toString, words_markedHex]
  rfl

theorem showsImage_imageLine (image : Image) : ShowsImage image (imageLine image) := by
  refine ⟨toString image.offset, toString image.paragraphs.toNat, markedHex 4 image.entry.toNat, ?_,
    decimal?_toString _, decimal?_toString _, marked?_markedHex _ _⟩
  unfold imageLine
  simp (disch := decide) only [words_append_between, words_append_of_closes, words_toString,
    words_markedHex]
  rfl

theorem showsTotal_totalLine (rows : List Row) : ShowsTotal (total rows) (totalLine rows) := by
  refine ⟨toString (total rows), ?_, decimal?_toString _⟩
  unfold totalLine
  rw [words_append_of_closes (by decide), words_toString]
  rfl

theorem words_headline : words headline = ["offset", "compressed", "uncompressed", "control"] := by
  rw [headline, words_line]
  decide

theorem oneLine_headline : OneLine headline :=
  oneLine_line (by decide) (by decide) (by decide) (by decide)

theorem Row.oneLine_text (row : Row) : OneLine row.text :=
  oneLine_line (oneLine_toString _) (oneLine_toString _) (oneLine_toString _)
    (oneLine_markedHex _ _)

theorem oneLine_imageLine (image : Image) : OneLine (imageLine image) := by
  unfold imageLine
  simp only [oneLine_append, oneLine_toString, oneLine_markedHex, and_true]
  decide

theorem oneLine_totalLine (rows : List Row) : OneLine (totalLine rows) :=
  oneLine_append.mpr ⟨by decide, oneLine_toString _⟩

end Listing

/-! ## Texts of lines -/

namespace CommandLine.Report

theorem text_append (front back : List String) :
    text (front ++ back) = text front ++ text back := by
  rw [text, List.map_append, String.join_append]
  rfl

/-- A text falls apart into the lines that it has been put together from. -/
theorem lines_text {shown : List String} (h : ∀ line ∈ shown, OneLine line) :
    lines (text shown) = shown := by
  induction shown with
  | nil => decide
  | cons line rest ih =>
    obtain ⟨hfirst, hrest⟩ := List.forall_mem_cons.mp h
    rw [text, List.map_cons, String.join_cons, lines_cons hfirst]
    exact congrArg (line :: ·) (ih hrest)

theorem lines_events (events : List Event) :
    lines (text (events.map Event.text)) = events.map Event.text := by
  refine lines_text fun line hmem => ?_
  obtain ⟨event, -, rfl⟩ := List.mem_map.mp hmem
  exact event.oneLine_text

theorem errorText_eq (r : Report) :
    r.errorText = text (r.log.map Event.text) ++ text r.complaints := text_append _ _

end CommandLine.Report

end CmStream
