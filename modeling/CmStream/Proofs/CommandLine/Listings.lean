import CmStream.Proofs.CommandLine.Scanning
import CmStream.Proofs.CommandLine.Settings
import CmStream.Proofs.Sandbox.Extension
import CmStream.Proofs.Shown

/-!
# Listing and decompressing agree

A stream is listed without running anything, and yet a stream that decompresses is listed, with a
line for every block and the length of the output below. A stream that cannot be listed does not
decompress under any limit. All of that can be read off the lines themselves.
-/

namespace CmStream

open Sandbox

variable {limit : Option Nat} {bytes out : List Byte}

theorem decompressWith_ok_iff :
    decompressWith limit bytes = some (.ok out) ↔ Accepted limit bytes out := by
  cases limit with
  | none => rw [decompressWith_none_eq_some_iff, decompressUnlimited_ok_iff]
  | some n => rw [decompressWith_some, Option.some_inj, decompress_ok_iff]

namespace Listing

/-- The row says of the block what its header and its lengths are. -/
def Row.Tells (block : Block) (row : Row) : Prop :=
  ∃ header, block.header = .ok header
    ∧ row = ⟨block.offset, block.compressedLength, block.uncompressedLength, header.control⟩

variable {s : Sandbox} {blocks : List Block} {states : List Sandbox}

/-- Blocks that are accepted have headers, so there is a row for each of them. -/
theorem exists_rows_of_acceptsAll (h : AcceptsAll limit s blocks states) :
    ∃ shown, rows blocks = (shown, none) ∧ List.Forall₂ Row.Tells blocks shown
      ∧ total shown = declaredLength blocks := by
  induction h with
  | nil s => exact ⟨[], rfl, .nil, rfl⟩
  | @cons s after block rest states accepts later ih =>
    obtain ⟨shown, hrows, htells, htotal⟩ := ih
    obtain ⟨ending, ⟨⟨header, hprefix, -⟩, -⟩, -⟩ := accepts
    have hheader := Block.header_eq_ok_iff.mpr hprefix
    refine ⟨_, ?_, .cons ⟨header, hheader, rfl⟩ htells, ?_⟩
    · rw [rows, hheader, hrows]
    · rw [total, htotal, declaredLength]

/-- The lines of a listing show what its rows say. -/
theorem shows_lines {container : Container} {shown : List Row}
    (h : List.Forall₂ Row.Tells container.blocks shown) :
    Shows container (total shown) (headline :: shown.map Row.text
      ++ [imageLine container.image, totalLine shown]) := by
  refine ⟨headline, shown.map Row.text, _, _, rfl, words_headline, ?_, showsImage_imageLine _,
    showsTotal_totalLine _⟩
  rw [List.forall₂_map_right_iff]
  refine h.imp fun block row => ?_
  rintro ⟨header, hheader, rfl⟩
  exact showsBlock_text hheader

theorem oneLine_lines {image : Image} {shown : List Row} :
    ∀ line ∈ headline :: shown.map Row.text ++ [imageLine image, totalLine shown],
      Text.OneLine line := by
  intro line hmem
  simp only [List.cons_append, List.mem_cons, List.mem_append, List.mem_map, List.not_mem_nil,
    or_false] at hmem
  rcases hmem with rfl | ⟨row, -, rfl⟩ | rfl | rfl
  · exact oneLine_headline
  · exact row.oneLine_text
  · exact oneLine_imageLine image
  · exact oneLine_totalLine shown

/-- All lines of the listing of a stream that decompresses. -/
theorem exists_lines_of_accepted (h : Accepted limit bytes out) :
    ∃ container shown, Container.parse bytes = .ok container
      ∧ lines container = (shown, none) ∧ Shows container out.length shown
      ∧ ∀ line ∈ shown, Text.OneLine line := by
  obtain ⟨container, s, states, hparse, -, hload, haccepts, rfl⟩ := h
  obtain ⟨shown, hrows, htells, htotal⟩ := exists_rows_of_acceptsAll haccepts
  refine ⟨container, headline :: shown.map Row.text
    ++ [imageLine container.image, totalLine shown], hparse, ?_, ?_, oneLine_lines⟩
  · rw [lines, hrows]
  · have hlength := haccepts.length_collect (laidOut_of_load hload)
    rw [hlength, ← htotal]
    exact shows_lines htells

end Listing

namespace CommandLine

namespace Program

variable {p : OptionParser} {arguments : List SystemText} {input : SystemText} {d : Directory}

/-- The arguments ask for a file to be listed. -/
def Lists (p : OptionParser) (arguments : List SystemText) (input : SystemText) : Prop :=
  ∃ o, p.parse arguments = .ok o ∧ o.request = .list input

/-- To list a file is to report on what it holds. -/
theorem exists_run_of_lists (h : Lists p arguments input) (hread : d.read input = .ok bytes)
    (patience : Nat) :
    ∃ verbosity, (sessionWith p patience arguments).run d
      = (some (list verbosity input bytes), d) := by
  obtain ⟨o, hparse, hrequest⟩ := h
  refine ⟨o.verbosity, ?_⟩
  rw [sessionWith, hparse]
  dsimp only
  rw [ofOptions, hrequest]
  dsimp only
  rw [Session.run, hread]
  rfl

theorem exists_run_of_decompressWith (hlists : Lists p arguments input)
    (hread : d.read input = .ok bytes) (patience : Nat)
    (hout : decompressWith limit bytes = some (.ok out)) :
    ∃ container report, Container.parse bytes = .ok container
      ∧ (sessionWith p patience arguments).run d = (some report, d)
      ∧ report.status = Report.okStatus
      ∧ Listing.Shows container out.length (Text.lines report.outputText) := by
  obtain ⟨verbosity, hrun⟩ := exists_run_of_lists hlists hread patience
  obtain ⟨container, shown, hparse, hlines, hshows, honeLine⟩ :=
    Listing.exists_lines_of_accepted (decompressWith_ok_iff.mp hout)
  have hlist : ∃ log, list verbosity input bytes = .success shown log := by
    refine ⟨if progressVerbosity ≤ verbosity then Progress.ofParsing bytes else [], ?_⟩
    rw [list, hparse]
    dsimp only
    rw [hlines]
  obtain ⟨log, hlog⟩ := hlist
  refine ⟨container, .success shown log, hparse, hrun.trans (by rw [hlog]), rfl, ?_⟩
  rw [Report.outputText, Report.success, Report.lines_text honeLine]
  exact hshows

/-- Whatever decompresses is listed: standard output has one line for every block in order, with its
offset, its lengths and its control word, and the total below is the length of the output. What
cannot be listed does not decompress. -/
theorem listing_agrees (hlists : Lists p arguments input) (hread : d.read input = .ok bytes)
    (patience : Nat) :
    (∀ limit out, decompressWith limit bytes = some (.ok out) →
        ∃ container report, Container.parse bytes = .ok container
          ∧ (sessionWith p patience arguments).run d = (some report, d)
          ∧ report.status = Report.okStatus
          ∧ Listing.Shows container out.length (Text.lines report.outputText))
      ∧ ∀ report after, (sessionWith p patience arguments).run d = (some report, after) →
        report.status = Report.failedStatus →
        ∀ limit result, decompressWith limit bytes = some result →
          ∃ error, result = .error error := by
  refine ⟨fun limit out => exists_run_of_decompressWith hlists hread patience,
    fun report after hreport hfailed limit result hresult => ?_⟩
  cases result with
  | error error => exact ⟨error, rfl⟩
  | ok out =>
    -- What decompresses is listed, so the report cannot be one of failure.
    obtain ⟨container, report', -, hsuccess, hok, -⟩ :=
      exists_run_of_decompressWith hlists hread patience hresult
    rw [hreport] at hsuccess
    cases hsuccess
    exact absurd (hfailed.symm.trans hok) (by decide)

/-- A folder with a single file. -/
def holding (bytes : List Byte) : Directory := Directory.empty.insert [['i', 'n']] (.file bytes)

open Routine in
/-- Two blocks that are copied have two rows and three bytes in all; a block without a header fails
under every limit. -/
theorem listing_agrees_two_blocks :
    Lists scanner (["-l", "in"].map .encode) (.encode "in")
      ∧ (∃ container report,
        Container.parse (copiedStream copy [[1, 2, 3], []]) = .ok container
          ∧ (sessionWith scanner 0 (["-l", "in"].map .encode)).run
              (holding (copiedStream copy [[1, 2, 3], []]))
            = (some report, holding (copiedStream copy [[1, 2, 3], []]))
          ∧ Listing.Shows container 3 (Text.lines report.outputText))
      ∧ ∀ limit result, decompressWith limit headless.bytes = some result →
        ∃ error, result = .error error := by
  have hletter : ['l'].map (fun letter => Setting.ofArgument? (.letter letter))
      = [Setting.list].map some := rfl
  have hspelled : Setting.Spelled (["-l", "in"].map .encode) [.list, .path (.encode "in")] :=
    .letters (by decide) hletter (.path (.inr (by decide)) .nil)
  have hlists : Lists scanner (["-l", "in"].map .encode) (.encode "in") :=
    ⟨_, OptionParser.parse_spelled scanner_documented hspelled, rfl⟩
  refine ⟨hlists, ?_, ?_⟩
  · obtain ⟨hlisted, -⟩ := listing_agrees (d := holding (copiedStream copy [[1, 2, 3], []])) hlists
      rfl 0
    obtain ⟨container, report, hparse, hrun, -, hshows⟩ :=
      hlisted (some 6) _ (decompressWith_six_copied [[1, 2, 3], []] (by decide))
    exact ⟨container, report, hparse, hrun, hshows⟩
  · obtain ⟨-, hfails⟩ := listing_agrees (d := holding headless.bytes) hlists rfl 0
    obtain ⟨verbosity, hrun⟩ := exists_run_of_lists (d := holding headless.bytes) hlists rfl 0
    exact hfails _ _ hrun rfl

end Program

end CommandLine

end CmStream
