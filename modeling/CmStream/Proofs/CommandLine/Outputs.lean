import CmStream.Proofs.CommandLine.Directories
import CmStream.Proofs.CommandLine.Listings

/-!
# The output is whole or not there at all

A session changes a file only where arguments ask for one file to be decompressed into another, the
one can be read and the other can be written. Then the whole output is written at once, and the
status says that all went well. In all other cases no file is touched.
-/

namespace CmStream.CommandLine

open Report

namespace Options

variable {o : Options} {input output : SystemText}

theorem request_eq_help_iff : o.request = .help ↔ o.help = true := by
  unfold request
  split
  case isTrue hhelp => simp [hhelp]
  case isFalse hhelp => split <;> simp [hhelp]

theorem request_eq_list_iff :
    o.request = .list input ↔ o.help = false ∧ o.list = true ∧ o.paths = [input] := by
  unfold request
  split
  case isTrue hhelp => simp [hhelp]
  case isFalse hhelp => split <;> simp_all

theorem request_eq_decompress_iff : o.request = .decompress input output
    ↔ o.help = false ∧ o.list = false ∧ o.paths = [input, output] := by
  unfold request
  split
  case isTrue hhelp => simp [hhelp]
  case isFalse hhelp => split <;> simp_all

end Options

namespace Program

variable {p : OptionParser} {patience : Nat} {arguments : List SystemText} {d : Directory}
  {o : Options} {limit : Option Nat} {input output : SystemText} {bytes contents : List Byte}

/-- The arguments ask for help. -/
def Helps (p : OptionParser) (arguments : List SystemText) : Prop :=
  ∃ o, p.parse arguments = .ok o ∧ o.help = true

/-- The arguments ask for a listing of a file, and it can be listed to its end. -/
def ListsAll (p : OptionParser) (arguments : List SystemText) (d : Directory) : Prop :=
  ∃ o input bytes container, p.parse arguments = .ok o
    ∧ o.help = false ∧ o.list = true ∧ o.paths = [input]
    ∧ d.read input = .ok bytes ∧ Container.parse bytes = .ok container
    ∧ ∀ block ∈ container.blocks, ∃ header, block.header = .ok header

/-- The arguments ask for a file to be decompressed into another, and it holds these bytes. -/
def Asks (p : OptionParser) (arguments : List SystemText) (d : Directory) (limit : Option Nat)
    (bytes : List Byte) (output : SystemText) : Prop :=
  ∃ o input, p.parse arguments = .ok o
    ∧ o.help = false ∧ o.list = false ∧ o.paths = [input, output]
    ∧ d.read input = .ok bytes ∧ o.maxSteps = limit

/-- What the arguments ask to be decompressed comes to these contents, and they can be written. -/
def Writes (p : OptionParser) (arguments : List SystemText) (d : Directory) (output : SystemText)
    (contents : List Byte) (whole : Directory) : Prop :=
  ∃ limit bytes, Asks p arguments d limit bytes output
    ∧ decompressWith limit bytes = some (.ok contents) ∧ d.write output contents = .ok whole

/-- If the arguments ask for a file to be decompressed, that comes to an end. -/
def Ends (p : OptionParser) (arguments : List SystemText) (d : Directory) : Prop :=
  ∀ limit bytes output, Asks p arguments d limit bytes output →
    ∃ result, decompressWith limit bytes = some result

/-- What a session that is done has come to: either the whole output has been written, and that is
all, or no file has been touched; and the status says whether the arguments have been obeyed. -/
structure Settled (p : OptionParser) (arguments : List SystemText) (d : Directory) (report : Report)
    (after : Directory) : Prop where
  written : ∀ output contents whole, Writes p arguments d output contents whole →
    after = whole ∧ d.Replaced after output contents
  untouched : (¬ ∃ output contents whole, Writes p arguments d output contents whole) → after = d
  succeeds : report.status = okStatus ↔ Helps p arguments ∨ ListsAll p arguments d
    ∨ ∃ output contents whole, Writes p arguments d output contents whole
  fails : report.status ≠ okStatus → report.status = failedStatus

/-- What a session comes to within some patience. One that is not done is still decompressing, and
has not touched any file. -/
def ComesTo (p : OptionParser) (patience : Nat) (arguments : List SystemText) (d : Directory) :
    Option Report × Directory → Prop
  | (some report, after) => Settled p arguments d report after
  | (none, after) => after = d ∧ ∃ limit bytes output, Asks p arguments d limit bytes output
    ∧ decompress? patience limit bytes = none

/-! ## Decompressing within some patience -/

theorem decompressWith_of_decompress? {result : Except Error (List Byte)}
    (h : decompress? patience limit bytes = some result) :
    decompressWith limit bytes = some result := by
  cases limit with
  | none => exact decompressWith_none_eq_some_iff.mpr ⟨patience, h⟩
  | some n => rwa [decompressWith_some]

/-- With patience, whatever ends is seen to end. -/
theorem exists_decompress?_eq_some {result : Except Error (List Byte)}
    (h : decompressWith limit bytes = some result) :
    ∃ enough, ∀ patience, enough ≤ patience → decompress? patience limit bytes = some result := by
  cases limit with
  | some n =>
    rw [decompressWith_some] at h
    exact ⟨0, fun _ _ => h⟩
  | none =>
    -- A limit that does not cut the result short is patience enough.
    obtain ⟨least, -, hwhole⟩ := (steady_decompressWith bytes).reached h
    obtain ⟨enough, hresult⟩ := (steady_decompressWith bytes).exists_limit h
    refine ⟨enough, fun patience hle => decompressUnlimited_eq_some_iff.mpr ⟨?_, ?_⟩⟩
    · have hlimit := hresult patience hle
      rwa [decompressWith_some, Option.some_inj] at hlimit
    · rintro error rfl
      exact (Bool.not_eq_true _).mp fun hlimit => hwhole ⟨error, rfl, hlimit⟩

/-! ## Listing -/

theorem rows_eq_none_iff (blocks : List Block) : (Listing.rows blocks).2 = none
    ↔ ∀ block ∈ blocks, ∃ header, block.header = .ok header := by
  induction blocks with
  | nil => simp [Listing.rows]
  | cons block rest ih =>
    rw [List.forall_mem_cons, ← ih, Listing.rows]
    cases block.header with
    | error error => simp
    | ok header => simp

theorem status_list_eq_ok_iff (verbosity : Nat) (input : SystemText) (bytes : List Byte) :
    (list verbosity input bytes).status = okStatus
      ↔ ∃ container, Container.parse bytes = .ok container
        ∧ ∀ block ∈ container.blocks, ∃ header, block.header = .ok header := by
  unfold list
  cases Container.parse bytes with
  | error error => simp [Report.failure, okStatus, failedStatus]
  | ok container =>
    simp only [Except.ok.injEq, exists_eq_left', ← rows_eq_none_iff, Listing.lines]
    cases (Listing.rows container.blocks).2 with
    | none => simp [Report.success]
    | some error => simp [Report.failure, okStatus, failedStatus]

theorem status_list_eq_ok_or_failed (verbosity : Nat) (input : SystemText) (bytes : List Byte) :
    (list verbosity input bytes).status = okStatus
      ∨ (list verbosity input bytes).status = failedStatus := by
  unfold list
  cases Container.parse bytes with
  | error error => exact .inr rfl
  | ok container =>
    dsimp only
    rcases Listing.lines container with ⟨lines, _ | error⟩
    · exact .inl rfl
    · exact .inr rfl

/-! ## What options ask for -/

section Parsed

variable (hparse : p.parse arguments = .ok o)
include hparse

theorem helps_iff : Helps p arguments ↔ o.request = .help := by
  rw [Options.request_eq_help_iff]
  simp [Helps, hparse]

theorem listsAll_iff : ListsAll p arguments d ↔ ∃ input bytes, o.request = .list input
    ∧ d.read input = .ok bytes ∧ (list o.verbosity input bytes).status = okStatus := by
  simp only [ListsAll, Options.request_eq_list_iff, hparse, status_list_eq_ok_iff]
  constructor
  · rintro ⟨_, input, bytes, container, ⟨⟩, hhelp, hlist, hpaths, hread, hrest⟩
    exact ⟨input, bytes, ⟨hhelp, hlist, hpaths⟩, hread, container, hrest⟩
  · rintro ⟨input, bytes, ⟨hhelp, hlist, hpaths⟩, hread, container, hrest⟩
    exact ⟨o, input, bytes, container, rfl, hhelp, hlist, hpaths, hread, hrest⟩

theorem asks_iff : Asks p arguments d limit bytes output
    ↔ ∃ input, o.request = .decompress input output ∧ d.read input = .ok bytes
      ∧ o.maxSteps = limit := by
  simp only [Asks, Options.request_eq_decompress_iff, hparse]
  constructor
  · rintro ⟨_, input, ⟨⟩, hhelp, hlist, hpaths, hrest⟩
    exact ⟨input, ⟨hhelp, hlist, hpaths⟩, hrest⟩
  · rintro ⟨input, ⟨hhelp, hlist, hpaths⟩, hrest⟩
    exact ⟨o, input, rfl, hhelp, hlist, hpaths, hrest⟩

end Parsed

/-- The arguments ask for one file to be decompressed, in one way. -/
theorem Asks.unique {limit' : Option Nat} {bytes' : List Byte} {output' : SystemText}
    (h : Asks p arguments d limit bytes output) (h' : Asks p arguments d limit' bytes' output') :
    limit' = limit ∧ bytes' = bytes ∧ output' = output := by
  obtain ⟨o, input, hparse, -, -, hpaths, hread, rfl⟩ := h
  obtain ⟨o', input', hparse', -, -, hpaths', hread', rfl⟩ := h'
  cases hparse.symm.trans hparse'
  cases hpaths.symm.trans hpaths'
  cases hread.symm.trans hread'
  exact ⟨rfl, rfl, rfl⟩

theorem writes_iff_of_asks (hasks : Asks p arguments d limit bytes output) {output' : SystemText}
    {whole : Directory} :
    Writes p arguments d output' contents whole
      ↔ output' = output ∧ decompressWith limit bytes = some (.ok contents)
        ∧ d.write output contents = .ok whole := by
  constructor
  · rintro ⟨limit', bytes', hasks', hcontents, hwrite⟩
    obtain ⟨rfl, rfl, rfl⟩ := hasks.unique hasks'
    exact ⟨rfl, hcontents, hwrite⟩
  · rintro ⟨rfl, hcontents, hwrite⟩
    exact ⟨limit, bytes, hasks, hcontents, hwrite⟩

/-! ## What a session comes to -/

section Settling

variable {report : Report} {after : Directory} {shown complaints : List String}
  {events : List Event}

/-- A session that has not written anything, because there is nothing to write or nowhere to write
it to. -/
theorem settled_of_unwritten
    (hunwritten : ∀ output contents whole, ¬ Writes p arguments d output contents whole)
    (hsucceeds : report.status = okStatus ↔ Helps p arguments ∨ ListsAll p arguments d)
    (hfails : report.status ≠ okStatus → report.status = failedStatus) :
    Settled p arguments d report d where
  written output contents whole hwrites := absurd hwrites (hunwritten output contents whole)
  untouched _ := rfl
  succeeds := by simp only [hsucceeds, hunwritten, exists_false, or_false]
  fails := hfails

theorem settled_of_failure
    (hunwritten : ∀ output contents whole, ¬ Writes p arguments d output contents whole)
    (hhelps : ¬ Helps p arguments) (hlists : ¬ ListsAll p arguments d) :
    Settled p arguments d (.failure shown events complaints) d :=
  settled_of_unwritten hunwritten
    (iff_of_false (show failedStatus ≠ okStatus by decide) (not_or.mpr ⟨hhelps, hlists⟩))
    fun _ => rfl

theorem settled_of_writes (hwrites : Writes p arguments d output contents after) :
    Settled p arguments d (.success shown events) after where
  written output' contents' whole hwrites' := by
    obtain ⟨limit, bytes, hasks, hcontents, hwrite⟩ := hwrites
    obtain ⟨rfl, hcontents', hwrite'⟩ := (writes_iff_of_asks hasks).mp hwrites'
    cases hcontents.symm.trans hcontents'
    cases hwrite.symm.trans hwrite'
    exact ⟨rfl, Directory.replaced_of_write hwrite⟩
  untouched hnone := absurd ⟨_, _, _, hwrites⟩ hnone
  succeeds := iff_of_true rfl (.inr (.inr ⟨_, _, _, hwrites⟩))
  fails hne := absurd rfl hne

/-- Nothing is written where nothing is to be decompressed. -/
theorem not_writes_of_not_asks (h : ∀ limit bytes output, ¬ Asks p arguments d limit bytes output)
    (output : SystemText) (contents : List Byte) (whole : Directory) :
    ¬ Writes p arguments d output contents whole := by
  rintro ⟨limit, bytes, hasks, -⟩
  exact h limit bytes output hasks

theorem run_decompression (hread : d.read input = .ok bytes) :
    (decompression patience o input output).run d
      = match decompress? patience o.maxSteps bytes with
        | none => (none, d)
        | some (.error error) => (some (.failure []
            (log o.verbosity (o.maxSteps.getD patience) bytes) [about input error.message]), d)
        | some (.ok contents) =>
          match d.write output contents with
          | .ok after =>
            (some (.success [] (log o.verbosity (o.maxSteps.getD patience) bytes)), after)
          | .error error =>
            (some (.failure [] (log o.verbosity (o.maxSteps.getD patience) bytes)
              [about output error.message]), d) := by
  rw [decompression, Session.run, hread]
  dsimp only
  cases decompress? patience o.maxSteps bytes with
  | none => rfl
  | some result =>
    cases result with
    | error error => rfl
    | ok contents =>
      dsimp only
      rw [Session.run, Directory.write]
      rcases d.create output with _ | ⟨location, created⟩
      · rfl
      · rfl

theorem comesTo_decompression (hparse : p.parse arguments = .ok o)
    (hrequest : o.request = .decompress input output) :
    ComesTo p patience arguments d ((decompression patience o input output).run d) := by
  have hhelps : ¬ Helps p arguments := by simp [helps_iff hparse, hrequest]
  have hlists : ¬ ListsAll p arguments d := by simp [listsAll_iff hparse, hrequest]
  cases hread : d.read input with
  | error error =>
    rw [decompression, Session.run, hread]
    refine settled_of_failure (not_writes_of_not_asks ?_) hhelps hlists
    simp [asks_iff hparse, hrequest, hread]
  | ok bytes =>
    have hasks : Asks p arguments d o.maxSteps bytes output :=
      (asks_iff hparse).mpr ⟨input, hrequest, hread, rfl⟩
    rw [run_decompression hread]
    cases hresult : decompress? patience o.maxSteps bytes with
    | none => exact ⟨rfl, _, bytes, output, hasks, hresult⟩
    | some result =>
      have hwhole := decompressWith_of_decompress? hresult
      cases result with
      | error error =>
        refine settled_of_failure (fun output' contents whole => ?_) hhelps hlists
        simp [writes_iff_of_asks hasks, hwhole]
      | ok contents =>
        dsimp only
        cases hwrite : d.write output contents with
        | error error =>
          -- There are contents, but they can only go where they cannot be written.
          refine settled_of_failure (fun output' contents' whole => ?_) hhelps hlists
          rw [writes_iff_of_asks hasks, hwhole]
          rintro ⟨-, ⟨⟩, hwrite'⟩
          cases hwrite.symm.trans hwrite'
        | ok whole =>
          exact settled_of_writes ((writes_iff_of_asks hasks).mpr ⟨rfl, hwhole, hwrite⟩)

theorem comesTo_list (hparse : p.parse arguments = .ok o)
    (hrequest : o.request = .list input) :
    ComesTo p patience arguments d ((ofOptions patience o).run d) := by
  have hunasked : ∀ limit bytes output, ¬ Asks p arguments d limit bytes output := by
    simp [asks_iff hparse, hrequest]
  have hhelps : ¬ Helps p arguments := by simp [helps_iff hparse, hrequest]
  rw [ofOptions, hrequest]
  dsimp only
  rw [Session.run]
  cases hread : d.read input with
  | error error =>
    refine settled_of_failure (not_writes_of_not_asks hunasked) hhelps ?_
    simp [listsAll_iff hparse, hrequest, hread]
  | ok bytes =>
    refine settled_of_unwritten (not_writes_of_not_asks hunasked) ?_
      (status_list_eq_ok_or_failed _ _ _).resolve_left
    simp [listsAll_iff hparse, hrequest, hread, hhelps]

theorem comesTo_session (p : OptionParser) (patience : Nat) (arguments : List SystemText)
    (d : Directory) :
    ComesTo p patience arguments d ((sessionWith p patience arguments).run d) := by
  rw [sessionWith]
  cases hparse : p.parse arguments with
  | error error =>
    exact settled_of_failure (not_writes_of_not_asks (by simp [Asks, hparse]))
      (by simp [Helps, hparse]) (by simp [ListsAll, hparse])
  | ok o =>
    dsimp only
    cases hrequest : o.request with
    | help =>
      rw [ofOptions, hrequest]
      refine settled_of_unwritten
        (not_writes_of_not_asks (by simp [asks_iff hparse, hrequest])) ?_ fun hne => absurd rfl hne
      exact iff_of_true rfl (.inl ((helps_iff hparse).mpr hrequest))
    | unclear listing =>
      rw [ofOptions, hrequest]
      exact settled_of_failure (not_writes_of_not_asks (by simp [asks_iff hparse, hrequest]))
        (by simp [helps_iff hparse, hrequest]) (by simp [listsAll_iff hparse, hrequest])
    | list input => exact comesTo_list hparse hrequest
    | decompress input output =>
      rw [ofOptions, hrequest]
      exact comesTo_decompression hparse hrequest

/-- Whatever the arguments and the files, a session that is done has written the whole output and
nothing else, or has not touched any file, and its status says which; one that is not done has not
touched any file; and with patience it is done, if what it decompresses comes to an end. -/
theorem session_writes_whole_output (p : OptionParser) (arguments : List SystemText)
    (d : Directory) :
    (∀ patience report after, (sessionWith p patience arguments).run d = (some report, after) →
        Settled p arguments d report after)
      ∧ (∀ patience after, (sessionWith p patience arguments).run d = (none, after) → after = d)
      ∧ (Ends p arguments d → ∃ enough, ∀ patience, enough ≤ patience →
        ∃ report after, (sessionWith p patience arguments).run d = (some report, after)) := by
  refine ⟨fun patience report after hrun => ?_, fun patience after hrun => ?_, fun hends => ?_⟩
  · have hcomes := comesTo_session p patience arguments d
    rwa [hrun] at hcomes
  · obtain ⟨hsame, -⟩ := hrun ▸ comesTo_session p patience arguments d
    exact hsame
  · -- Only decompressing takes patience, and there is at most one thing to decompress.
    have henough : ∃ enough, ∀ limit bytes output, Asks p arguments d limit bytes output →
        ∀ patience, enough ≤ patience → decompress? patience limit bytes ≠ none := by
      by_cases hasked : ∃ limit bytes output, Asks p arguments d limit bytes output
      · obtain ⟨limit, bytes, output, hasks⟩ := hasked
        obtain ⟨result, hresult⟩ := hends limit bytes output hasks
        obtain ⟨enough, hwithin⟩ := exists_decompress?_eq_some hresult
        refine ⟨enough, fun limit' bytes' output' hasks' patience hle => ?_⟩
        obtain ⟨rfl, rfl, -⟩ := hasks.unique hasks'
        simp [hwithin patience hle]
      · exact ⟨0, fun limit bytes output hasks => absurd ⟨_, _, _, hasks⟩ hasked⟩
    obtain ⟨enough, hdone⟩ := henough
    refine ⟨enough, fun patience hle => ?_⟩
    rcases hrun : (sessionWith p patience arguments).run d with ⟨_ | report, after⟩
    · obtain ⟨-, limit, bytes, output, hasks, hnone⟩ :=
        hrun ▸ comesTo_session p patience arguments d
      exact absurd hnone (hdone limit bytes output hasks patience hle)
    · exact ⟨report, after, rfl⟩

open Routine in
/-- A file can be decompressed into itself, here by a relative and an absolute path. -/
theorem session_writes_whole_output_in_place : ∃ patience report after,
    (sessionWith scanner patience (["in", "/home/in"].map .encode)).run
        (holding (copiedStream copy [[1, 2, 3], []])) = (some report, after)
      ∧ report.status = okStatus ∧ after.read (.encode "in") = .ok [1, 2, 3] := by
  have hcontents : decompressWith none (copiedStream copy [[1, 2, 3], []])
      = some (.ok [1, 2, 3]) := by
    have hsix := decompress_six_copied [[1, 2, 3], []] (by decide)
    refine decompressWith_none_eq_some_iff.mpr ⟨6, decompressUnlimited_eq_some_iff.mpr ⟨hsix, ?_⟩⟩
    rintro error ⟨⟩
  generalize copiedStream copy [[1, 2, 3], []] = stream at hcontents ⊢
  have hspelled : Setting.Spelled (["in", "/home/in"].map .encode)
      [.path (.encode "in"), .path (.encode "/home/in")] :=
    .path (.inr (by decide)) (.path (.inr (by decide)) .nil)
  have hasks : Asks scanner (["in", "/home/in"].map .encode) (holding stream) none stream
      (.encode "/home/in") :=
    ⟨_, .encode "in", OptionParser.parse_spelled scanner_documented hspelled, rfl, rfl, rfl, rfl,
      rfl⟩
  have hwrites : Writes scanner (["in", "/home/in"].map .encode) (holding stream)
      (.encode "/home/in") [1, 2, 3] (holding [1, 2, 3]) := ⟨none, stream, hasks, hcontents, rfl⟩
  obtain ⟨hsettled, -, hends⟩ :=
    session_writes_whole_output scanner (["in", "/home/in"].map .encode) (holding stream)
  obtain ⟨patience, hdone⟩ := hends fun limit bytes output hasks' => by
    obtain ⟨rfl, rfl, -⟩ := hasks.unique hasks'
    exact ⟨_, hcontents⟩
  obtain ⟨report, after, hrun⟩ := hdone patience (Nat.le_refl patience)
  have hcomes := hsettled patience report after hrun
  obtain ⟨rfl, -⟩ := hcomes.written _ _ _ hwrites
  exact ⟨patience, report, _, hrun, hcomes.succeeds.mpr (.inr (.inr ⟨_, _, _, hwrites⟩)), rfl⟩

end Settling

end Program

end CmStream.CommandLine
