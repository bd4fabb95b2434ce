import CmStream.Proofs.CommandLine.Outputs
import CmStream.Proofs.Sandbox.Tracing

/-!
# How much is reported changes nothing else

The verbosity decides which events a session reports, and nothing else: the files, the lines on
standard output, the complaints and the status are those of every other verbosity. A higher one
only adds lines of progress. From two requests on, the lines of a call show the registers before
each step that its run has begun.
-/

namespace CmStream.CommandLine

/-- The report with other events. -/
def Report.withLog (r : Report) (log : List Event) : Report := { r with log := log }

namespace Program

open Report

variable {p : OptionParser} {patience larger : Nat} {arguments others : List SystemText}
  {d after : Directory}
  {o : Options} {limit : Option Nat} {input output : SystemText} {bytes : List Byte}
  {report : Report}

/-! ## One session at every verbosity -/

/-- A higher verbosity adds events and changes none. -/
def Grows (events : Nat → List Event) : Prop :=
  ∀ v w, v ≤ w → (events v).Sublist (events w)

theorem grows_const (events : List Event) : Grows fun _ => events :=
  fun _ _ _ => List.Sublist.refl _

theorem grows_log (limit : Nat) (bytes : List Byte) : Grows (log · limit bytes) := by
  intro v w hle
  dsimp only
  unfold log
  split
  case isFalse => exact List.nil_sublist _
  case isTrue hprogress =>
    rw [if_pos (Nat.le_trans hprogress hle)]
    by_cases htrace : traceVerbosity ≤ v
    · rw [decide_eq_true htrace, decide_eq_true (Nat.le_trans htrace hle)]
    · rw [decide_eq_false htrace]
      cases decide (traceVerbosity ≤ w) with
      | false => exact List.Sublist.refl _
      | true => exact Progress.sublist_ofDecompression limit bytes

/-- What is reported of a file that is listed. -/
def listLog (verbosity : Nat) (bytes : List Byte) : List Event :=
  if progressVerbosity ≤ verbosity then Progress.ofParsing bytes else []

theorem grows_listLog (bytes : List Byte) : Grows (listLog · bytes) := by
  intro v w hle
  dsimp only
  unfold listLog
  split
  case isFalse => exact List.nil_sublist _
  case isTrue hprogress => rw [if_pos (Nat.le_trans hprogress hle)]

theorem list_eq (verbosity : Nat) (input : SystemText) (bytes : List Byte) :
    list verbosity input bytes = (list 0 input bytes).withLog (listLog verbosity bytes) := by
  unfold list listLog
  cases Container.parse bytes with
  | error error => rfl
  | ok container =>
    dsimp only
    rcases Listing.lines container with ⟨lines, _ | error⟩
    · rfl
    · rfl

/-- A session reports the same at every verbosity, but for the events. -/
theorem exists_run_ofOptions (patience : Nat) (o : Options) (d : Directory) :
    ∃ (result : Option Report) (after : Directory) (events : Nat → List Event),
      Grows events ∧ ∀ v, (ofOptions patience (o.withVerbosity v)).run d
        = (result.map (·.withLog (events v)), after) := by
  -- What is to be done does not depend on the verbosity, so one case covers all of them.
  have hrequest : ∀ v, (o.withVerbosity v).request = o.request := fun _ => rfl
  simp only [ofOptions, hrequest]
  cases o.request with
  | help => exact ⟨some (.success usage []), d, _, grows_const [], fun _ => rfl⟩
  | unclear listing =>
    exact ⟨some (.failure [] [] (usage ++ ["", needed listing])), d, _, grows_const [],
      fun _ => rfl⟩
  | list input =>
    cases hread : d.read input with
    | error error =>
      refine ⟨some (.failure [] [] [about input error.message]), d, _, grows_const [], fun v => ?_⟩
      simp only [Session.run, hread]
      rfl
    | ok bytes =>
      refine ⟨some (list 0 input bytes), d, _, grows_listLog bytes, fun v => ?_⟩
      simp only [Session.run, hread]
      exact congrArg (fun report => (some report, d)) (list_eq v input bytes)
  | decompress input output =>
    cases hread : d.read input with
    | error error =>
      refine ⟨some (.failure [] [] [about input error.message]), d, _, grows_const [], fun v => ?_⟩
      simp only [decompression, Session.run, hread]
      rfl
    | ok bytes =>
      have hlog := grows_log (o.maxSteps.getD patience) bytes
      have hsteps : ∀ v, (o.withVerbosity v).maxSteps = o.maxSteps := fun _ => rfl
      simp only [run_decompression hread, hsteps]
      cases decompress? patience o.maxSteps bytes with
      | none => exact ⟨none, d, _, hlog, fun _ => rfl⟩
      | some result =>
        cases result with
        | error error =>
          exact ⟨some (.failure [] [] [about input error.message]), d, _, hlog, fun _ => rfl⟩
        | ok contents =>
          dsimp only
          cases d.write output contents with
          | ok after => exact ⟨some (.success [] []), after, _, hlog, fun _ => rfl⟩
          | error error =>
            exact ⟨some (.failure [] [] [about output error.message]), d, _, hlog, fun _ => rfl⟩

/-- The sessions of arguments that differ in their requests for more only. -/
theorem exists_run_session (hsame : p.AgreeButVerbosity arguments others) (patience : Nat)
    (d : Directory) :
    ∃ (result : Option Report) (after : Directory) (events : Nat → List Event),
      Grows events
        ∧ (sessionWith p patience arguments).run d
          = (result.map (·.withLog (events (p.requests arguments))), after)
        ∧ (sessionWith p patience others).run d
          = (result.map (·.withLog (events (p.requests others))), after) := by
  unfold sessionWith
  obtain ⟨error, harguments, hothers⟩ | ⟨o, harguments, hothers⟩ := hsame.parse
  · rw [harguments, hothers]
    exact ⟨some (.failure [] [] [p.message error]), d, _, grows_const [], rfl, rfl⟩
  · rw [harguments, hothers]
    obtain ⟨result, after, events, hgrows, hrun⟩ := exists_run_ofOptions patience o d
    -- Behind the highest verbosity, more requests change nothing.
    refine ⟨result, after, fun requests => events (min requests Options.maxVerbosity),
      fun v w hle => hgrows _ _ ?_, hrun _, hrun _⟩
    omega

/-! ## More patience -/

theorem decompress_eq_of_le
    (hown : ∀ error, decompress patience bytes = .error error → error.isStepLimit = false)
    (hle : patience ≤ larger) : decompress larger bytes = decompress patience bytes := by
  have hlarger : ∀ n, some larger = some n → patience ≤ n := by
    rintro _ ⟨⟩
    exact hle
  cases hresult : decompress patience bytes with
  | ok contents =>
    exact decompress_of_accepted ((decompress_ok_iff.mp hresult).mono hlarger)
  | error error =>
    exact decompress_of_failed ((decompress_error_iff.mp hresult).mono (hown _ hresult) hlarger)

/-- With more patience, what has ended ends in the same way, and the same is reported of it. -/
theorem decompress?_of_le {result : Except Error (List Byte)} (hle : patience ≤ larger)
    (h : decompress? patience limit bytes = some result) :
    decompress? larger limit bytes = some result
      ∧ ∀ verbosity, log verbosity (limit.getD larger) bytes
        = log verbosity (limit.getD patience) bytes := by
  cases limit with
  | some n => exact ⟨h, fun _ => rfl⟩
  | none =>
    obtain ⟨rfl, hown⟩ := decompressUnlimited_eq_some_iff.mp h
    refine ⟨decompressUnlimited_eq_some_iff.mpr ⟨decompress_eq_of_le hown hle, hown⟩,
      fun verbosity => ?_⟩
    · unfold log
      rw [Option.getD_none, Option.getD_none, Progress.ofDecompression_eq_of_le hown hle]

/-- A session that ends, ends in the same way with more patience. -/
theorem run_session_of_le (hle : patience ≤ larger)
    (hrun : (sessionWith p patience arguments).run d = (some report, after)) :
    (sessionWith p larger arguments).run d = (some report, after) := by
  unfold sessionWith at hrun ⊢
  cases hparse : p.parse arguments with
  | error error =>
    rw [hparse] at hrun
    exact hrun
  | ok o =>
    rw [hparse] at hrun
    dsimp only at hrun ⊢
    unfold ofOptions at hrun ⊢
    -- Only a decompression takes patience.
    cases hrequest : o.request with
    | help | unclear | list =>
      rw [hrequest] at hrun
      exact hrun
    | decompress input output =>
      rw [hrequest] at hrun
      dsimp only at hrun ⊢
      cases hread : d.read input with
      | error error =>
        rw [decompression, Session.run, hread] at hrun ⊢
        exact hrun
      | ok bytes =>
        rw [run_decompression hread] at hrun ⊢
        cases hresult : decompress? patience o.maxSteps bytes with
        | none =>
          rw [hresult] at hrun
          cases hrun
        | some result =>
          obtain ⟨hlarger, hlog⟩ := decompress?_of_le hle hresult
          rw [hlarger, hlog, ← hresult]
          exact hrun

/-- A session ends in one way. -/
theorem Gives.unique {report' : Report} {after' : Directory} (h : Gives p arguments d report after)
    (h' : Gives p arguments d report' after') : report' = report ∧ after' = after := by
  obtain ⟨patience, hrun⟩ := h
  obtain ⟨patience', hrun'⟩ := h'
  have hlarge := run_session_of_le (Nat.le_max_left patience patience') hrun
  have hlarge' := run_session_of_le (Nat.le_max_right patience patience') hrun'
  obtain ⟨hreport, hafter⟩ := Prod.mk.inj (hlarge'.symm.trans hlarge)
  exact ⟨Option.some_inj.mp hreport, hafter⟩

/-! ## Every instruction -/

/-- With two requests or more, what is reported of a decompression that ends has every instruction
in it. -/
theorem log_eq_of_asks (hasks : Asks p arguments d limit bytes output)
    (hrun : (sessionWith p patience arguments).run d = (some report, after))
    (hrequests : traceVerbosity ≤ p.requests arguments) :
    (∃ result, decompress? patience limit bytes = some result)
      ∧ report.log = Progress.ofDecompression true (limit.getD patience) bytes := by
  obtain ⟨o, -, hparse, -⟩ := id hasks
  obtain ⟨input, hrequest, hread, rfl⟩ := (asks_iff hparse).mp hasks
  have htrace : traceVerbosity ≤ o.verbosity := by
    rw [OptionParser.verbosity_of_parse hparse]
    exact Nat.le_min.mpr ⟨hrequests, by decide⟩
  have hlog : log o.verbosity (o.maxSteps.getD patience) bytes
      = Progress.ofDecompression true (o.maxSteps.getD patience) bytes := by
    have hprogress : progressVerbosity ≤ o.verbosity := Nat.le_trans (by decide) htrace
    unfold log
    rw [if_pos hprogress, decide_eq_true htrace]
  unfold sessionWith at hrun
  rw [hparse] at hrun
  dsimp only at hrun
  unfold ofOptions at hrun
  rw [hrequest] at hrun
  dsimp only at hrun
  rw [run_decompression hread, hlog] at hrun
  cases hresult : decompress? patience o.maxSteps bytes with
  | none =>
    rw [hresult] at hrun
    cases hrun
  | some result =>
    refine ⟨⟨result, rfl⟩, ?_⟩
    rw [hresult] at hrun
    cases result with
    | error error =>
      cases hrun
      rfl
    | ok contents =>
      dsimp only at hrun
      split at hrun
      case h_1 =>
        cases hrun
        rfl
      case h_2 =>
        cases hrun
        rfl

/-- Other events show in the lines of progress and nowhere else. -/
theorem sameButProgress_withLog (report : Report) (events : List Event) :
    report.SameButProgress (report.withLog events) (report.log.map Event.text)
      (events.map Event.text) where
  status := rfl
  output := rfl
  error := ⟨text (report.log.map Event.text), text (events.map Event.text), text report.complaints,
    errorText_eq report, errorText_eq (report.withLog events), lines_events _, lines_events _⟩

/-- However often the arguments ask for more to be reported, a session that ends, ends in the same
way: with the same status, the same text on standard output and the same files, and with the same
complaints behind the progress on standard error. To ask more often only adds lines of progress, and
each of them shows an event. From two requests on, the events of a decompression are put together
from the calls on the blocks, each with one event for every step that its run has begun. With a
parser that does what is documented, requests can be put in among the arguments and taken out. -/
theorem verbosity_adds_events (hsame : p.AgreeButVerbosity arguments others)
    (hgives : Gives p arguments d report after) :
    (∃ other shown otherShown, Gives p others d other after
        ∧ (∀ report' after', Gives p others d report' after' → report' = other ∧ after' = after)
        ∧ report.SameButProgress other shown otherShown
        ∧ List.Forall₂ Event.Shown report.log shown
        ∧ List.Forall₂ Event.Shown other.log otherShown
        ∧ (p.requests arguments ≤ p.requests others → shown.Sublist otherShown)
        ∧ (p.requests others ≤ p.requests arguments → otherShown.Sublist shown))
      ∧ (traceVerbosity ≤ p.requests arguments →
        ∀ limit bytes output container s, Asks p arguments d limit bytes output →
          Container.parse bytes = .ok container → Sandbox.load container.image = .ok s →
          ∃ calls tail, Sandbox.Calls limit s container.blocks calls
            ∧ tail.Sublist [.finished (Sandbox.declaredLength container.blocks)]
            ∧ report.log = Progress.ofParsing bytes
              ++ .imageLoaded container.image.paragraphs container.image.entry
                :: (calls.flatMap Sandbox.Call.events ++ tail))
      ∧ (p.Documented → ∀ words words' settings settings' rest,
          Setting.Spelled words settings → Setting.Spelled words' settings' →
          Setting.purpose settings = Setting.purpose settings' →
          p.AgreeButVerbosity (words ++ rest) (words' ++ rest)
            ∧ p.requests (words ++ rest) = settings.count .verbose + p.requests rest) := by
  obtain ⟨patience, hrun⟩ := hgives
  refine ⟨?_, fun hrequests limit bytes output container s hasks hparse hload => ?_,
    fun hp words words' settings settings' rest hwords hwords' hpurpose => ?_⟩
  · obtain ⟨result, after', events, hgrows, harguments, hothers⟩ :=
      exists_run_session hsame patience d
    obtain ⟨hresult, rfl⟩ := Prod.mk.inj (hrun.symm.trans harguments)
    cases result with
    | none => cases hresult
    | some result =>
      cases hresult
      have hgives : Gives p others d (result.withLog (events (p.requests others))) after :=
        ⟨patience, hothers⟩
      have hlines : ∀ v w, v ≤ w →
          ((events v).map Event.text).Sublist ((events w).map Event.text) :=
        fun v w hle => (hgrows v w hle).map Event.text
      exact ⟨_, _, _, hgives, fun _ _ => hgives.unique, sameButProgress_withLog _ _,
        Event.forall₂_shown _, Event.forall₂_shown _, hlines _ _, hlines _ _⟩
  · obtain ⟨⟨result, hresult⟩, hlog⟩ := log_eq_of_asks hasks hrun hrequests
    rw [hlog]
    refine Progress.exists_calls_ofDecompression hparse hload ?_ ?_
    · rintro n rfl
      rfl
    · rintro rfl
      obtain ⟨rfl, hown⟩ := decompressUnlimited_eq_some_iff.mp hresult
      exact hown
  · exact ⟨OptionParser.agreeButVerbosity_spelled hp hwords hwords' hpurpose rest,
      OptionParser.requests_spelled hp hwords rest⟩

/-! ### Two requests -/

def twoRequests : List SystemText := ["-vv", "in", "out"].map .encode

def noRequests : List SystemText := ["in", "out"].map .encode

theorem spelled_two_requests : Setting.Spelled twoRequests
    [.verbose, .verbose, .path (.encode "in"), .path (.encode "out")] := by
  have hletters : ['v', 'v'].map (fun letter => Setting.ofArgument? (.letter letter))
      = [Setting.verbose, .verbose].map some := rfl
  exact .letters (by decide) hletters (.path (.inr (by decide)) (.path (.inr (by decide)) .nil))

theorem spelled_no_requests : Setting.Spelled noRequests
    [.path (.encode "in"), .path (.encode "out")] :=
  .path (.inr (by decide)) (.path (.inr (by decide)) .nil)

theorem asks_two_requests (stream : List Byte) :
    Asks scanner twoRequests (holding stream) none stream (.encode "out") :=
  ⟨_, .encode "in", OptionParser.parse_spelled scanner_documented spelled_two_requests, rfl, rfl,
    rfl, rfl, rfl⟩

theorem gives_two_requests {stream contents : List Byte}
    (h : decompress patience stream = .ok contents) :
    ∃ report after, Gives scanner twoRequests (holding stream) report after := by
  have hread : (holding stream).read (.encode "in") = .ok stream := rfl
  have hdone : decompress? patience none stream = some (.ok contents) := by
    refine decompressUnlimited_eq_some_iff.mpr ⟨h, ?_⟩
    rintro error ⟨⟩
  have hsession : (sessionWith scanner patience twoRequests : Session Location)
      = decompression patience ⟨false, false, 2, none, noRequests⟩ (.encode "in")
        (.encode "out") := by
    rw [sessionWith, OptionParser.parse_spelled scanner_documented spelled_two_requests]
    rfl
  obtain ⟨after, hwrite⟩ : ∃ after, (holding stream).write (.encode "out") contents = .ok after :=
    ⟨_, rfl⟩
  refine ⟨.success [] (log traceVerbosity patience stream), after, patience, ?_⟩
  rw [hsession, run_decompression hread, hdone]
  dsimp only
  rw [hwrite]
  rfl

open Routine in
/-- Two requests in one argument, and the same arguments without them: two blocks are copied, and
what is reported of that has the image and the calls. -/
theorem verbosity_adds_events_two_requests :
    scanner.AgreeButVerbosity twoRequests noRequests
      ∧ ∃ (report other : Report) (after : Directory) (shown otherShown : List String)
          (container : Container) (s : Sandbox) (calls : List Sandbox.Call) (tail : List Event),
        Gives scanner twoRequests (holding (copiedStream copy [[1, 2, 3], []])) report after
          ∧ Gives scanner noRequests (holding (copiedStream copy [[1, 2, 3], []])) other after
          ∧ report.SameButProgress other shown otherShown
          ∧ otherShown.Sublist shown
          ∧ Sandbox.load container.image = .ok s ∧ Sandbox.Calls none s container.blocks calls
          ∧ List.Forall₂ Event.Shown (Progress.ofParsing (copiedStream copy [[1, 2, 3], []])
            ++ .imageLoaded container.image.paragraphs container.image.entry
              :: (calls.flatMap Sandbox.Call.events ++ tail)) shown := by
  have hsix := decompress_six_copied [[1, 2, 3], []] (by decide)
  have hsame : scanner.AgreeButVerbosity twoRequests noRequests :=
    OptionParser.agreeButVerbosity_spelled scanner_documented spelled_two_requests
      spelled_no_requests rfl []
  have htwo : scanner.requests twoRequests = 2 + scanner.requests [] :=
    OptionParser.requests_spelled scanner_documented spelled_two_requests []
  have hnone : scanner.requests noRequests = 0 + scanner.requests [] :=
    OptionParser.requests_spelled scanner_documented spelled_no_requests []
  obtain ⟨container, s, states, hparse, -, hload, -⟩ := decompress_ok_iff.mp hsix
  obtain ⟨report, after, hgives⟩ := gives_two_requests hsix
  obtain ⟨⟨other, shown, otherShown, hothers, -, hbut, hshown, -, -, hless⟩, htrace, -⟩ :=
    verbosity_adds_events hsame hgives
  obtain ⟨calls, tail, hcalls, -, hlog⟩ := htrace (by rw [htwo]; exact Nat.le_add_right _ _) none _
    (.encode "out") container s (asks_two_requests _) hparse hload
  rw [hlog] at hshown
  exact ⟨hsame, report, other, after, shown, otherShown, container, s, calls, tail, hgives, hothers,
    hbut, hless (by omega), hload, hcalls, hshown⟩

end Program

end CmStream.CommandLine
