import CmStream.Container.Request
import CmStream.Proofs.Checked.Reading

/-!
# No byte is lost, repeated or made up

A request that finds the bytes that it wants goes over exactly these, and answers with nothing but
them; any other leaves the reader alone. So what a sequence of requests has consumed is what lies in
front of the place that it has come to, whatever has failed on the way.
-/

namespace CmStream

namespace Reader

open Request

variable {r behind : Reader} {request : Request} {bytes : List Byte}

/-! ## One request -/

/-- The number of bytes that a request wants, computed. -/
def Request.wanted (position : Nat) : Request → Nat
  | take n => n
  | byte => 1
  | word => 2
  | align m => padding m position

/-- No number below the padding leads to a multiple. -/
theorem isLeast_padding {m : Nat} (hm : 0 < m) (position : Nat) :
    IsLeast {count | m ∣ position + count} (padding m position) := by
  constructor
  · exact dvd_position_add_padding hm position
  · intro count hcount
    have hsame : m ∣ position + padding m position := dvd_position_add_padding hm position
    have hlt := padding_lt hm position
    -- The distance between two multiples is one itself, and the padding is too small for that.
    refine Nat.le_of_not_lt fun hless => ?_
    have hdifference : m ∣ padding m position - count := by
      have hsub := Nat.dvd_sub hsame hcount
      rwa [Nat.add_sub_add_left] at hsub
    have hle := Nat.le_of_dvd (by omega) hdifference
    omega

theorem align_eq_ok {m : Nat} (h : padding m r.position ≤ r.remaining) :
    r.align m = .ok (padding m r.position,
      ⟨r.position + padding m r.position, r.rest.drop (padding m r.position)⟩) := by
  rw [align, take_eq_ok h]
  rfl

theorem align_eq_error {m : Nat} (h : r.remaining < padding m r.position) :
    r.align m = .error ⟨r.position, padding m r.position, r.remaining⟩ := by
  rw [align, take_eq_error h]
  rfl

theorem wants_wanted (hproper : request.Proper) (position : Nat) :
    request.Wants position (request.wanted position) := by
  cases request with
  | take n => rfl
  | byte => rfl
  | word => rfl
  | align m => exact isLeast_padding hproper position

theorem attempt_eq_ok (h : request.wanted r.position ≤ r.remaining) :
    request.attempt r = .ok (request.answer (r.rest.take (request.wanted r.position)),
      ⟨r.position + request.wanted r.position, r.rest.drop (request.wanted r.position)⟩) := by
  cases request with
  | take n =>
    exact congrArg (Except.map fun result => (Answer.bytes result.1, result.2)) (take_eq_ok h)
  | byte =>
    obtain ⟨position, rest⟩ := r
    match rest, h with
    | first :: rest, _ => rfl
  | word =>
    obtain ⟨position, rest⟩ := r
    match rest, h with
    | first :: second :: rest, _ => rfl
  | align m =>
    have hlength : (r.rest.take (padding m r.position)).length = padding m r.position :=
      List.length_take_of_le h
    show (r.align m).map _
      = .ok (Answer.skipped (r.rest.take (padding m r.position)).length, _)
    rw [align_eq_ok h, hlength]
    rfl

theorem attempt_eq_error (h : r.remaining < request.wanted r.position) :
    request.attempt r = .error ⟨r.position, request.wanted r.position, r.remaining⟩ := by
  cases request with
  | take n =>
    exact congrArg (Except.map fun result => (Answer.bytes result.1, result.2)) (take_eq_error h)
  | byte =>
    obtain ⟨position, rest⟩ := r
    match rest, h with
    | [], _ => rfl
  | word =>
    obtain ⟨position, rest⟩ := r
    match rest, h with
    | [], _ => rfl
    | [_], _ => rfl
  | align m =>
    exact congrArg (Except.map fun result => (Answer.skipped result.1, result.2))
      (align_eq_error h)

/-- A request that finds what it wants goes over it. -/
theorem perform_eq_ok (h : request.wanted r.position ≤ r.remaining) :
    request.perform r = (.ok (request.answer (r.rest.take (request.wanted r.position))),
      ⟨r.position + request.wanted r.position, r.rest.drop (request.wanted r.position)⟩) := by
  rw [perform, attempt_eq_ok h]

/-- Any other request fails and leaves the reader where it is. -/
theorem perform_eq_error (h : r.remaining < request.wanted r.position) :
    request.perform r = (.error ⟨r.position, request.wanted r.position, r.remaining⟩, r) := by
  rw [perform, attempt_eq_error h]

/-- An answer tells the bytes that it has been made of. -/
theorem consumed_answer (h : request.wanted r.position ≤ r.remaining) :
    (request.answer (r.rest.take (request.wanted r.position))).consumed r
      = r.rest.take (request.wanted r.position) := by
  obtain ⟨position, rest⟩ := r
  cases request with
  | take n => rfl
  | byte =>
    match rest, h with
    | first :: rest, _ => rfl
  | word =>
    match rest, h with
    | first :: second :: rest, _ => exact Word.toBytes_ofBytes first second
  | align m =>
    have hlength : (rest.take (padding m position)).length = padding m position :=
      List.length_take_of_le h
    exact congrArg rest.take hlength

/-- Whether it succeeds or not, a request goes over the bytes that it consumes. -/
theorem passes_perform (r : Reader) (request : Request) :
    r.Passes (request.consumed r) (request.perform r).2 := by
  unfold Request.consumed
  by_cases h : request.wanted r.position ≤ r.remaining
  · rw [perform_eq_ok h]
    dsimp only
    rw [consumed_answer h]
    exact ⟨(List.take_append_drop _ _).symm,
      congrArg (r.position + ·) (List.length_take_of_le h).symm⟩
  · rw [perform_eq_error (Nat.lt_of_not_le h)]
    exact ⟨rfl, rfl⟩

/-- Two bytes that are read one after the other are those of a word. -/
theorem exists_bytes_of_word {value : Word}
    (h : Request.word.perform r = (.ok (.word value), behind)) :
    ∃ first second, answers [.byte, .byte] r = [.ok (.byte first), .ok (.byte second)]
      ∧ r.after [.byte, .byte] = behind ∧ value.toNat = first.toNat + 256 * second.toNat := by
  obtain ⟨position, rest⟩ := r
  match rest, h with
  | first :: second :: rest, h =>
    cases h
    exact ⟨first, second, rfl, rfl, Word.toNat_ofBytes first second⟩

/-! ## Sequences of requests -/

/-- Requests go over the bytes that they consume together. -/
theorem passes_after (requests : List Request) (r : Reader) :
    r.Passes (consumed requests r) (r.after requests) := by
  induction requests generalizing r with
  | nil => exact ⟨rfl, rfl⟩
  | cons request requests ih => exact (passes_perform r request).append (ih _)

/-- Reading never goes back. -/
theorem position_le_after (r : Reader) (more : List Request) :
    r.position ≤ (r.after more).position := by
  rw [(passes_after more r).position]
  exact Nat.le_add_right _ _

/-- Starting at a place is the same as going there by one read. -/
theorem startingAt_eq_ok {place : Nat} (h : place ≤ bytes.length) :
    startingAt bytes place = .ok ((ofBytes bytes).after [.take place]) := by
  have hperform := @perform_eq_ok (ofBytes bytes) (.take place) h
  rw [startingAt, take_eq_ok h]
  exact congrArg Except.ok (congrArg Prod.snd hperform).symm

theorem startingAt_eq_error {place : Nat} (h : bytes.length < place) :
    startingAt bytes place = .error ⟨0, place, bytes.length⟩ := by
  rw [startingAt, take_eq_error h]
  rfl

/-- Over bytes from their beginning, reading comes to the place behind them. -/
theorem Passes.eq_take {taken : List Byte} (h : (ofBytes bytes).Passes taken behind) :
    taken = bytes.take behind.position ∧ behind.rest = bytes.drop behind.position
      ∧ behind.position + behind.remaining = bytes.length := by
  have hbytes : bytes = taken ++ behind.rest := h.rest
  have hposition : behind.position = taken.length := h.position.trans (Nat.zero_add _)
  rw [hposition, hbytes]
  simp [remaining]

end Reader

/-! ## Cursors -/

namespace Checked.Cursor

open Reader

variable {bytes : List Byte} {c : Cursor} {r : Reader} {request : Request}

theorem matches_attempt (h : Reads bytes c r) (hlength : Addressable bytes)
    (hproper : request.Proper) : Matches (ReadsOn bytes) (c.attempt request)
      ((request.attempt r).mapError FormatError.overrun) := by
  cases request with
  | take n =>
    refine mapError_map _ _ _ ▸ (matches_nextBytes h hlength n).map ?_
    rintro _ _ ⟨taken, -, hreads⟩
    exact .intro _ hreads
  | byte =>
    refine mapError_map _ _ _ ▸ (matches_nextByte h hlength).map ?_
    rintro _ _ ⟨value, hreads⟩
    exact .intro _ hreads
  | word =>
    refine mapError_map _ _ _ ▸ (matches_nextWord h hlength).map ?_
    rintro _ _ ⟨value, hreads⟩
    exact .intro _ hreads
  | align m =>
    refine mapError_map _ _ _ ▸ (matches_nextMultiple h hlength hproper).map ?_
    rintro _ _ ⟨count, hreads⟩
    exact .intro _ hreads

/-- A cursor answers as the reader does that has the bytes behind it. -/
theorem perform_eq_some (h : Reads bytes c r) (hlength : Addressable bytes)
    (hproper : request.Proper) : ∃ behind, Reads bytes behind (request.perform r).2
      ∧ c.perform request
        = some ((request.perform r).1.mapError FormatError.overrun, behind) := by
  have hmatches := matches_attempt h hlength hproper
  unfold perform Request.perform
  cases hattempt : request.attempt r with
  | ok result =>
    rw [hattempt] at hmatches
    obtain ⟨_, hrun, hreads⟩ := hmatches
    obtain ⟨value, hreads⟩ := hreads
    rw [hrun]
    exact ⟨_, hreads, rfl⟩
  | error overrun =>
    rw [hattempt] at hmatches
    have hrun : (c.attempt request).run = some (.error (.overrun overrun)) := hmatches
    rw [hrun]
    exact ⟨c, h, rfl⟩

theorem performAll_eq_some {requests : List Request} (h : Reads bytes c r)
    (hlength : Addressable bytes) (hproper : ∀ request ∈ requests, request.Proper) :
    ∃ behind, Reads bytes behind (r.after requests)
      ∧ performAll requests c
        = some ((answers requests r).map (Except.mapError FormatError.overrun), behind) := by
  -- Cursor and reader stay at the same place, also behind a request that fails.
  induction requests generalizing c r with
  | nil => exact ⟨c, h, rfl⟩
  | cons request requests ih =>
    obtain ⟨hfirst, hothers⟩ := List.forall_mem_cons.mp hproper
    obtain ⟨between, hbetween, hperform⟩ := perform_eq_some h hlength hfirst
    obtain ⟨behind, hbehind, hperformAll⟩ := ih hbetween hothers
    refine ⟨behind, hbehind, ?_⟩
    rw [performAll, hperform]
    show (performAll requests between >>= _) = _
    rw [hperformAll]
    rfl

/-- A cursor is known by its place. -/
theorem Reads.eq_mk (h : Reads bytes c r) : c = ⟨bytes, r.position⟩ := by
  obtain ⟨rfl, -, rfl⟩ := h
  rfl

end Checked.Cursor

/-! ## From the front -/

namespace Reader

open Request Checked

/-- After any requests from the front of some bytes, failed ones among them, those that have been
consumed are the bytes in front of the place that has been reached, and the others are left. The
next request succeeds exactly if what it wants is left: then it goes over that and answers with it,
a word with its two bytes. Otherwise it says what it has missed and nothing has changed. Starting at
a place is the same as going there by one read. No number on the way needs more than 64 bits. -/
theorem requests_consume_front (bytes : List Byte) {requests : List Request}
    (hproper : ∀ request ∈ requests, request.Proper) :
    let start := ofBytes bytes
    let r := start.after requests
    r.position + r.remaining = bytes.length
      ∧ consumed requests start = bytes.take r.position
      ∧ (∀ more, r.position ≤ (r.after more).position)
      ∧ (∀ request : Request, request.Proper → ∃ wanted, request.Wants r.position wanted
        ∧ (wanted ≤ r.remaining → request.perform r
          = (.ok (request.answer ((bytes.drop r.position).take wanted)),
            ⟨r.position + wanted, bytes.drop (r.position + wanted)⟩))
        ∧ (r.remaining < wanted →
          request.perform r = (.error ⟨r.position, wanted, r.remaining⟩, r)))
      ∧ (∀ value behind, Request.word.perform r = (.ok (.word value), behind) →
        ∃ first second, answers [.byte, .byte] r = [.ok (.byte first), .ok (.byte second)]
          ∧ r.after [.byte, .byte] = behind ∧ value.toNat = first.toNat + 256 * second.toNat)
      ∧ (Addressable bytes → Cursor.performAll requests (.ofBytes bytes)
        = some ((answers requests start).map (Except.mapError FormatError.overrun),
          ⟨bytes, r.position⟩))
      ∧ ∀ place, (place ≤ bytes.length →
          startingAt bytes place = .ok (start.after [.take place]))
        ∧ (bytes.length < place →
          startingAt bytes place = .error ⟨0, place, bytes.length⟩) := by
  obtain ⟨htake, hdrop, hlength⟩ := (passes_after requests (ofBytes bytes)).eq_take
  refine ⟨hlength, htake, position_le_after _, fun request hwants => ?_,
    fun _ _ => exists_bytes_of_word, fun haddressable => ?_,
    fun place => ⟨startingAt_eq_ok, startingAt_eq_error⟩⟩
  · refine ⟨_, wants_wanted hwants _, fun hroom => ?_, perform_eq_error⟩
    rw [perform_eq_ok hroom, hdrop, List.drop_drop]
  · obtain ⟨behind, hreads, hperformAll⟩ :=
      Cursor.performAll_eq_some (Cursor.reads_ofBytes bytes) haddressable hproper
    rw [hperformAll, hreads.eq_mk]

/-- A word, a read of more bytes than there can be, and the next multiple of four. -/
def mixed : List Request := [.word, .take 0xffffffffffffffff, .align 4]

theorem requests_consume_front_mixed :
    consumed mixed (ofBytes [1, 2, 3, 4, 5]) = [1, 2, 3, 4]
      ∧ Request.word.perform ((ofBytes [1, 2, 3, 4, 5]).after mixed)
        = (.error ⟨4, 2, 1⟩, (ofBytes [1, 2, 3, 4, 5]).after mixed)
      ∧ Cursor.performAll mixed (.ofBytes [1, 2, 3, 4, 5])
        = some ([.ok (.word 0x0201), .error (.overrun ⟨2, 0xffffffffffffffff, 3⟩),
          .ok (.skipped 2)], ⟨[1, 2, 3, 4, 5], 4⟩) := by
  have hproper : ∀ request ∈ mixed, request.Proper := by
    simp [mixed, Proper]
  have hposition : ((ofBytes [1, 2, 3, 4, 5]).after mixed).position = 4 := by decide
  obtain ⟨hlength, hconsumed, -, hnext, -, hcursor, -⟩ :=
    requests_consume_front [1, 2, 3, 4, 5] hproper
  rw [hposition] at hlength hconsumed hcursor
  have hremaining : ((ofBytes [1, 2, 3, 4, 5]).after mixed).remaining = 1 :=
    Nat.add_left_cancel hlength
  refine ⟨hconsumed, ?_, (hcursor (by unfold Addressable; decide)).trans ?_⟩
  · obtain ⟨wanted, rfl, -, hfails⟩ := hnext .word trivial
    rw [hposition, hremaining] at hfails
    exact hfails (by decide)
  · rfl

end Reader

end CmStream
