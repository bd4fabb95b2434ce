import CmStream.CommandLine.Verbosity
import CmStream.Proofs.Text.SystemText

/-!
# From arguments to settings

A parser that does what it is documented to do hands out the settings that arguments spell. How much
is to be reported has no part in the other options.
-/

namespace CmStream.CommandLine

namespace OptionParser

variable {p : OptionParser} {s t : p.State} {words : List SystemText}

/-- One turn of the loop: what is handed out, what it asks for, and all the rest. -/
theorem settings_eq (s : p.State) : p.settings s
    = match (p.next s).1 with
      | .error error => ([], some error)
      | .ok none => ([], none)
      | .ok (some argument) =>
        match (p.setting argument (p.next s).2).1 with
        | .error error => ([], some error)
        | .ok setting =>
          (setting :: (p.settings (p.setting argument (p.next s).2).2).1,
            (p.settings (p.setting argument (p.next s).2).2).2) := by
  rw [OptionParser.settings]
  split
  case h_1 hnext => rw [hnext]
  case h_2 hnext => rw [hnext]
  case h_3 hnext =>
    rw [hnext]
    dsimp only
    split
    case h_1 hsetting => rw [hsetting]
    case h_2 hsetting => rw [hsetting]

/-! ## States that are alike -/

namespace Bisimulation

variable {Related : p.State → p.State → Prop} (hrelated : p.Bisimulation Related)
include hrelated

theorem setting {argument : Argument} (h : Related s t)
    (hnext : (p.next s).1 = .ok (some argument)) :
    (p.setting argument (p.next s).2).1 = (p.setting argument (p.next t).2).1
      ∧ Related (p.setting argument (p.next s).2).2 (p.setting argument (p.next t).2).2 := by
  unfold OptionParser.setting
  split
  case isTrue hname =>
    subst hname
    have hvalue := hrelated.value h hnext
    have hafter := hrelated.value_after h hnext
    rcases hs : p.value (p.next s).2 with ⟨_ | value, after⟩ <;>
      rcases ht : p.value (p.next t).2 with ⟨_ | value', after'⟩ <;>
      rw [hs, ht] at hvalue hafter <;> cases hvalue
    · exact ⟨rfl, hafter⟩
    · exact ⟨rfl, hafter⟩
  case isFalse =>
    cases Setting.ofArgument? argument with
    | some setting => exact ⟨rfl, hrelated.next_after h⟩
    | none => exact ⟨rfl, hrelated.next_after h⟩

theorem settings_eq {s t : p.State} (h : Related s t) : p.settings s = p.settings t := by
  rw [OptionParser.settings_eq s, OptionParser.settings_eq t, ← hrelated.next h]
  cases hnext : (p.next s).1 with
  | error error => rfl
  | ok handed =>
    cases handed with
    | none => rfl
    | some argument =>
      obtain ⟨hsetting, hafter⟩ := hrelated.setting h hnext
      dsimp only
      rw [← hsetting]
      cases hset : (p.setting argument (p.next s).2).1 with
      | error error => rfl
      | ok setting =>
        have hless : p.left (p.setting argument (p.next s).2).2 < p.left s :=
          Nat.lt_of_le_of_lt (p.left_setting (Prod.ext hset rfl)) (p.left_next (Prod.ext hnext rfl))
        dsimp only
        rw [settings_eq hafter]
termination_by p.left s

end Bisimulation

theorem Alike.settings_eq (h : p.Alike s t) : p.settings s = p.settings t := by
  obtain ⟨Related, hrelated, hst⟩ := h
  exact hrelated.settings_eq hst

/-! ## Settings that are spelled out -/

/-- An argument that asks for something by itself, in front of what another state hands out. -/
theorem settings_of_next {argument : Argument} {setting : Setting}
    (hknown : Setting.ofArgument? argument = some setting)
    (hnext : (p.next s).1 = .ok (some argument) ∧ p.Alike (p.next s).2 t) :
    p.settings s = (setting :: (p.settings t).1, (p.settings t).2) := by
  have hplain : argument ≠ .name Options.maxStepsName := by
    rintro rfl
    cases hknown
  obtain ⟨hargument, halike⟩ := hnext
  have hsetting : p.setting argument (p.next s).2 = (.ok setting, (p.next s).2) := by
    rw [OptionParser.setting, if_neg hplain, hknown]
  rw [settings_eq s, hargument]
  dsimp only
  rw [hsetting, halike.settings_eq]

/-- A letter that is known is no sign of its own. -/
theorem ne_of_ofArgument?_letter {letter : Char} {setting : Setting}
    (h : Setting.ofArgument? (.letter letter) = some setting) : letter ≠ '-' ∧ letter ≠ '=' := by
  constructor <;> (rintro rfl; cases h)

theorem ne_of_ofArgument?_name {name : String} {setting : Setting}
    (h : Setting.ofArgument? (.name name) = some setting) : name ≠ "" ∧ '=' ∉ name.toList := by
  unfold Setting.ofArgument? at h
  dsimp only at h
  split at h
  case isTrue hname => subst hname; decide
  split at h
  case isTrue hname => subst hname; decide
  split at h
  case isTrue hname => subst hname; decide
  cases h

variable (hp : p.Documented)
include hp

/-- A group of letters is handed out letter by letter. -/
theorem settings_letters (rest : List SystemText) {letters : List Char} {meant : List Setting}
    (hknown : letters.map (fun letter => Setting.ofArgument? (.letter letter)) = meant.map some) :
    p.settings (p.start (ungrouped letters rest))
      = (meant ++ (p.settings (p.start rest)).1, (p.settings (p.start rest)).2) := by
  induction letters generalizing meant with
  | nil =>
    obtain rfl := List.map_eq_nil_iff.mp hknown.symm
    rfl
  | cons letter letters ih =>
    obtain ⟨setting, meant, rfl⟩ : ∃ setting more, meant = setting :: more :=
      List.exists_cons_of_ne_nil fun h => by simp [h] at hknown
    obtain ⟨hfirst, hmore⟩ := List.cons.inj hknown
    obtain ⟨hhyphen, -⟩ := ne_of_ofArgument?_letter hfirst
    -- The letters behind it are known as well, so they are neither a hyphen nor an equals sign.
    have hbehind : letters.head? ≠ some '-' ∧ letters.head? ≠ some '=' := by
      cases letters with
      | nil => simp
      | cons second letters =>
        obtain ⟨next, hnext⟩ : ∃ next, Setting.ofArgument? (.letter second) = some next := by
          cases meant <;> simp_all
        simpa using ne_of_ofArgument?_letter hnext
    rw [ungrouped, settings_of_next hfirst (hp.next_letter letter letters rest hhyphen
      hbehind.1 hbehind.2), ih hmore]
    · rfl
    · exact List.cons_ne_nil _ _

/-- The limit takes the argument behind it as its value. -/
theorem settings_maxSteps {value : String} {limit : Nat} (rest : List SystemText)
    (hread : Text.readNumeral Options.stepsBound value = .ok limit) :
    p.settings (p.start (named Options.maxStepsName :: .encode value :: rest))
      = (.maxSteps limit :: (p.settings (p.start rest)).1, (p.settings (p.start rest)).2) := by
  obtain ⟨hnext, -⟩ :=
    hp.next_name Options.maxStepsName (.encode value :: rest) (by decide) (by decide)
  obtain ⟨hvalue, halike⟩ :=
    hp.value_next Options.maxStepsName (.encode value) rest (by decide) (by decide)
  generalize p.start (named Options.maxStepsName :: .encode value :: rest) = s at *
  have hlimit : p.readLimit (.encode value) = .ok limit := by
    rw [readLimit, SystemText.text?_eq_some_iff.mpr rfl]
    dsimp only
    rw [hread]
    rfl
  have hsetting : p.setting (.name Options.maxStepsName) (p.next s).2
      = (.ok (.maxSteps limit), (p.value (p.next s).2).2) := by
    have hpair : p.value (p.next s).2 = (.ok (.encode value), (p.value (p.next s).2).2) :=
      Prod.ext hvalue rfl
    rw [OptionParser.setting, if_pos rfl, hpair]
    dsimp only
    rw [hlimit]
    rfl
  rw [settings_eq s, hnext]
  dsimp only
  rw [hsetting, halike.settings_eq]

/-- What arguments spell is what is handed out for them, in front of anything else. -/
theorem settings_spelled {settings : List Setting} (rest : List SystemText)
    (h : Setting.Spelled words settings) :
    p.settings (p.start (words ++ rest))
      = (settings ++ (p.settings (p.start rest)).1, (p.settings (p.start rest)).2) := by
  induction h with
  | nil => rfl
  | path plain later ih =>
    rw [List.cons_append, settings_of_next rfl (hp.next_text _ _ plain), ih]
    rfl
  | @letters letters meant words settings some_letter known later ih =>
    obtain ⟨letter, more, rfl⟩ := List.exists_cons_of_ne_nil some_letter
    have hgroup := settings_letters hp (words ++ rest) known
    rw [ih] at hgroup
    rw [List.cons_append, List.append_assoc]
    exact hgroup
  | name known later ih =>
    obtain ⟨hname, hequals⟩ := ne_of_ofArgument?_name known
    rw [List.cons_append, settings_of_next known (hp.next_name _ _ hname hequals), ih]
    rfl
  | maxSteps read later ih =>
    rw [List.cons_append, List.cons_append, settings_maxSteps hp _ read, ih]
    rfl

theorem parse_spelled {settings : List Setting} (h : Setting.Spelled words settings) :
    p.parse words = .ok (settings.foldl Options.apply Options.initial) := by
  have hsettings := settings_spelled hp [] h
  rw [List.append_nil, settings_eq (p.start []), hp.next_end] at hsettings
  rw [OptionParser.parse, hsettings, List.append_nil]

end OptionParser

/-! ## Requests for more -/

namespace Options

/-- The options with another verbosity. -/
def withVerbosity (o : Options) (verbosity : Nat) : Options := { o with verbosity := verbosity }

/-- One request after some others. -/
theorem apply_verbose (o : Options) (v : Nat) :
    (o.withVerbosity v).apply .verbose = o.withVerbosity (min (v + 1) maxVerbosity) := rfl

theorem apply_withVerbosity {setting : Setting} (h : setting ≠ .verbose) (o : Options) (v : Nat) :
    (o.withVerbosity v).apply setting = (o.apply setting).withVerbosity v := by
  cases setting with
  | verbose => exact absurd rfl h
  | list | help | maxSteps | path => rfl

/-- Requests for more can be counted apart from all else that is asked for. -/
theorem foldl_apply (settings : List Setting) (o : Options) {v : Nat} (hv : v ≤ maxVerbosity) :
    settings.foldl apply (o.withVerbosity v)
      = ((Setting.purpose settings).foldl apply o).withVerbosity
        (min (v + settings.count .verbose) maxVerbosity) := by
  induction settings generalizing o v with
  | nil => rw [List.count_nil, Nat.add_zero, Nat.min_eq_left hv]; rfl
  | cons setting rest ih =>
    rw [List.foldl_cons, Setting.purpose]
    by_cases hverbose : setting = .verbose
    · subst hverbose
      have hcount : min (min (v + 1) maxVerbosity + rest.count .verbose) maxVerbosity
          = min (v + (rest.count .verbose + 1)) maxVerbosity := by omega
      rw [List.filter_cons_of_neg (by simp), List.count_cons_self, apply_verbose,
        ih o (Nat.min_le_right _ _), hcount]
      rfl
    · rw [List.filter_cons_of_pos (by simpa using hverbose), List.count_cons_of_ne hverbose,
        apply_withVerbosity hverbose, ih (o.apply setting) hv, List.foldl_cons]
      rfl

end Options

namespace OptionParser

variable {p : OptionParser} {arguments others words words' : List SystemText} {o : Options}

/-- Arguments are understood by their purpose, but for the verbosity. -/
theorem parse_eq (arguments : List SystemText) : p.parse arguments
    = match (p.settings (p.start arguments)).2 with
      | some error => .error error
      | none => .ok (((Setting.purpose (p.settings (p.start arguments)).1).foldl Options.apply
          Options.initial).withVerbosity (min (p.requests arguments) Options.maxVerbosity)) := by
  rw [OptionParser.parse, requests]
  rcases p.settings (p.start arguments) with ⟨settings, _ | error⟩
  · have hcounted := Options.foldl_apply settings Options.initial (Nat.zero_le Options.maxVerbosity)
    rw [Nat.zero_add] at hcounted
    exact congrArg Except.ok hcounted
  · rfl

theorem verbosity_of_parse (h : p.parse arguments = .ok o) :
    o.verbosity = min (p.requests arguments) Options.maxVerbosity := by
  rw [parse_eq] at h
  split at h <;> cases h
  rfl

/-- Arguments that differ in their requests for more only come to the same error, or to the same
options but for the verbosity. -/
theorem AgreeButVerbosity.parse (h : p.AgreeButVerbosity arguments others) :
    (∃ error, p.parse arguments = .error error ∧ p.parse others = .error error)
      ∨ ∃ o : Options,
        p.parse arguments = .ok (o.withVerbosity (min (p.requests arguments) Options.maxVerbosity))
          ∧ p.parse others
            = .ok (o.withVerbosity (min (p.requests others) Options.maxVerbosity)) := by
  rw [parse_eq arguments, parse_eq others, h.purpose, h.error]
  cases (p.settings (p.start others)).2 with
  | some error => exact .inl ⟨error, rfl, rfl⟩
  | none => exact .inr ⟨_, rfl, rfl⟩

section Spelled

variable (hp : p.Documented) {settings settings' : List Setting}
  (h : Setting.Spelled words settings)
include hp h

theorem requests_spelled (rest : List SystemText) :
    p.requests (words ++ rest) = settings.count .verbose + p.requests rest := by
  rw [requests, settings_spelled hp rest h, List.count_append, requests]

/-- In front of the same arguments, requests for more can be put in and taken out. -/
theorem agreeButVerbosity_spelled (h' : Setting.Spelled words' settings')
    (hpurpose : Setting.purpose settings = Setting.purpose settings') (rest : List SystemText) :
    p.AgreeButVerbosity (words ++ rest) (words' ++ rest) := by
  have hfirst := settings_spelled hp rest h
  have hsecond := settings_spelled hp rest h'
  constructor
  · rw [hfirst, hsecond, Setting.purpose, Setting.purpose, List.filter_append, List.filter_append]
    exact congrArg (· ++ _) hpurpose
  · rw [hfirst, hsecond]

end Spelled

end OptionParser

end CmStream.CommandLine
