import CmStream.Text.Hex
import CmStream.Text.Reading

/-!
# What is written is read back

Numbers are read back as what they were, decimal or hexadecimal, and each of them is a single word.
-/

namespace CmStream.Text

variable {base n digit : Nat} {c : Char} {l m : List Char}

/-! ## Digits -/

theorem digit?_digitChar (h : digit < 16) : digit? (Nat.digitChar digit) = some digit := by
  revert digit
  decide

theorem isAlphanum_digitChar (h : digit < 16) : (Nat.digitChar digit).isAlphanum = true := by
  revert digit
  decide

theorem isAlphanum_of_mem_toDigits (hbase : 1 < base) (hsmall : base ≤ 16)
    (hc : c ∈ Nat.toDigits base n) : c.isAlphanum = true := by
  induction n using Nat.strongRecOn with
  | ind n ih =>
    rw [Nat.toDigits_eq_if hbase] at hc
    split at hc
    case isTrue hless =>
      obtain rfl := List.mem_singleton.mp hc
      exact isAlphanum_digitChar (Nat.lt_of_lt_of_le hless hsmall)
    case isFalse hle =>
      rcases List.mem_append.mp hc with hfront | hlast
      · exact ih (n / base) (Nat.div_lt_self (by omega) hbase) hfront
      · obtain rfl := List.mem_singleton.mp hlast
        exact isAlphanum_digitChar
          (Nat.lt_of_lt_of_le (Nat.mod_lt n (Nat.zero_lt_of_lt hbase)) hsmall)

/-! ## Numbers -/

theorem number?_append (value : Nat) (l m : List Char) :
    number? base value (l ++ m) = (number? base value l).bind (number? base · m) := by
  induction l generalizing value with
  | nil => rfl
  | cons c l ih =>
    rw [List.cons_append, number?, number?]
    cases digit? c with
    | none => rfl
    | some digit =>
      dsimp only
      split
      case isTrue => exact ih _
      case isFalse => rfl

theorem number?_digitChar (hsmall : base ≤ 16) (value : Nat) (h : digit < base) :
    number? base value [Nat.digitChar digit] = some (value * base + digit) := by
  rw [number?, digit?_digitChar (Nat.lt_of_lt_of_le h hsmall)]
  dsimp only
  rw [if_pos h, number?]

theorem number?_toDigits (hbase : 1 < base) (hsmall : base ≤ 16) (n : Nat) :
    number? base 0 (Nat.toDigits base n) = some n := by
  induction n using Nat.strongRecOn with
  | ind n ih =>
    rw [Nat.toDigits_eq_if hbase]
    split
    case isTrue hless => rw [number?_digitChar hsmall 0 hless, Nat.zero_mul, Nat.zero_add]
    case isFalse hle =>
      have hmod := Nat.mod_lt n (Nat.zero_lt_of_lt hbase)
      rw [number?_append, ih (n / base) (Nat.div_lt_self (by omega) hbase), Option.bind_some,
        number?_digitChar hsmall _ hmod, Nat.div_add_mod']

/-- Leading zeros make no difference. -/
theorem number?_leftpad (hbase : 0 < base) (width : Nat) (l : List Char) :
    number? base 0 (l.leftpad width '0') = number? base 0 l := by
  have hzeros : ∀ count, number? base 0 (List.replicate count '0' ++ l) = number? base 0 l := by
    intro count
    induction count with
    | zero => rfl
    | succ count ih =>
      have hzero : digit? '0' = some 0 := by decide
      rw [List.replicate_succ, List.cons_append, number?, hzero]
      dsimp only
      rw [if_pos hbase, Nat.zero_mul, Nat.zero_add, ih]
  exact hzeros _

theorem decimal?_toString (n : Nat) : decimal? (toString n) = some n := by
  have hne : toString n ≠ "" := Nat.repr_ne_empty
  rw [decimal?, if_neg hne, Nat.toString_eq_ofList_toDigits, String.toList_ofList,
    number?_toDigits (by decide) (by decide)]

theorem number?_hex (width n : Nat) : number? 16 0 (hex width n).toList = some n := by
  rw [hex, String.toList_ofList, number?_leftpad (by decide),
    number?_toDigits (by decide) (by decide)]

theorem hex_ne_nil (width n : Nat) : (hex width n).toList ≠ [] := by
  rw [hex, String.toList_ofList, List.leftpad]
  exact List.append_ne_nil_of_right_ne_nil _ Nat.toDigits_ne_nil

theorem marked?_markedHex (width n : Nat) : marked? (markedHex width n) = some n := by
  have hnumber := number?_hex width n
  have hlist : (markedHex width n).toList = '0' :: 'x' :: (hex width n).toList :=
    String.toList_append
  obtain ⟨digit, digits, hdigits⟩ := List.exists_cons_of_ne_nil (hex_ne_nil width n)
  rw [hdigits] at hnumber hlist
  rw [marked?, hlist]
  exact hnumber

theorem fourDigits?_hex (w : Word) : fourDigits? (hex 4 w.toNat) = some w := by
  have hdigits : (Nat.toDigits 16 w.toNat).length ≤ 4 :=
    (Nat.length_toDigits_le_iff (by decide) (by decide)).mpr w.isLt
  have hlength : (hex 4 w.toNat).length = 4 := by
    rw [← String.length_toList, hex, String.toList_ofList, List.length_leftpad]
    omega
  rw [fourDigits?, if_pos hlength, number?_hex, Option.map_some, BitVec.ofNat_toNat,
    BitVec.setWidth_eq]

/-! ## Words -/

/-- A text begins with what keeps words apart. -/
def opensApart (text : String) : Bool := text.toList.head?.any separates

/-- A text ends with what keeps words apart. -/
def closesApart (text : String) : Bool := text.toList.getLast?.any separates

section Joined

variable {text front middle back : String}

theorem exists_of_opensApart (h : opensApart text = true) :
    ∃ c rest, text.toList = c :: rest ∧ separates c = true := by
  unfold opensApart at h
  cases hlist : text.toList with
  | nil => simp [hlist] at h
  | cons c rest => exact ⟨c, rest, rfl, by simpa [hlist] using h⟩

theorem exists_of_closesApart (h : closesApart text = true) :
    ∃ rest c, text.toList = rest ++ [c] ∧ separates c = true := by
  unfold closesApart at h
  rcases List.eq_nil_or_concat text.toList with hlist | ⟨rest, c, hlist⟩
  · simp [hlist] at h
  · rw [List.concat_eq_append] at hlist
    exact ⟨rest, c, hlist, by simpa [hlist] using h⟩

theorem opensApart_append (h : opensApart front = true) (back : String) :
    opensApart (front ++ back) = true := by
  obtain ⟨c, rest, hlist, hc⟩ := exists_of_opensApart h
  simpa [opensApart, hlist] using hc

theorem words_append_of_opens (front : String) (h : opensApart back = true) :
    words (front ++ back) = words front ++ words back := by
  obtain ⟨c, rest, hback, hc⟩ := exists_of_opensApart h
  rw [words, words, words, String.toList_append, hback, List.splitOnP_append_cons _ _ hc,
    List.splitOnP_cons_eq_if_modifyHead, if_pos hc, List.filter_append, List.map_append]
  rfl

theorem words_append_of_closes (h : closesApart front = true) (back : String) :
    words (front ++ back) = words front ++ words back := by
  obtain ⟨rest, c, hfront, hc⟩ := exists_of_closesApart h
  rw [words, words, words, String.toList_append, hfront, List.append_assoc, List.singleton_append,
    List.splitOnP_append_cons _ _ hc, List.splitOnP_append_cons _ _ hc]
  simp

theorem words_append_between (front : String) (hopens : opensApart middle = true)
    (hcloses : closesApart middle = true) (back : String) :
    words (front ++ middle ++ back) = words front ++ words middle ++ words back := by
  rw [String.append_assoc, words_append_of_opens front (opensApart_append hopens back),
    words_append_of_closes hcloses, List.append_assoc]

end Joined

/-- Letters and digits alone are a word. -/
theorem words_eq_singleton {text : String} (hne : text ≠ "")
    (h : ∀ c ∈ text.toList, c.isAlphanum = true) : words text = [text] := by
  have hsingle : text.toList.splitOnP separates = [text.toList] :=
    List.splitOnP_eq_singleton fun c hc => by simp [separates, h c hc]
  rw [words, hsingle, List.filter_cons_of_pos (by simpa using hne)]
  simp

theorem words_toString (n : Nat) : words (toString n) = [toString n] := by
  refine words_eq_singleton Nat.repr_ne_empty fun c hc => ?_
  rw [Nat.toString_eq_ofList_toDigits, String.toList_ofList] at hc
  exact isAlphanum_of_mem_toDigits (by decide) (by decide) hc

theorem isAlphanum_of_mem_hex {width n : Nat} (hc : c ∈ (hex width n).toList) :
    c.isAlphanum = true := by
  rw [hex, String.toList_ofList, List.leftpad] at hc
  rcases List.mem_append.mp hc with hzero | hdigit
  · rw [List.eq_of_mem_replicate hzero]
    decide
  · exact isAlphanum_of_mem_toDigits (by decide) (by decide) hdigit

theorem words_hex (width n : Nat) : words (hex width n) = [hex width n] :=
  words_eq_singleton (fun h => hex_ne_nil width n (by rw [h]; rfl)) fun _ => isAlphanum_of_mem_hex

theorem words_markedHex (width n : Nat) : words (markedHex width n) = [markedHex width n] := by
  have hlist : (markedHex width n).toList = ['0', 'x'] ++ (hex width n).toList :=
    String.toList_append
  refine words_eq_singleton (fun h => ?_) fun c hc => ?_
  · rw [h] at hlist
    cases hlist
  · rw [hlist] at hc
    rcases List.mem_append.mp hc with hmark | hdigit
    · have hmarks : ['0', 'x'].all Char.isAlphanum = true := by decide
      exact List.all_eq_true.mp hmarks c hmark
    · exact isAlphanum_of_mem_hex hdigit

theorem words_rightAligned (width : Nat) (text : String) :
    words (rightAligned width text) = words text := by
  have hblanks : ∀ count, words (String.ofList (List.replicate count ' ' ++ text.toList))
      = words text := by
    intro count
    induction count with
    | zero => rw [List.replicate_zero, List.nil_append, String.ofList_toList]
    | succ count ih =>
      have hblank : String.ofList (' ' :: (List.replicate count ' ' ++ text.toList))
          = " " ++ String.ofList (List.replicate count ' ' ++ text.toList) := String.ofList_cons
      rw [List.replicate_succ, List.cons_append, hblank, words_append_of_closes (by decide), ih]
      rfl
  exact hblanks _

theorem words_intercalate (texts : List String) :
    words (String.intercalate " " texts) = texts.flatMap words := by
  induction texts with
  | nil => rfl
  | cons text rest ih =>
    cases rest with
    | nil => rw [String.intercalate_singleton, List.flatMap_singleton]
    | cons second rest =>
      have hblank : words " " = [] := by decide
      rw [String.intercalate_cons_cons, words_append_between text (by decide) (by decide), ih,
        hblank, List.append_nil]
      exact List.flatMap_cons.symm

/-! ## Lines -/

/-- A text is part of one line. -/
def OneLine (text : String) : Prop := '\n' ∉ text.toList

instance (text : String) : Decidable (OneLine text) :=
  inferInstanceAs (Decidable ('\n' ∉ text.toList))

theorem oneLine_append {front back : String} :
    OneLine (front ++ back) ↔ OneLine front ∧ OneLine back := by
  simp [OneLine]

theorem oneLine_of_isAlphanum {text : String} (h : ∀ c ∈ text.toList, c.isAlphanum = true) :
    OneLine text := fun hend => absurd (h _ hend) (by decide)

theorem oneLine_toString (n : Nat) : OneLine (toString n) := by
  refine oneLine_of_isAlphanum fun c hc => ?_
  rw [Nat.toString_eq_ofList_toDigits, String.toList_ofList] at hc
  exact isAlphanum_of_mem_toDigits (by decide) (by decide) hc

theorem oneLine_hex (width n : Nat) : OneLine (hex width n) :=
  oneLine_of_isAlphanum fun _ => isAlphanum_of_mem_hex

theorem oneLine_markedHex (width n : Nat) : OneLine (markedHex width n) :=
  oneLine_append.mpr ⟨by decide, oneLine_hex width n⟩

theorem oneLine_rightAligned (width : Nat) {text : String} (h : OneLine text) :
    OneLine (rightAligned width text) := by
  rw [OneLine, rightAligned, String.toList_ofList, List.leftpad]
  intro hend
  rcases List.mem_append.mp hend with hblank | htext
  · exact absurd (List.eq_of_mem_replicate hblank) (by decide)
  · exact h htext

theorem oneLine_intercalate {texts : List String} (h : ∀ text ∈ texts, OneLine text) :
    OneLine (String.intercalate " " texts) := by
  induction texts with
  | nil => exact List.not_mem_nil
  | cons text rest ih =>
    obtain ⟨hfirst, hrest⟩ := List.forall_mem_cons.mp h
    cases rest with
    | nil => rwa [String.intercalate_singleton]
    | cons second rest =>
      rw [String.intercalate_cons_cons, oneLine_append, oneLine_append]
      exact ⟨⟨hfirst, by decide⟩, ih hrest⟩

theorem lines_cons {line : String} (h : OneLine line) (rest : String) :
    lines (line ++ "\n" ++ rest) = line :: lines rest := by
  have hlist : (line ++ "\n" ++ rest).toList = line.toList ++ '\n' :: rest.toList := by simp
  have hplain : ∀ c ∈ line.toList, (c == '\n') = false := fun c hc =>
    beq_false_of_ne (ne_of_mem_of_not_mem hc h)
  have hpieces : (line ++ "\n" ++ rest).toList.splitOn '\n'
      = line.toList :: rest.toList.splitOn '\n' := by
    rw [hlist, List.splitOn_eq_splitOnP,
      List.splitOnP_append_cons_of_forall_mem hplain '\n' (by decide)]
    rfl
  obtain ⟨first, more, hrest⟩ := List.exists_cons_of_ne_nil (List.splitOn_ne_nil '\n' rest.toList)
  rw [lines, lines, hpieces, hrest, List.getLast?_cons_cons,
    List.dropLast_cons_of_ne_nil (List.cons_ne_nil _ _)]
  split <;> rw [List.map_cons, String.ofList_toList]

end CmStream.Text
