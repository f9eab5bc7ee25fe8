import Mathlib.Algebra.Group.Nat.Defs
import SocialGaming.EventLoop

/-!
# The inputs that are understood

A line of the console is an input when the expression of the event loop is found in it and the
number of the player fits an `int`. The expression is not anchored, so that anything may stand
before the input, and its groups are greedy, so that the key goes up to the last ` value:` there is.

## Main definitions

* `inputText`, `formatInput` — the text of an input
* `StartsInput` — a text begins with one

## Main results

* `parseInput_formatInput` — what is written is read back
* `parseInput_isSome_iff` — which lines are inputs
-/

namespace SocialGaming

namespace EventLoop

/-! ### The text of an input -/

/-- The text of an input, with the digits of the player. -/
def inputText (id key value : List Char) : List Char :=
  "player:".toList ++ (id ++ (" key:".toList ++ (key ++ (" value:".toList ++ value))))

/-- The text of an input of a player. -/
def formatInput (player : ℕ) (key value : List Char) : List Char :=
  inputText (Nat.toDigits 10 player) key value

/-- The three parts are what the expression takes them for. -/
structure InputParts (id key value : List Char) : Prop where
  digits : ∀ c ∈ id, c.isDigit
  ne_nil : id ≠ []
  key : ∀ c ∈ key, notLineEnd c
  value : ∀ c ∈ value, notLineEnd c

/-- The text begins with an input, whatever the number of the player. -/
def StartsInput (text : List Char) : Prop :=
  ∃ id key value after, text = inputText id key value ++ after ∧ InputParts id key value

theorem inputReg_eq : inputReg = "player:".toList.map .symbol ++ .group Char.isDigit 1 ::
    (" key:".toList.map .symbol ++ .group notLineEnd 0 ::
      (" value:".toList.map .symbol ++ [.group notLineEnd 0])) := rfl

/-- **What the expression matches.** -/
theorem matches_inputReg {part : List Char} {groups : List (List Char)} :
    Matches inputReg part groups ↔ ∃ id key value, part = inputText id key value ∧
      groups = [id, key, value] ∧ InputParts id key value := by
  rw [inputReg_eq]
  constructor
  · intro h
    obtain ⟨_, rfl, hgroup⟩ := matches_symbols_append.mp h
    obtain ⟨id, _, _, rfl, rfl, hid, hleast, hafterId⟩ := matches_group_cons.mp hgroup
    obtain ⟨_, rfl, hgroup'⟩ := matches_symbols_append.mp hafterId
    obtain ⟨key, _, _, rfl, rfl, hkey, -, hafterKey⟩ := matches_group_cons.mp hgroup'
    obtain ⟨_, rfl, hgroup''⟩ := matches_symbols_append.mp hafterKey
    obtain ⟨value, _, _, rfl, rfl, hvalue, -, hend⟩ := matches_group_cons.mp hgroup''
    obtain ⟨rfl, rfl⟩ := matches_nil.mp hend
    have hne : id ≠ [] := List.ne_nil_of_length_pos hleast
    rw [List.append_nil]
    exact ⟨id, key, value, rfl, rfl, ⟨hid, hne, hkey, hvalue⟩⟩
  · rintro ⟨id, key, value, rfl, rfl, hid, hne, hkey, hvalue⟩
    refine matches_symbols_append.mpr ⟨_, rfl, ?_⟩
    refine matches_group_cons.mpr ⟨id, _, _, rfl, rfl, hid, List.length_pos_of_ne_nil hne, ?_⟩
    refine matches_symbols_append.mpr ⟨_, rfl, ?_⟩
    refine matches_group_cons.mpr ⟨key, _, _, rfl, rfl, hkey, Nat.zero_le _, ?_⟩
    refine matches_symbols_append.mpr ⟨_, rfl, ?_⟩
    exact matches_group_cons.mpr ⟨value, [], [], (List.append_nil _).symm, rfl, hvalue,
      Nat.zero_le _, Matches.nil⟩

theorem matchBegin_isSome_iff_startsInput {text : List Char} :
    (matchBegin inputReg text).isSome ↔ StartsInput text := by
  rw [matchBegin_isSome_iff]
  constructor
  · rintro ⟨part, rest, groups, rfl, hmatches⟩
    obtain ⟨id, key, value, rfl, -, hinput⟩ := matches_inputReg.mp hmatches
    exact ⟨id, key, value, rest, rfl, hinput⟩
  · rintro ⟨id, key, value, after, rfl, hinput⟩
    exact ⟨_, after, _, rfl, matches_inputReg.mpr ⟨id, key, value, rfl, rfl, hinput⟩⟩

/-! ### The number of a player -/

theorem not_isSpace_of_isDigit {c : Char} (h : c.isDigit) : isSpace c = false := by
  rw [isSpace, decide_eq_false_iff_not]
  intro hspace
  simp only [List.mem_cons, List.not_mem_nil, or_false] at hspace
  obtain rfl | rfl | rfl | rfl | rfl | rfl := hspace <;> exact absurd h (by decide)

/-- Digits are the number they stand for, when it is an `int`. -/
theorem stoi_digits {id : List Char} (hdigits : ∀ c ∈ id, c.isDigit) (hne : id ≠ []) :
    stoi id = if digitsValue id < 2 ^ 31 then some (Int32.ofNat (digitsValue id)) else none := by
  obtain ⟨first, rest, rfl⟩ := List.exists_cons_of_ne_nil hne
  have hfirst : first.isDigit := hdigits first List.mem_cons_self
  have hdrop : (first :: rest).dropWhile isSpace = first :: rest :=
    List.dropWhile_cons_of_neg (by rw [not_isSpace_of_isDigit hfirst]; decide)
  have hminus : first ≠ '-' := by
    rintro rfl
    exact absurd hfirst (by decide)
  have hplus : first ≠ '+' := by
    rintro rfl
    exact absurd hfirst (by decide)
  have htake : (first :: rest).takeWhile Char.isDigit = first :: rest :=
    List.takeWhile_eq_self_iff.mpr hdigits
  have hmin : Int32.minValue.toInt = -2 ^ 31 := rfl
  have hmax : Int32.maxValue.toInt = 2 ^ 31 - 1 := rfl
  simp only [stoi, hdrop]
  split
  · rename_i heq
    exact absurd (List.cons.inj heq).1 hminus
  · rename_i heq
    exact absurd (List.cons.inj heq).1 hplus
  · simp only [htake, List.isEmpty_cons, Bool.false_eq_true, if_false]
    by_cases hlt : digitsValue (first :: rest) < 2 ^ 31
    · rw [if_pos hlt, if_pos ⟨by omega, by omega⟩]
      exact congrArg some Int32.ofInt_eq_ofNat
    · rw [if_neg hlt, if_neg (by omega)]

/-! ### What is read -/

/-- A text with such words around its parts is taken apart at the words, where the first group ends
before a word and no later word is like the last one. -/
theorem matchBegin_words {first second third id key value : List Char}
    (hinput : InputParts id key value)
    (hsecond : ∀ rest, (second ++ rest).takeWhile Char.isDigit = [])
    (hthird : ∀ n, 0 < n → ¬ third <+: (third ++ value).drop n) :
    matchBegin (first.map .symbol ++ .group Char.isDigit 1 ::
      (second.map .symbol ++ .group notLineEnd 0 ::
        (third.map .symbol ++ [.group notLineEnd 0])))
      (first ++ (id ++ (second ++ (key ++ (third ++ value))))) = some [id, key, value] := by
  have hends : matchBegin [.group notLineEnd 0] value = some [value] := by
    have hwhole : matchBegin [.group notLineEnd 0] (value ++ []) = some [value] := by
      refine matchBegin_group hinput.value (Nat.zero_le _) rfl fun n hlt hle => ?_
      rw [List.append_nil] at hle
      exact absurd (hle.trans (List.takeWhile_sublist _).length_le) (Nat.not_le.mpr hlt)
    rwa [List.append_nil] at hwhole
  have hkey : matchBegin (.group notLineEnd 0 ::
      (third.map .symbol ++ [.group notLineEnd 0])) (key ++ (third ++ value))
        = some [key, value] := by
    refine matchBegin_group hinput.key (Nat.zero_le _) ?_ fun n hlt _ => ?_
    · rw [matchBegin_symbols_append]
      exact hends
    · refine matchBegin_symbols_eq_none _ ?_
      rw [List.drop_append, List.drop_eq_nil_of_le hlt.le, List.nil_append]
      exact hthird _ (Nat.sub_pos_of_lt hlt)
  rw [matchBegin_symbols_append]
  refine matchBegin_group hinput.digits (List.length_pos_of_ne_nil hinput.ne_nil) ?_
    fun n hlt hle => ?_
  · rw [matchBegin_symbols_append]
    exact hkey
  · rw [List.takeWhile_append_of_pos hinput.digits, hsecond, List.append_nil] at hle
    exact absurd hle (Nat.not_le.mpr hlt)

/-- A word in itself and what follows is the word, or it is in what follows. -/
theorem not_isPrefix_drop_append {first : Char} {rest value : List Char} (hfirst : first ∉ rest)
    (hvalue : ¬ (first :: rest) <:+: value) {n : ℕ} (hn : 0 < n) :
    ¬ (first :: rest) <+: ((first :: rest) ++ value).drop n := by
  obtain ⟨k, rfl⟩ := Nat.exists_eq_succ_of_ne_zero hn.ne'
  rw [List.cons_append, List.drop_succ_cons, List.drop_append]
  intro hbegins
  cases htail : rest.drop k with
  | nil =>
    rw [htail, List.nil_append] at hbegins
    exact hvalue (hbegins.isInfix.trans (List.drop_suffix _ _).isInfix)
  | cons c tail =>
    rw [htail, List.cons_append, List.cons_prefix_cons] at hbegins
    have hmem : c ∈ rest := List.mem_of_mem_drop (htail ▸ List.mem_cons_self)
    exact hfirst (hbegins.1 ▸ hmem)

/-- The groups of a text that begins with an input are its parts. -/
theorem matchBegin_inputText {id key value : List Char} (hinput : InputParts id key value)
    (hvalue : ¬ " value:".toList <:+: value) :
    matchBegin inputReg (inputText id key value) = some [id, key, value] := by
  have hspace : ∀ rest, (" key:".toList ++ rest).takeWhile Char.isDigit = [] := fun rest => rfl
  rw [inputReg_eq]
  exact matchBegin_words hinput hspace fun n hn =>
    not_isPrefix_drop_append (by decide) hvalue hn

/-- What is written of an input is one. -/
theorem inputParts_toDigits (player : ℕ) {key value : List Char} (hkey : ∀ c ∈ key, notLineEnd c)
    (hvalue : ∀ c ∈ value, notLineEnd c) : InputParts (Nat.toDigits 10 player) key value where
  digits _ hc := Nat.isDigit_of_mem_toDigits (by decide) (by decide) hc
  ne_nil := Nat.toDigits_ne_nil
  key := hkey
  value := hvalue

/-- **What is written is read back**, where the value has no ` value:` in it. -/
theorem parseInput_formatInput {player : ℕ} (hplayer : player < 2 ^ 31) {key value : List Char}
    (hkey : ∀ c ∈ key, notLineEnd c) (hvalue : ∀ c ∈ value, notLineEnd c)
    (hmark : ¬ " value:".toList <:+: value) :
    parseInput (formatInput player key value) = some (Int32.ofNat player, key, value) := by
  have hinput := inputParts_toDigits player hkey hvalue
  have hnumber : digitsValue (Nat.toDigits 10 player) = player := Nat.ofDigitChars_ten_toDigits
  rw [parseInput, formatInput, search_of_matchBegin (matchBegin_inputText hinput hmark)]
  show (stoi (Nat.toDigits 10 player)).map _ = _
  rw [stoi_digits hinput.digits hinput.ne_nil, hnumber, if_pos hplayer]
  rfl

/-- The choice of a player. -/
theorem parseInput_formatInput_rock : parseInput (formatInput 2 "weapon".toList "rock".toList)
    = some (2, "weapon".toList, "rock".toList) := by
  have hkey : "weapon".toList.all notLineEnd = true := rfl
  have hvalue : "rock".toList.all notLineEnd = true := rfl
  have hmark : ¬ " value:".toList <:+: "rock".toList := by decide
  exact parseInput_formatInput (by decide) (List.all_eq_true.mp hkey) (List.all_eq_true.mp hvalue)
    hmark

theorem takeWhile_drop_words {first second id rest : List Char} (hid : ∀ c ∈ id, c.isDigit)
    (hsecond : ∀ rest, (second ++ rest).takeWhile Char.isDigit = []) (after : List Char) :
    ((first ++ (id ++ (second ++ rest)) ++ after).drop first.length).takeWhile Char.isDigit
      = id := by
  rw [List.append_assoc, List.drop_left, List.append_assoc, List.takeWhile_append_of_pos hid,
    List.append_assoc, hsecond, List.append_nil]

/-- The digits are known from the text. -/
theorem digits_of_inputText {id key value : List Char} (hinput : InputParts id key value)
    (after : List Char) : ((inputText id key value ++ after).drop "player:".toList.length).takeWhile
      Char.isDigit = id :=
  takeWhile_drop_words hinput.digits (fun _ => rfl) after

/-- **Which lines are inputs**: those in which the expression is found, and the first time with a
number that is an `int`. -/
theorem parseInput_isSome_iff (line : List Char) : (parseInput line).isSome ↔
    ∃ before id key value after, line = before ++ (inputText id key value ++ after) ∧
      InputParts id key value ∧ digitsValue id < 2 ^ 31 ∧
      ∀ before' later, line = before' ++ later → before'.length < before.length →
        ¬ StartsInput later := by
  constructor
  · intro h
    cases hfound : search inputReg line with
    | none =>
      rw [parseInput, hfound] at h
      cases h
    | some groups =>
      obtain ⟨before, part, rest, hline, hmatches, hfirst⟩ := search_eq_some hfound
      obtain ⟨id, key, value, rfl, rfl, hinput⟩ := matches_inputReg.mp hmatches
      have hnumber : (stoi id).isSome := by
        rw [parseInput, hfound] at h
        exact (Option.isSome_map ..).symm.trans h
      rw [stoi_digits hinput.digits hinput.ne_nil] at hnumber
      refine ⟨before, id, key, value, rest, hline, hinput, ?_,
        fun before' later hsplit hlt hstarts => ?_⟩
      · by_contra hlarge
        rw [if_neg hlarge] at hnumber
        cases hnumber
      · rw [← matchBegin_isSome_iff_startsInput, hfirst before' later hsplit hlt] at hstarts
        cases hstarts
  · rintro ⟨before, id, key, value, after, hline, hinput, hnumber, hfirst⟩
    have hstarts : StartsInput (inputText id key value ++ after) :=
      ⟨id, key, value, after, rfl, hinput⟩
    have hisSome : (search inputReg line).isSome := search_isSome_iff.mpr
      ⟨before, _, after, _, hline, matches_inputReg.mpr ⟨id, key, value, rfl, rfl, hinput⟩⟩
    obtain ⟨groups, hfound⟩ := Option.isSome_iff_exists.mp hisSome
    obtain ⟨before', part, rest, hline', hmatches, hfirst'⟩ := search_eq_some hfound
    obtain ⟨id', key', value', rfl, rfl, hinput'⟩ := matches_inputReg.mp hmatches
    have hge : before.length ≤ before'.length := by
      by_contra hlt
      exact hfirst before' _ hline' (Nat.not_le.mp hlt) ⟨id', key', value', rest, rfl, hinput'⟩
    have hle : before'.length ≤ before.length := by
      by_contra hlt
      have hnone := hfirst' before _ hline (Nat.not_le.mp hlt)
      rw [← matchBegin_isSome_iff_startsInput, hnone] at hstarts
      cases hstarts
    obtain ⟨-, hsame⟩ := List.append_inj (hline'.symm.trans hline) (le_antisymm hle hge)
    have hid : id' = id := by
      rw [← digits_of_inputText hinput' rest, hsame, digits_of_inputText hinput]
    rw [parseInput, hfound]
    show ((stoi id').map _).isSome
    rw [Option.isSome_map, hid, stoi_digits hinput.digits hinput.ne_nil, if_pos hnumber]
    rfl

end EventLoop

end SocialGaming
