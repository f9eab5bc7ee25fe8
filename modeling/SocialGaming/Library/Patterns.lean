import Mathlib.Data.List.Infix
import Mathlib.Data.List.TakeWhile
import Mathlib.Data.Nat.Notation

/-!
# Patterns of symbols and greedy groups

A regular expression without alternatives: symbols that must be there, and groups that take as many
symbols of a class as the rest of the pattern allows. The matcher goes back to a shorter group when
the rest does not match, and a search tries every place of the text from the left.

## Main definitions

* `Piece`, `Matches` — a pattern, and the texts that it matches with their groups
* `matchBegin`, `search` — the matcher at the beginning of a text, and anywhere in it

## Main results

* `matchBegin_isSome_iff` — the matcher finds a match where there is one
* `matchBegin_group` — with the longest group
* `search_eq_some` — a search finds the match that starts first
* `search_isSome_iff` — and finds one when there is one anywhere
-/

namespace SocialGaming

variable {α : Type}

/-- A part of a pattern. -/
inductive Piece (α : Type) where
  /-- One symbol. -/
  | symbol (a : α)
  /-- A group: symbols of a class, as many as possible but no fewer than `least`. -/
  | group (isIn : α → Bool) (least : ℕ)

/-- The text matches the pattern, and these are its groups. -/
inductive Matches : List (Piece α) → List α → List (List α) → Prop
  | nil : Matches [] [] []
  | symbol {a : α} {pattern : List (Piece α)} {text : List α} {groups : List (List α)}
      (h : Matches pattern text groups) : Matches (.symbol a :: pattern) (a :: text) groups
  | group {isIn : α → Bool} {least : ℕ} {part : List α} {pattern : List (Piece α)} {text : List α}
      {groups : List (List α)} (hin : ∀ a ∈ part, isIn a) (hleast : least ≤ part.length)
      (h : Matches pattern text groups) :
      Matches (.group isIn least :: pattern) (part ++ text) (part :: groups)

/-! ### What a match consists of -/

/-- The symbols of a text match that text only. -/
theorem matches_symbols_append {text : List α} {pattern : List (Piece α)} {part : List α}
    {groups : List (List α)} : Matches (text.map .symbol ++ pattern) part groups ↔
      ∃ rest, part = text ++ rest ∧ Matches pattern rest groups := by
  induction text generalizing part with
  | nil => exact ⟨fun h => ⟨part, rfl, h⟩, fun ⟨rest, hpart, h⟩ => hpart ▸ h⟩
  | cons a text ih =>
    constructor
    · intro h
      cases h with
      | symbol h =>
        obtain ⟨rest, rfl, hrest⟩ := ih.mp h
        exact ⟨rest, rfl, hrest⟩
    · rintro ⟨rest, rfl, hrest⟩
      exact (ih.mpr ⟨rest, rfl, hrest⟩).symbol

theorem matches_group_cons {isIn : α → Bool} {least : ℕ} {pattern : List (Piece α)} {part : List α}
    {groups : List (List α)} : Matches (.group isIn least :: pattern) part groups ↔
      ∃ first rest groups', part = first ++ rest ∧ groups = first :: groups' ∧
        (∀ a ∈ first, isIn a) ∧ least ≤ first.length ∧ Matches pattern rest groups' := by
  constructor
  · intro h
    cases h with
    | group hin hleast h => exact ⟨_, _, _, rfl, rfl, hin, hleast, h⟩
  · rintro ⟨first, rest, groups', rfl, rfl, hin, hleast, h⟩
    exact h.group hin hleast

theorem matches_nil {part : List α} {groups : List (List α)} :
    Matches [] part groups ↔ part = [] ∧ groups = [] := by
  constructor
  · intro h
    cases h
    exact ⟨rfl, rfl⟩
  · rintro ⟨rfl, rfl⟩
    exact Matches.nil

/-! ### The matcher -/

/-- The numbers from `most` down to `least`. -/
def downFrom (most least : ℕ) : List ℕ := (List.range' least (most + 1 - least)).reverse

@[simp] theorem mem_downFrom {most least n : ℕ} :
    n ∈ downFrom most least ↔ least ≤ n ∧ n ≤ most := by
  rw [downFrom, List.mem_reverse, List.mem_range'_1]
  omega

/-- The numbers before and after one of them. -/
theorem downFrom_split {most least n : ℕ} (hleast : least ≤ n) (hmost : n ≤ most) :
    downFrom most least
      = downFrom most (n + 1) ++ n :: (List.range' least (n - least)).reverse := by
  have hupper : List.range' least (most + 1 - least)
      = List.range' least (n + 1 - least) ++ List.range' (n + 1) (most + 1 - (n + 1)) := by
    have hnumber : most + 1 - least = n + 1 - least + (most + 1 - (n + 1)) := by omega
    have hstart : n + 1 = least + (n + 1 - least) := by omega
    rw [hnumber, ← List.range'_append_1, ← hstart]
  have hlast : List.range' least (n + 1 - least) = List.range' least (n - least) ++ [n] := by
    rw [Nat.sub_add_comm hleast, List.range'_1_concat, Nat.add_sub_cancel' hleast]
  rw [downFrom, downFrom, hupper, hlast, List.reverse_append, List.reverse_append]
  rfl

/-- What is taken of the symbols of a class is of that class. -/
theorem isIn_of_mem_take {isIn : α → Bool} {text : List α} {n : ℕ}
    (h : n ≤ (text.takeWhile isIn).length) {a : α} (ha : a ∈ text.take n) : isIn a := by
  have hbegins : text.take n = (text.takeWhile isIn).take n := by
    conv_lhs => rw [← List.takeWhile_append_dropWhile (p := isIn) (l := text)]
    rw [List.take_append_of_le_length h]
  rw [hbegins] at ha
  exact List.mem_takeWhile_imp (List.mem_of_mem_take ha)

section

variable [DecidableEq α]

/-- The groups of a match at the beginning of a text. Longer groups are tried first. -/
def matchBegin : List (Piece α) → List α → Option (List (List α))
  | [], _ => some []
  | .symbol _ :: _, [] => none
  | .symbol a :: pattern, b :: text => if a = b then matchBegin pattern text else none
  | .group isIn least :: pattern, text =>
    (downFrom (text.takeWhile isIn).length least).findSome? fun n =>
      (matchBegin pattern (text.drop n)).map fun groups => text.take n :: groups

/-- The groups of the first match in a text. -/
def search (pattern : List (Piece α)) (text : List α) : Option (List (List α)) :=
  text.tails.findSome? (matchBegin pattern)

/-! ### At the beginning -/

/-- A match that is found is one. -/
theorem matchBegin_sound {pattern : List (Piece α)} {text : List α} {groups : List (List α)}
    (h : matchBegin pattern text = some groups) :
    ∃ part rest, text = part ++ rest ∧ Matches pattern part groups := by
  induction pattern generalizing text groups with
  | nil =>
    obtain rfl : [] = groups := Option.some.inj h
    exact ⟨[], text, rfl, Matches.nil⟩
  | cons piece pattern ih =>
    cases piece with
    | symbol a =>
      cases text with
      | nil => cases h
      | cons b text =>
        rw [matchBegin] at h
        split_ifs at h with hab
        obtain ⟨part, rest, rfl, hmatches⟩ := ih h
        exact ⟨b :: part, rest, rfl, hab ▸ hmatches.symbol⟩
    | group isIn least =>
      rw [matchBegin] at h
      obtain ⟨n, hn, hfound⟩ := List.exists_of_findSome?_eq_some h
      obtain ⟨hleast, hmost⟩ := mem_downFrom.mp hn
      obtain ⟨groups, hgroups, rfl⟩ := Option.map_eq_some_iff.mp hfound
      obtain ⟨part, rest, hsplit, hmatches⟩ := ih hgroups
      have hlength : (text.take n).length = n := by
        have hle := List.Sublist.length_le (List.takeWhile_sublist isIn (l := text))
        rw [List.length_take]
        omega
      refine ⟨text.take n ++ part, rest, ?_, ?_⟩
      · rw [List.append_assoc, ← hsplit, List.take_append_drop]
      · exact Matches.group (fun a => isIn_of_mem_take hmost) (by omega) hmatches

/-- Where there is a match, one is found. -/
theorem matchBegin_complete {pattern : List (Piece α)} {part : List α} {groups : List (List α)}
    (h : Matches pattern part groups) (rest : List α) :
    (matchBegin pattern (part ++ rest)).isSome := by
  induction h with
  | nil => rfl
  | symbol h ih =>
    rw [List.cons_append, matchBegin, if_pos rfl]
    exact ih
  | @group isIn least part pattern text groups hin hleast h ih =>
    rw [List.append_assoc, matchBegin, List.findSome?_isSome_iff]
    refine ⟨part.length, mem_downFrom.mpr ⟨hleast, ?_⟩, ?_⟩
    · have htake : (part ++ (text ++ rest)).takeWhile isIn
          = part ++ (text ++ rest).takeWhile isIn := List.takeWhile_append_of_pos hin
      rw [htake, List.length_append]
      omega
    · rw [Option.isSome_map, List.drop_left]
      exact ih

theorem matchBegin_isSome_iff {pattern : List (Piece α)} {text : List α} :
    (matchBegin pattern text).isSome ↔
      ∃ part rest groups, text = part ++ rest ∧ Matches pattern part groups := by
  constructor
  · intro h
    obtain ⟨groups, hgroups⟩ := Option.isSome_iff_exists.mp h
    obtain ⟨part, rest, hsplit, hmatches⟩ := matchBegin_sound hgroups
    exact ⟨part, rest, groups, hsplit, hmatches⟩
  · rintro ⟨part, rest, groups, rfl, hmatches⟩
    exact matchBegin_complete hmatches rest

/-! ### Which match is found -/

/-- Symbols are matched one after the other. -/
theorem matchBegin_symbols_append (text : List α) (pattern : List (Piece α)) (rest : List α) :
    matchBegin (text.map .symbol ++ pattern) (text ++ rest) = matchBegin pattern rest := by
  induction text with
  | nil => rfl
  | cons a text ih =>
    rw [List.map_cons, List.cons_append, List.cons_append, matchBegin, if_pos rfl, ih]

/-- Without the symbols there is no match. -/
theorem matchBegin_symbols_eq_none {text : List α} (pattern : List (Piece α)) {whole : List α}
    (h : ¬ text <+: whole) : matchBegin (text.map .symbol ++ pattern) whole = none := by
  rw [← Option.not_isSome_iff_eq_none, matchBegin_isSome_iff]
  rintro ⟨part, rest, groups, rfl, hmatches⟩
  obtain ⟨later, rfl, -⟩ := matches_symbols_append.mp hmatches
  exact h ⟨later ++ rest, (List.append_assoc _ _ _).symm⟩

/-- **The longest group is taken** with which the rest matches. -/
theorem matchBegin_group {isIn : α → Bool} {least : ℕ} {pattern : List (Piece α)}
    {first rest : List α} {groups : List (List α)} (hin : ∀ a ∈ first, isIn a)
    (hleast : least ≤ first.length) (hrest : matchBegin pattern rest = some groups)
    (hlongest : ∀ n, first.length < n → n ≤ ((first ++ rest).takeWhile isIn).length →
      matchBegin pattern ((first ++ rest).drop n) = none) :
    matchBegin (.group isIn least :: pattern) (first ++ rest) = some (first :: groups) := by
  have htake : (first ++ rest).takeWhile isIn = first ++ rest.takeWhile isIn :=
    List.takeWhile_append_of_pos hin
  have hmost : first.length ≤ ((first ++ rest).takeWhile isIn).length := by
    rw [htake, List.length_append]
    exact Nat.le_add_right _ _
  rw [matchBegin]
  rw [downFrom_split hleast hmost, List.findSome?_append, List.findSome?_eq_none_iff.mpr,
    Option.none_or, List.findSome?_cons, List.drop_left, List.take_left, hrest]
  · rfl
  · intro n hn
    obtain ⟨hgreater, hle⟩ := mem_downFrom.mp hn
    rw [hlongest n hgreater hle]
    rfl

/-! ### Anywhere -/

theorem search_nil (pattern : List (Piece α)) : search pattern [] = matchBegin pattern [] := by
  rw [search, List.tails, List.findSome?_singleton]

theorem search_cons (pattern : List (Piece α)) (a : α) (text : List α) :
    search pattern (a :: text) = (matchBegin pattern (a :: text)).or (search pattern text) := by
  rw [search, List.tails_cons, List.findSome?_cons]
  cases matchBegin pattern (a :: text) <;> rfl

/-- A match at the beginning is the first one. -/
theorem search_of_matchBegin {pattern : List (Piece α)} {text : List α} {groups : List (List α)}
    (h : matchBegin pattern text = some groups) : search pattern text = some groups := by
  cases text with
  | nil => exact (search_nil pattern).trans h
  | cons a text =>
    rw [search_cons, h]
    rfl

/-- **The match that is found** starts where one is, and no other starts before it. -/
theorem search_eq_some {pattern : List (Piece α)} {text : List α} {groups : List (List α)}
    (h : search pattern text = some groups) :
    ∃ before part rest, text = before ++ (part ++ rest) ∧ Matches pattern part groups ∧
      ∀ before' later, text = before' ++ later → before'.length < before.length →
        matchBegin pattern later = none := by
  induction text with
  | nil =>
    obtain ⟨part, rest, hsplit, hmatches⟩ := matchBegin_sound ((search_nil pattern).symm.trans h)
    exact ⟨[], part, rest, hsplit, hmatches, fun _ _ _ hlt => absurd hlt (Nat.not_lt_zero _)⟩
  | cons a text ih =>
    rw [search_cons] at h
    cases hfirst : matchBegin pattern (a :: text) with
    | some first =>
      rw [hfirst] at h
      obtain rfl : first = groups := Option.some.inj h
      obtain ⟨part, rest, hsplit, hmatches⟩ := matchBegin_sound hfirst
      exact ⟨[], part, rest, hsplit, hmatches, fun _ _ _ hlt => absurd hlt (Nat.not_lt_zero _)⟩
    | none =>
      rw [hfirst, Option.none_or] at h
      obtain ⟨before, part, rest, rfl, hmatches, hleft⟩ := ih h
      refine ⟨a :: before, part, rest, rfl, hmatches, fun before' later hsplit hlt => ?_⟩
      cases before' with
      | nil =>
        rw [List.nil_append] at hsplit
        exact hsplit ▸ hfirst
      | cons b before' =>
        rw [List.cons_append] at hsplit
        exact hleft before' later (List.cons.inj hsplit).2 (Nat.lt_of_succ_lt_succ hlt)

/-- **A match is found when there is one**, wherever it is. -/
theorem search_isSome_iff {pattern : List (Piece α)} {text : List α} :
    (search pattern text).isSome ↔
      ∃ before part rest groups, text = before ++ (part ++ rest) ∧
        Matches pattern part groups := by
  constructor
  · intro h
    obtain ⟨groups, hgroups⟩ := Option.isSome_iff_exists.mp h
    obtain ⟨before, part, rest, hsplit, hmatches, -⟩ := search_eq_some hgroups
    exact ⟨before, part, rest, groups, hsplit, hmatches⟩
  · rintro ⟨before, part, rest, groups, rfl, hmatches⟩
    rw [search, List.findSome?_isSome_iff]
    exact ⟨part ++ rest, (List.mem_tails _ _).mpr (List.suffix_append _ _),
      matchBegin_complete hmatches rest⟩

end

end SocialGaming
