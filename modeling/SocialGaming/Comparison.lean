import SocialGaming.Library.Depth
import SocialGaming.Variables

/-!
# Comparing values

`VariableUtils::compare` looks into lists and leaves everything else to the variant's own equality,
which compares the pointers in a map. Where it looks into lists, it takes the second list from its
first argument, so a list is compared with itself.

Two functions look for a value in a list. One compares each element with `compare`, which throws
when the types differ, and the other with the variant's own equality.

## Design

The recursion is bounded by the depth of calls the stack allows. A result that does not depend on
the machine is one that is the same on every stack that is large enough.

## Main definitions

* `VariableUtils.compare`, `Variable.isEqual`, `Variable.equal` — comparing
* `ListObjUtils.contains`, `contains` — looking for a value
* `Built` — the values that are made of ints, strings, bools, lists and maps
* `SameContents` — structural equality
* `Decides` — a call answers a question

## Main results

* `Built.compare_self` — a value equals itself
* `compare_decides_iff` — when `compare` is structural equality
* `contains_agree_iff` — when the two searches agree
-/

namespace SocialGaming

open Std (ExtTreeMap)
open Filter (atTop)

/-! ### The functions -/

/-- `std::equal` on the elements of one range and those of another from its start on. -/
def stdEqual {α : Type} (p : α → α → Except (Fault Exn) Bool) :
    List α → List α → Except (Fault Exn) Bool
  | [], _ => return true
  | _ :: _, [] => throw (.undefined .pastEnd)
  | a :: l, b :: l' => do
    if ← p a b then stdEqual p l l' else return false

/-- `VariableUtils::compare`. -/
def VariableUtils.compare (h : Heap) : ℕ → VarType → VarType → Except (Fault Exn) Bool
  | 0, _, _ => throw .diverged
  | stack + 1, var1, var2 =>
    if var1.index ≠ var2.index then
      throw (.thrown (.badVariableArg "Expected arguments t be same type"))
    else match var1 with
      | .list list1 =>
        -- `list2` is `get_if<listObj>(&var1)`
        stdEqual (fun item1 item2 => do
          let some item1 := item1 | throw (.undefined .nullDeref)
          let some item2 := item2 | throw (.undefined .nullDeref)
          compare h stack (h.value item1) (h.value item2)) list1 list1
      | _ => return decide (var1 = var2)

/-- `Variable::isEqual`. -/
def Variable.isEqual (h : Heap) (stack : ℕ) (p : VarAddr) (other : VarType) :
    Except (Fault Exn) Bool :=
  VariableUtils.compare h stack (h.value p) other

/-- `Variable::operator==`. -/
def Variable.equal (h : Heap) (stack : ℕ) (p var : VarAddr) : Except (Fault Exn) Bool :=
  Variable.isEqual h stack var (h.value p)

/-- `std::find_if`, and whether it stops before the end. -/
def stdFindIf {α : Type} (p : α → Except (Fault Exn) Bool) : List α → Except (Fault Exn) Bool
  | [] => return false
  | a :: l => do
    if ← p a then return true else stdFindIf p l

/-- The `helper` of `ListObjUtils::contains`. -/
def ListObjUtils.containsHelper (h : Heap) (stack : ℕ) (vec : List VarPtr) (temp : VarType) :
    Except (Fault Exn) Bool :=
  stdFindIf (fun item => do
    let some item := item | throw (.undefined .nullDeref)
    Variable.isEqual h stack item temp) vec

/-- `ListObjUtils::contains`. -/
def ListObjUtils.contains (h : Heap) (stack : ℕ) (var1 key : VarType) : Except (Fault Exn) Bool :=
  match var1, key with
  | .list vec, .int index => containsHelper h stack vec (.int index)
  | .list vec, .string index => containsHelper h stack vec (.string index)
  | _, _ => throw (.thrown (.badVariableArg "Expected listObj as first arg"))

/-- The builtin `contains`. -/
def contains (h : Heap) (list : List VarPtr) (value : VarAddr) : Except (Fault Exn) Bool :=
  stdFindIf (fun item => do
    let some item := item | throw (.undefined .nullDeref)
    return decide (h.value item = h.value value)) list

/-! ### What it is to be equal -/

/-- A value made of ints, strings, bools, lists and the two kinds of map. No pointer in it is null,
and nothing contains itself. -/
inductive Built (h : Heap) : VarType → Prop
  | int (n : Int32) : Built h (.int n)
  | string (s : String) : Built h (.string s)
  | bool (b : Bool) : Built h (.bool b)
  | map {m : ExtTreeMap String (Option StrAddr) compare}
      (hm : ∀ (k : String) a, m[k]? = some a → ∃ p s, a = some p ∧ h.strings[p]? = some s) :
      Built h (.map m)
  | list {l : List VarPtr} (hnull : none ∉ l) (hl : ∀ p, some p ∈ l → Built h (h.value p)) :
      Built h (.list l)
  | varMap {m : ExtTreeMap String VarPtr compare} (hnull : ∀ k : String, m[k]? ≠ some none)
      (hm : ∀ (k : String) p, m[k]? = some (some p) → Built h (h.value p)) : Built h (.varMap m)

/-- The two values hold equal contents, wherever they hold them. -/
inductive SameContents (h : Heap) : VarType → VarType → Prop
  | int (n : Int32) : SameContents h (.int n) (.int n)
  | string (s : String) : SameContents h (.string s) (.string s)
  | bool (b : Bool) : SameContents h (.bool b) (.bool b)
  | map {m m' : ExtTreeMap String (Option StrAddr) compare} (hkeys : ∀ k, k ∈ m ↔ k ∈ m')
      (hm : ∀ (k : String) p q, m[k]? = some (some p) → m'[k]? = some (some q) →
        h.strings[p]? = h.strings[q]?) : SameContents h (.map m) (.map m')
  | list {l l' : List VarPtr} (hlen : l.length = l'.length)
      (hl : ∀ (i : ℕ) p q, l[i]? = some (some p) → l'[i]? = some (some q) →
        SameContents h (h.value p) (h.value q)) : SameContents h (.list l) (.list l')
  | varMap {m m' : ExtTreeMap String VarPtr compare} (hkeys : ∀ k, k ∈ m ↔ k ∈ m')
      (hm : ∀ (k : String) p q, m[k]? = some (some p) → m'[k]? = some (some q) →
        SameContents h (h.value p) (h.value q)) : SameContents h (.varMap m) (.varMap m')

/-- On every stack that is large enough the call returns, and it returns whether `P`. -/
def Decides (f : ℕ → Except (Fault Exn) Bool) (P : Prop) : Prop :=
  ∀ᶠ stack in atTop, ∃ b, f stack = .ok b ∧ (b = true ↔ P)

/-- A call that returns one answer on every such stack. -/
theorem decides_iff {f : ℕ → Except (Fault Exn) Bool} {b : Bool} {P : Prop}
    (hf : ∀ᶠ stack in atTop, f stack = .ok b) : Decides f P ↔ (b = true ↔ P) := by
  constructor
  · intro hP
    obtain ⟨stack, hb, b', hb', hiff⟩ := (hf.and hP).exists
    rw [hb] at hb'
    obtain rfl := Except.ok.inj hb'
    exact hiff
  · intro hiff
    exact hf.mono fun stack hb => ⟨b, hb, hiff⟩

section

variable {h : Heap} {v w : VarType}

/-! ### Comparing a value with itself -/

theorem stdEqual_self {α : Type} {p : α → α → Except (Fault Exn) Bool} {l : List α}
    (hl : ∀ a ∈ l, p a a = .ok true) : stdEqual p l l = .ok true := by
  induction l with
  | nil => rfl
  | cons a l ih =>
    show (do if ← p a a then stdEqual p l l else return false) = _
    rw [hl a List.mem_cons_self]
    exact ih fun b hb => hl b (List.mem_cons_of_mem a hb)

theorem compare_of_not_list (hv : ∀ l, v ≠ .list l) (hi : v.index = w.index) (stack : ℕ) :
    VariableUtils.compare h (stack + 1) v w = .ok (decide (v = w)) := by
  cases v with
  | list l => exact absurd rfl (hv l)
  | _ => exact if_neg (not_not_intro hi)

theorem compare_of_index_ne (hi : v.index ≠ w.index) (stack : ℕ) :
    VariableUtils.compare h (stack + 1) v w
      = .error (.thrown (.badVariableArg "Expected arguments t be same type")) :=
  if_pos hi

/-- The second list does not matter. -/
theorem compare_list (stack : ℕ) (l l' : List VarPtr) :
    VariableUtils.compare h stack (.list l) (.list l')
      = VariableUtils.compare h stack (.list l) (.list l) := by
  cases stack with
  | zero => rfl
  | succ stack => rfl

/-- **A value equals itself.** -/
theorem Built.compare_self (hv : Built h v) :
    ∀ᶠ stack in atTop, VariableUtils.compare h stack v v = .ok true := by
  have hother : ∀ {v : VarType}, (∀ l, v ≠ .list l) →
      ∀ᶠ stack in atTop, VariableUtils.compare h stack v v = .ok true := by
    intro v hv
    refine eventually_succ (Filter.Eventually.of_forall fun stack => ?_)
    rw [compare_of_not_list hv rfl, decide_eq_true rfl]
  induction hv with
  | int n => exact hother nofun
  | string s => exact hother nofun
  | bool b => exact hother nofun
  | map hm => exact hother nofun
  | varMap hnull hm ih => exact hother nofun
  | @list l hnull hl ih =>
    have hall : ∀ᶠ stack in atTop, ∀ p, some p ∈ l →
        VariableUtils.compare h stack (h.value p) (h.value p) = .ok true :=
      eventually_forall_some ih
    refine eventually_succ (hall.mono fun stack hstack => stdEqual_self fun item hitem => ?_)
    obtain ⟨p, rfl⟩ := Option.ne_none_iff_exists'.mp (ne_of_mem_of_not_mem hitem hnull)
    exact hstack p hitem

/-! ### When `compare` is structural equality -/

theorem Built.sameContents_self (hv : Built h v) : SameContents h v v := by
  induction hv with
  | int n => exact .int n
  | string s => exact .string s
  | bool b => exact .bool b
  | map hm =>
    refine .map (fun _ => Iff.rfl) fun k p q hp hq => ?_
    obtain rfl := Option.some.inj (Option.some.inj (hp.symm.trans hq))
    rfl
  | list hnull hl ih =>
    refine .list rfl fun i p q hp hq => ?_
    obtain rfl := Option.some.inj (Option.some.inj (hp.symm.trans hq))
    exact ih p (List.mem_of_getElem? hp)
  | varMap hnull hm ih =>
    refine .varMap (fun _ => Iff.rfl) fun k p q hp hq => ?_
    obtain rfl := Option.some.inj (Option.some.inj (hp.symm.trans hq))
    exact ih k p hp

theorem SameContents.symm (hvw : SameContents h v w) : SameContents h w v := by
  induction hvw with
  | int n => exact .int n
  | string s => exact .string s
  | bool b => exact .bool b
  | map hkeys hm => exact .map (fun k => (hkeys k).symm) fun k p q hp hq => (hm k q p hq hp).symm
  | list hlen hl ih => exact .list hlen.symm fun i p q hp hq => ih i q p hq hp
  | varMap hkeys hm ih => exact .varMap (fun k => (hkeys k).symm) fun k p q hp hq => ih k q p hq hp

/-- The two values are not lists with different contents, and if they are maps with equal contents,
then they have the same objects under each key. -/
def CompareFits (h : Heap) : VarType → VarType → Prop
  | .list l, .list l' => SameContents h (.list l) (.list l')
  | .map m, .map m' => SameContents h (.map m) (.map m') → ∀ k : String, m[k]? = m'[k]?
  | .varMap m, .varMap m' => SameContents h (.varMap m) (.varMap m') → ∀ k : String, m[k]? = m'[k]?
  | _, _ => True

theorem compareFits_symm : CompareFits h v w ↔ CompareFits h w v := by
  have hsymm : ∀ {v w : VarType}, CompareFits h v w → CompareFits h w v := by
    intro v w hvw
    unfold CompareFits at hvw
    split at hvw
    · exact SameContents.symm hvw
    · exact fun hc k => (hvw hc.symm k).symm
    · exact fun hc k => (hvw hc.symm k).symm
    · rename_i hlist hmap hvarMap
      unfold CompareFits
      split
      · exact absurd rfl (hlist _ _ rfl)
      · exact absurd rfl (hmap _ _ rfl)
      · exact absurd rfl (hvarMap _ _ rfl)
      · trivial
  exact ⟨hsymm, hsymm⟩

/-- For a value that is not a list the variant's own equality is what decides. -/
theorem decides_compare_of_not_list (hv : Built h v) (hlist : ∀ l, v ≠ .list l)
    (hi : v.index = w.index) :
    Decides (VariableUtils.compare h · v w) (SameContents h v w) ↔
      (SameContents h v w → v = w) := by
  have hf : ∀ᶠ stack in atTop, VariableUtils.compare h stack v w = .ok (decide (v = w)) :=
    eventually_succ (Filter.Eventually.of_forall fun stack => compare_of_not_list hlist hi stack)
  rw [decides_iff hf, decide_eq_true_iff]
  refine ⟨fun hiff => hiff.mpr, fun himp => ⟨?_, himp⟩⟩
  rintro rfl
  exact hv.sameContents_self

theorem map_eq_iff {α : Type} {m m' : ExtTreeMap String α compare} :
    m = m' ↔ ∀ k : String, m[k]? = m'[k]? :=
  ⟨fun hm _ => hm ▸ rfl, ExtTreeMap.ext_getElem?⟩

theorem decides_compare_iff (hv : Built h v) (hi : v.index = w.index) :
    Decides (VariableUtils.compare h · v w) (SameContents h v w) ↔ CompareFits h v w := by
  cases hv with
  | int n =>
    rw [decides_compare_of_not_list (.int n) nofun hi]
    refine iff_of_true ?_ trivial
    rintro ⟨⟩
    rfl
  | string s =>
    rw [decides_compare_of_not_list (.string s) nofun hi]
    refine iff_of_true ?_ trivial
    rintro ⟨⟩
    rfl
  | bool b =>
    rw [decides_compare_of_not_list (.bool b) nofun hi]
    refine iff_of_true ?_ trivial
    rintro ⟨⟩
    rfl
  | @map m hm =>
    obtain ⟨m', rfl⟩ : ∃ m', w = .map m' := by
      cases w with
      | map m' => exact ⟨m', rfl⟩
      | _ => cases hi
    rw [decides_compare_of_not_list (.map hm) nofun hi, VarType.map.injEq, map_eq_iff]
    rfl
  | @list l hnull hl =>
    obtain ⟨l', rfl⟩ : ∃ l', w = .list l' := by
      cases w with
      | list l' => exact ⟨l', rfl⟩
      | _ => cases hi
    have hf : ∀ᶠ stack in atTop, VariableUtils.compare h stack (.list l) (.list l') = .ok true :=
      (Built.list hnull hl).compare_self.mono fun stack hstack => by rw [compare_list, hstack]
    rw [decides_iff hf]
    exact ⟨fun hiff => hiff.mp rfl, iff_of_true rfl⟩
  | @varMap m hnull hm =>
    obtain ⟨m', rfl⟩ : ∃ m', w = .varMap m' := by
      cases w with
      | varMap m' => exact ⟨m', rfl⟩
      | _ => cases hi
    rw [decides_compare_of_not_list (.varMap hnull hm) nofun hi, VarType.varMap.injEq, map_eq_iff]
    rfl

/-- **`compare` is structural equality where it fits.** For any two values of the same type that are
built from ints, strings, bools, lists and maps, `compare` returns whether their contents are equal,
on every large enough stack, if and only if they are not lists with different contents, nor maps
with equal contents and different objects under a key. The same is true of both `isEqual` and of
`operator==`. -/
theorem compare_decides_iff (h : Heap) (v w : VarType) (hv : Built h v) (hw : Built h w)
    (hi : v.index = w.index) :
    (Decides (VariableUtils.compare h · v w) (SameContents h v w) ↔ CompareFits h v w) ∧
    (∀ p, h.value p = v →
      (Decides (Variable.isEqual h · p w) (SameContents h v w) ↔ CompareFits h v w)) ∧
    ∀ p q, h.value p = v → h.value q = w →
      (Decides (Variable.equal h · p q) (SameContents h v w) ↔ CompareFits h v w) := by
  refine ⟨decides_compare_iff hv hi, ?_, ?_⟩
  · rintro p rfl
    exact decides_compare_iff hv hi
  · rintro p q rfl rfl
    have hsymm : SameContents h (h.value p) (h.value q) ↔ SameContents h (h.value q) (h.value p) :=
      ⟨SameContents.symm, SameContents.symm⟩
    rw [compareFits_symm, hsymm]
    exact decides_compare_iff hw hi.symm

/-- Two ints, each with a storage of its own. -/
def twoInts (m n : Int32) : Heap := { cells := [.int m, .int n], vars := [0, 1] }

theorem built_twoInts (m n : Int32) {p : ℕ} (hp : p < 2) :
    Built (twoInts m n) ((twoInts m n).value p) := by
  obtain rfl | rfl : p = 0 ∨ p = 1 := by omega
  · exact .int m
  · exact .int n

theorem built_twoInts_list (m n : Int32) {p : ℕ} (hp : p < 2) :
    Built (twoInts m n) (.list [some p]) := by
  refine .list (by simp) fun q hq => ?_
  obtain rfl : q = p := by simpa using hq
  exact built_twoInts m n hp

/-- A map with one entry. -/
def singleton (key : String) (p : VarPtr) : ExtTreeMap String VarPtr compare :=
  ExtTreeMap.insert ∅ key p

theorem eq_of_getElem?_singleton {key k : String} {p q : VarPtr}
    (hq : (singleton key p)[k]? = some q) : q = p := by
  rw [singleton, ExtTreeMap.getElem?_insert] at hq
  split at hq
  · exact (Option.some.inj hq).symm
  · simp at hq

theorem built_twoInts_varMap (m n : Int32) {p : ℕ} (hp : p < 2) (key : String) :
    Built (twoInts m n) (.varMap (singleton key (some p))) := by
  refine .varMap (fun k hk => nomatch eq_of_getElem?_singleton hk) fun k q hq => ?_
  obtain rfl := Option.some.inj (eq_of_getElem?_singleton hq)
  exact built_twoInts m n hp

/-- Two lists that hold the same int. -/
theorem compare_decides_equal_lists :
    Decides (VariableUtils.compare (twoInts 1 1) · (.list [some 0]) (.list [some 1]))
      (SameContents (twoInts 1 1) (.list [some 0]) (.list [some 1])) := by
  refine (compare_decides_iff (twoInts 1 1) (.list [some 0]) (.list [some 1])
    (built_twoInts_list 1 1 (by decide)) (built_twoInts_list 1 1 (by decide)) rfl).1.mpr ?_
  refine SameContents.list rfl fun i p q hp hq => ?_
  obtain rfl : 0 = p := by cases i <;> simp_all
  obtain rfl : 1 = q := by cases i <;> simp_all
  exact .int 1

/-- `[1]` and `[2]` are equal for `compare`, and two maps that hold 1 under `a` are not. -/
theorem compare_not_structural :
    (Built (twoInts 1 2) (.list [some 0]) ∧ Built (twoInts 1 2) (.list [some 1]) ∧
      ¬ Decides (VariableUtils.compare (twoInts 1 2) · (.list [some 0]) (.list [some 1]))
        (SameContents (twoInts 1 2) (.list [some 0]) (.list [some 1]))) ∧
    Built (twoInts 1 1) (.varMap (singleton "a" (some 0))) ∧
    Built (twoInts 1 1) (.varMap (singleton "a" (some 1))) ∧
      ¬ Decides (VariableUtils.compare (twoInts 1 1) · (.varMap (singleton "a" (some 0)))
          (.varMap (singleton "a" (some 1))))
        (SameContents (twoInts 1 1) (.varMap (singleton "a" (some 0)))
          (.varMap (singleton "a" (some 1)))) := by
  have hlist : ∀ {p : ℕ}, p < 2 → Built (twoInts 1 2) (.list [some p]) := built_twoInts_list 1 2
  have hmap : ∀ {p : ℕ}, p < 2 → Built (twoInts 1 1) (.varMap (singleton "a" (some p))) := fun hp =>
    built_twoInts_varMap 1 1 hp "a"
  refine ⟨⟨hlist (by decide), hlist (by decide), fun hdec => ?_⟩,
    hmap (by decide), hmap (by decide), fun hdec => ?_⟩
  · have hfits := (decides_compare_iff (hlist Nat.two_pos) (by rfl)).mp hdec
    have hsame : SameContents (twoInts 1 2) (.list [some 0]) (.list [some 1]) := hfits
    obtain - | - | - | - | ⟨-, hl⟩ := hsame
    nomatch hl 0 0 1 rfl rfl
  · have hfits := (decides_compare_iff (hmap Nat.two_pos) (by rfl)).mp hdec
    have hkey := hfits (.varMap (fun k => by simp [singleton]) fun k p q hp hq => ?_) "a"
    · simp [singleton] at hkey
    · obtain rfl := Option.some.inj (eq_of_getElem?_singleton hp)
      obtain rfl := Option.some.inj (eq_of_getElem?_singleton hq)
      exact .int 1

/-! ### Looking for a value -/

/-- The builtin always answers. -/
theorem contains_eq (k : VarAddr) (l : List VarAddr) :
    contains h (l.map some) k = .ok (decide (∃ p ∈ l, h.value p = h.value k)) := by
  induction l with
  | nil => rfl
  | cons p l ih =>
    show (do if ← Except.ok (decide (h.value p = h.value k)) then return true
             else contains h (l.map some) k) = _
    by_cases hp : h.value p = h.value k
    · rw [decide_eq_true hp, decide_eq_true ⟨p, List.mem_cons_self, hp⟩]
      rfl
    · rw [ih, decide_eq_false hp]
      show Except.ok _ = _
      simp [hp]

theorem containsHelper_cons (stack : ℕ) (p : VarAddr) (l : List VarPtr) (temp : VarType) :
    ListObjUtils.containsHelper h stack (some p :: l) temp
      = (do if ← VariableUtils.compare h stack (h.value p) temp then return true
            else ListObjUtils.containsHelper h stack l temp) := rfl

/-- The other search answers if no element before the first match has another type, and throws
otherwise. -/
theorem containsHelper_eq {key : VarType} (hkey : ∀ l, key ≠ .list l) (stack : ℕ)
    (l : List VarAddr) :
    ListObjUtils.containsHelper h (stack + 1) (l.map some) key
      = if ∀ p ∈ l.takeWhile (h.value · ≠ key), (h.value p).index = key.index
        then .ok (decide (∃ p ∈ l, h.value p = key))
        else .error (.thrown (.badVariableArg "Expected arguments t be same type")) := by
  induction l with
  | nil => rfl
  | cons p l ih =>
    rw [List.map_cons, containsHelper_cons]
    by_cases hp : h.value p = key
    · subst hp
      rw [compare_of_not_list hkey rfl]
      simp [bind, Except.bind, pure, Except.pure]
    · rw [List.takeWhile_cons_of_pos (by simpa using hp)]
      by_cases hi : (h.value p).index = key.index
      · have hrest : (∀ q ∈ p :: l.takeWhile (h.value · ≠ key), (h.value q).index = key.index) ↔
            ∀ q ∈ l.takeWhile (h.value · ≠ key), (h.value q).index = key.index := by
          rw [List.forall_mem_cons, and_iff_right hi]
        have hmatch : (∃ q ∈ p :: l, h.value q = key) ↔ ∃ q ∈ l, h.value q = key := by
          rw [List.exists_mem_cons_iff, or_iff_right hp]
        have hkey' : ∀ l, h.value p ≠ .list l := by
          intro l hl
          cases key with
          | list l' => exact hkey l' rfl
          | _ => rw [hl] at hi; cases hi
        rw [compare_of_not_list hkey' hi, decide_eq_false hp]
        simp only [hrest, hmatch]
        exact ih
      · rw [if_neg fun hall => hi (hall p List.mem_cons_self), compare_of_index_ne hi]
        rfl

/-- The key of `ListObjUtils::contains`: an int or a string. -/
def VarType.IsKey : VarType → Prop
  | .int _ => True
  | .string _ => True
  | _ => False

theorem ListObjUtils.contains_eq {key : VarType} (hkey : key.IsKey) (stack : ℕ)
    (vec : List VarPtr) :
    ListObjUtils.contains h stack (.list vec) key = containsHelper h stack vec key := by
  cases key with
  | int n => rfl
  | string s => rfl
  | _ => cases hkey

/-- **The two membership tests agree where the types do.** For every list of non-null elements of
any types and every int or string key, `ListObjUtils::contains` and the builtin `contains` both
return whether some element has the key's type and value, if and only if every element before the
first such one has the key's type. -/
theorem contains_agree_iff (h : Heap) (stack : ℕ) (l : List VarAddr) (key : VarType) (k : VarAddr)
    (hkey : key.IsKey) (hk : h.value k = key) :
    (ListObjUtils.contains h (stack + 1) (.list (l.map some)) key
        = .ok (decide (∃ p ∈ l, h.value p = key)) ∧
      contains h (l.map some) k = .ok (decide (∃ p ∈ l, h.value p = key))) ↔
    ∀ p ∈ l.takeWhile (h.value · ≠ key), (h.value p).index = key.index := by
  have hlist : ∀ l, key ≠ .list l := by
    rintro l rfl
    cases hkey
  rw [ListObjUtils.contains_eq hkey, containsHelper_eq hlist,
    and_iff_left (by rw [contains_eq, hk])]
  split
  · rename_i hall
    exact iff_of_true rfl hall
  · rename_i hall
    exact iff_of_false nofun hall

/-- A list of two ints, and the second of them. -/
theorem contains_agree_ints :
    contains (twoInts 1 2) ([0, 1].map some) 1 = .ok true ∧
    ListObjUtils.contains (twoInts 1 2) 1 (.list ([0, 1].map some)) (.int 2) = .ok true := by
  have hagree := (contains_agree_iff (twoInts 1 2) 0 [0, 1] (.int 2) 1 trivial rfl).mpr (by decide)
  exact ⟨hagree.2, hagree.1⟩

/-- Before the first match is an element of another type. -/
theorem contains_disagree :
    ∃ (h : Heap) (l : List VarAddr) (k : VarAddr), h.value k = .int 2 ∧
      contains h (l.map some) k = .ok true ∧
      ∀ stack, ListObjUtils.contains h (stack + 1) (.list (l.map some)) (.int 2)
        = .error (.thrown (.badVariableArg "Expected arguments t be same type")) :=
  ⟨{ cells := [.string "one", .int 2], vars := [0, 1] }, [0, 1], 1, rfl, rfl, fun _ => rfl⟩

end

end SocialGaming
