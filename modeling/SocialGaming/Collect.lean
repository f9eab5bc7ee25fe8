import SocialGaming.Variables
import Mathlib.Data.List.Forall2

/-!
# Collecting maps

`getElements` reads one key of each map of a list, and `collect` looks for the maps that have a
value under a key. Both read with `getWithKey`.

## Design

`getWithKey` compares what it has found with `*(a->end())`. The language does not define what is
read there. So that the rest can be said of implementations on which it can be read, the entry that
is read is a parameter; without one the read is undefined.

## Main definitions

* `VariableUtils.getWithKey`, `getElements`, `collect`
* `Heap.entryUnder`, `Heap.textUnder` — what a map has under a key
* `CollectsMaps` — what collecting should do
* `ReadsElements` — what reading the elements should do

## Main results

* `collect_run`, `getElements_run` — what they do
* `getElements_readable` — where what is read behind a map is defined, the list of what is read
* `collectsMaps_iff`, `readsElements_iff` — when this is what they should do
-/

namespace SocialGaming

open Std (ExtTreeMap)

/-- An entry of a `mapType`. -/
abbrev MapEntry : Type := String × Option StrAddr

/-- `VariableUtils::getWithKey`. The entry `behind` is what `*(a->end())` reads. -/
def VariableUtils.getWithKey (behind : Option MapEntry) (h : Heap) (var1 key : VarType) :
    Except (Fault Exn) String :=
  match var1, key with
  | .map a, .string b => do
    -- `find` returns `end()` for a key that is not there
    let some it := (a[b]?.map fun second => (b, second)).or behind | throw (.undefined .pastEnd)
    let some behind := behind | throw (.undefined .pastEnd)
    if it ≠ behind then
      let some second := it.2 | throw (.undefined .nullDeref)
      return (h.strings[second]?).getD ""
    else return ""
  | _, _ => throw (.thrown (.badVariableArg "Expected mapType, string"))

/-- The body of the loop in `getElements`. -/
def getElement (behind : Option MapEntry) (key : VarAddr) (acc : VarType × Heap) (map : VarPtr) :
    Except (Fault Exn) (VarType × Heap) := do
  let (elements, h) := acc
  let some map := map | throw (.undefined .nullDeref)
  let candidate ← VariableUtils.getWithKey behind h (h.value map) (h.value key)
  ListObjUtils.pushBack elements (.string candidate) h

/-- The builtin `getElements`. -/
def getElements (behind : Option MapEntry) (list : List VarPtr) (key : VarAddr) (h : Heap) :
    Except (Fault Exn) (VarType × Heap) :=
  list.foldlM (getElement behind key) (.list [], h)

/-- The body of the loop in `collect`. The element that is pushed is a `shared_ptr<Variable>`, and
the only alternative of the variant that it converts to is `shared_ptr<void>`. -/
def collectMap (behind : Option MapEntry) (key rhs : VarAddr) (acc : VarType × Heap)
    (map : VarPtr) : Except (Fault Exn) (VarType × Heap) := do
  let (collected, h) := acc
  let some map := map | throw (.undefined .nullDeref)
  let found ← VariableUtils.getWithKey behind h (h.value map) (h.value key)
  let .string rhs := h.value rhs | throw (.thrown .badVariantAccess)
  if found = rhs then ListObjUtils.pushBack collected (.pointer (some map)) h
  else return (collected, h)

/-- The builtin `collect`. -/
def collect (behind : Option MapEntry) (list : List VarPtr) (key rhs : VarAddr) (h : Heap) :
    Except (Fault Exn) (VarType × Heap) :=
  list.foldlM (collectMap behind key rhs) (.list [], h)

/-! ### What a map has under a key -/

/-- The entry of a map under a key. -/
def Heap.entryUnder (h : Heap) (k : String) (p : VarAddr) : Option MapEntry :=
  match h.value p with
  | .map m => m[k]?.map fun second => (k, second)
  | _ => none

/-- The text a map has under a key. -/
def Heap.textUnder (h : Heap) (k : String) (p : VarAddr) : Option String := do
  let second ← (← h.entryUnder k p).2
  h.strings[second]?

/-- What `getWithKey` reads of a map, where the entry `e` can be read behind the last one. -/
def Heap.readText (h : Heap) (k : String) (e : MapEntry) (p : VarAddr) : String :=
  if h.entryUnder k p = some e then "" else (h.textUnder k p).getD ""

/-- A map in the store has this text under the key. -/
def Heap.HasText (h : Heap) (k : String) (p : VarAddr) (t : String) : Prop :=
  ∃ m second, h.Holds p (.map m) ∧ m[k]? = some (some second) ∧ h.strings[second]? = some t

section

variable {h h' : Heap} {k t : String} {p : VarAddr} {behind : Option MapEntry}

theorem Heap.HasText.textUnder_eq (ht : h.HasText k p t) : h.textUnder k p = some t := by
  obtain ⟨m, second, hp, hm, hs⟩ := ht
  simp [Heap.textUnder, Heap.entryUnder, hp.value_eq, hm, hs]

/-- The end iterator is dereferenced whether the key is found or not. -/
theorem VariableUtils.getWithKey_pastEnd (m : ExtTreeMap String (Option StrAddr) compare) :
    getWithKey none h (.map m) (.string k) = .error (.undefined .pastEnd) := by
  rcases hm : m[k]? with _ | second
  · simp [getWithKey, hm]
    rfl
  · simp [getWithKey, hm]
    rfl

/-- It can be read, and is compared with the entry. -/
theorem Heap.HasText.exists_read (ht : h.HasText k p t) (e : MapEntry) : ∃ v, h.Holds p v ∧
    VariableUtils.getWithKey (some e) h v (.string k) = .ok (h.readText k e p) := by
  have htext := ht.textUnder_eq
  obtain ⟨m, second, hp, hm, hs⟩ := ht
  refine ⟨.map m, hp, ?_⟩
  rw [Heap.readText, htext, Heap.entryUnder, hp.value_eq]
  by_cases he : (k, some second) = e
  · simp [VariableUtils.getWithKey, hm, he]
    rfl
  · simp [VariableUtils.getWithKey, hm, he, hs]
    rfl

/-- Of the store, only the strings are looked at. -/
theorem VariableUtils.getWithKey_congr (hs : h'.strings = h.strings) (var key : VarType) :
    getWithKey behind h' var key = getWithKey behind h var key := by
  simp only [getWithKey, hs]

end

/-! ### Collecting -/

section

variable {h h₁ : Heap} {behind : Option MapEntry} {key rhs : VarAddr} {k r : String}
  {text : VarAddr → String} {elems picked : List VarAddr} {out : List VarPtr}

/-- The element is a new `Variable` that holds a pointer to the map. -/
def Heap.PointsTo (h : Heap) (item : VarPtr) (p : VarAddr) : Prop :=
  ∃ q, item = some q ∧ h.Holds q (.pointer (some p))

/-- The store is `h` with new `Variable`s, one for each of the picked maps. -/
structure Collected (h : Heap) (picked : List VarAddr) (out : List VarPtr) (h₁ : Heap) : Prop where
  store : h.Extends h₁
  strings : h₁.strings = h.strings
  items : List.Forall₂ h₁.PointsTo out picked

theorem collected_nil (h : Heap) : Collected h [] [] h :=
  ⟨Heap.Extends.refl h, rfl, List.Forall₂.nil⟩

/-- One more is picked. -/
theorem Collected.pushBack (hc : Collected h picked out h₁) (p : VarAddr) :
    ∃ out' h₂, ListObjUtils.pushBack (.list out) (.pointer (some p)) h₁ = .ok (.list out', h₂) ∧
      Collected h (picked ++ [p]) out' h₂ := by
  set h₂ := (h₁.makeVariable (.pointer (some p))).2 with hh₂
  have hext : h₁.Extends h₂ := h₁.extends_makeVariable _
  have hold : List.Forall₂ h₂.PointsTo out picked := by
    refine hc.items.imp ?_
    rintro item p' ⟨q, rfl, hq⟩
    exact ⟨q, rfl, hq.of_extends hext⟩
  have hnew : h₂.PointsTo (some h₁.vars.length) p := ⟨_, rfl, h₁.holds_makeVariable _⟩
  exact ⟨_, h₂, rfl, hc.store.trans hext, hc.strings,
    List.rel_append hold (List.Forall₂.cons hnew List.Forall₂.nil)⟩

/-- A round of the loop: the store has only grown, so it reads what it would have read before. -/
theorem collectMap_eq (hkey : h.Holds key (.string k)) (hrhs : h.Holds rhs (.string r))
    {p : VarAddr} {v : VarType} (hp : h.Holds p v)
    (hread : VariableUtils.getWithKey behind h v (.string k) = .ok (text p))
    (hc : Collected h picked out h₁) :
    collectMap behind key rhs (.list out, h₁) (some p) =
      if text p = r then ListObjUtils.pushBack (.list out) (.pointer (some p)) h₁
      else .ok (.list out, h₁) := by
  have hread' : VariableUtils.getWithKey behind h₁ (h₁.value p) (h₁.value key) = .ok (text p) := by
    rw [(hp.of_extends hc.store).value_eq, (hkey.of_extends hc.store).value_eq,
      VariableUtils.getWithKey_congr hc.strings, hread]
  simp only [collectMap, hread', (hrhs.of_extends hc.store).value_eq]
  rfl

/-- **Collecting.** Where each read returns, the maps are picked whose text is `rhs`. -/
theorem collect_run (hkey : h.Holds key (.string k)) (hrhs : h.Holds rhs (.string r))
    (hread : ∀ p ∈ elems, ∃ v, h.Holds p v ∧
      VariableUtils.getWithKey behind h v (.string k) = .ok (text p)) :
    ∃ out h', collect behind (elems.map some) key rhs h = .ok (.list out, h') ∧
      Collected h (elems.filter fun p => text p = r) out h' := by
  have hfold : ∀ picked out h₁, Collected h picked out h₁ → ∃ out' h',
      (elems.map some).foldlM (collectMap behind key rhs) (.list out, h₁) = .ok (.list out', h') ∧
        Collected h (picked ++ elems.filter fun p => text p = r) out' h' := by
    induction elems with
    | nil =>
      intro picked out h₁ hc
      exact ⟨out, h₁, rfl, by simpa using hc⟩
    | cons p elems ih =>
      intro picked out h₁ hc
      obtain ⟨v, hp, hv⟩ := hread p List.mem_cons_self
      have hread' := fun p' hp' => hread p' (List.mem_cons_of_mem p hp')
      rw [List.map_cons, List.foldlM_cons, collectMap_eq hkey hrhs hp hv hc]
      by_cases ht : text p = r
      · obtain ⟨out₂, h₂, hpush, hc₂⟩ := hc.pushBack p
        obtain ⟨out', h', hrest, hc'⟩ := ih hread' (picked ++ [p]) out₂ h₂ hc₂
        rw [if_pos ht, hpush]
        exact ⟨out', h', hrest, by simpa [ht] using hc'⟩
      · obtain ⟨out', h', hrest, hc'⟩ := ih hread' picked out h₁ hc
        rw [if_neg ht]
        exact ⟨out', h', hrest, by simpa [ht] using hc'⟩
  exact hfold [] [] h (collected_nil h)

/-- Reading from what has been picked throws. -/
theorem Collected.getElements_error {p : VarAddr} (hc : Collected h (p :: picked) out h₁)
    (behind : Option MapEntry) (key : VarAddr) : getElements behind out key h₁
      = .error (.thrown (.badVariableArg "Expected mapType, string")) := by
  rcases hc.items with _ | ⟨⟨q, rfl, hq⟩, -⟩
  have hread : VariableUtils.getWithKey behind h₁ (h₁.value q) (h₁.value key)
      = .error (.thrown (.badVariableArg "Expected mapType, string")) := by
    rw [hq.value_eq]
    rfl
  simp only [getElements, List.foldlM_cons, getElement, hread]
  rfl

/-- The result is the list of the maps that have the text `r` under the key, in order, with the
values they had. What is read from it under the key are as many copies of `r`. -/
def CollectsMaps (behind : Option MapEntry) (elems : List VarAddr) (key rhs : VarAddr)
    (k r : String) (h : Heap) : Prop :=
  ∃ out h', collect behind (elems.map some) key rhs h = .ok (.list out, h') ∧
    List.Forall₂ (fun item p => ∃ q, item = some q ∧ h'.value q = h.value p) out
      (elems.filter fun p => h.textUnder k p = some r) ∧
    ∃ texts h'', getElements behind out key h' = .ok (.list texts, h'') ∧
      texts.length = (elems.filter fun p => h.textUnder k p = some r).length ∧
      ∀ item ∈ texts, ∃ q, item = some q ∧ h''.value q = .string r

theorem collectsMaps_nil : CollectsMaps behind [] key rhs k r h :=
  ⟨[], h, rfl, List.Forall₂.nil, [], h, rfl, rfl, by simp⟩

/-- The first read is undefined. -/
theorem not_collectsMaps_undefined (hkey : h.Holds key (.string k)) {p : VarAddr} {t : String}
    (hp : h.HasText k p t) : ¬ CollectsMaps none (p :: elems) key rhs k r h := by
  rintro ⟨out, h', hrun, -⟩
  obtain ⟨m, second, hm, -⟩ := hp
  rw [collect, List.map_cons, List.foldlM_cons, collectMap, hm.value_eq, hkey.value_eq,
    VariableUtils.getWithKey_pastEnd] at hrun
  cases hrun

/-- What is picked is not a map any more, so it is no list of maps unless it is empty. -/
theorem Collected.eq_nil {maps : List VarAddr} (hc : Collected h picked out h₁)
    (hout : List.Forall₂ (fun item p => ∃ q, item = some q ∧ h₁.value q = h.value p) out maps)
    (hmaps : ∀ p ∈ maps, ∃ m, h.value p = .map m) : picked = [] ∧ maps = [] := by
  have hitems := hc.items
  rcases hout with _ | ⟨⟨q, rfl, hq⟩, -⟩
  · exact ⟨List.forall₂_nil_left_iff.mp hitems, rfl⟩
  · rcases hitems with _ | ⟨⟨_, ⟨⟩, hpointer⟩, -⟩
    obtain ⟨m, hm⟩ := hmaps _ List.mem_cons_self
    rw [hm, hpointer.value_eq] at hq
    cases hq

/-- So nothing may be picked, and there may be nothing to pick. -/
theorem collectsMaps_readable (hkey : h.Holds key (.string k)) (hrhs : h.Holds rhs (.string r))
    (hmaps : ∀ p ∈ elems, ∃ t, h.HasText k p t) (e : MapEntry) :
    CollectsMaps (some e) elems key rhs k r h ↔
      ∀ p ∈ elems, h.textUnder k p ≠ some r ∧ h.readText k e p ≠ r := by
  have hread : ∀ p ∈ elems, ∃ v, h.Holds p v ∧
      VariableUtils.getWithKey (some e) h v (.string k) = .ok (h.readText k e p) := by
    intro p hp
    obtain ⟨t, ht⟩ := hmaps p hp
    exact ht.exists_read e
  obtain ⟨out, h', hrun, hc⟩ := collect_run hkey hrhs hread
  constructor
  · rintro ⟨out', h'', hrun', hout, -⟩
    obtain ⟨rfl, rfl⟩ : out = out' ∧ h' = h'' := by simpa [hrun] using hrun'
    have hvalue : ∀ p ∈ elems.filter fun p => h.textUnder k p = some r,
        ∃ m, h.value p = .map m := by
      intro p hp
      obtain ⟨t, m, second, hm, -⟩ := hmaps p (List.mem_of_mem_filter hp)
      exact ⟨m, hm.value_eq⟩
    obtain ⟨hpicked, hmatching⟩ := hc.eq_nil hout hvalue
    intro p hp
    exact ⟨by simpa using List.filter_eq_nil_iff.mp hmatching p hp,
      by simpa using List.filter_eq_nil_iff.mp hpicked p hp⟩
  · intro hnone
    have hpicked : (elems.filter fun p => h.readText k e p = r) = [] :=
      List.filter_eq_nil_iff.mpr fun p hp => by simpa using (hnone p hp).2
    have hmatching : (elems.filter fun p => h.textUnder k p = some r) = [] :=
      List.filter_eq_nil_iff.mpr fun p hp => by simpa using (hnone p hp).1
    have hitems := hc.items
    rw [hpicked] at hitems
    obtain rfl := List.forall₂_nil_right_iff.mp hitems
    refine ⟨[], h', hrun, ?_, [], h', rfl, ?_, by simp⟩
    · rw [hmatching]
      exact List.Forall₂.nil
    · rw [hmatching]
      rfl

/-- **Collecting maps.** Take a list of maps in the store that all have a text under the key. They
are collected as maps if and only if there are none, or no read is undefined and there is nothing to
collect: no map has the text, and no entry is taken for the one behind the last and read as empty
where the text is empty. -/
theorem collectsMaps_iff (hkey : h.Holds key (.string k)) (hrhs : h.Holds rhs (.string r))
    (hmaps : ∀ p ∈ elems, ∃ t, h.HasText k p t) :
    CollectsMaps behind elems key rhs k r h ↔ elems = [] ∨ ∃ e, behind = some e ∧
      ∀ p ∈ elems, h.textUnder k p ≠ some r ∧ (r = "" → h.entryUnder k p ≠ some e) := by
  rcases elems with _ | ⟨p₀, elems⟩
  · exact iff_of_true collectsMaps_nil (Or.inl rfl)
  rcases behind with _ | e
  · obtain ⟨t, ht⟩ := hmaps p₀ List.mem_cons_self
    refine iff_of_false (not_collectsMaps_undefined hkey ht) ?_
    rintro (⟨⟨⟩⟩ | ⟨e, ⟨⟨⟩⟩, -⟩)
  rw [collectsMaps_readable hkey hrhs hmaps e]
  have hread : ∀ p ∈ p₀ :: elems, (h.textUnder k p ≠ some r ∧ h.readText k e p ≠ r ↔
      h.textUnder k p ≠ some r ∧ (r = "" → h.entryUnder k p ≠ some e)) := by
    intro p hp
    obtain ⟨t, ht⟩ := hmaps p hp
    rw [Heap.readText, ht.textUnder_eq]
    by_cases he : h.entryUnder k p = some e
    · simp [he, eq_comm]
    · simp [he]
  rw [forall₂_congr hread]
  simp

end

/-! ### Reading the elements -/

section

variable {h h₁ : Heap} {behind : Option MapEntry} {key : VarAddr} {k : String}
  {text : VarAddr → String} {elems : List VarAddr} {texts : List String} {out : List VarPtr}

/-- The element is a new `Variable` that holds the text. -/
def Heap.HoldsText (h : Heap) (item : VarPtr) (t : String) : Prop :=
  ∃ q, item = some q ∧ h.Holds q (.string t)

/-- The store is `h` with new `Variable`s, one for each of the texts. -/
structure Gathered (h : Heap) (texts : List String) (out : List VarPtr) (h₁ : Heap) : Prop where
  store : h.Extends h₁
  strings : h₁.strings = h.strings
  items : List.Forall₂ h₁.HoldsText out texts

theorem gathered_nil (h : Heap) : Gathered h [] [] h :=
  ⟨Heap.Extends.refl h, rfl, List.Forall₂.nil⟩

/-- One more is read. -/
theorem Gathered.pushBack (hg : Gathered h texts out h₁) (t : String) :
    ∃ out' h₂, ListObjUtils.pushBack (.list out) (.string t) h₁ = .ok (.list out', h₂) ∧
      Gathered h (texts ++ [t]) out' h₂ := by
  set h₂ := (h₁.makeVariable (.string t)).2 with hh₂
  have hext : h₁.Extends h₂ := h₁.extends_makeVariable _
  have hold : List.Forall₂ h₂.HoldsText out texts := by
    refine hg.items.imp ?_
    rintro item t' ⟨q, rfl, hq⟩
    exact ⟨q, rfl, hq.of_extends hext⟩
  have hnew : h₂.HoldsText (some h₁.vars.length) t := ⟨_, rfl, h₁.holds_makeVariable _⟩
  exact ⟨_, h₂, rfl, hg.store.trans hext, hg.strings,
    List.rel_append hold (List.Forall₂.cons hnew List.Forall₂.nil)⟩

/-- A round of the loop. -/
theorem getElement_eq (hkey : h.Holds key (.string k)) {p : VarAddr} {v : VarType}
    (hp : h.Holds p v)
    (hread : VariableUtils.getWithKey behind h v (.string k) = .ok (text p))
    (hg : Gathered h texts out h₁) : getElement behind key (.list out, h₁) (some p) =
      ListObjUtils.pushBack (.list out) (.string (text p)) h₁ := by
  have hread' : VariableUtils.getWithKey behind h₁ (h₁.value p) (h₁.value key) = .ok (text p) := by
    rw [(hp.of_extends hg.store).value_eq, (hkey.of_extends hg.store).value_eq,
      VariableUtils.getWithKey_congr hg.strings, hread]
  simp only [getElement, hread']
  rfl

/-- **Reading the elements.** Where each read returns, the result is the list of what is read. -/
theorem getElements_run (hkey : h.Holds key (.string k))
    (hread : ∀ p ∈ elems, ∃ v, h.Holds p v ∧
      VariableUtils.getWithKey behind h v (.string k) = .ok (text p)) :
    ∃ out h', getElements behind (elems.map some) key h = .ok (.list out, h') ∧
      Gathered h (elems.map text) out h' := by
  have hfold : ∀ texts out h₁, Gathered h texts out h₁ → ∃ out' h',
      (elems.map some).foldlM (getElement behind key) (.list out, h₁) = .ok (.list out', h') ∧
        Gathered h (texts ++ elems.map text) out' h' := by
    induction elems with
    | nil =>
      intro texts out h₁ hg
      exact ⟨out, h₁, rfl, by simpa using hg⟩
    | cons p elems ih =>
      intro texts out h₁ hg
      obtain ⟨v, hp, hv⟩ := hread p List.mem_cons_self
      obtain ⟨out₂, h₂, hpush, hg₂⟩ := hg.pushBack (text p)
      obtain ⟨out', h', hrest, hg'⟩ := ih (fun p' hp' => hread p' (List.mem_cons_of_mem p hp'))
        (texts ++ [text p]) out₂ h₂ hg₂
      rw [List.map_cons, List.foldlM_cons, getElement_eq hkey hp hv hg, hpush]
      exact ⟨out', h', hrest, by simpa using hg'⟩
  exact hfold [] [] h (gathered_nil h)

/-- A key that is not there is read as the empty string, if what is behind the last entry can be
read. -/
theorem Heap.exists_read_of_lacks {p : VarAddr} {m : ExtTreeMap String (Option StrAddr) compare}
    (hp : h.Holds p (.map m)) (hm : m[k]? = none) (e : MapEntry) : ∃ v, h.Holds p v ∧
      VariableUtils.getWithKey (some e) h v (.string k) = .ok (h.readText k e p) := by
  refine ⟨.map m, hp, ?_⟩
  have htext : h.readText k e p = "" := by
    simp [Heap.readText, Heap.textUnder, Heap.entryUnder, hp.value_eq, hm]
  rw [htext]
  simp [VariableUtils.getWithKey, hm]
  rfl

/-- So on an implementation on which that can be read, the result is the list of what is read. -/
theorem getElements_readable (hkey : h.Holds key (.string k))
    (hmaps : ∀ p ∈ elems, (∃ m, h.Holds p (.map m) ∧ m[k]? = none) ∨ ∃ t, h.HasText k p t)
    (e : MapEntry) :
    ∃ out h', getElements (some e) (elems.map some) key h = .ok (.list out, h') ∧
      Gathered h (elems.map (h.readText k e)) out h' := by
  refine getElements_run hkey ?_
  intro p hp
  rcases hmaps p hp with ⟨m, hm, hlacks⟩ | ⟨t, ht⟩
  · exact Heap.exists_read_of_lacks hm hlacks e
  · exact ht.exists_read e

/-- The result is a list with, for each map, the text it has under the key, or the empty string
where it lacks the key. Nothing is given that could be read behind the last entry of a map, so none
of the reads dereferences an end iterator. -/
def ReadsElements (elems : List VarAddr) (key : VarAddr) (k : String) (h : Heap) : Prop :=
  ∃ out h', getElements none (elems.map some) key h = .ok (.list out, h') ∧
    out.length = elems.length ∧
    List.Forall₂ h'.HoldsText out (elems.map fun p => (h.textUnder k p).getD "")

theorem getElements_undefined (hkey : h.Holds key (.string k)) {p : VarAddr}
    {m : ExtTreeMap String (Option StrAddr) compare} (hp : h.Holds p (.map m))
    (rest : List VarPtr) :
    getElements none (some p :: rest) key h = .error (.undefined .pastEnd) := by
  rw [getElements, List.foldlM_cons, getElement, hp.value_eq, hkey.value_eq,
    VariableUtils.getWithKey_pastEnd]
  rfl

/-- **Reading the elements of a list of maps.** Whatever keys the maps have, an end iterator is
dereferenced at the first of them. So it is only the empty list that is read as it should be. -/
theorem readsElements_iff (hkey : h.Holds key (.string k))
    (hmaps : ∀ p ∈ elems, ∃ m, h.Holds p (.map m)) :
    ReadsElements elems key k h ↔ elems = [] := by
  constructor
  · rintro ⟨out, h', hrun, -⟩
    rcases elems with _ | ⟨p, elems⟩
    · rfl
    · obtain ⟨m, hm⟩ := hmaps p List.mem_cons_self
      rw [List.map_cons, getElements_undefined hkey hm] at hrun
      cases hrun
  · rintro rfl
    exact ⟨[], h, rfl, rfl, List.Forall₂.nil⟩

end

/-- A map with one entry, a key, the text it has under the key and another text. -/
def scoreHeap : Heap :=
  { cells := [.map ((∅ : ExtTreeMap String (Option StrAddr) compare).insert "score" (some 0)),
      .string "score", .string "0", .string "1"]
    vars := [0, 1, 2, 3]
    strings := ["0"] }

theorem hasText_scoreHeap : scoreHeap.HasText "score" 0 "0" :=
  ⟨_, 0, ⟨0, rfl, rfl⟩, ExtTreeMap.getElem?_insert_self, rfl⟩

theorem exists_hasText_scoreHeap : ∀ p ∈ [0], ∃ t, scoreHeap.HasText "score" p t := by
  intro p hp
  obtain rfl := List.mem_singleton.mp hp
  exact ⟨"0", hasText_scoreHeap⟩

/-- No map has the other text, and none is found where the read behind the last entry is harmless.
-/
theorem collectsMaps_iff_other :
    CollectsMaps (some ("", none)) [0] 1 3 "score" "1" scoreHeap := by
  refine (collectsMaps_iff ⟨1, rfl, rfl⟩ ⟨3, rfl, rfl⟩ exists_hasText_scoreHeap).mpr
    (Or.inr ⟨_, rfl, ?_⟩)
  intro p hp
  obtain rfl := List.mem_singleton.mp hp
  rw [hasText_scoreHeap.textUnder_eq]
  simp

/-- One map has the text. Even where the read behind the last entry is harmless, what is collected
is no map, and `getElements` throws. -/
theorem collect_one :
    (∃ out h', collect (some ("", none)) [some 0] 1 2 scoreHeap = .ok (.list out, h') ∧
      getElements (some ("", none)) out 1 h'
        = .error (.thrown (.badVariableArg "Expected mapType, string"))) ∧
    ∀ behind, ¬ CollectsMaps behind [0] 1 2 "score" "0" scoreHeap := by
  have hkey : scoreHeap.Holds 1 (.string "score") := ⟨1, rfl, rfl⟩
  have hrhs : scoreHeap.Holds 2 (.string "0") := ⟨2, rfl, rfl⟩
  constructor
  · have hread : ∀ p ∈ [0], ∃ v, scoreHeap.Holds p v ∧ VariableUtils.getWithKey (some ("", none))
        scoreHeap v (.string "score") = .ok (scoreHeap.readText "score" ("", none) p) := by
      intro p hp
      obtain ⟨t, ht⟩ := exists_hasText_scoreHeap p hp
      exact ht.exists_read _
    obtain ⟨out, h', hrun, hc⟩ := collect_run hkey hrhs hread
    have hfound : scoreHeap.readText "score" ("", none) 0 = "0" := by
      rw [Heap.readText, hasText_scoreHeap.textUnder_eq]
      simp [Heap.entryUnder, scoreHeap, Heap.value, Heap.storage, Heap.cell]
    rw [List.filter_cons_of_pos (by simpa using hfound)] at hc
    exact ⟨out, h', hrun, hc.getElements_error _ _⟩
  · intro behind hcollects
    rcases behind with _ | e
    · exact not_collectsMaps_undefined hkey hasText_scoreHeap hcollects
    · have hnone := (collectsMaps_readable hkey hrhs exists_hasText_scoreHeap e).mp hcollects 0
        (by simp)
      exact hnone.1 hasText_scoreHeap.textUnder_eq

theorem readsElements_iff_score : ReadsElements [0] 1 "score" scoreHeap ↔ [0] = [] := by
  refine readsElements_iff ⟨1, rfl, rfl⟩ ?_
  intro p hp
  obtain rfl := List.mem_singleton.mp hp
  exact ⟨_, 0, rfl, rfl⟩

/-- The key is not there, and the end iterator that `find` returns is dereferenced. -/
theorem getElements_missing : (∃ m, scoreHeap.Holds 0 (.map m) ∧ m["0"]? = none) ∧
    scoreHeap.Holds 2 (.string "0") ∧
    getElements none [some 0] 2 scoreHeap = .error (.undefined .pastEnd) ∧
    ¬ ReadsElements [0] 2 "0" scoreHeap := by
  have hkey : scoreHeap.Holds 2 (.string "0") := ⟨2, rfl, rfl⟩
  have hmap : scoreHeap.Holds 0
      (.map ((∅ : ExtTreeMap String (Option StrAddr) compare).insert "score" (some 0))) :=
    ⟨0, rfl, rfl⟩
  have hrun := getElements_undefined hkey hmap []
  refine ⟨⟨_, hmap, ?_⟩, hkey, hrun, ?_⟩
  · rw [ExtTreeMap.getElem?_insert]
    simp
  · rintro ⟨out, h', hrun', -⟩
    rw [List.map_singleton, hrun] at hrun'
    cases hrun'

end SocialGaming
