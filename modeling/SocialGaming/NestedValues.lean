import SocialGaming.Library.Nested
import SocialGaming.Variables
import Mathlib.Data.List.Forall2

/-!
# Nested values in the store

A value with lists and maps in it is a tree whose inner nodes lie in storages of their own. What it
holds is a tree of contents, and what can be reached from it are its entries, each by a path of
indices and keys. Two entries that lie in one storage are changed together.

## Main definitions

* `Atom`, `Content` — what a value can hold
* `Shows` — a value in the store holds these contents
* `Heap.entryAt` — the entry a path leads to
* `Heap.Owns` — the entries lie in storages of their own, none of them older than a given one

## Main results

* `Shows.of_extends`, `Shows.unique` — contents are kept when the store grows, and are determined by
  the value
* `Heap.OwnsEntries.insert`, `Heap.owns_makeVariable`, `Heap.Owns.copyVariable` — how owned values
  are put together
* `Heap.Owns.value_write` — overwriting an entry leaves the others as they were
-/

namespace SocialGaming

open Std (ExtTreeMap)

/-- What a leaf of the contents is: an int, a string, a bool, or an expression of another kind. -/
inductive Atom where
  | int (n : Int32)
  | string (s : String)
  | bool (b : Bool)
  | other (kind text : String)
  deriving DecidableEq, Repr

/-- What a value holds. -/
abbrev Content : Type := Nested String Atom

namespace Heap

/-- A pointer to a `Variable` in the store. -/
def Live (h : Heap) (a : VarPtr) : Prop := ∃ p v, a = some p ∧ h.Holds p v

theorem Holds.unique {h : Heap} {p : VarAddr} {v w : VarType} (hv : h.Holds p v)
    (hw : h.Holds p w) : v = w :=
  hv.value_eq.symm.trans hw.value_eq

theorem Live.of_extends {h h' : Heap} {a : VarPtr} (ha : h.Live a) (hext : h.Extends h') :
    h'.Live a := by
  obtain ⟨p, v, rfl, hp⟩ := ha
  exact ⟨p, v, rfl, hp.of_extends hext⟩

theorem Holds.live {h : Heap} {p : VarAddr} {v : VarType} (hp : h.Holds p v) : h.Live (some p) :=
  ⟨p, v, rfl, hp⟩

end Heap

/-! ### Contents -/

/-- The value holds the contents. A list has its elements in order, and a map the keys of the
contents and no others. -/
inductive Shows (h : Heap) : Content → VarType → Prop
  | int (n : Int32) : Shows h (.leaf (.int n)) (.int n)
  | string (s : String) : Shows h (.leaf (.string s)) (.string s)
  | bool (b : Bool) : Shows h (.leaf (.bool b)) (.bool b)
  | list {l : List VarPtr} {ts : List Content} (hlen : l.length = ts.length)
      (hlive : ∀ a ∈ l, h.Live a)
      (hl : ∀ (i : ℕ) p v t, l[i]? = some (some p) → h.Holds p v → ts[i]? = some t →
        Shows h t v) : Shows h (.list ts) (.list l)
  | map {m : ExtTreeMap String VarPtr compare} {f : String → Option Content}
      (hkeys : ∀ k, k ∈ m ↔ (f k).isSome) (hlive : ∀ (k : String) a, m[k]? = some a → h.Live a)
      (hm : ∀ (k : String) p v t, m[k]? = some (some p) → h.Holds p v → f k = some t →
        Shows h t v) : Shows h (.map f) (.varMap m)

section

variable {h h' : Heap} {t : Content} {v : VarType}

/-- Contents are kept when the store grows. -/
theorem Shows.of_extends (hv : Shows h t v) (hext : h.Extends h') : Shows h' t v := by
  induction hv with
  | int n => exact .int n
  | string s => exact .string s
  | bool b => exact .bool b
  | list hlen hlive hl ih =>
    refine .list hlen (fun a ha => (hlive a ha).of_extends hext) fun i p v t hp hv ht => ?_
    obtain ⟨_, w, ⟨⟩, hw⟩ := hlive _ (List.mem_of_getElem? hp)
    obtain rfl := hv.unique (hw.of_extends hext)
    exact ih i p v t hp hw ht
  | map hkeys hlive hm ih =>
    refine .map hkeys (fun k a ha => (hlive k a ha).of_extends hext) fun k p v t hp hv ht => ?_
    obtain ⟨_, w, ⟨⟩, hw⟩ := hlive k _ hp
    obtain rfl := hv.unique (hw.of_extends hext)
    exact ih k p v t hp hw ht

/-- A value holds one thing. -/
theorem Shows.unique {t' : Content} (hv : Shows h t v) (hv' : Shows h t' v) : t = t' := by
  induction hv generalizing t' with
  | int n =>
    cases hv'
    rfl
  | string s =>
    cases hv'
    rfl
  | bool b =>
    cases hv'
    rfl
  | @list l ts hlen hlive hl ih =>
    obtain - | - | - | @⟨_, ts', hlen', -, hl'⟩ := hv'
    refine congrArg _ (List.ext_getElem (hlen.symm.trans hlen') fun i hi hi' => ?_)
    obtain ⟨p, v, hp, hv⟩ := hlive _ (List.getElem_mem (hlen ▸ hi))
    have hp' : l[i]? = some (some p) := by rw [← hp, List.getElem?_eq_getElem]
    exact ih i p v _ hp' hv (List.getElem?_eq_getElem hi)
      (hl' i p v _ hp' hv (List.getElem?_eq_getElem hi'))
  | @map m f hkeys hlive hm ih =>
    obtain - | - | - | - | @⟨_, f', hkeys', -, hm'⟩ := hv'
    refine congrArg _ (funext fun k => ?_)
    have hsome : (f k).isSome ↔ (f' k).isSome := (hkeys k).symm.trans (hkeys' k)
    rcases hf : f k with _ | t
    · rw [hf] at hsome
      exact (Option.not_isSome_iff_eq_none.mp fun hk => by simpa using hsome.mpr hk).symm
    · rw [hf] at hsome
      obtain ⟨t', hf'⟩ := Option.isSome_iff_exists.mp (hsome.mp rfl)
      have hmem : k ∈ m := (hkeys k).mpr (by rw [hf]; rfl)
      obtain ⟨p, v, hp, hv⟩ := hlive k _ (ExtTreeMap.getElem?_eq_some_getElem hmem)
      have hp' : m[k]? = some (some p) := by rw [← hp, ExtTreeMap.getElem?_eq_some_getElem hmem]
      rw [hf', ih k p v t hp' hv hf (hm' k p v t' hp' hv hf')]

end

/-! ### Entries and their storages -/

/-- A step into a list or a map. -/
inductive Selector where
  | index (i : ℕ)
  | key (k : String)
  deriving DecidableEq

/-- The element at an index, or the value under a key. -/
def VarType.child : VarType → Selector → VarPtr
  | .list l, .index i => (l[i]?).join
  | .varMap m, .key k => (m[k]?).join
  | _, _ => Option.none

namespace Heap

/-- The entry a path leads to from a `Variable`. The empty path leads to the `Variable` itself. -/
def entryAt (h : Heap) : VarAddr → List Selector → VarPtr
  | p, [] => some p
  | p, s :: path => ((h.value p).child s).bind fun q => entryAt h q path

/-- Everything that can be reached from the `Variable` is in the store, and each of it has a storage
of its own, which is not among the first `lo`. -/
structure Owns (h : Heap) (lo : ℕ) (p : VarAddr) : Prop where
  inside : ∀ path q, h.entryAt p path = some q →
    q < h.vars.length ∧ lo ≤ h.storage q ∧ h.storage q < h.cells.length
  inj : ∀ path path' q q', h.entryAt p path = some q → h.entryAt p path' = some q' →
    h.storage q = h.storage q' → path = path'

/-- The same of everything that can be reached from the elements or the entries of a value. -/
structure OwnsEntries (h : Heap) (lo : ℕ) (v : VarType) : Prop where
  owns : ∀ s p, v.child s = some p → h.Owns lo p
  inj : ∀ s s' p p' path path' q q', v.child s = some p → v.child s' = some p' →
    h.entryAt p path = some q → h.entryAt p' path' = some q' → h.storage q = h.storage q' → s = s'

variable {h h' : Heap} {lo : ℕ} {p : VarAddr} {v : VarType}

theorem entryAt_cons_eq_some {s : Selector} {path : List Selector} {q : VarAddr} :
    h.entryAt p (s :: path) = some q ↔
      ∃ r, (h.value p).child s = some r ∧ h.entryAt r path = some q :=
  Option.bind_eq_some_iff

theorem value_of_extends (hext : h.Extends h') (hp : p < h.vars.length)
    (hc : h.storage p < h.cells.length) : h'.value p = h.value p := by
  rw [value, hext.evolves.storage_eq hp, hext.cell_eq hc, value]

/-- What is owned stays where it is when the store grows. -/
theorem Owns.entryAt_eq (hp : h.Owns lo p) (hext : h.Extends h') (path : List Selector) :
    h'.entryAt p path = h.entryAt p path := by
  induction path generalizing p with
  | nil => rfl
  | cons s path ih =>
    obtain ⟨hvars, -, hcells⟩ := hp.inside [] p rfl
    rw [entryAt, entryAt, value_of_extends hext hvars hcells]
    refine Option.bind_congr fun q hq =>
      ih ⟨fun path r hr => ?_, fun path path' r r' hr hr' heq => ?_⟩
    · exact hp.inside (s :: path) r (entryAt_cons_eq_some.mpr ⟨q, hq, hr⟩)
    · exact (List.cons.inj (hp.inj (s :: path) (s :: path') r r'
        (entryAt_cons_eq_some.mpr ⟨q, hq, hr⟩) (entryAt_cons_eq_some.mpr ⟨q, hq, hr'⟩) heq)).2

theorem Owns.of_extends (hp : h.Owns lo p) (hext : h.Extends h') : h'.Owns lo p := by
  have hstorage : ∀ path q, h.entryAt p path = some q → h'.storage q = h.storage q :=
    fun path q hq => hext.evolves.storage_eq (hp.inside path q hq).1
  refine ⟨fun path q hq => ?_, fun path path' q q' hq hq' heq => ?_⟩
  · rw [hp.entryAt_eq hext] at hq
    obtain ⟨hvars, hlo, hcells⟩ := hp.inside path q hq
    rw [hstorage path q hq]
    exact ⟨hvars.trans_le hext.vars.length_le, hlo, hcells.trans_le hext.cells.length_le⟩
  · rw [hp.entryAt_eq hext] at hq hq'
    rw [hstorage path q hq, hstorage path' q' hq'] at heq
    exact hp.inj path path' q q' hq hq' heq

theorem Owns.mono {lo' : ℕ} (hp : h.Owns lo p) (hlo : lo' ≤ lo) : h.Owns lo' p :=
  ⟨fun path q hq => ⟨(hp.inside path q hq).1, hlo.trans (hp.inside path q hq).2.1,
    (hp.inside path q hq).2.2⟩, hp.inj⟩

/-- The entries of an owned value are owned. -/
theorem Owns.ownsEntries (hp : h.Owns lo p) : h.OwnsEntries lo (h.value p) := by
  refine ⟨fun s q hq => ⟨fun path r hr => ?_, fun path path' r r' hr hr' heq => ?_⟩,
    fun s s' q q' path path' r r' hq hq' hr hr' heq => ?_⟩
  · exact hp.inside (s :: path) r (entryAt_cons_eq_some.mpr ⟨q, hq, hr⟩)
  · exact (List.cons.inj (hp.inj (s :: path) (s :: path') r r'
      (entryAt_cons_eq_some.mpr ⟨q, hq, hr⟩) (entryAt_cons_eq_some.mpr ⟨q, hq, hr'⟩) heq)).2
  · exact (List.cons.inj (hp.inj (s :: path) (s' :: path') r r'
      (entryAt_cons_eq_some.mpr ⟨q, hq, hr⟩) (entryAt_cons_eq_some.mpr ⟨q', hq', hr'⟩) heq)).1

theorem OwnsEntries.of_extends (hv : h.OwnsEntries lo v) (hext : h.Extends h') :
    h'.OwnsEntries lo v := by
  refine ⟨fun s p hp => (hv.owns s p hp).of_extends hext,
    fun s s' p p' path path' q q' hp hp' hq hq' heq => ?_⟩
  have hown := hv.owns s p hp
  have hown' := hv.owns s' p' hp'
  rw [hown.entryAt_eq hext] at hq
  rw [hown'.entryAt_eq hext] at hq'
  rw [hext.evolves.storage_eq (hown.inside path q hq).1,
    hext.evolves.storage_eq (hown'.inside path' q' hq').1] at heq
  exact hv.inj s s' p p' path path' q q' hp hp' hq hq' heq

/-- One entry is put in, or put in the place of another, that lies in newer storages. -/
theorem OwnsEntries.insert {w : VarType} {s₀ : Selector} (hv : h.OwnsEntries lo v)
    (hlo : lo ≤ h.cells.length) (hext : h.Extends h') (hp : h'.Owns h.cells.length p)
    (hw : ∀ s q, w.child s = some q → s = s₀ ∧ q = p ∨ v.child s = some q) :
    h'.OwnsEntries lo w := by
  -- an entry that was there lies in an older storage than any of the new one
  have hne : ∀ s q path path' r r', v.child s = some q → h'.entryAt q path = some r →
      h'.entryAt p path' = some r' → h'.storage r ≠ h'.storage r' := by
    intro s q path path' r r' hq hr hr' heq
    have hown := hv.owns s q hq
    rw [hown.entryAt_eq hext] at hr
    obtain ⟨hvars, -, hcells⟩ := hown.inside path r hr
    have hnew := (hp.inside path' r' hr').2.1
    rw [← heq, hext.evolves.storage_eq hvars] at hnew
    exact absurd hcells (not_lt.mpr hnew)
  have hv' := hv.of_extends hext
  refine ⟨fun s q hq => ?_, fun s s' q q' path path' r r' hq hq' hr hr' heq => ?_⟩
  · obtain ⟨rfl, rfl⟩ | hold := hw s q hq
    · exact hp.mono hlo
    · exact hv'.owns s q hold
  · obtain ⟨rfl, rfl⟩ | hold := hw s q hq
    · obtain ⟨rfl, rfl⟩ | hold' := hw s' q' hq'
      · rfl
      · exact absurd heq.symm (hne s' q' path' path r' r hold' hr' hr)
    · obtain ⟨rfl, rfl⟩ | hold' := hw s' q' hq'
      · exact absurd heq (hne s q path path' r r' hold hr hr')
      · exact hv'.inj s s' q q' path path' r r' hold hold' hr hr' heq

/-- Below a new `Variable` are the entries of its value. -/
theorem exists_entry_of_makeVariable (hv : h.OwnsEntries lo v) {s : Selector} {path : List Selector}
    {q : VarAddr}
    (hq : (h.makeVariable v).2.entryAt (h.makeVariable v).1 (s :: path) = some q) :
    ∃ p, v.child s = some p ∧ h.entryAt p path = some q := by
  obtain ⟨p, hp, hq⟩ := entryAt_cons_eq_some.mp hq
  rw [value_makeVariable] at hp
  rw [(hv.owns s p hp).entryAt_eq (h.extends_makeVariable v)] at hq
  exact ⟨p, hp, hq⟩

/-- They are older than it. -/
theorem older_of_makeVariable (hv : h.OwnsEntries lo v) {s : Selector} {path : List Selector}
    {q : VarAddr}
    (hq : (h.makeVariable v).2.entryAt (h.makeVariable v).1 (s :: path) = some q) :
    q < h.vars.length ∧ lo ≤ h.storage q ∧ h.storage q < h.cells.length := by
  obtain ⟨p, hp, hq⟩ := exists_entry_of_makeVariable hv hq
  exact (hv.owns s p hp).inside path q hq

/-- The value is given a storage of its own. -/
theorem owns_makeVariable (hv : h.OwnsEntries lo v) (hlo : lo ≤ h.cells.length) :
    (h.makeVariable v).2.Owns lo (h.makeVariable v).1 := by
  have hext := h.extends_makeVariable v
  have hstorage := h.storage_makeVariable v
  have hkept : ∀ s path q,
      (h.makeVariable v).2.entryAt (h.makeVariable v).1 (s :: path) = some q →
        (h.makeVariable v).2.storage q = h.storage q :=
    fun s path q hq => hext.evolves.storage_eq (older_of_makeVariable hv hq).1
  refine ⟨fun path q hq => ?_, fun path path' q q' hq hq' heq => ?_⟩
  · cases path with
    | nil =>
      obtain rfl := Option.some.inj hq
      rw [hstorage]
      exact ⟨by simp [makeVariable], hlo, by simp [makeVariable]⟩
    | cons s path =>
      obtain ⟨hvars, hlo', hcells⟩ := older_of_makeVariable hv hq
      rw [hkept s path q hq]
      exact ⟨hvars.trans_le hext.vars.length_le, hlo', hcells.trans_le hext.cells.length_le⟩
  · cases path with
    | nil =>
      obtain rfl := Option.some.inj hq
      cases path' with
      | nil => rfl
      | cons s' path' =>
        rw [hstorage, hkept s' path' q' hq'] at heq
        exact absurd (older_of_makeVariable hv hq').2.2 (heq ▸ lt_irrefl _)
    | cons s path =>
      cases path' with
      | nil =>
        obtain rfl := Option.some.inj hq'
        rw [hstorage, hkept s path q hq] at heq
        exact absurd (older_of_makeVariable hv hq).2.2 (heq ▸ lt_irrefl _)
      | cons s' path' =>
        rw [hkept s path q hq, hkept s' path' q' hq'] at heq
        obtain ⟨p, hp, hr⟩ := exists_entry_of_makeVariable hv hq
        obtain ⟨p', hp', hr'⟩ := exists_entry_of_makeVariable hv hq'
        obtain rfl := hv.inj s s' p p' path path' q q' hp hp' hr hr' heq
        obtain rfl := Option.some.inj (hp.symm.trans hp')
        rw [(hv.owns s p hp).inj path path' q q' hr hr' heq]

/-- A new object on the storage of an owned `Variable` owns what that one does. -/
theorem Owns.copyVariable (hp : h.Owns lo p) :
    (h.copyVariable (h.storage p)).2.Owns lo (h.copyVariable (h.storage p)).1 := by
  have hext := h.extends_copyVariable (h.storage p)
  have hp' := hp.of_extends hext
  have hstorage : (h.copyVariable (h.storage p)).2.storage (h.copyVariable (h.storage p)).1
      = (h.copyVariable (h.storage p)).2.storage p := by
    rw [storage_copyVariable, hext.evolves.storage_eq (hp.inside [] p rfl).1]
  -- the same path leads to the same storage
  have hsame : ∀ path q,
      (h.copyVariable (h.storage p)).2.entryAt (h.copyVariable (h.storage p)).1 path = some q →
        q < (h.copyVariable (h.storage p)).2.vars.length ∧
        ∃ r, (h.copyVariable (h.storage p)).2.entryAt p path = some r ∧
          (h.copyVariable (h.storage p)).2.storage q
            = (h.copyVariable (h.storage p)).2.storage r := by
    intro path q hq
    cases path with
    | nil =>
      obtain rfl := Option.some.inj hq
      exact ⟨by simp [Heap.copyVariable], p, rfl, hstorage⟩
    | cons s path =>
      rw [entryAt, value, hstorage] at hq
      exact ⟨(hp'.inside (s :: path) q hq).1, q, hq, rfl⟩
  refine ⟨fun path q hq => ?_, fun path path' q q' hq hq' heq => ?_⟩
  · obtain ⟨hvars, r, hr, heq⟩ := hsame path q hq
    rw [heq]
    exact ⟨hvars, (hp'.inside path r hr).2⟩
  · obtain ⟨-, r, hr, hqr⟩ := hsame path q hq
    obtain ⟨-, r', hr', hqr'⟩ := hsame path' q' hq'
    exact hp'.inj path path' r r' hr hr' (hqr ▸ hqr' ▸ heq)

/-- Overwriting an entry leaves the others as they were. -/
theorem Owns.value_write (hp : h.Owns lo p) {path path' : List Selector} {q q' : VarAddr}
    (hq : h.entryAt p path = some q) (hq' : h.entryAt p path' = some q') (hne : path ≠ path')
    (w : VarType) : (h.write (h.storage q) w).value q' = h.value q' := by
  rw [value, storage_write]
  exact cell_write_of_ne (fun heq => hne (hp.inj path path' q q' hq hq' heq.symm)) w

end Heap

end SocialGaming
