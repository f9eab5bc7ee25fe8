import SocialGaming.Library.Runs
import SocialGaming.VariableSets

/-!
# Sets without second owners

As long as no `Variable` gets a second control block, what a call of `Variable::set` destroys is
what nothing else points to. The `Variable` that is set keeps its type then, a call that throws
leaves its value, and one with a key changes only the entry under the key.

A second control block is made when a list is given a `Variable &` that something owns. Whichever of
the two is used up first takes the `Variable` away from under the other.

## Main definitions

* `SharedStore.Sound` — each `Variable` that is pointed to is there and has one control block
* `SharedStore.Kept` — the program keeps a `Variable`
* `SetCall.NoSecondOwner` — a list is given no `Variable` that something owns
* `SetCall.Effect` — what a call may do

## Main results

* `SetCall.ends` — a call that makes no second owner leaves the store sound
* `SetCall.Ends.effect` — and does what it may do
-/

namespace SocialGaming

open Std (ExtTreeMap)

namespace SharedStore

variable {s t u : SharedStore} {a : CellAddr} {given : List BlockAddr}

/-- Each `Variable` that is pointed to is there, and has one control block. Some pointers are about
to be destroyed. -/
structure SoundWith (s : SharedStore) (given : List BlockAddr) : Prop where
  nodup : s.live.Nodup
  holds : ∀ q ∈ s.live, ∃ v, s.heap.Holds q v
  bound : ∀ b, s.sharing.InUse s.held given s.live b → b < s.blocks.length
  sole : s.sharing.Sole s.held given s.live

/-- Each `Variable` that is pointed to is there, and has one control block. -/
abbrev Sound (s : SharedStore) : Prop := s.SoundWith []

/-- The `Variable` is there with this value, and the pointers of the value point to something. -/
structure Has (s : SharedStore) (p : VarAddr) (v : VarType) : Prop where
  live : p ∈ s.live
  holds : s.heap.Holds p v
  there : ∀ b ∈ v.pointers, s.object b ∈ s.live

/-- The `Variable` is kept by the program, whatever is written to a storage: there is a `shared_ptr`
outside of the store, or it is an object of its own that no `shared_ptr` points to, or a container
with another storage keeps it. -/
inductive Kept (s : SharedStore) (a : CellAddr) : VarAddr → Prop
  | held {b : BlockAddr} (hb : b ∈ s.held) : Kept s a (s.object b)
  | own {q : VarAddr} (hq : q ∈ s.live) (hnewed : q ∉ s.newed)
      (hunowned : ∀ b, s.InUse b → s.object b ≠ q) : Kept s a q
  | element {q : VarAddr} {b : BlockAddr} (hq : Kept s a q) (hqa : s.heap.storage q ≠ a)
      (hb : b ∈ (s.heap.value q).pointers) : Kept s a (s.object b)

theorem Sound.there (h : s.Sound) {b : BlockAddr} (hb : s.InUse b) : s.object b ∈ s.live :=
  h.sole.present b hb

/-- In a sound store the pointers of a value point to something. -/
theorem Sound.has (h : s.Sound) {p : VarAddr} {v : VarType} (hp : p ∈ s.live)
    (hv : s.heap.Holds p v) : s.Has p v :=
  ⟨hp, hv, fun _ hb => h.there (inUse_of_pointers hp (hv.value_eq.symm ▸ hb))⟩

theorem Kept.mem_live {q : VarAddr} (h : s.Kept a q) (hs : s.Sound) : q ∈ s.live := by
  induction h with
  | held hb => exact hs.there (inUse_of_held hb)
  | own hq hnewed hunowned => exact hq
  | element hq hqa hb ih => exact hs.there (inUse_of_pointers ih hb)

/-- **The pointers can be destroyed**, and the store is sound again. -/
theorem SoundWith.release (h : s.SoundWith given) :
    ∃ live, (SharedStore.release given).run s = .ok () { s with live } ∧ Sound { s with live } ∧
      ∀ q, q ∈ live ↔ q ∈ s.live ∧ ¬ s.sharing.Dies s.held s.live given q := by
  obtain ⟨live, hrun, -, hnodup, hlive⟩ | ⟨-, hclean⟩ := release_run h.nodup given
  · refine ⟨live, hrun, ⟨hnodup, fun q hq => h.holds q ((hlive q).mp hq).1, fun b hb => ?_,
      h.sole.after hlive⟩, hlive⟩
    refine h.bound b ?_
    rcases hb with hheld | hmem | ⟨q, hq, hb⟩
    · exact Or.inl hheld
    · exact absurd hmem List.not_mem_nil
    · exact Or.inr (Or.inr ⟨q, ((hlive q).mp hq).1, hb⟩)
  · exact absurd h.sole.clean hclean

/-! ### Something is made, and something is given up -/

/-- The control block that is made, if there is one. -/
def NewBlock (s t : SharedStore) (b : BlockAddr) : Prop :=
  b = s.blocks.length ∧ b < t.blocks.length

theorem newBlock_withVariable (s : SharedStore) (made : VarAddr × Heap) :
    NewBlock s (s.withVariable made).2 s.blocks.length :=
  ⟨rfl, by simp [withVariable]⟩

/-- Its `Variable` is new, or was made with `new` and had none. -/
structure NewBlock.Proper (s t : SharedStore) (b : BlockAddr) : Prop where
  there : t.object b ∈ t.live
  deletes : (t.block b).deletes
  unowned : ∀ b', s.InUse b' → s.object b' ≠ t.object b
  free : t.object b ∉ s.live ∨ t.object b ∈ s.newed

/-- At most one control block is made, and at most one `Variable`. -/
structure Adds (s u : SharedStore) : Prop where
  heap : s.heap.Extends u.heap
  blocks : s.blocks <+: u.blocks
  held : u.held = s.held
  live : ∀ q ∈ s.live, q ∈ u.live
  nodup : u.live.Nodup
  holds : ∀ q ∈ u.live, ∃ v, u.heap.Holds q v
  shares : ∀ q ∈ u.live, q ∉ s.live → ∀ b ∈ (u.heap.value q).pointers, s.InUse b
  proper : ∀ b, NewBlock s u b → NewBlock.Proper s u b

/-- From `s` one has come to `t`, where some pointers are about to be destroyed, and a storage may
have been overwritten. -/
structure Follows (s t : SharedStore) (a : CellAddr) (given : List BlockAddr) : Prop where
  blocks : s.blocks <+: t.blocks
  held : t.held = s.held
  live : ∀ q ∈ s.live, q ∈ t.live
  nodup : t.live.Nodup
  holds : ∀ q ∈ t.live, ∃ v, t.heap.Holds q v
  used : ∀ b, t.sharing.InUse t.held given t.live b → s.InUse b ∨ NewBlock s t b
  proper : ∀ b, NewBlock s t b → NewBlock.Proper s t b
  same : ∀ q ∈ s.live, s.heap.storage q ≠ a → t.heap.value q = s.heap.value q

/-- **No `Variable` has got a second control block.** -/
theorem Follows.sound (h : Follows s t a given) (hs : s.Sound) : t.SoundWith given := by
  have hobject : ∀ b, s.InUse b → t.object b = s.object b :=
    fun b hb => object_eq_of_blocks h.blocks (hs.bound b hb)
  refine ⟨h.nodup, h.holds, fun b hb => ?_, fun b hb => ?_, fun b hb => ?_,
    fun b b' hb hb' heq => ?_⟩
  · rcases h.used b hb with hold | hnew
    · exact (hs.bound b hold).trans_le h.blocks.length_le
    · exact hnew.2
  · rcases h.used b hb with hold | hnew
    · show t.object b ∈ t.live
      rw [hobject b hold]
      exact h.live _ (hs.there hold)
    · exact (h.proper b hnew).there
  · rcases h.used b hb with hold | hnew
    · show (t.block b).deletes
      rw [block_eq_of_blocks h.blocks (hs.bound b hold)]
      exact hs.sole.deletes b hold
    · exact (h.proper b hnew).deletes
  · replace heq : t.object b = t.object b' := heq
    rcases h.used b hb with hold | hnew
    · rcases h.used b' hb' with hold' | hnew'
      · rw [hobject b hold, hobject b' hold'] at heq
        exact hs.sole.once b b' hold hold' heq
      · rw [hobject b hold] at heq
        exact absurd heq ((h.proper b' hnew').unowned b hold)
    · rcases h.used b' hb' with hold' | hnew'
      · rw [hobject b' hold'] at heq
        exact absurd heq.symm ((h.proper b hnew).unowned b' hold')
      · rw [hnew.1, hnew'.1]

/-- What the program keeps is not destroyed. -/
theorem Follows.not_dies (h : Follows s t a given) (hs : s.Sound) {q : VarAddr}
    (hq : s.Kept a q) : q ∈ t.live ∧ ¬ t.sharing.Dies t.held t.live given q := by
  have hsole := (h.sound hs).sole
  induction hq with
  | @held b hb =>
    have hused := inUse_of_held hb
    rw [← object_eq_of_blocks h.blocks (hs.bound b hused)]
    have hheld : b ∈ t.held := h.held.symm ▸ hb
    exact ⟨hsole.present b (Or.inl hheld), hsole.not_dies (Or.inl hheld)⟩
  | @own q hq hnewed hunowned =>
    refine ⟨h.live q hq, Sharing.not_dies_of_unowned fun b hb => ?_⟩
    rcases h.used b hb with hold | hnew
    · show t.object b ≠ q
      rw [object_eq_of_blocks h.blocks (hs.bound b hold)]
      exact hunowned b hold
    · rintro rfl
      exact (h.proper b hnew).free.elim (fun hfree => hfree hq) hnewed
  | @element q b hq hqa hb ih =>
    have hlive : q ∈ s.live := hq.mem_live hs
    have hused := inUse_of_pointers hlive hb
    rw [← object_eq_of_blocks h.blocks (hs.bound b hused)]
    have hb' : b ∈ (t.heap.value q).pointers := (h.same q hlive hqa).symm ▸ hb
    exact ⟨hsole.present b (Or.inr (Or.inr ⟨q, ih.1, hb'⟩)),
      hsole.not_dies (Or.inr ⟨q, ih.1, ih.2, hb'⟩)⟩

/-- **They can be destroyed.** The store is sound again, and what the program keeps is there. -/
theorem Follows.release (h : Follows s t a given) (hs : s.Sound) :
    ∃ live, (SharedStore.release given).run t = .ok () { t with live } ∧
      Sound { t with live } ∧ ∀ q, s.Kept a q → q ∈ live := by
  obtain ⟨live, hrun, hsound, hlive⟩ := (h.sound hs).release
  exact ⟨live, hrun, hsound, fun q hq => (hlive q).mpr (h.not_dies hs hq)⟩

/-! ### What a call makes -/

theorem Adds.refl (hs : s.Sound) : Adds s s where
  heap := Heap.Extends.refl s.heap
  blocks := List.prefix_rfl
  held := rfl
  live _ hq := hq
  nodup := hs.nodup
  holds := hs.holds
  shares _ hq hnew := absurd hq hnew
  proper _ hb := absurd hb.2 (hb.1 ▸ lt_irrefl _)

/-- A string is made. -/
theorem Adds.string (hs : s.Sound) (value : String) :
    Adds s { s with heap := (s.heap.makeString value).2 } where
  heap := s.heap.extends_makeString value
  blocks := List.prefix_rfl
  held := rfl
  live _ hq := hq
  nodup := hs.nodup
  holds := hs.holds
  shares _ hq hnew := absurd hq hnew
  proper _ hb := absurd hb.2 (hb.1 ▸ lt_irrefl _)

/-- A `Variable` is made, with its control block. -/
theorem Adds.variable (hs : s.Sound) {heap : Heap} (hheap : s.heap.Extends heap) {v : VarType}
    (hv : heap.Holds s.heap.vars.length v) (hpointers : ∀ b ∈ v.pointers, s.InUse b) :
    Adds s (s.withVariable (s.heap.vars.length, heap)).2 := by
  have hnew : s.heap.vars.length ∉ s.live := by
    intro hmem
    obtain ⟨v, hv⟩ := hs.holds _ hmem
    exact hv.lt_length.false
  refine ⟨hheap, List.prefix_append _ _, rfl, fun q hq => List.mem_cons_of_mem _ hq,
    List.nodup_cons.mpr ⟨hnew, hs.nodup⟩, ?_, ?_, ?_⟩
  · refine List.forall_mem_cons.mpr ⟨⟨v, hv⟩, fun q hq => ?_⟩
    obtain ⟨x, hx⟩ := hs.holds q hq
    exact ⟨x, hx.of_extends hheap⟩
  · intro q hq hother b hb
    obtain rfl := (List.mem_cons.mp hq).resolve_right hother
    refine hpointers b ?_
    rw [← hv.value_eq]
    exact hb
  · rintro b ⟨rfl, -⟩
    have hobject : (s.withVariable (s.heap.vars.length, heap)).2.object s.blocks.length
        = s.heap.vars.length := s.object_withVariable _
    refine ⟨?_, ?_, fun b' hb' heq => hnew ?_, Or.inl ?_⟩
    · rw [hobject]
      exact List.mem_cons_self
    · exact congrArg Block.deletes (block_concat _)
    · rw [hobject] at heq
      exact heq ▸ hs.there hb'
    · rw [hobject]
      exact hnew

/-- A `Variable` that was made with `new` gets a control block. -/
theorem Adds.own (hs : s.Sound) {var : VarAddr} (hvar : var ∈ s.live) (hnewed : var ∈ s.newed)
    (hunowned : ∀ b, s.InUse b → s.object b ≠ var) : Adds s (s.own var).2 := by
  have hobject : (s.own var).2.object s.blocks.length = var := s.object_own var
  refine ⟨Heap.Extends.refl s.heap, List.prefix_append _ _, rfl, fun q hq => hq, hs.nodup,
    hs.holds, fun q hq hnew => absurd hq hnew, ?_⟩
  rintro b ⟨rfl, -⟩
  refine ⟨?_, ?_, fun b' hb' => ?_, Or.inr ?_⟩
  · rw [hobject]
    exact hvar
  · exact (congrArg Block.deletes (block_concat _)).trans (decide_eq_true hnewed)
  · rw [hobject]
    exact hunowned b' hb'
  · rw [hobject]
    exact hnewed

/-- What a `Variable` held it holds. -/
theorem Adds.value_eq (h : Adds s u) (hs : s.Sound) {q : VarAddr} (hq : q ∈ s.live) :
    u.heap.value q = s.heap.value q := by
  obtain ⟨v, hv⟩ := hs.holds q hq
  rw [(hv.of_extends h.heap).value_eq, hv.value_eq]

/-- The pointers of a `Variable` were in use. -/
theorem Adds.inUse (h : Adds s u) (hs : s.Sound) {q : VarAddr} {b : BlockAddr} (hq : q ∈ u.live)
    (hb : b ∈ (u.heap.value q).pointers) : s.InUse b := by
  by_cases hold : q ∈ s.live
  · rw [h.value_eq hs hold] at hb
    exact inUse_of_pointers hold hb
  · exact h.shares q hq hold b hb

/-- What was made may be about to be destroyed. -/
theorem Adds.follows (h : Adds s u) (hs : s.Sound) (a : CellAddr)
    (hgiven : ∀ b ∈ given, NewBlock s u b) : Follows s u a given where
  blocks := h.blocks
  held := h.held
  live := h.live
  nodup := h.nodup
  holds := h.holds
  used b hb := by
    rcases hb with hheld | hmem | ⟨q, hq, hb⟩
    · exact Or.inl (inUse_of_held (h.held ▸ hheld))
    · exact Or.inr (hgiven b hmem)
    · exact Or.inl (h.inUse hs hq hb)
  proper := h.proper
  same q hq _ := h.value_eq hs hq

/-- A storage is overwritten, and the pointers that were in it are about to be destroyed. -/
theorem Adds.follows_write (h : Adds s u) (hs : s.Sound) {a : CellAddr} {w : VarType}
    (hw : ∀ b ∈ w.pointers, s.InUse b ∨ NewBlock s u b) (hgiven : ∀ b ∈ given, s.InUse b) :
    Follows s (u.write a w) a given := by
  have hsame : ∀ q ∈ u.live, u.heap.storage q ≠ a →
      (u.heap.write a w).value q = u.heap.value q := by
    intro q hq hqa
    obtain ⟨v, hv⟩ := h.holds q hq
    rw [(hv.write_of_ne hqa w).value_eq, hv.value_eq]
  refine ⟨h.blocks, h.held, h.live, h.nodup, fun q hq => ?_, fun b hb => ?_, fun b hb => ?_,
    fun q hq hqa => ?_⟩
  · obtain ⟨v, hv⟩ := h.holds q hq
    by_cases hqa : u.heap.storage q = a
    · exact ⟨w, hqa ▸ hv.write_self w⟩
    · exact ⟨v, hv.write_of_ne hqa w⟩
  · rcases hb with hheld | hmem | ⟨q, hq, hb⟩
    · exact Or.inl (inUse_of_held (h.held ▸ hheld))
    · exact Or.inl (hgiven b hmem)
    · replace hb : b ∈ ((u.heap.write a w).value q).pointers := hb
      by_cases hqa : u.heap.storage q = a
      · obtain ⟨v, hv⟩ := h.holds q hq
        refine hw b ?_
        rw [← (hv.write_self w).value_eq, hqa]
        exact hb
      · rw [hsame q hq hqa] at hb
        exact Or.inl (h.inUse hs hq hb)
  · exact ⟨(h.proper b hb).there, (h.proper b hb).deletes, (h.proper b hb).unowned,
      (h.proper b hb).free⟩
  · obtain ⟨v, hv⟩ := hs.holds q hq
    rw [← hv.storage_eq h.heap.vars] at hqa
    exact (hsame q (h.live q hq) hqa).trans (h.value_eq hs hq)

end SharedStore

/-! ### One call -/

namespace SetCall

variable {s s' : SharedStore} {p q : VarAddr}

/-- **The condition.** A list is given no `Variable` that something owns: it was made with `new`,
and no `shared_ptr` points to it. -/
def NoSecondOwner (call : SetCall) (p : VarAddr) (s : SharedStore) : Prop :=
  ∀ index val2, call = .keyedVariable (.int index) val2 → (∃ l, s.heap.value p = .list l) →
    val2 ∈ s.newed ∧ ∀ b, s.InUse b → s.object b ≠ val2

/-- What has become of the store after a call. -/
structure Ends (call : SetCall) (p : VarAddr) (s s' : SharedStore) : Prop where
  sound : s'.Sound
  blocks : s.blocks <+: s'.blocks
  strings : s.heap.strings <+: s'.heap.strings
  kept : ∀ q, s.Kept (s.heap.storage p) q → q ∈ s'.live
  /-- The call has thrown, and overwritten nothing, or it has returned, and overwritten the storage
  of the `Variable`. -/
  ended : (∃ e, (call.run p).run s = .error (.thrown e) s' ∧ s.heap.Extends s'.heap) ∨
    ∃ u w, s.heap.Extends u ∧ w.index = (s.heap.value p).index ∧
      (∀ key, call.key? = some key → key.ChangedAt (s.heap.value p) w) ∧
      s'.heap = u.write (s.heap.storage p) w ∧ (call.run p).run s = .ok () s'

open SharedStore (Adds Follows NewBlock)

variable {call : SetCall}

/-- Nothing has been done. -/
theorem ends_thrown (hs : s.Sound) {e : Exn} (h : (call.run p).run s = .error (.thrown e) s) :
    ∃ s', call.Ends p s s' :=
  ⟨s, hs, List.prefix_rfl, List.prefix_rfl, fun _ hkept => hkept.mem_live hs,
    Or.inl ⟨e, h, Heap.Extends.refl _⟩⟩

/-- What was made is destroyed again. -/
theorem ends_unwound (hs : s.Sound) {u : SharedStore} {e : Exn} (hadds : Adds s u)
    (hstrings : s.heap.strings <+: u.heap.strings)
    (hnew : NewBlock s u s.blocks.length)
    (h : (call.run p).run s = (SharedStore.unwind [s.blocks.length] e).run u) :
    ∃ s', call.Ends p s s' := by
  obtain ⟨live, hrelease, hsound, hkept⟩ := (hadds.follows hs (s.heap.storage p)
    (List.forall_mem_singleton.mpr hnew)).release hs
  exact ⟨{ u with live }, hsound, hadds.blocks, hstrings, hkept,
    Or.inl ⟨e, h.trans (SharedStore.unwind_of_release hrelease e), hadds.heap⟩⟩

/-- The storage is overwritten, and what was in it is destroyed. -/
theorem ends_stored (hs : s.Sound) {u : SharedStore} {w : VarType} {given : List BlockAddr}
    (hadds : Adds s u) (hstrings : s.heap.strings <+: u.heap.strings)
    (hw : ∀ b ∈ w.pointers, s.InUse b ∨ NewBlock s u b) (hgiven : ∀ b ∈ given, s.InUse b)
    (hindex : w.index = (s.heap.value p).index)
    (hkey : ∀ key, call.key? = some key → key.ChangedAt (s.heap.value p) w)
    (h : (call.run p).run s = (SharedStore.release given).run (u.write (s.heap.storage p) w)) :
    ∃ s', call.Ends p s s' := by
  obtain ⟨live, hrelease, hsound, hkept⟩ := (hadds.follows_write hs hw hgiven).release hs
  exact ⟨_, hsound, hadds.blocks, hstrings, hkept,
    Or.inr ⟨u.heap, w, hadds.heap, hindex, hkey, rfl, h.trans hrelease⟩⟩

/-- A list is written under an index. -/
theorem ends_assignAt (hs : s.Sound) {u : SharedStore} {list : List VarPtr} {index : Int32}
    (hp : p ∈ s.live) (hcell : s.heap.value p = .list list) (hadds : Adds s u)
    (hstrings : s.heap.strings <+: u.heap.strings) (hnew : NewBlock s u s.blocks.length)
    (hkey : call.key? = some (.int index))
    (h : (call.run p).run s
      = (SharedStore.assignAt (s.heap.storage p) list index s.blocks.length).run u) :
    ∃ s', call.Ends p s s' := by
  have hbefore : ∀ b, some b ∈ list → s.InUse b := fun b hb =>
    SharedStore.inUse_of_pointers hp (hcell ▸ VarType.mem_pointers_list.mpr hb)
  rw [EStateM.run, EStateM.run, SharedStore.assignAt] at h
  cases hat : vectorAt? list index with
  | none =>
    rw [hat] at h
    exact ends_unwound hs hadds hstrings hnew h
  | some i =>
    rw [hat] at h
    refine ends_stored hs hadds hstrings (fun b hb => ?_) (fun b hb => ?_) (hcell ▸ rfl)
      (fun key hk => ?_) h
    · rcases List.mem_or_eq_of_mem_set (VarType.mem_pointers_list.mp hb) with hold | hself
      · exact Or.inl (hbefore b hold)
      · obtain rfl := Option.some.inj hself
        exact Or.inr hnew
    · rw [Option.mem_toList, Option.join_eq_some_iff] at hb
      exact hbefore b (List.mem_of_getElem? hb)
    · obtain rfl := Option.some.inj (hkey.symm.trans hk)
      rw [hcell]
      exact VarType.changedAt_list hat _

theorem ends_value (hs : s.Sound) {val : VarType} (hcall : (value val).Passed p s) :
    ∃ s', (value val).Ends p s s' := by
  have hval : ∀ b ∈ val.pointers, s.InUse b := fun b hb =>
    SharedStore.inUse_of_held (hcall.values val List.mem_cons_self b hb)
  by_cases hindex : (s.heap.value p).index = val.index
  · refine ends_stored hs (Adds.refl hs) List.prefix_rfl (fun b hb => Or.inl (hval b hb))
      (fun b hb => SharedStore.inUse_of_pointers hcall.live hb) hindex.symm nofun ?_
    exact if_neg (not_not.mpr hindex)
  · exact ends_thrown hs (if_pos hindex)

theorem ends_keyed (hs : s.Sound) {val val2 : VarType} (hcall : (keyed val val2).Passed p s) :
    ∃ s', (keyed val val2).Ends p s s' := by
  have hrun := SharedStore.setValueKeyed.eq_def (s.heap.storage p) val val2 s
  rw [← Heap.value] at hrun
  rcases hcell : s.heap.value p with _ | _ | _ | orig | list | _ | _ | _
  case map =>
    rw [hcell] at hrun
    rcases val with _ | key | _ | _ | _ | _ | _ | _
    case string =>
      rcases val2 with _ | val | _ | _ | _ | _ | _ | _
      case string =>
        refine ends_stored (w := .map (orig.insert key (some (s.heap.makeString val).1))) hs
          (Adds.string hs val) (List.prefix_append _ _) (List.forall_mem_nil _)
          (List.forall_mem_nil _) (hcell ▸ rfl) (fun k hk => ?_)
          (hrun.trans (SharedStore.release_nil _).symm)
        obtain rfl := Option.some.inj hk
        rw [hcell]
        exact VarType.changedAt_map orig key _
      all_goals exact ends_thrown hs hrun
    all_goals exact ends_thrown hs hrun
  case list =>
    rw [hcell] at hrun
    rcases val with index | _ | _ | _ | _ | _ | _ | _
    case int =>
      have hadds : Adds s (s.makeVariable val2).2 :=
        Adds.variable hs (s.heap.extends_makeVariable val2) (s.heap.holds_makeVariable val2)
          fun b hb => SharedStore.inUse_of_held (hcall.values val2 (by simp [values]) b hb)
      have hnew := SharedStore.newBlock_withVariable s (s.heap.makeVariable val2)
      exact ends_assignAt hs hcall.live hcell hadds List.prefix_rfl hnew rfl hrun
    all_goals exact ends_thrown hs hrun
  all_goals
    rw [hcell] at hrun
    exact ends_thrown hs hrun

theorem ends_keyedVariable (hs : s.Sound) {val : VarType} {val2 : VarAddr}
    (hcall : (keyedVariable val val2).Passed p s)
    (hown : (keyedVariable val val2).NoSecondOwner p s) :
    ∃ s', (keyedVariable val val2).Ends p s s' := by
  have hval2 : val2 ∈ s.live := hcall.var2 val2 rfl
  have hrun := SharedStore.setValueVariable.eq_def (s.heap.storage p) val val2 s
  rw [← Heap.value] at hrun
  rcases hcell : s.heap.value p with _ | _ | _ | _ | list | map | _ | _
  case varMap =>
    rw [hcell] at hrun
    rcases val with _ | key | _ | _ | _ | _ | _ | _
    case string =>
      obtain ⟨v, hv⟩ := hs.holds val2 hval2
      have hcopy : (s.heap.copyVariable (s.heap.storage val2)).2.Holds s.heap.vars.length v :=
        hv.copyVariable
      have hadds : Adds s (s.copyVariable val2).2 :=
        Adds.variable hs (s.heap.extends_copyVariable _) hcopy fun b hb =>
          SharedStore.inUse_of_pointers hval2 (hv.value_eq.symm ▸ hb)
      have hnew := SharedStore.newBlock_withVariable s (s.heap.copyVariable (s.heap.storage val2))
      have hbefore : ∀ (k : String) b, map[k]? = some (some b) → s.InUse b := fun k b hb =>
        SharedStore.inUse_of_pointers hcall.live
          (hcell ▸ VarType.mem_pointers_varMap.mpr ⟨k, hb⟩)
      refine ends_stored hs hadds List.prefix_rfl (fun b hb => ?_) (fun b hb => ?_) (hcell ▸ rfl)
        (fun k hk => ?_) hrun
      · obtain ⟨k, hk⟩ := VarType.mem_pointers_varMap.mp hb
        rw [ExtTreeMap.getElem?_insert] at hk
        split at hk
        · obtain rfl := Option.some.inj (Option.some.inj hk)
          exact Or.inr hnew
        · exact Or.inl (hbefore k b hk)
      · rw [Option.mem_toList, Option.join_eq_some_iff] at hb
        exact hbefore key b hb
      · obtain rfl := Option.some.inj hk
        rw [hcell]
        exact VarType.changedAt_varMap map key _
    all_goals exact ends_thrown hs hrun
  case list =>
    rw [hcell] at hrun
    rcases val with index | _ | _ | _ | _ | _ | _ | _
    case int =>
      obtain ⟨hnewed, hunowned⟩ := hown index val2 rfl ⟨list, hcell⟩
      have hnew : NewBlock s (s.own val2).2 s.blocks.length := ⟨rfl, by simp [SharedStore.own]⟩
      exact ends_assignAt hs hcall.live hcell (Adds.own hs hval2 hnewed hunowned) List.prefix_rfl
        hnew rfl hrun
    all_goals exact ends_thrown hs hrun
  all_goals
    rw [hcell] at hrun
    exact ends_thrown hs hrun

/-- **One call.** -/
theorem ends (hs : s.Sound) (hcall : call.Passed p s) (hown : call.NoSecondOwner p s) :
    ∃ s', call.Ends p s s' := by
  cases call with
  | value val => exact ends_value hs hcall
  | keyed val val2 => exact ends_keyed hs hcall
  | keyedVariable val val2 => exact ends_keyedVariable hs hcall hown

/-! ### What it may do -/

/-- What a call on a `Variable` that holds `v` may do. -/
structure Effect (call : SetCall) (p : VarAddr) (v : VarType) (s : SharedStore) : Prop where
  /-- The call returns or throws. -/
  ends : ∃ s', Prog.after? ((call.run p).run s) = some s'
  /-- A call that throws leaves the value. -/
  thrown : ∀ f s', (call.run p).run s = .error f s' → s'.Has p v
  /-- A call that returns leaves the type, and with a key it changes the entry under the key. -/
  returned : ∀ s', (call.run p).run s = .ok () s' → ∃ w, s'.Has p w ∧ w.index = v.index ∧
    ∀ key, call.key? = some key → key.ChangedAt v w
  /-- No string is changed, no pointer gets to point to something else, nothing is changed that a
  `Variable` with another storage holds, and no `Variable` goes that the program keeps. -/
  others : ∀ s', Prog.after? ((call.run p).run s) = some s' →
    s.heap.strings <+: s'.heap.strings ∧ s.blocks <+: s'.blocks ∧
      (∀ (q : VarAddr) (x : VarType), s.heap.Holds q x → s.heap.storage q ≠ s.heap.storage p →
        s'.heap.Holds q x) ∧
      ∀ q, s.Kept (s.heap.storage p) q → q ∈ s'.live

namespace Ends

/-- A call ends in one way. -/
theorem after_eq (h : call.Ends p s s') : Prog.after? ((call.run p).run s) = some s' := by
  obtain ⟨e, hrun, -⟩ | ⟨u, w, -, -, -, -, hrun⟩ := h.ended
  · rw [hrun, Prog.after?_thrown]
  · rw [hrun, Prog.after?_ok]

/-- No storage gets another type. -/
theorem evolves (h : call.Ends p s s') : s.heap.Evolves s'.heap := by
  obtain ⟨e, -, hext⟩ | ⟨u, w, hext, hindex, -, hheap, -⟩ := h.ended
  · exact hext.evolves
  · rw [hheap]
    exact hext.evolves_write hindex

/-- Only the storage of the `Variable` is overwritten. -/
theorem changesOnly (h : call.Ends p s s') :
    Heap.ChangesOnly (s.heap.storage p) s.heap s'.heap := by
  obtain ⟨e, -, hext⟩ | ⟨u, w, hext, -, -, hheap, -⟩ := h.ended
  · exact hext.changesOnly _
  · rw [hheap]
    exact hext.changesOnly_write _ w

/-- **A call that makes no second owner** does what it may do. -/
theorem effect (h : call.Ends p s s') {v : VarType} (hp : s.heap.Holds p v)
    (hkept : s.Kept (s.heap.storage p) p) : call.Effect p v s := by
  have hlive := h.kept p hkept
  refine ⟨⟨s', h.after_eq⟩, fun f t hf => ?_, fun t hok => ?_, fun t ht => ?_⟩
  · obtain ⟨e, hrun, hext⟩ | ⟨u, w, -, -, -, -, hrun⟩ := h.ended
    · obtain ⟨-, rfl⟩ := EStateM.Result.error.inj (hrun.symm.trans hf)
      exact h.sound.has hlive (hp.of_extends hext)
    · cases hrun.symm.trans hf
  · obtain ⟨e, hrun, -⟩ | ⟨u, w, hext, hindex, hkey, hheap, hrun⟩ := h.ended
    · cases hrun.symm.trans hok
    · obtain ⟨-, rfl⟩ := EStateM.Result.ok.inj (hrun.symm.trans hok)
      rw [hp.value_eq] at hindex hkey
      refine ⟨w, h.sound.has hlive ?_, hindex, hkey⟩
      rw [hheap, ← hp.storage_eq hext.vars]
      exact (hp.of_extends hext).write_self w
  · obtain rfl := Option.some.inj (h.after_eq.symm.trans ht)
    exact ⟨h.strings, h.blocks, fun q x hq => hq.of_changesOnly h.changesOnly, h.kept⟩

end Ends

end SetCall

end SocialGaming
